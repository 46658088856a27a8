import Pathwise.Term.Eval
import Pathwise.Term.Unknowns

/-!
# Models and solvers

* `Model` lists the names that an answer of a solver declares, with their readings. It may leave
  unknowns out and may declare the open remainders by zero and the open powers as names of their
  own.
* `Solver` is any function that looks for a model of a list of formulas.
* `Solver.Correct` says what is asked of one: it finds a model whenever there is one, and its
  model makes the formulas true however it is completed.

Exploration takes a solver as an argument and depends on nothing else about it.
-/

namespace Pathwise

/-- What a model says of one name. -/
inductive Reading where
  | int (n : Int)
  | bool (b : Bool)
  | real (q : Rat)
  /-- Remainders by zero, as a table from dividends. -/
  | modZero (table : List (Int × Int))
  /-- Powers that arithmetic leaves open, as a table from bases and exponents. -/
  | power (table : List ((Rat × Rat) × Rat))
  deriving DecidableEq, Repr

/-- The answer of a solver: names with their readings, in the order in which they are declared. -/
structure Model where
  entries : List (String × Reading)
  deriving DecidableEq, Repr

namespace Reading

/-- The text of a table, in which all that is not listed is zero. -/
def tableText (rows : List (String × String)) : String :=
  "[" ++ String.join (rows.map fun (a, r) => a ++ " -> " ++ r ++ ", ") ++ "else -> 0]"

/-- The text of a reading. -/
def text : Reading → String
  | .int n => toString n
  | .bool b => if b then "True" else "False"
  | .real q => toString q
  | .modZero table => tableText (table.map fun (a, r) => (toString a, toString r))
  | .power table =>
    tableText (table.map fun ((a, b), r) => (toString a ++ ", " ++ toString b, toString r))

end Reading

namespace Model

/-- The reading of an unknown integer. -/
def int? (m : Model) (x : String) : Option Int :=
  m.entries.findSome? fun
    | (y, .int n) => if y = x then some n else none
    | _ => none

/-- The reading of an unknown truth value. -/
def bool? (m : Model) (x : String) : Option Bool :=
  m.entries.findSome? fun
    | (y, .bool b) => if y = x then some b else none
    | _ => none

/-- The reading of an unknown rational. -/
def real? (m : Model) (x : String) : Option Rat :=
  m.entries.findSome? fun
    | (y, .real q) => if y = x then some q else none
    | _ => none

/-- The remainders by zero that the model fixes. -/
def modZero (m : Model) (a : Int) : Option Int :=
  m.entries.findSome? fun
    | (_, .modZero table) => table.lookup a
    | _ => none

/-- The open powers that the model fixes. -/
def openPower (m : Model) (a b : Rat) : Option Rat :=
  m.entries.findSome? fun
    | (_, .power table) => table.lookup (a, b)
    | _ => none

/-- A valuation agrees with a model on all that the model says. -/
structure Agrees (m : Model) (ρ : Valuation) : Prop where
  int : ∀ x n, m.int? x = some n → ρ.int x = n
  bool : ∀ x b, m.bool? x = some b → ρ.bool x = b
  real : ∀ x q, m.real? x = some q → ρ.real x = q
  modZero : ∀ a r, m.modZero a = some r → ρ.modZero a = r
  openPower : ∀ a b r, m.openPower a b = some r → ρ.openPower a b = r

/-- The model with zero, false and zero for all that it leaves out. -/
def completion (m : Model) : Valuation where
  int x := (m.int? x).getD 0
  bool x := (m.bool? x).getD false
  real x := (m.real? x).getD 0
  modZero a := (m.modZero a).getD 0
  openPower a b := (m.openPower a b).getD 0

theorem agrees_completion (m : Model) : m.Agrees m.completion where
  int x n h := by simp [completion, h]
  bool x b h := by simp [completion, h]
  real x q h := by simp [completion, h]
  modZero a r h := by simp [completion, h]
  openPower a b r h := by simp [completion, h]

/-- The reading of an unknown of any sort. -/
def read? (m : Model) (u : Unknown) : Option Reading :=
  match u.kind with
  | .bool => (m.bool? u.name).map .bool
  | .num .int => (m.int? u.name).map .int
  | .num .real => (m.real? u.name).map .real

end Model

/-- Anything that looks for a model of a list of formulas. -/
abbrev Solver := List Formula → Option Model

namespace Solver

/-- A solver that finds a model whenever there is one, and only models that make the formulas
true under every completion. -/
structure Correct (s : Solver) : Prop where
  complete : ∀ φs, Satisfiable φs → (s φs).isSome
  sound : ∀ φs m, s φs = some m → ∀ ρ, m.Agrees ρ → ρ.HoldsAll φs

/-- Whether the solver finds a model. -/
def admits (s : Solver) (φs : List Formula) : Bool := (s φs).isSome

theorem Correct.admits_iff {s : Solver} (h : s.Correct) (φs : List Formula) :
    s.admits φs = true ↔ Satisfiable φs := by
  constructor
  · intro hs
    obtain ⟨m, hm⟩ := Option.isSome_iff_exists.1 hs
    exact ⟨m.completion, h.sound φs m hm _ m.agrees_completion⟩
  · exact h.complete φs

end Solver

end Pathwise
