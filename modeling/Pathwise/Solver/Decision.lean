import Pathwise.Solver.Enumeration

/-!
# The solver

Formulas that share no unknown are solved apart. Each group is solved as a linear goal if its
arithmetic is linear, else by trying small values. A model is given only after it has been
checked by evaluation.
-/

namespace Pathwise

namespace Decision

/-- Formulas that hang together, with the unknowns in them. -/
structure Group where
  unknowns : List Unknown
  /-- Whether remainders occur that share the reading of division by zero. -/
  openMod : Bool
  formulas : List Formula

namespace Group

/-- The group of a single formula. -/
def ofFormula (φ : Formula) : Group := ⟨φ.unknowns.eraseDups, φ.hasOpenMod, [φ]⟩

/-- Whether two groups have something in common. -/
def meets (a b : Group) : Bool :=
  (a.openMod && b.openMod) || a.unknowns.any b.unknowns.contains

/-- Two groups as one. -/
def join (a b : Group) : Group :=
  ⟨(a.unknowns ++ b.unknowns).eraseDups, a.openMod || b.openMod, a.formulas ++ b.formulas⟩

/-- A model of a group. -/
def solve? (g : Group) : Option Model :=
  match Reduction.solve? g.formulas with
  | some answer => answer
  | none => Enumeration.solve? g.formulas

end Group

/-- Add a formula to groups that have nothing in common. -/
def insert (groups : List Group) (φ : Formula) : List Group :=
  let new := Group.ofFormula φ
  let (touched, apart) := groups.partition new.meets
  apart ++ [(touched ++ [new]).foldl Group.join ⟨[], false, []⟩]

/-- Formulas in groups that have nothing in common. -/
def groups (φs : List Formula) : List Group := φs.foldl insert []

/-- Models of all groups as one: the unknowns in the order in which they are met, then the open
remainders if there are any. -/
def assemble (φs : List Formula) (models : List Model) : Model :=
  let all : Model := ⟨models.flatMap Model.entries⟩
  let entries := (Formula.unknownsOf φs).filterMap fun u =>
    (all.read? u).map fun r => (u.name, r)
  let table := all.entries.flatMap fun
    | (_, .modZero table) => table
    | _ => []
  ⟨if φs.any Term.hasOpenMod then entries ++ [("mod0", .modZero table)] else entries⟩

/-- Look for a model of formulas. -/
def solve? (φs : List Formula) : Option Model := do
  let models ← (groups φs).mapM Group.solve?
  let m := assemble φs models
  if φs.all fun φ => φ.eval m.completion then some m else none

end Decision

/-- The solver used unless another one is asked for. -/
def Solver.standard : Solver := Decision.solve?

/-- The standard solver gives only models that make the formulas true. -/
theorem Solver.standard_holds {φs : List Formula} {m : Model} (h : Solver.standard φs = some m) :
    m.completion.HoldsAll φs := by
  unfold Solver.standard Decision.solve? at h
  simp only [Option.bind_eq_bind, Option.bind_eq_some_iff] at h
  obtain ⟨ms, -, h⟩ := h
  split at h
  next hall =>
    obtain rfl := Option.some.inj h
    intro φ hφ
    exact List.all_eq_true.1 hall φ hφ
  next => exact absurd h (by simp)

end Pathwise
