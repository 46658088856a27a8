import Pathwise.Solver.Reduction

/-!
# Trying small values

Formulas that are not linear are decided by trying values of small size: up to 1000 for a single
unknown, up to 64 for each of two. Remainders by zero stay open during the trial; once the
unknowns are fixed, what is left of the formulas is linear in them.
-/

namespace Pathwise

namespace Enumeration

/-- Values tried for unknowns. -/
abbrev Trial := List (Unknown × Reading)

/-- The integers up to a size, small ones first. -/
def upTo (size : Nat) : List Int :=
  0 :: (List.range size).flatMap fun i => [((i + 1 : Nat) : Int), -((i + 1 : Nat) : Int)]

/-- The size up to which integers are tried, by the number of unknown ones. -/
def reach : Nat → Nat
  | 0 => 0
  | 1 => 1000
  | 2 => 64
  | _ => 12

/-- The readings to try for an unknown. -/
def readings (size : Nat) (u : Unknown) : List Reading :=
  match u.kind with
  | .bool => [.bool false, .bool true]
  | .num .int => (upTo size).map .int
  | .num .real => (upTo size).map fun (n : Int) => .real n

/-- The valuation of a trial. -/
def valuation (t : Trial) : Valuation := (Model.mk (t.map fun (u, r) => (u.name, r))).completion

/-- Put the values of a trial in the place of its unknowns. -/
def fix (t : Trial) : {k : Kind} → Term k → Term k
  | _, .var .bool x => .bool ((valuation t).bool x)
  | _, .var (.num .int) x => .int ((valuation t).int x)
  | _, .var (.num .real) x => .real ((valuation t).real x)
  | _, .bool b => .bool b
  | _, .int n => .int n
  | _, .real q => .real q
  | _, .neg a => .neg (fix t a)
  | _, .ring op a b => .ring op (fix t a) (fix t b)
  | _, .mod a b => .mod (fix t a) (fix t b)
  | _, .pow a b => .pow (fix t a) (fix t b)
  | _, .toReal a => .toReal (fix t a)
  | _, .ite c a b => .ite (fix t c) (fix t a) (fix t b)
  | _, .eq a b => .eq (fix t a) (fix t b)
  | _, .distinct a b => .distinct (fix t a) (fix t b)
  | _, .order op a b => .order op (fix t a) (fix t b)
  | _, .not a => .not (fix t a)
  | _, .and a b => .and (fix t a) (fix t b)
  | _, .or a b => .or (fix t a) (fix t b)

/-- The model of a trial, with the remainders by zero that the formulas need. -/
def finish (opened : List Formula) (t : Trial) : Option Model :=
  let entries := t.map fun (u, r) => (u.name, r)
  if opened.isEmpty then some ⟨entries⟩
  else
    match Reduction.solve? (opened.map (fix t)) with
    | some (some m) => some ⟨entries ++ m.entries⟩
    | _ => none

/-- Give the unknowns values one after the other. Each comes with the formulas that can be checked
once it has one. -/
def tryAll (size : Nat) (opened : List Formula) :
    List (Unknown × List Formula) → Trial → Option Model
  | [], t => finish opened t
  | (u, checks) :: rest, t =>
    (readings size u).findSome? fun r =>
      let t := (u, r) :: t
      let ρ := valuation t
      if checks.all fun φ => φ.eval ρ then tryAll size opened rest t else none

/-- Hand every formula to the last of its unknowns. -/
def schedule (us : List Unknown) (φs : List Formula) : List (Unknown × List Formula) :=
  go [] us
where
  /-- Go through the unknowns, those before being known. -/
  go (known : List Unknown) : List Unknown → List (Unknown × List Formula)
    | [] => []
    | u :: rest =>
      let due := φs.filter fun φ =>
        φ.unknowns.contains u && φ.unknowns.all fun v => v == u || known.contains v
      (u, due) :: go (u :: known) rest

/-- A model of formulas with small values. -/
def solve? (φs : List Formula) : Option Model :=
  let us := Formula.unknownsOf φs
  let ints := us.filter fun u => u.kind != .bool
  let (opened, closed) := φs.partition Term.hasOpenMod
  if closed.all (fun φ => !φ.unknowns.isEmpty || φ.eval (valuation [])) then
    tryAll (reach ints.length) opened (schedule us closed) []
  else none

end Enumeration

end Pathwise
