import Pathwise.Term.Basic

/-!
# The unknowns of a term

`Term.unknowns` lists the unknowns that occur in a term, from left to right and with repetitions.
`Term.hasOpenMod` says whether a remainder occurs that a model has to fix by itself: one by zero,
or by a term that may be zero.
-/

namespace Pathwise

/-- An unknown by its sort and name. -/
structure Unknown where
  kind : Kind
  name : String
  deriving DecidableEq, Repr

namespace Term

/-- The unknowns of a term in the order in which they are met. -/
def unknowns : {k : Kind} → Term k → List Unknown
  | _, .var k x => [⟨k, x⟩]
  | _, .bool _ | _, .int _ | _, .real _ => []
  | _, .neg a | _, .toReal a | _, .not a => a.unknowns
  | _, .ring _ a b | _, .mod a b | _, .pow a b | _, .eq a b | _, .distinct a b
  | _, .order _ a b | _, .and a b | _, .or a b => a.unknowns ++ b.unknowns
  | _, .ite c a b => c.unknowns ++ a.unknowns ++ b.unknowns

/-- Whether a divisor is a numeral other than zero. -/
def isNonzeroNumeral : Term .int → Bool
  | .int n => n != 0
  | _ => false

/-- Whether a remainder by anything but a nonzero numeral occurs. -/
def hasOpenMod : {k : Kind} → Term k → Bool
  | _, .var .. | _, .bool _ | _, .int _ | _, .real _ => false
  | _, .neg a | _, .toReal a | _, .not a => a.hasOpenMod
  | _, .mod a b => !b.isNonzeroNumeral || a.hasOpenMod || b.hasOpenMod
  | _, .ring _ a b | _, .pow a b | _, .eq a b | _, .distinct a b
  | _, .order _ a b | _, .and a b | _, .or a b => a.hasOpenMod || b.hasOpenMod
  | _, .ite c a b => c.hasOpenMod || a.hasOpenMod || b.hasOpenMod

end Term

namespace Formula

/-- The unknowns of several formulas, each once, in the order in which they are met. -/
def unknownsOf (φs : List Formula) : List Unknown :=
  (φs.flatMap Term.unknowns).eraseDups

end Formula

end Pathwise
