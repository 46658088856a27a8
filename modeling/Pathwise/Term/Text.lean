import Pathwise.Term.Basic

/-!
# The text of a term

Terms are written in prefix form, operator first, every application in parentheses.
-/

namespace Pathwise

namespace Ring

/-- The operator's sign. -/
def sign : Ring → String
  | .add => "+"
  | .sub => "-"
  | .mul => "*"

end Ring

namespace Order

/-- The operator's sign. -/
def sign : Order → String
  | .lt => "<"
  | .le => "<="
  | .gt => ">"
  | .ge => ">="

end Order

/-- An integer in decimal, a minus sign before a negative one. -/
def decimal (n : Int) : String := toString n

/-- A rational numeral: whole ones keep a decimal point, the others are a fraction in lowest
terms. -/
def fraction (q : Rat) : String :=
  if q.den = 1 then decimal q.num ++ ".0" else decimal q.num ++ "/" ++ decimal q.den

namespace Term

private def apply (op : String) (args : List String) : String :=
  "(" ++ " ".intercalate (op :: args) ++ ")"

/-- The text of a term. -/
def text : {k : Kind} → Term k → String
  | _, .var _ name => name
  | _, .bool b => if b then "true" else "false"
  | _, .int n => decimal n
  | _, .real q => fraction q
  | _, .neg a => apply "-" [a.text]
  | _, .ring op a b => apply op.sign [a.text, b.text]
  | _, .mod a b => apply "mod" [a.text, b.text]
  | _, .pow a b => apply "^" [a.text, b.text]
  | _, .toReal a => apply "to_real" [a.text]
  | _, .ite c a b => apply "if" [c.text, a.text, b.text]
  | _, .eq a b => apply "=" [a.text, b.text]
  | _, .distinct a b => apply "distinct" [a.text, b.text]
  | _, .order op a b => apply op.sign [a.text, b.text]
  | _, .not a => apply "not" [a.text]
  | _, .and a b => apply "and" [a.text, b.text]
  | _, .or a b => apply "or" [a.text, b.text]

end Term

end Pathwise
