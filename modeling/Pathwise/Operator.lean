import Pathwise.Term.Text

/-!
# Operators of the language

The operators that programs apply, with the signs under which messages name them.
-/

namespace Pathwise

/-- The arithmetic that symbolic numbers take part in. -/
inductive Arith where
  | ring (op : Ring)
  | mod
  | pow
  deriving DecidableEq, Repr

/-- Conjunction and disjunction of values. -/
inductive Junction where
  | and
  | or
  deriving DecidableEq, Repr

/-- Operators with two operands and a result of any type. -/
inductive Binary where
  | arith (op : Arith)
  | junction (op : Junction)
  | div
  | floorDiv
  | shiftLeft
  | shiftRight
  | xor
  deriving DecidableEq, Repr

/-- Comparisons. -/
inductive Comparison where
  | order (op : Order)
  | eq
  | ne
  deriving DecidableEq, Repr

/-- Operators with one operand. -/
inductive Unary where
  | neg
  | pos
  | inv
  deriving DecidableEq, Repr

namespace Arith

/-- Sum. -/
abbrev add : Arith := .ring .add

/-- Difference. -/
abbrev sub : Arith := .ring .sub

/-- Product. -/
abbrev mul : Arith := .ring .mul

/-- Whether the operands can be exchanged. -/
def commutes : Arith → Bool
  | .ring .add | .ring .mul => true
  | _ => false

/-- The operator's sign. -/
def sign : Arith → String
  | .ring op => op.sign
  | .mod => "%"
  | .pow => "**"

end Arith

namespace Junction

/-- The operator's sign. -/
def sign : Junction → String
  | .and => "&"
  | .or => "|"

/-- The operator's name in terms. -/
def word : Junction → String
  | .and => "and"
  | .or => "or"

end Junction

namespace Binary

/-- The operator's sign. -/
def sign : Binary → String
  | .arith op => op.sign
  | .junction op => op.sign
  | .div => "/"
  | .floorDiv => "//"
  | .shiftLeft => "<<"
  | .shiftRight => ">>"
  | .xor => "^"

/-- How messages name the operator. -/
def title : Binary → String
  | .arith .pow => "** or pow()"
  | op => op.sign

/-- How messages name the operator in an assignment that updates a name. -/
def updateTitle (op : Binary) : String := op.sign ++ "="

end Binary

namespace Comparison

/-- The operator's sign. -/
def sign : Comparison → String
  | .order op => op.sign
  | .eq => "=="
  | .ne => "!="

/-- The comparison that says the same of the exchanged operands. -/
def converse : Comparison → Comparison
  | .order op => .order op.converse
  | c => c

end Comparison

namespace Unary

/-- How messages name the operator. -/
def title : Unary → String
  | .neg => "unary -"
  | .pos => "unary +"
  | .inv => "unary ~"

end Unary

end Pathwise
