/-!
# Symbolic terms

A symbolic program works on terms over named unknowns instead of on numbers.

* `Kind` is the sort of a term: truth values, integers or exact rationals.
* `Term k` is a term of sort `k`. The sort is an index, so ill-sorted terms do not exist
  and the meaning of a term (`Term.eval`) needs no failure case.

Terms are never simplified: they keep the shape in which the program built them.
-/

namespace Pathwise

/-- The two sorts of numbers. -/
inductive Numeric where
  | int
  | real
  deriving DecidableEq, Repr

/-- The sorts of terms. -/
inductive Kind where
  | bool
  | num (n : Numeric)
  deriving DecidableEq, Repr

namespace Kind

/-- Integers. -/
abbrev int : Kind := .num .int

/-- Exact rationals. -/
abbrev real : Kind := .num .real

/-- What a term of the sort stands for. -/
abbrev Carrier : Kind → Type
  | .bool => Bool
  | .num .int => Int
  | .num .real => Rat

/-- The word for the sort in messages. -/
def word : Kind → String
  | .bool => "Bool"
  | .num .int => "Int"
  | .num .real => "Real"

end Kind

/-- Sum, difference and product, which exist for both sorts of numbers. -/
inductive Ring where
  | add
  | sub
  | mul
  deriving DecidableEq, Repr

/-- The four orders of numbers. -/
inductive Order where
  | lt
  | le
  | gt
  | ge
  deriving DecidableEq, Repr

namespace Order

/-- The order that holds between two numbers when this one holds between them exchanged. -/
def converse : Order → Order
  | .lt => .gt
  | .le => .ge
  | .gt => .lt
  | .ge => .le

@[simp] theorem converse_converse (o : Order) : o.converse.converse = o := by
  cases o <;> rfl

end Order

/-- Terms over named unknowns. An unknown is known by its name and its sort together. -/
inductive Term : Kind → Type where
  /-- An unknown. -/
  | var (k : Kind) (name : String) : Term k
  | bool (b : Bool) : Term .bool
  | int (n : Int) : Term .int
  | real (q : Rat) : Term .real
  | neg {n : Numeric} (a : Term (.num n)) : Term (.num n)
  | ring {n : Numeric} (op : Ring) (a b : Term (.num n)) : Term (.num n)
  /-- The remainder in `[0, |b|)`; by zero it is left open. -/
  | mod (a b : Term .int) : Term .int
  /-- Powers are rational numbers, also those of integers. -/
  | pow {n : Numeric} (a b : Term (.num n)) : Term .real
  | toReal (a : Term .int) : Term .real
  | ite {n : Numeric} (c : Term .bool) (a b : Term (.num n)) : Term (.num n)
  | eq {k : Kind} (a b : Term k) : Term .bool
  | distinct {k : Kind} (a b : Term k) : Term .bool
  | order {n : Numeric} (op : Order) (a b : Term (.num n)) : Term .bool
  | not (a : Term .bool) : Term .bool
  | and (a b : Term .bool) : Term .bool
  | or (a b : Term .bool) : Term .bool

/-- A term that is true or false. -/
abbrev Formula := Term .bool

namespace Term

/-- The numeral of an integer in either sort of numbers. -/
def numeral : (n : Numeric) → Int → Term (.num n)
  | .int, i => .int i
  | .real, i => .real i

/-- The number that a truth value counts as. -/
def ofFormula (p : Formula) : Term .int := .ite p (.int 1) (.int 0)

end Term

end Pathwise
