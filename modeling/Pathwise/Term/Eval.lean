import Pathwise.Term.Basic

/-!
# The meaning of terms

* `Valuation` gives every unknown a value and fixes what arithmetic leaves open: the remainder
  of a division by zero and powers outside the reach of whole exponents.
* `Term.eval` is the value of a term under a valuation.

Main statements are the equations of `eval`; everything said later about what a symbolic run
means is said through them.
-/

namespace Pathwise

/-- Values of the unknowns, and a reading of what arithmetic leaves open. -/
structure Valuation where
  int : String → Int
  bool : String → Bool
  real : String → Rat
  /-- The remainder of each integer by zero. -/
  modZero : Int → Int
  /-- Powers that whole-exponent arithmetic does not determine. -/
  openPower : Rat → Rat → Rat

namespace Valuation

/-- The value of an unknown. -/
def read (ρ : Valuation) : (k : Kind) → String → k.Carrier
  | .bool, x => ρ.bool x
  | .num .int, x => ρ.int x
  | .num .real, x => ρ.real x

/-- The remainder in `[0, |b|)`, open for `b = 0`. -/
def mod (ρ : Valuation) (a b : Int) : Int :=
  if b = 0 then ρ.modZero a else a % b

/-- `a` to the power `b`: by repeated multiplication for a whole exponent, through the
reciprocal for a negative one, open otherwise and for powers of zero below the first. -/
def power (ρ : Valuation) (a b : Rat) : Rat :=
  if b.den ≠ 1 then ρ.openPower a b
  else if 0 < b.num then a ^ b.num.toNat
  else if a = 0 then ρ.openPower a b
  else (a⁻¹) ^ (-b.num).toNat

end Valuation

namespace Ring

/-- The operation on integers. -/
def onInt : Ring → Int → Int → Int
  | .add => (· + ·)
  | .sub => (· - ·)
  | .mul => (· * ·)

/-- The operation on rationals. -/
def onRat : Ring → Rat → Rat → Rat
  | .add => (· + ·)
  | .sub => (· - ·)
  | .mul => (· * ·)

end Ring

namespace Order

/-- Whether the order holds between two integers. -/
def onInt : Order → Int → Int → Bool
  | .lt, a, b => a < b
  | .le, a, b => a ≤ b
  | .gt, a, b => b < a
  | .ge, a, b => b ≤ a

/-- Whether the order holds between two rationals. -/
def onRat : Order → Rat → Rat → Bool
  | .lt, a, b => a < b
  | .le, a, b => a ≤ b
  | .gt, a, b => b < a
  | .ge, a, b => b ≤ a

end Order

namespace Numeric

/-- Negation in either sort. -/
def neg : (n : Numeric) → (Kind.num n).Carrier → (Kind.num n).Carrier
  | .int, a => Int.neg a
  | .real, a => Rat.neg a

/-- Ring operations in either sort. -/
def ring : (n : Numeric) → Ring → (Kind.num n).Carrier → (Kind.num n).Carrier →
    (Kind.num n).Carrier
  | .int, op, a, b => op.onInt a b
  | .real, op, a, b => op.onRat a b

/-- Orders in either sort. -/
def order : (n : Numeric) → Order → (Kind.num n).Carrier → (Kind.num n).Carrier → Bool
  | .int, op, a, b => op.onInt a b
  | .real, op, a, b => op.onRat a b

/-- The rational number behind a value of either sort. -/
def toRat : (n : Numeric) → (Kind.num n).Carrier → Rat
  | .int, a => Rat.ofInt a
  | .real, a => a

end Numeric

namespace Kind

/-- Whether two values of one sort are equal. -/
def same : (k : Kind) → k.Carrier → k.Carrier → Bool
  | .bool, a, b => decide (a = b)
  | .num .int, a, b => decide (a = b)
  | .num .real, a, b => decide (a = b)

theorem same_iff : (k : Kind) → (a b : k.Carrier) → (k.same a b = true ↔ a = b)
  | .bool, a, b => by simp [same]
  | .num .int, a, b => by simp [same]
  | .num .real, a, b => by simp [same]

end Kind

namespace Term

/-- The value of a term under a valuation. -/
def eval (ρ : Valuation) : {k : Kind} → Term k → k.Carrier
  | _, .var k x => ρ.read k x
  | _, .bool b => b
  | _, .int n => n
  | _, .real q => q
  | _, .neg (n := n) a => n.neg (a.eval ρ)
  | _, .ring (n := n) op a b => n.ring op (a.eval ρ) (b.eval ρ)
  | _, .mod a b => ρ.mod (a.eval ρ) (b.eval ρ)
  | _, .pow (n := n) a b => ρ.power (n.toRat (a.eval ρ)) (n.toRat (b.eval ρ))
  | _, .toReal a => Rat.ofInt (a.eval ρ)
  | _, .ite c a b => if c.eval ρ then a.eval ρ else b.eval ρ
  | _, .eq (k := k) a b => k.same (a.eval ρ) (b.eval ρ)
  | _, .distinct (k := k) a b => !k.same (a.eval ρ) (b.eval ρ)
  | _, .order (n := n) op a b => n.order op (a.eval ρ) (b.eval ρ)
  | _, .not a => !a.eval ρ
  | _, .and a b => a.eval ρ && b.eval ρ
  | _, .or a b => a.eval ρ || b.eval ρ

end Term

namespace Valuation

/-- The formula is true. -/
def Holds (ρ : Valuation) (φ : Formula) : Prop := φ.eval ρ = true

/-- All formulas are true. -/
def HoldsAll (ρ : Valuation) (φs : List Formula) : Prop := ∀ φ ∈ φs, ρ.Holds φ

instance (ρ : Valuation) (φ : Formula) : Decidable (ρ.Holds φ) :=
  inferInstanceAs (Decidable (φ.eval ρ = true))

end Valuation

/-- Some valuation makes all formulas true. -/
def Satisfiable (φs : List Formula) : Prop := ∃ ρ : Valuation, ρ.HoldsAll φs

end Pathwise
