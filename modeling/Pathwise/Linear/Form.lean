/-!
# Linear forms with integer coefficients

A form is a constant plus a sum of multiples of numbered variables. The variables are listed in
ascending order and none has the coefficient zero, so equal forms are equal lists.
-/

namespace Pathwise

namespace Linear

/-- `const + Σ coefficient * variable`. -/
structure Form where
  const : Int
  coeffs : List (Nat × Int)
  deriving DecidableEq, Repr

/-- Values of the numbered variables; those not listed are zero. -/
abbrev Assignment := List (Nat × Int)

namespace Assignment

/-- The value of a variable. -/
def value (σ : Assignment) (x : Nat) : Int := (σ.lookup x).getD 0

end Assignment

namespace Form

/-- A constant form. -/
def ofInt (n : Int) : Form := ⟨n, []⟩

/-- A variable. -/
def ofVar (x : Nat) : Form := ⟨0, [(x, 1)]⟩

/-- Sum of two ascending lists of coefficients. -/
def merge : List (Nat × Int) → List (Nat × Int) → List (Nat × Int)
  | [], bs => bs
  | as, [] => as
  | (x, a) :: as, (y, b) :: bs =>
    if x < y then (x, a) :: merge as ((y, b) :: bs)
    else if y < x then (y, b) :: merge ((x, a) :: as) bs
    else if a + b = 0 then merge as bs
    else (x, a + b) :: merge as bs
termination_by as bs => as.length + bs.length

/-- Sum. -/
def add (f g : Form) : Form := ⟨f.const + g.const, merge f.coeffs g.coeffs⟩

/-- Multiple. -/
def scale (c : Int) (f : Form) : Form :=
  if c = 0 then ofInt 0 else ⟨c * f.const, f.coeffs.map fun (x, a) => (x, c * a)⟩

/-- Negative. -/
def neg (f : Form) : Form := f.scale (-1)

/-- Difference. -/
def sub (f g : Form) : Form := f.add g.neg

/-- The form with a constant added. -/
def shift (f : Form) (n : Int) : Form := { f with const := f.const + n }

/-- The value under an assignment. -/
def eval (σ : Assignment) (f : Form) : Int :=
  f.coeffs.foldl (fun acc (x, a) => acc + a * σ.value x) f.const

/-- The coefficient of a variable. -/
def coeff (f : Form) (x : Nat) : Int := (f.coeffs.lookup x).getD 0

/-- The form without a variable. -/
def without (f : Form) (x : Nat) : Form :=
  { f with coeffs := f.coeffs.filter fun (y, _) => y != x }

/-- Put a form in the place of a variable. -/
def subst (f : Form) (x : Nat) (g : Form) : Form :=
  match f.coeffs.lookup x with
  | none => f
  | some a => (f.without x).add (g.scale a)

/-- The greatest common divisor of the coefficients. -/
def content (f : Form) : Nat := f.coeffs.foldl (fun d (_, a) => Nat.gcd d a.natAbs) 0

/-- The constant, if there are no variables. -/
def const? (f : Form) : Option Int := if f.coeffs.isEmpty then some f.const else none

/-- The form with its numbers made small by multiples of `m`: its value changes by a multiple
of `m` only. -/
def residue (f : Form) (m : Nat) : Form :=
  ⟨f.const % (m : Int), f.coeffs.filterMap fun (x, a) =>
    if a.bmod m = 0 then none else some (x, a.bmod m)⟩

/-- Divide the coefficients by a common divisor and give the constant separately. -/
def divide (f : Form) (d : Nat) (const : Int) : Form :=
  ⟨const, f.coeffs.map fun (x, a) => (x, a / (d : Int))⟩

end Form

end Linear

end Pathwise
