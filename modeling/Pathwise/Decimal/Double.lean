/-!
# Binary floating point numbers as exact numbers

* `Double.Form` is what the 64 bits of a floating point number say: a sign and `m * 2 ^ q`.
* `Double.rational?` is the rational number behind a finite one.
* `Double.nearest` is the floating point number closest to a rational, a tie going to the even
  significand.
-/

namespace Pathwise

namespace Double

/-- What the bits of a floating point number say. -/
inductive Form where
  | nan
  | infinite (negative : Bool)
  /-- The number `m * 2 ^ q`, or its negative. -/
  | finite (negative : Bool) (m : Nat) (q : Int)
  deriving DecidableEq, Repr

/-- Read the sign, exponent and significand fields. -/
def form (x : Float) : Form :=
  let bits : Nat := x.toBits.toNat
  let negative := decide (Nat.pow 2 63 ≤ bits)
  let exponent : Nat := bits / Nat.pow 2 52 % Nat.pow 2 11
  let significand : Nat := bits % Nat.pow 2 52
  if exponent = 2047 then
    if significand = 0 then .infinite negative else .nan
  else if exponent = 0 then .finite negative significand (-1074)
  else .finite negative (Nat.pow 2 52 + significand) ((exponent : Int) - 1075)

/-- `2 ^ q` for an exponent of either sign. -/
def twoPow (q : Int) : Rat :=
  if 0 ≤ q then (Nat.pow 2 q.toNat : Rat) else mkRat 1 (Nat.pow 2 (-q).toNat)

/-- The exact value of a finite number. -/
def rational? (x : Float) : Option Rat :=
  match form x with
  | .finite negative m q =>
    let v := (m : Rat) * twoPow q
    some (if negative then -v else v)
  | _ => none

/-- The whole number closest to `p / d`, a tie going to the even one. -/
def roundDiv (p d : Nat) : Nat :=
  let whole := p / d
  let rest := 2 * (p % d)
  if rest < d then whole
  else if rest = d then whole + whole % 2
  else whole + 1

/-- The largest `l` with `2 ^ l ≤ p / d`, for positive `p` and `d`. -/
def floorLog (p d : Nat) : Int :=
  let l : Int := (p.log2 : Int) - (d.log2 : Int)
  let reached := if 0 ≤ l then d * Nat.pow 2 l.toNat ≤ p else d ≤ p * Nat.pow 2 (-l).toNat
  if reached then l else l - 1

/-- The floating point number closest to `p / d`, infinite where that lies out of range. -/
def nearestNat (p d : Nat) : Float :=
  if p = 0 then 0
  else
    let q := max (-1074) (floorLog p d - 52)
    let m := if 0 ≤ q then roundDiv p (d * Nat.pow 2 q.toNat) else roundDiv (p * Nat.pow 2 (-q).toNat) d
    if 1024 ≤ floorLog m 1 + q then 1 / 0 else (Float.ofNat m).scaleB q

/-- The floating point number closest to a rational. -/
def nearest (r : Rat) : Float :=
  let x := nearestNat r.num.natAbs r.den
  if r.num < 0 then -x else x

/-- Nothing but a number and not infinite. -/
def isFinite (x : Float) : Bool :=
  match form x with
  | .finite .. => true
  | _ => false

end Double

end Pathwise
