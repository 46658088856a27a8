import Pathwise.Decimal.Double

/-!
# The shortest decimal of a floating point number

* `Shortest.digits` are the fewest decimal digits that read back as the given number; of two
  equally short decimals it takes the nearer one, and the even one in a tie.
* `Shortest.Layout` says how digits are laid out: where positional notation ends and how an
  exponent is written.
* `Double.text` is the layout used for every number that is shown.
-/

namespace Pathwise

namespace Shortest

/-- Decimal digits with the position of the point: `0.d₁d₂… * 10 ^ point`. -/
structure Digits where
  digits : Nat
  count : Nat
  point : Int
  deriving Repr

/-- `10 ^ e` for an exponent of either sign. -/
def tenPow (e : Int) : Rat :=
  if 0 ≤ e then (Nat.pow 10 e.toNat : Rat) else mkRat 1 (Nat.pow 10 (-e).toNat)

/-- The rationals that round to `m * 2 ^ q`, from the lower to the upper end. -/
def interval (m : Nat) (q : Int) : Rat × Rat :=
  let low :=
    if m = Nat.pow 2 52 ∧ -1074 < q then ((4 * m - 1 : Nat) : Rat) * Double.twoPow (q - 2)
    else ((2 * m - 1 : Nat) : Rat) * Double.twoPow (q - 1)
  (low, ((2 * m + 1 : Nat) : Rat) * Double.twoPow (q - 1))

/-- The `point` with `10 ^ (point - 1) ≤ v < 10 ^ point`. -/
def pointOf (v : Rat) : Int :=
  let guess : Int :=
    ((Nat.toDigits 10 v.num.natAbs).length : Int) - ((Nat.toDigits 10 v.den).length : Int)
  if v < tenPow guess then guess else guess + 1

/-- The decimal with `n` digits that reads back as the number, if there is one. -/
def withCount? (v : Rat) (low high : Rat) (closed : Bool) (point : Int) (n : Nat) : Option Digits :=
  let unit := tenPow (point - n)
  let below := (v / unit).floor.toNat
  let reads (d : Nat) : Bool :=
    let x := (d : Rat) * unit
    if closed then decide (low ≤ x ∧ x ≤ high) else decide (low < x ∧ x < high)
  let downGap := v - (below : Rat) * unit
  let upGap := ((below + 1 : Nat) : Rat) * unit - v
  let preferred :=
    if downGap < upGap then below
    else if upGap < downGap then below + 1
    else below + below % 2
  let other := if preferred = below then below + 1 else below
  if reads preferred then some ⟨preferred, n, point⟩
  else if reads other then some ⟨other, n, point⟩
  else none

/-- Digits without trailing zeros; a carry past the first digit moves the point. -/
def Digits.trim (d : Digits) : Digits :=
  if d.digits = Nat.pow 10 d.count then ⟨1, 1, d.point + 1⟩
  else strip d.digits d.count d.point d.count
where
  /-- Drop a trailing zero while there is one. -/
  strip (digits count : Nat) (point : Int) : Nat → Digits
    | 0 => ⟨digits, count, point⟩
    | fuel + 1 =>
      if digits % 10 = 0 ∧ 1 < count then strip (digits / 10) (count - 1) point fuel
      else ⟨digits, count, point⟩

/-- The fewest digits of the positive number `m * 2 ^ q` that read back as it. -/
def digits (m : Nat) (q : Int) : Digits :=
  let v := (m : Rat) * Double.twoPow q
  let (low, high) := interval m q
  let point := pointOf v
  let found := (List.range 17).findSome? fun n =>
    withCount? v low high (m % 2 = 0) point (n + 1)
  (found.getD ⟨0, 1, 1⟩).trim

/-- How digits are laid out. -/
structure Layout where
  /-- The least exponent of ten written positionally. -/
  least : Int
  /-- The first exponent of ten that is no longer written positionally. -/
  limit : Int
  /-- The least number of digits of an exponent. -/
  width : Nat

private def zeros (n : Nat) : String := String.ofList (List.replicate n '0')

/-- Lay out digits: positionally with at least one decimal, or with an exponent. -/
def Layout.write (l : Layout) (d : Digits) : String :=
  let chars := (Nat.toDigits 10 d.digits)
  let text := String.ofList chars
  let exponent := d.point - 1
  if l.least ≤ exponent ∧ exponent < l.limit then
    if d.point ≤ 0 then "0." ++ zeros (-d.point).toNat ++ text
    else
      let whole := d.point.toNat
      if d.count ≤ whole then text ++ zeros (whole - d.count) ++ ".0"
      else String.ofList (chars.take whole) ++ "." ++ String.ofList (chars.drop whole)
  else
    let size := String.ofList (Nat.toDigits 10 exponent.natAbs)
    let mark := if exponent < 0 then "e-" else "e+"
    let head := String.ofList (chars.take 1)
    let tail := if d.count ≤ 1 then "" else "." ++ String.ofList (chars.drop 1)
    head ++ tail ++ mark ++ zeros (l.width - size.length) ++ size

end Shortest

namespace Double

/-- Numbers from `10 ^ -4` up to `10 ^ 16` are written positionally, the others with an exponent
of at least two digits. -/
def layout : Shortest.Layout := ⟨-4, 16, 2⟩

/-- The text of a floating point number. -/
def text (x : Float) : String :=
  match form x with
  | .nan => "nan"
  | .infinite negative => if negative then "-inf" else "inf"
  | .finite negative m q =>
    let sign := if negative then "-" else ""
    if m = 0 then sign ++ "0.0" else sign ++ layout.write (Shortest.digits m q)

/-- The decimal that the text of a finite number shows, as an exact rational. -/
def shown? (x : Float) : Option Rat :=
  match form x with
  | .finite negative m q =>
    if m = 0 then some 0
    else
      let d := Shortest.digits m q
      let v := (d.digits : Rat) * Shortest.tenPow (d.point - d.count)
      some (if negative then -v else v)
  | _ => none

end Double

end Pathwise
