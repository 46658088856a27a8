import Pathwise.Plain.Basic
import Pathwise.Operator
import Pathwise.Fault
import Pathwise.Term.Eval

/-!
# Arithmetic on plain values

* Integer division and remainder round towards minus infinity.
* A quotient of integers and a negative power are floating point numbers, correctly rounded.
* Numbers compare by their exact values, whatever their types.
-/

namespace Pathwise

namespace Bits

/-- Bitwise conjunction of integers in two's complement. -/
def and (a b : Int) : Int :=
  match a, b with
  | .ofNat m, .ofNat n => ((m &&& n : Nat) : Int)
  | .ofNat m, .negSucc n => ((m ^^^ (m &&& n) : Nat) : Int)
  | .negSucc m, .ofNat n => ((n ^^^ (n &&& m) : Nat) : Int)
  | .negSucc m, .negSucc n => .negSucc (m ||| n)

/-- The complement, which is the negative less one. -/
def not (a : Int) : Int := -a - 1

/-- Bitwise disjunction, the complement of a conjunction of complements. -/
def or (a b : Int) : Int := not (and (not a) (not b))

/-- Bitwise difference. -/
def xor (a b : Int) : Int :=
  match a, b with
  | .ofNat m, .ofNat n => ((m ^^^ n : Nat) : Int)
  | .ofNat m, .negSucc n => .negSucc (m ^^^ n)
  | .negSucc m, .ofNat n => .negSucc (m ^^^ n)
  | .negSucc m, .negSucc n => ((m ^^^ n : Nat) : Int)

end Bits

namespace Double

/-- The floating point number closest to an integer, if it is in range. -/
def ofInt (n : Int) : Except Fault Float :=
  let x := nearest n
  if isFinite x then .ok x else .error (.tooLarge .conversion)

/-- A floating point number with the sign of another one. -/
def withSign (x y : Float) : Float :=
  let negative := decide (Nat.pow 2 63 ≤ y.toBits.toNat)
  if negative then -x.abs else x.abs

/-- The remainder of the quotient cut off towards zero; it is exact and has the sign of `x`. -/
def cutRemainder (x y : Float) : Float :=
  match rational? x, rational? y with
  | some p, some q =>
    if q = 0 then 0 / 0
    else
      let quotient := p / q
      let cut : Int := if quotient < 0 then -(-quotient).floor else quotient.floor
      let r := p - cut * q
      if r = 0 then withSign 0 x else nearest r
  | some _, none => if y.isNaN then y else x
  | none, _ => 0 / 0

/-- The remainder with the sign of the divisor. -/
def floorMod (x y : Float) : Float :=
  let r := cutRemainder x y
  if r == 0 then withSign 0 y
  else if (y < 0) != (r < 0) then r + y else r

/-- The quotient rounded towards minus infinity. -/
def floorDiv (x y : Float) : Float :=
  let r := cutRemainder x y
  let d := (x - r) / y
  let d := if r != 0 && (y < 0) != (r < 0) then d - 1 else d
  if d == 0 then withSign 0 (x / y)
  else
    let f := d.floor
    if d - f > 0.5 then f + 1 else f

/-- A power, if it is a real number in range. -/
def pow (x y : Float) : Except Fault Float :=
  if x == 0 && y < 0 then .error (.zeroDivision .power)
  else if x < 0 && isFinite y && y.floor != y then
    .error (.unsupportedOperands "** or pow()" "float" "float")
  else
    let r := x.pow y
    if isFinite r || !isFinite x || !isFinite y then .ok r else .error (.tooLarge .result)

/-- Quotient. -/
def div (x y : Float) : Except Fault Float :=
  if y == 0 then .error (.zeroDivision .floatQuotient) else .ok (x / y)

/-- Arithmetic on floating point numbers; `none` for operators that they do not have. -/
def binary? (op : Binary) (x y : Float) : Option (Except Fault Float) :=
  match op with
  | .arith (.ring .add) => some (.ok (x + y))
  | .arith (.ring .sub) => some (.ok (x - y))
  | .arith (.ring .mul) => some (.ok (x * y))
  | .arith .mod =>
    some (if y == 0 then .error (.zeroDivision .floatRemainder) else .ok (floorMod x y))
  | .arith .pow => some (pow x y)
  | .div => some (div x y)
  | .floorDiv =>
    some (if y == 0 then .error (.zeroDivision .floatFloorQuotient) else .ok (floorDiv x y))
  | _ => none

end Double

namespace Whole

/-- The quotient of two integers as a floating point number. A zero has the sign that the quotient
of other numbers with these signs has. -/
def div (a b : Int) : Except Fault Number :=
  if b = 0 then .error (.zeroDivision .quotient)
  else
    let x := Double.nearest (mkRat (if b < 0 then -a else a) b.natAbs)
    if x == 0 then
      .ok (.float (Double.withSign 0 (if decide (a < 0) != decide (b < 0) then -1 else 1)))
    else if Double.isFinite x then .ok (.float x) else .error (.tooLarge .quotient)

/-- The power of an integer. The powers of one and minus one need no multiplication, and those of
zero are zero after the first. -/
def power (a : Int) (n : Nat) : Int :=
  if a = 1 then 1
  else if a = -1 then (if n % 2 = 0 then 1 else -1)
  else if a = 0 then (if n = 0 then 1 else 0)
  else Int.pow a n

theorem power_eq (a : Int) (n : Nat) : power a n = Int.pow a n := by
  have square : ∀ k, (-1 : Int) ^ (2 * k) = 1 := fun k => by
    rw [Int.pow_mul]
    exact Int.one_pow
  show power a n = a ^ n
  by_cases h1 : a = 1
  · rw [power, if_pos h1, h1]
    exact Int.one_pow.symm
  · by_cases h2 : a = -1
    · subst h2
      rw [power, if_neg h1, if_pos rfl]
      have hn : n = 2 * (n / 2) + n % 2 := by omega
      rcases Nat.mod_two_eq_zero_or_one n with h | h
      · rw [if_pos h, hn, h, Nat.add_zero, square]
      · rw [if_neg (by omega), hn, h, Int.pow_succ, square, Int.one_mul]
    · rw [power, if_neg h1, if_neg h2]
      split
      · next h =>
        subst h
        split
        · next h => subst h; rfl
        · next h => exact (Int.zero_pow h).symm
      · rfl

/-- Beyond this amount no number but zero can be shifted to the left. -/
def shiftLimit : Nat := Nat.pow 2 32

/-- Shift to the left. -/
def shiftLeft (a : Int) (n : Nat) : Except Fault Int :=
  if a = 0 then .ok 0
  else if shiftLimit ≤ n then .error (.tooLarge .shift)
  else .ok (a * (Nat.pow 2 n : Nat))

/-- A power: an integer for exponents from zero on, else a floating point number. -/
def pow (a b : Int) : Except Fault Number := do
  if 0 ≤ b then return .int (power a b.toNat)
  else if a = 0 then throw (.zeroDivision .power)
  else return .float (← Double.pow (← Double.ofInt a) (← Double.ofInt b))

/-- Arithmetic on integers. -/
def binary (op : Binary) (a b : Int) : Except Fault Number :=
  match op with
  | .arith (.ring r) => .ok (.int (r.onInt a b))
  | .arith .mod => if b = 0 then .error (.zeroDivision .remainder) else .ok (.int (a.fmod b))
  | .arith .pow => pow a b
  | .div => div a b
  | .floorDiv =>
    if b = 0 then .error (.zeroDivision .floorQuotient) else .ok (.int (a.fdiv b))
  | .shiftLeft =>
    if b < 0 then .error .negativeShift else (shiftLeft a b.toNat).map .int
  | .shiftRight =>
    if b < 0 then .error .negativeShift else .ok (.int (a >>> b.toNat))
  | .junction .and => .ok (.int (Bits.and a b))
  | .junction .or => .ok (.int (Bits.or a b))
  | .xor => .ok (.int (Bits.xor a b))

end Whole

namespace Number

/-- The number as a floating point number. -/
def toFloat : Number → Except Fault Float
  | .int n => Double.ofInt n
  | .float x => .ok x

/-- Arithmetic on numbers: on integers as integers, else in floating point. -/
def binary? (op : Binary) (a b : Number) : Option (Except Fault Number) :=
  match a, b with
  | .int m, .int n => some (Whole.binary op m n)
  | _, _ =>
    match Double.binary? op 0 1 with
    | none => none
    | some _ => some do
      let x ← a.toFloat
      let y ← b.toFloat
      match Double.binary? op x y with
      | some r => return .float (← r)
      | none => return .float x

end Number

namespace Text

/-- A text repeated; a count below one leaves nothing. -/
def repeated (s : String) (n : Int) : String :=
  String.join (List.replicate n.toNat s)

/-- Fill the places of a pattern, `%s`, `%d` and the like, with one value. -/
def format (pattern : List Char) (value : Plain) : Except Fault String :=
  go pattern false
where
  /-- Go through the pattern; the flag says whether the value has been used. -/
  go : List Char → Bool → Except Fault String
    | [], used => if used then .ok "" else .error .unusedFormatArguments
    | '%' :: [], _ => .error (.badFormat "incomplete format")
    | '%' :: c :: rest, used =>
      if c = '%' then do return "%" ++ (← go rest used)
      else if used then .error .missingFormatArguments
      else if c = 's' then do return value.printed ++ (← go rest true)
      else if c = 'r' then do return value.text ++ (← go rest true)
      else if c = 'd' ∨ c = 'i' then
        match value.int? with
        | some n => do return decimal n ++ (← go rest true)
        | none => .error (.unsupportedOperands "%" "str" value.typeName)
      else .error (.badFormat ("unsupported format character '" ++ String.singleton c ++ "'"))
    | c :: rest, used => do return String.singleton c ++ (← go rest used)

end Text

namespace Plain

/-- Operators on texts. -/
def onTexts (title : String) (op : Binary) (a b : Plain) : Except Fault Plain :=
  let unsupported := Fault.unsupportedOperands title a.typeName b.typeName
  match op, a, b with
  | .arith (.ring .add), .str s, .str t => .ok (.str (s ++ t))
  | .arith (.ring .add), .str _, _ => .error (.cannotConcatenate "str" b.typeName)
  | .arith (.ring .mul), .str s, _ =>
    match b.int? with
    | some n => .ok (.str (Text.repeated s n))
    | Option.none => .error (.cannotRepeat b.typeName)
  | .arith (.ring .mul), _, .str t =>
    match a.int? with
    | some n => .ok (.str (Text.repeated t n))
    | Option.none => .error (.cannotRepeat a.typeName)
  | .arith .mod, .str s, _ => (Text.format s.toList b).map .str
  | _, _, _ => .error unsupported

/-- The value of a binary operator; `title` is how a message names it. -/
def binary (title : String) (op : Binary) (a b : Plain) : Except Fault Plain :=
  match op, a, b with
  | .junction .and, .bool p, .bool q => .ok (.bool (p && q))
  | .junction .or, .bool p, .bool q => .ok (.bool (p || q))
  | .xor, .bool p, .bool q => .ok (.bool (p != q))
  | _, _, _ =>
    match a.number?, b.number? with
    | some m, some n =>
      match Number.binary? op m n with
      | some r => r.map Number.toPlain
      | Option.none => .error (.unsupportedOperands title a.typeName b.typeName)
    | _, _ => onTexts title op a b

/-- Whether two values are equal. Values of different types are not, numbers apart. -/
def equal (a b : Plain) : Bool :=
  match a, b with
  | .none, .none => true
  | .str s, .str t => s == t
  | _, _ =>
    match a.number?, b.number? with
    | some m, some n => m.compare? n == some .eq
    | _, _ => false

/-- Whether an outcome of comparing agrees with an order. -/
def ordered (op : Order) : Ordering → Bool
  | .lt => op == .lt || op == .le
  | .eq => op == .le || op == .ge
  | .gt => op == .gt || op == .ge

/-- Comparisons. Only numbers and only texts have an order. -/
def compare (op : Comparison) (a b : Plain) : Except Fault Bool :=
  match op with
  | .eq => .ok (a.equal b)
  | .ne => .ok (!a.equal b)
  | .order o =>
    match a, b with
    | .str s, .str t =>
      .ok (ordered o (if s < t then .lt else if s = t then .eq else .gt))
    | _, _ =>
      match a.number?, b.number? with
      | some m, some n =>
        .ok (match m.compare? n with
          | some r => ordered o r
          | Option.none => false)
      | _, _ => .error (.unordered o.sign a.typeName b.typeName)

/-- The value of an operator with one operand. -/
def unary (op : Unary) (a : Plain) : Except Fault Plain :=
  match op, a.number? with
  | .neg, some (.int n) => .ok (.int (-n))
  | .pos, some (.int n) => .ok (.int n)
  | .inv, some (.int n) => .ok (.int (Bits.not n))
  | .neg, some (.float x) => .ok (.float (-x))
  | .pos, some (.float x) => .ok (.float x)
  | _, _ => .error (.badOperand op.title a.typeName)

end Plain

end Pathwise
