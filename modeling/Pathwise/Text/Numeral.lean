/-!
# Reading whole numbers

A whole number is written in a base from 2 to 36, with a sign or without one and with blanks
around it. One underscore may stand between two digits. In the bases 2, 8 and 16 the digits may
follow a mark: `0b`, `0o` or `0x`. Base 0 takes the base from the mark, and without one it is 10;
there a number other than zero does not start with the digit zero.

Only the digits and blanks of ASCII are known.
-/

namespace Pathwise

namespace Text

/-- The value of a digit or letter. -/
def digitValue? (c : Char) : Option Nat :=
  if c.isDigit then some (c.toNat - '0'.toNat)
  else if c.isAlpha then some (c.toLower.toNat - 'a'.toNat + 10)
  else none

/-- Continue a number by digits, given whether a digit comes directly before them. -/
def readDigits (base : Nat) (value : Nat) (afterDigit : Bool) : List Char → Option Nat
  | [] => if afterDigit then some value else none
  | c :: rest =>
    if c = '_' then (if afterDigit then readDigits base value false rest else none)
    else
      match digitValue? c with
      | some d => if d < base then readDigits base (value * base + d) true rest else none
      | none => none

/-- The base that a mark announces. -/
def markedBase? (c : Char) : Option Nat :=
  match c.toLower with
  | 'b' => some 2
  | 'o' => some 8
  | 'x' => some 16
  | _ => none

/-- Digits after a mark; one underscore may stand between. -/
def readMarked (base : Nat) : List Char → Option Nat
  | '_' :: rest => readDigits base 0 false rest
  | rest => readDigits base 0 false rest

/-- A number without sign and blanks. -/
def readUnsigned (base : Nat) (cs : List Char) : Option Nat :=
  let unmarked :=
    if base = 0 then
      match readDigits 10 0 false cs with
      | some n => if cs.head? = some '0' ∧ n ≠ 0 then none else some n
      | none => none
    else readDigits base 0 false cs
  match cs with
  | '0' :: c :: rest =>
    match markedBase? c with
    | some b => if base = 0 ∨ base = b then readMarked b rest else unmarked
    | none => unmarked
  | _ => unmarked

/-- Whether a character is blank. -/
def isBlank (c : Char) : Bool :=
  c = ' ' || (9 ≤ c.toNat && c.toNat ≤ 13) || (28 ≤ c.toNat && c.toNat ≤ 31)

/-- Without the blanks at both ends. -/
def trimmed (cs : List Char) : List Char :=
  ((cs.dropWhile isBlank).reverse.dropWhile isBlank).reverse

/-- The whole number that a text denotes. -/
def integer? (base : Nat) (s : String) : Option Int :=
  match trimmed s.toList with
  | '-' :: rest => (readUnsigned base rest).map fun n => -(n : Int)
  | '+' :: rest => (readUnsigned base rest).map fun n => (n : Int)
  | cs => (readUnsigned base cs).map fun n => (n : Int)

end Text

end Pathwise
