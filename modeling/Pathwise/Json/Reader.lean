import Pathwise.Json.Basic

/-!
# Reading JSON

`Json.parse?` reads a whole text. The reader goes through the characters once; its bound on steps
is the number of characters, since every step consumes at least one.
-/

namespace Pathwise

namespace Json

/-- Skip blanks. -/
def skip (cs : List Char) : List Char :=
  cs.dropWhile fun c => c = ' ' ∨ c = '\t' ∨ c = '\n' ∨ c = '\r'

/-- The value of a hexadecimal digit. -/
def hexDigit? (c : Char) : Option Nat :=
  if '0' ≤ c ∧ c ≤ '9' then some (c.toNat - '0'.toNat)
  else if 'a' ≤ c ∧ c ≤ 'f' then some (c.toNat - 'a'.toNat + 10)
  else if 'A' ≤ c ∧ c ≤ 'F' then some (c.toNat - 'A'.toNat + 10)
  else none

/-- Four hexadecimal digits. -/
def hexFour? : List Char → Option (Nat × List Char)
  | a :: b :: c :: d :: rest => do
    let digits ← [a, b, c, d].mapM hexDigit?
    return (digits.foldl (fun n d => 16 * n + d) 0, rest)
  | _ => none

/-- The character after a backslash that stands for another one. -/
def shortEscape? : Char → Option Char
  | '"' => some '"'
  | '\\' => some '\\'
  | '/' => some '/'
  | 'b' => some '\x08'
  | 'f' => some '\x0c'
  | 'n' => some '\n'
  | 'r' => some '\r'
  | 't' => some '\t'
  | _ => none

/-- A numbered character, two halves of a pair taken together. -/
def numberedChar? (cs : List Char) : Option (Char × List Char) := do
  let (high, rest) ← hexFour? cs
  if 0xD800 ≤ high ∧ high < 0xDC00 then
    match rest with
    | '\\' :: 'u' :: rest' =>
      let (low, rest'') ← hexFour? rest'
      if 0xDC00 ≤ low ∧ low < 0xE000 then
        return (Char.ofNat (0x10000 + (high - 0xD800) * 0x400 + (low - 0xDC00)), rest'')
      else return (Char.ofNat 0xFFFD, rest)
    | _ => return (Char.ofNat 0xFFFD, rest)
  else return (Char.ofNat high, rest)

/-- The characters of a text up to its closing quote. -/
def textBody? : Nat → List Char → List Char → Option (String × List Char)
  | 0, _, _ => none
  | _ + 1, [], _ => none
  | steps + 1, c :: cs, seen =>
    if c = '"' then some (String.ofList seen.reverse, cs)
    else if c = '\\' then
      match cs with
      | 'u' :: rest => do
        let (d, rest) ← numberedChar? rest
        textBody? steps rest (d :: seen)
      | e :: rest => do
        let d ← shortEscape? e
        textBody? steps rest (d :: seen)
      | [] => none
    else textBody? steps cs (c :: seen)

/-- The digits at the head of the characters. -/
def digits (cs : List Char) : List Char × List Char := cs.span Char.isDigit

/-- The number that digits denote. -/
def ofDigits (ds : List Char) : Nat := ds.foldl (fun n d => 10 * n + (d.toNat - '0'.toNat)) 0

/-- An exponent, if one follows. -/
def exponent? (cs : List Char) : Option (Int × List Char) :=
  match cs with
  | e :: rest =>
    if e = 'e' ∨ e = 'E' then
      let (negative, rest) := match rest with
        | '-' :: r => (true, r)
        | '+' :: r => (false, r)
        | r => (false, r)
      match digits rest with
      | ([], _) => none
      | (ds, after) => some (if negative then -(ofDigits ds : Int) else ofDigits ds, after)
    else none
  | [] => none

/-- The decimal number `m * 10 ^ e`, rounded. -/
def decimalFloat (m : Nat) (e : Int) : Float :=
  if e < 0 then Float.ofScientific m true e.natAbs else Float.ofScientific m false e.natAbs

/-- A number: an integer unless a point or an exponent follows the digits. -/
def number? (cs : List Char) : Option (Json × List Char) :=
  let (negative, cs) := match cs with
    | '-' :: r => (true, r)
    | r => (false, r)
  match digits cs with
  | ([], _) => none
  | (whole, rest) =>
    let (decimals, rest) := match rest with
      | '.' :: r =>
        match digits r with
        | ([], _) => (none, rest)
        | (ds, after) => (some ds, after)
      | _ => (none, rest)
    let (scale, rest) := match exponent? rest with
      | some (e, after) => (some e, after)
      | none => (none, rest)
    match decimals, scale with
    | none, none =>
      let n : Int := ofDigits whole
      some (.int (if negative then -n else n), rest)
    | _, _ =>
      let ds := decimals.getD []
      let x := decimalFloat (ofDigits (whole ++ ds)) (scale.getD 0 - ds.length)
      some (.float (if negative then -x else x), rest)

/-- A word at the head of the characters. -/
def word? (w : String) (cs : List Char) : Option (List Char) :=
  let ws := w.toList
  if ws.isPrefixOf cs then some (cs.drop ws.length) else none

mutual

/-- A value, blanks before it skipped. -/
def value? (steps : Nat) (cs : List Char) : Option (Json × List Char) :=
  match steps with
  | 0 => none
  | steps + 1 =>
    match skip cs with
    | '"' :: rest => (textBody? (rest.length + 1) rest []).map fun (s, r) => (.str s, r)
    | '[' :: rest =>
      match skip rest with
      | ']' :: after => some (.list [], after)
      | _ => (items? steps rest).map fun (vs, r) => (.list vs, r)
    | '\x7b' :: rest =>
      match skip rest with
      | '\x7d' :: after => some (.object [], after)
      | _ => (fields? steps rest).map fun (fs, r) => (.object fs, r)
    | cs =>
      match word? "null" cs, word? "true" cs, word? "false" cs with
      | some rest, _, _ => some (.null, rest)
      | _, some rest, _ => some (.bool true, rest)
      | _, _, some rest => some (.bool false, rest)
      | _, _, _ => number? cs

/-- The items of a list up to its closing bracket. -/
def items? (steps : Nat) (cs : List Char) : Option (List Json × List Char) :=
  match steps with
  | 0 => none
  | steps + 1 =>
    match value? steps cs with
    | none => none
    | some (v, rest) =>
      match skip rest with
      | ',' :: after => (items? steps after).map fun (vs, r) => (v :: vs, r)
      | ']' :: after => some ([v], after)
      | _ => none

/-- The fields of an object up to its closing brace. -/
def fields? (steps : Nat) (cs : List Char) : Option (List (String × Json) × List Char) :=
  match steps with
  | 0 => none
  | steps + 1 =>
    match skip cs with
    | '"' :: rest =>
      match textBody? (rest.length + 1) rest [] with
      | none => none
      | some (name, rest) =>
        match skip rest with
        | ':' :: rest =>
          match value? steps rest with
          | none => none
          | some (v, rest) =>
            match skip rest with
            | ',' :: after => (fields? steps after).map fun (fs, r) => ((name, v) :: fs, r)
            | '\x7d' :: after => some ([(name, v)], after)
            | _ => none
        | _ => none
    | _ => none

end

/-- The data that a whole text denotes. -/
def parse? (text : String) : Option Json :=
  let cs := text.toList
  match value? (2 * cs.length + 2) cs with
  | some (v, rest) => if (skip rest).isEmpty then some v else none
  | none => none

end Json

end Pathwise
