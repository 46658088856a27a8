import Pathwise.Text.Unprintable

/-!
# Quoted text

A text is shown between quotes: single ones, unless it holds a single quote and no double one.
The backslash, the quote in use and every character without a visible form are escaped, so a
quoted text is one line of visible characters.
-/

namespace Pathwise

namespace Text

/-- The last `width` hexadecimal digits of a number, in lower case. -/
def hex (width n : Nat) : String :=
  let digits := Nat.toDigits 16 n
  String.ofList (List.replicate (width - digits.length) '0' ++ digits)

/-- A character by its number, as short as its size admits. -/
def numbered (code : Nat) : String :=
  if code < 256 then "\\x" ++ hex 2 code
  else if code < 65536 then "\\u" ++ hex 4 code
  else "\\U" ++ hex 8 code

/-- A character inside quotes. -/
def escaped (quote c : Char) : String :=
  if c = quote ∨ c = '\\' then String.ofList ['\\', c]
  else if c = '\n' then "\\n"
  else if c = '\r' then "\\r"
  else if c = '\t' then "\\t"
  else if c.toNat < 32 ∨ c.toNat = 127 then numbered c.toNat
  else if c.toNat < 127 ∨ isShown c.toNat then String.singleton c
  else numbered c.toNat

/-- The quote that a text is put between. -/
def quoteFor (s : String) : Char :=
  if s.contains '\'' && !s.contains '"' then '"' else '\''

/-- A text between quotes. -/
def quoted (s : String) : String :=
  let quote := quoteFor s
  String.singleton quote ++ String.join (s.toList.map (escaped quote)) ++ String.singleton quote

/-- Items between square brackets. -/
def bracketed (items : List String) : String :=
  "[" ++ ", ".intercalate items ++ "]"

end Text

end Pathwise
