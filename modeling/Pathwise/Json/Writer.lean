import Pathwise.Json.Basic
import Pathwise.Decimal.Shortest
import Pathwise.Text.Quoted

/-!
# Writing JSON

`Json.write` writes data on one line, the fields of an object in their order.
-/

namespace Pathwise

namespace Json

/-- A character between quotes. -/
def escape (c : Char) : String :=
  if c = '"' then "\\\""
  else if c = '\\' then "\\\\"
  else if c = '\n' then "\\n"
  else if c.toNat < 32 then "\\u" ++ Text.hex 4 c.toNat
  else String.singleton c

/-- A text between quotes. -/
def quote (s : String) : String := "\"" ++ String.join (s.toList.map escape) ++ "\""

mutual

/-- Data on one line. -/
def write : Json → String
  | .null => "null"
  | .bool b => if b then "true" else "false"
  | .int n => toString n
  | .float x => Double.text x
  | .str s => quote s
  | .list items => "[" ++ ",".intercalate (writeAll items) ++ "]"
  | .object fields => "\x7b" ++ ",".intercalate (writeFields fields) ++ "\x7d"

/-- The texts of items. -/
def writeAll : List Json → List String
  | [] => []
  | j :: rest => write j :: writeAll rest

/-- The texts of fields. -/
def writeFields : List (String × Json) → List String
  | [] => []
  | (name, j) :: rest => (quote name ++ ":" ++ write j) :: writeFields rest

end

end Json

end Pathwise
