/-!
# JSON data

Integers and decimal numbers are told apart, and the fields of an object keep their order.
-/

namespace Pathwise

/-- JSON data. -/
inductive Json where
  | null
  | bool (b : Bool)
  | int (n : Int)
  | float (x : Float)
  | str (s : String)
  | list (items : List Json)
  | object (fields : List (String × Json))
  deriving Repr, Inhabited

namespace Json

/-- The value of a field; of fields with one name the last counts. -/
def field? (j : Json) (name : String) : Option Json :=
  match j with
  | .object fields => fields.reverse.lookup name
  | _ => none

/-- The text, if it is one. -/
def str? : Json → Option String
  | .str s => some s
  | _ => none

/-- The integer, if it is one. -/
def int? : Json → Option Int
  | .int n => some n
  | _ => none

/-- The truth value, if it is one. -/
def bool? : Json → Option Bool
  | .bool b => some b
  | _ => none

/-- The items, if it is a list. -/
def list? : Json → Option (List Json)
  | .list items => some items
  | _ => none

/-- The fields, if it is an object. -/
def object? : Json → Option (List (String × Json))
  | .object fields => some fields
  | _ => none

/-- A list of texts. -/
def strs? (j : Json) : Option (List String) := j.list?.bind fun items => items.mapM str?

end Json

end Pathwise
