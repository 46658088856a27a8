import Pathwise.Decimal.Shortest
import Pathwise.Text.Quoted
import Pathwise.Term.Text

/-!
# Plain values

A plain value is one that needs no unknowns: nothing, a truth value, an integer, a floating point
number or a text. Truth values count as the integers 0 and 1 wherever a number is asked for.
-/

namespace Pathwise

/-- Values without unknowns. -/
inductive Plain where
  | none
  | bool (b : Bool)
  | int (n : Int)
  | float (x : Float)
  | str (s : String)
  deriving Repr

/-- The numbers among plain values. -/
inductive Number where
  | int (n : Int)
  | float (x : Float)
  deriving Repr

namespace Plain

/-- The name of the value's type. -/
def typeName : Plain → String
  | .none => "NoneType"
  | .bool _ => "bool"
  | .int _ => "int"
  | .float _ => "float"
  | .str _ => "str"

/-- The value as it is written in a program. -/
def text : Plain → String
  | .none => "None"
  | .bool b => if b then "True" else "False"
  | .int n => decimal n
  | .float x => Double.text x
  | .str s => Text.quoted s

/-- The value as it is printed: as `text`, a text without its quotes. -/
def printed : Plain → String
  | .str s => s
  | v => v.text

/-- Nothing, zero and the empty text are false. -/
def truth : Plain → Bool
  | .none => false
  | .bool b => b
  | .int n => n != 0
  | .float x => x != 0
  | .str s => s != ""

/-- The integer that a truth value counts as. -/
def ofBool (b : Bool) : Int := if b then 1 else 0

/-- The number that a value is or counts as. -/
def number? : Plain → Option Number
  | .bool b => some (.int (ofBool b))
  | .int n => some (.int n)
  | .float x => some (.float x)
  | _ => Option.none

/-- The integer that a value is or counts as. -/
def int? : Plain → Option Int
  | .bool b => some (ofBool b)
  | .int n => some n
  | _ => Option.none

end Plain

namespace Number

/-- Back to a plain value. -/
def toPlain : Number → Plain
  | .int n => .int n
  | .float x => .float x

/-- The exact value of a finite number. -/
def rational? : Number → Option Rat
  | .int n => some n
  | .float x => Double.rational? x

/-- How two numbers compare, exactly; nothing compares with a NaN. -/
def compare? (a b : Number) : Option Ordering :=
  match a.rational?, b.rational? with
  | some p, some q => some (if p < q then .lt else if p = q then .eq else .gt)
  | _, _ =>
    let x := rank a
    let y := rank b
    match x, y with
    | some i, some j => some (compare i j)
    | _, _ => none
where
  /-- Which side of the finite numbers a number lies on; a NaN lies nowhere. -/
  rank : Number → Option Int
    | .int _ => some 0
    | .float x =>
      match Double.form x with
      | .nan => none
      | .infinite negative => some (if negative then -1 else 1)
      | .finite .. => some 0

end Number

end Pathwise
