import Pathwise.Plain.Arithmetic
import Pathwise.Term.Eval

/-!
# What a symbolic value holds

A symbolic number or condition holds a term or a plain value. A plain value counts as the numeral
or truth value that the place asks for; where none fits, the cause is a `Fault`.
-/

namespace Pathwise

/-- A plain value or a term of any sort. -/
inductive Held where
  | plain (v : Plain)
  | term {k : Kind} (t : Term k)

/-- The name of the type of bare terms of a sort. -/
def Kind.typeName : Kind → String
  | .bool => "BoolRef"
  | .num _ => "ArithRef"

namespace Plain

/-- The integer numeral that a value counts as beside an integer term. Fractions are cut off. -/
def toIntNumeral : Plain → Except Fault Int
  | .int n => .ok n
  | .bool b => .ok (ofBool b)
  | .float x =>
    match Double.form x, Double.rational? x with
    | .nan, _ => .error .notANumber
    | _, some q => .ok (if q < 0 then -(-q).floor else q.floor)
    | _, Option.none => .error (.tooLarge .infinity)
  | .none => .error .badNumeral
  | .str s =>
    match s.toInt? with
    | some n => .ok n
    | Option.none => .error .badNumeral

/-- The rational numeral that a value counts as beside a rational term: the decimal that it is
shown as. -/
def toRealNumeral : Plain → Except Fault Rat
  | .int n => .ok n
  | .float x =>
    match Double.shown? x with
    | some q => .ok q
    | Option.none => .error .badNumeral
  | .str s =>
    match s.toInt? with
    | some n => .ok n
    | Option.none => .error .badNumeral
  | _ => .error .badNumeral

/-- The numeral that a value counts as beside a term of the sort. -/
def toNumeral : (n : Numeric) → Plain → Except Fault (Term (.num n))
  | .int, v => v.toIntNumeral.map .int
  | .real, v => v.toRealNumeral.map .real

end Plain

namespace Held

/-- An unknown integer. -/
def unknown (name : String) : Held := .term (.var .int name)

/-- The name of the held value's type. -/
def typeName : Held → String
  | .plain v => v.typeName
  | .term (k := k) _ => k.typeName

/-- The text of what is held; plain values are marked as such. -/
def text : Held → String
  | .plain v => "py:" ++ v.text
  | .term t => t.text

/-- What is held, read as a condition. -/
def toFormula : Held → Except Fault Formula
  | .plain (.bool b) => .ok (.bool b)
  | .plain v => .error (.booleanExpected v.printed v.typeName)
  | .term (k := .bool) t => .ok t
  | .term (k := .num _) _ => .error .notBoolean

/-- The condition that holds exactly when this one fails. -/
def negated (h : Held) : Except Fault Held :=
  h.toFormula.map fun φ => .term (.not φ)

/-- Read several conditions; the first that is none decides the fault. -/
def toFormulas (hs : List Held) : Except Fault (List Formula) := hs.mapM toFormula

end Held

end Pathwise
