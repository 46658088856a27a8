import Pathwise.Held.Arithmetic

/-!
# Values of running programs

Beside plain values a program handles symbolic numbers and conditions, sequences and the things
that it can call.

Conditions have an identity: two conditions are the same only if they came from one comparison.
The identity is the stamp that a condition got when it was made.
-/

namespace Pathwise

/-- Functions that are always there. -/
inductive Builtin where
  | abs
  | bool
  | int
  | max
  | min
  deriving DecidableEq, Repr

namespace Builtin

/-- The name of a built-in function. -/
def name : Builtin → String
  | .abs => "abs"
  | .bool => "bool"
  | .int => "int"
  | .max => "max"
  | .min => "min"

/-- All built-in functions. -/
def all : List Builtin := [.abs, .bool, .int, .max, .min]

/-- The built-in function of a name. -/
def ofName? (s : String) : Option Builtin := all.find? fun b => b.name == s

end Builtin

/-- Values of running programs. -/
inductive Value where
  /-- A plain value, or a term that nothing wraps. -/
  | held (h : Held)
  /-- A symbolic number. -/
  | number (h : Held)
  /-- A symbolic condition. -/
  | condition (stamp : Nat) (h : Held)
  | tuple (items : List Value)
  | table (entries : List (String × Value))
  /-- A function of the module, by its place among the module's definitions. -/
  | function (index : Nat)
  | builtin (b : Builtin)
  | class (name : String)
  | object (stamp : Nat) (className : String)

namespace Value

/-- Nothing. -/
@[match_pattern] abbrev none : Value := .held (.plain .none)

/-- A truth value. -/
@[match_pattern] abbrev bool (b : Bool) : Value := .held (.plain (.bool b))

/-- An integer. -/
@[match_pattern] abbrev int (n : Int) : Value := .held (.plain (.int n))

/-- A text. -/
@[match_pattern] abbrev str (s : String) : Value := .held (.plain (.str s))

/-- A symbolic number over an unknown integer. -/
abbrev unknown (name : String) : Value := .number (.unknown name)

/-- The name of the value's type. -/
def typeName : Value → String
  | .held h => h.typeName
  | .number _ => "IntProxy"
  | .condition .. => "BoolProxy"
  | .tuple _ => "tuple"
  | .table _ => "dict"
  | .function _ => "function"
  | .builtin .bool | .builtin .int | .class _ => "type"
  | .builtin _ => "builtin_function_or_method"
  | .object _ c => c

/-- A value that stands in a list of conditions: a condition stands for its formula. -/
def toHeld? : Value → Option Held
  | .held h => some h
  | .condition _ h => some h
  | _ => Option.none

end Value

end Pathwise
