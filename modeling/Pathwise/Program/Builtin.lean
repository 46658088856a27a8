import Pathwise.Program.Memory
import Pathwise.Text.Numeral
import Pathwise.Value.Operator

/-!
# Truth, built-in functions and methods

* `Value.truth` is the truth of a value. Only a condition has to ask for it; a symbolic number is
  true whatever it holds.
* `Builtin.apply` calls a built-in function.
* `Value.callMethod` calls an operator of a symbolic value by its method name.
-/

namespace Pathwise

namespace Eval

/-- Give what an operator yields an identity if it is a condition. -/
def box : Value.Raw → Eval Value
  | .value v => return v
  | .condition h => return .condition (← fresh) h

/-- The value of a binary operator. -/
def binary (title : String) (op : Binary) (a b : Value) : Eval Value := do
  if Value.exchanges op a b then note .exchange
  box (← ofExcept (Value.binary title op a b))

/-- The value of a comparison. -/
def compare (op : Comparison) (a b : Value) : Eval Value := do
  box (← ofExcept (Value.compare op a b))

/-- A new condition. -/
def newCondition (h : Held) : Eval Value := box (.condition h)

end Eval

namespace Held

/-- The truth of a bare term: that of a constant, or whether the sides of an equation are written
alike. -/
def bareTruth : Held → Except Fault Bool
  | .plain v => .ok v.truth
  | .term (.bool b) => .ok b
  | .term (.eq a b) => .ok (a.text == b.text)
  | .term _ => .error .symbolicTruth

end Held

namespace Value

/-- The truth of a value. -/
def truth : Value → Eval Bool
  | .held h => Eval.ofExcept h.bareTruth
  | .condition _ h => Eval.ask h
  | .tuple items => return !items.isEmpty
  | .table entries => return !entries.isEmpty
  | _ => return true

/-- The integer that a value is or counts as. -/
def toIndex : Value → Except Fault Int
  | .held (.plain v) =>
    match v.int? with
    | some n => .ok n
    | Option.none => .error (.notAnInteger v.typeName)
  | v => .error (.notAnInteger v.typeName)

/-- The items of a sequence. -/
def items : Value → Except Fault (List Value)
  | .tuple vs => .ok vs
  | .table entries => .ok (entries.map fun (x, _) => .str x)
  | .str s => .ok (s.toList.map fun c => .str (String.singleton c))
  | v => .error (.notIterable v.typeName)

end Value

namespace Builtin

/-- The best of some values: a value replaces the best so far if the comparison with it is true. -/
def best (op : Order) : Value → List Value → Eval Value
  | b, [] => return b
  | b, v :: rest => do
    if ← (← Eval.compare (.order op) v b).truth then best op v rest else best op b rest

/-- The least or the greatest of the arguments, or of the items of a single one. -/
def extremum (name : String) (op : Order) : List Value → Eval Value
  | [] => throw (.wrongCount (name ++ " expected at least 1 argument, got 0"))
  | [v] => do
    match ← Eval.ofExcept v.items with
    | [] => throw (.emptySequence name)
    | first :: rest => best op first rest
  | first :: rest => best op first rest

/-- The whole number that a text denotes in a base. -/
def readInt (base : Nat) (s : String) : Except Fault Int :=
  match Text.integer? base s with
  | some n => .ok n
  | none => .error (.badLiteral base s)

/-- Conversion to an integer. -/
def toInt : Value → Except Fault Int
  | .held (.plain (.float x)) => (Plain.float x).toIntNumeral
  | .held (.plain (.str s)) => readInt 10 s
  | .held (.plain v) =>
    match v.int? with
    | some n => .ok n
    | none => .error (.notConvertible v.typeName)
  | v => .error (.notConvertible v.typeName)

/-- Conversion of a text to an integer in a given base. -/
def toIntFrom (v base : Value) : Except Fault Int := do
  let b ← base.toIndex
  if (b ≠ 0 ∧ b < 2) ∨ 36 < b then throw .badBase
  match v with
  | .str s => readInt b.toNat s
  | _ => throw (.wrongCount "int() can't convert non-string with explicit base")

/-- The size of a number. -/
def absolute : Value → Except Fault Value
  | .held (.plain v) =>
    match v.number? with
    | some (.int n) => .ok (.int n.natAbs)
    | some (.float x) => .ok (.held (.plain (.float x.abs)))
    | none => .error (.badOperand "abs()" v.typeName)
  | v => .error (.badOperand "abs()" v.typeName)

/-- Call a built-in function. -/
def apply (b : Builtin) (args : List Value) : Eval Value :=
  match b, args with
  | .abs, [v] => Eval.ofExcept (absolute v)
  | .abs, args =>
    throw (.wrongCount ("abs() takes exactly one argument (" ++ toString args.length ++ " given)"))
  | .bool, [] => return .bool false
  | .bool, [v] => return .bool (← v.truth)
  | .bool, args =>
    throw (.wrongCount ("bool expected at most 1 argument, got " ++ toString args.length))
  | .int, [] => return .int 0
  | .int, [v] => return .int (← Eval.ofExcept (toInt v))
  | .int, [v, base] => return .int (← Eval.ofExcept (toIntFrom v base))
  | .int, args =>
    throw (.wrongCount ("int() takes at most 2 arguments (" ++ toString args.length ++ " given)"))
  | .min, args => extremum "min" .lt args
  | .max, args => extremum "max" .gt args

end Builtin

/-- The operators of symbolic numbers by the names of their methods. -/
inductive Method where
  | arith (op : Arith)
  | compare (op : Comparison)
  | junction (op : Junction)
  | neg
  deriving DecidableEq, Repr

namespace Method

/-- The method of a name. A method for the exchanged operands does the same as the other one. -/
def ofName? : String → Option Method
  | "__add__" | "__radd__" => some (.arith .add)
  | "__sub__" | "__rsub__" => some (.arith .sub)
  | "__mul__" | "__rmul__" => some (.arith .mul)
  | "__mod__" | "__rmod__" => some (.arith .mod)
  | "__pow__" | "__rpow__" => some (.arith .pow)
  | "__eq__" | "__req__" => some (.compare .eq)
  | "__ne__" => some (.compare .ne)
  | "__lt__" => some (.compare (.order .lt))
  | "__le__" => some (.compare (.order .le))
  | "__gt__" => some (.compare (.order .gt))
  | "__ge__" => some (.compare (.order .ge))
  | "__and__" => some (.junction .and)
  | "__or__" => some (.junction .or)
  | "__neg__" => some .neg
  | _ => none

/-- Apply a method of a symbolic number to one partner. -/
def apply (h : Held) (m : Method) (v : Value) : Eval Value := do
  let g ← Eval.ofExcept v.partner
  match m with
  | .arith op => return .number (← Eval.ofExcept (Held.arith op h g))
  | .compare op => Eval.newCondition (← Eval.ofExcept (Held.compare op h g))
  | .junction op => Eval.newCondition (← Eval.ofExcept (Held.junction op h g))
  | .neg => return .number (← Eval.ofExcept h.neg)

end Method

namespace Value

/-- The fault of a method called with a wrong number of arguments. -/
def methodCount (className name param : String) (expected given : Nat) : Fault :=
  .binding (className ++ "." ++ name)
    (if given < expected then .missing [param]
      else .tooMany (expected + 1) (expected + 1) (given + 1) 0)

/-- Call a method of a symbolic number. -/
def callOnNumber (h : Held) (name : String) (args : List Value) : Eval Value :=
  match Method.ofName? name, args with
  | some .neg, [] => return .number (← Eval.ofExcept h.neg)
  | some .neg, args => throw (methodCount "IntProxy" name "" 0 args.length)
  | some m, [v] => m.apply h v
  | some _, args =>
    throw (methodCount "IntProxy" name (if name = "__pow__" then "exponent" else "other") 1
      args.length)
  | Option.none, _ =>
    throw (if name = "term" then .notCallable h.typeName
      else .missingAttribute (Value.number h).typeName name)

/-- Call a method of a condition. Negating one this way never succeeds. -/
def callOnCondition (h : Held) (name : String) (args : List Value) : Eval Value :=
  match name, args with
  | "__bool__", [] => return .bool (← Eval.ask h)
  | "__not__", [] => do
    discard (Eval.ofExcept h.toFormula)
    throw .wrongArgument
  | "__bool__", args | "__not__", args => throw (methodCount "BoolProxy" name "" 0 args.length)
  | name, _ =>
    throw (if name = "formula" then .notCallable h.typeName
      else .missingAttribute (Value.condition 0 h).typeName name)

/-- Call a method of a value. -/
def callMethod (v : Value) (name : String) (args : List Value) : Eval Value :=
  match v with
  | .number h => callOnNumber h name args
  | .condition _ h => callOnCondition h name args
  | v => throw (.missingAttribute v.typeName name)

/-- What a symbolic number holds. -/
def termOf : Value → Except Fault Value
  | .number h => .ok (.held h)
  | v => .error (.missingAttribute v.typeName "term")

/-- What a condition holds. -/
def formulaOf : Value → Except Fault Held
  | .condition _ h => .ok h
  | v => .error (.missingAttribute v.typeName "formula")

/-- A value that a symbolic value can be made of. -/
def holdable : Value → Except Fault Held
  | .held h => .ok h
  | _ => .error .plainExpected

end Value

/-- The names of unknowns are written in characters with codes below 256. The fault tells the
first characters that are not. -/
def encodable (name : String) : Except Fault Unit :=
  let wide (c : Char) : Bool := 256 ≤ c.toNat
  match name.toList.span fun c => !wide c with
  | (_, []) => .ok ()
  | (before, c :: rest) =>
    let run := (rest.takeWhile wide).length
    .error (.unencodable c.toNat before.length (before.length + run))

end Pathwise
