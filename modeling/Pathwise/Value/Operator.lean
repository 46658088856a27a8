import Pathwise.Value.Basic

/-!
# Operators on values

A symbolic number takes part in an operator with another one, or with an integer, which it wraps
first. On its right it answers for values that do not know it, and then

* arithmetic is done with the operands exchanged, whether or not the operator commutes;
* a comparison is turned around, which says the same;
* `&` and `|` are not answered for.

Conditions have no operators but their identity.
-/

namespace Pathwise

namespace Value

/-- What a symbolic number finds in its partner: the held value of another number, or an integer. -/
def partner : Value → Except Fault Held
  | .int n => .ok (.plain (.int n))
  | .number h => .ok h
  | v => .error (.missingAttribute v.typeName "term")

/-- Operators on sequences: joining and repeating. -/
def onSequences (title : String) (op : Binary) (a b : Value) : Except Fault Value :=
  match op, a, b with
  | .arith (.ring .add), .tuple xs, .tuple ys => .ok (.tuple (xs ++ ys))
  | .arith (.ring .add), .tuple _, b => .error (.cannotConcatenate "tuple" b.typeName)
  | .arith (.ring .add), .str _, b => .error (.cannotConcatenate "str" b.typeName)
  | .arith (.ring .mul), .tuple xs, b => repeated xs b
  | .arith (.ring .mul), a, .tuple ys => repeated ys a
  | .arith (.ring .mul), .str _, b => .error (.cannotRepeat b.typeName)
  | .arith (.ring .mul), a, .str _ => .error (.cannotRepeat a.typeName)
  | .arith .mod, .str _, _ => .error .unusedFormatArguments
  | _, a, b => .error (.unsupportedOperands title a.typeName b.typeName)
where
  /-- A sequence repeated. -/
  repeated (xs : List Value) : Value → Except Fault Value
    | .held (.plain v) =>
      match v.int? with
      | some n => .ok (.tuple (List.replicate n.toNat xs).flatten)
      | Option.none => .error (.cannotRepeat v.typeName)
    | v => .error (.cannotRepeat v.typeName)

/-- Operators on values among which there is no symbolic number. -/
def binaryUnwrapped (title : String) (op : Binary) (a b : Value) : Except Fault Value :=
  match a, b with
  | .held (.plain u), .held (.plain v) => (Plain.binary title op u v).map fun r => .held (.plain r)
  | .held h, .held g =>
    match op with
    | .arith o => (Held.arith o h g).map .held
    | _ => .error (.unsupportedOperands title a.typeName b.typeName)
  | _, _ => onSequences title op a b

/-- What an operator yields before it is given an identity. -/
inductive Raw where
  /-- A finished value. -/
  | value (v : Value)
  /-- What a new condition holds. -/
  | condition (h : Held)

/-- The value of a binary operator; `title` is how a message names it. -/
def binary (title : String) (op : Binary) (a b : Value) : Except Fault Raw :=
  match op, a, b with
  | .arith o, .number h, b => do
    let g ← partner b
    return .value (.number (← Held.arith o h g))
  | .arith .mod, .str _, .number _ => .error .unusedFormatArguments
  | .arith o, a, .number h => do
    let g ← partner a
    return .value (.number (← Held.arith o h g))
  | .junction o, .number h, b => do
    let g ← partner b
    return .condition (← Held.junction o h g)
  | _, .number h, b =>
    .error (.unsupportedOperands title (Value.number h).typeName b.typeName)
  | _, a, .number h =>
    .error (.unsupportedOperands title a.typeName (Value.number h).typeName)
  | op, a, b => (binaryUnwrapped title op a b).map .value

/-- Whether a symbolic number on the right answers for its partner on the left, though the
operands of the operator cannot be exchanged. -/
def exchanges : Binary → Value → Value → Bool
  | .arith _, .number _, _ => false
  | .arith o, _, .number _ => !o.commutes
  | _, _, _ => false

/-- Whether two values that have only an identity are the same. -/
def identical : Value → Value → Bool
  | .condition s _, .condition t _ => s == t
  | .function i, .function j => i == j
  | .builtin b, .builtin c => b == c
  | .class c, .class d => c == d
  | .object s _, .object t _ => s == t
  | _, _ => false

mutual

/-- Equality of values without symbolic numbers: by content for plain values and sequences of
them, by identity for the rest. -/
def equal : Value → Value → Bool
  | .held (.plain u), .held (.plain v) => u.equal v
  | .tuple xs, .tuple ys => equalAll xs ys
  | a, b => identical a b

/-- Item by item. -/
def equalAll : List Value → List Value → Bool
  | [], [] => true
  | x :: xs, y :: ys => equal x y && equalAll xs ys
  | _, _ => false

end

/-- A comparison of values among which there is no symbolic number. -/
def compareUnwrapped (op : Comparison) (a b : Value) : Except Fault Raw :=
  match a, b with
  | .held (.plain u), .held (.plain v) => (u.compare op v).map fun r => .value (.bool r)
  | .held h, .held g => (Held.compare op h g).map fun r => .value (.held r)
  | _, _ =>
    match op with
    | .eq => .ok (.value (.bool (equal a b)))
    | .ne => .ok (.value (.bool (!equal a b)))
    | .order o => .error (.unordered o.sign a.typeName b.typeName)

/-- A comparison. -/
def compare (op : Comparison) (a b : Value) : Except Fault Raw :=
  match a, b with
  | .number h, b => do
    let g ← partner b
    return .condition (← Held.compare op h g)
  | a, .number h => do
    let g ← partner a
    return .condition (← Held.compare op.converse h g)
  | a, b => compareUnwrapped op a b

/-- The value of an operator with one operand. -/
def unary (op : Unary) (a : Value) : Except Fault Value :=
  match op, a with
  | .neg, .number h => (Held.neg h).map .number
  | _, .held (.plain v) => (v.unary op).map fun r => .held (.plain r)
  | .neg, .held h => (Held.neg h).map .held
  | _, a => .error (.badOperand op.title a.typeName)

end Value

end Pathwise
