import Pathwise.Held.Basic

/-!
# Operators on held values

Two plain values are combined as plain values. As soon as a term takes part the result is a term,
and the other operand is brought to its sort:

* beside a rational, an integer term is converted and a plain number becomes a rational numeral;
* a truth value beside a number counts as 1 or 0;
* the operands keep their places, except that a comparison starts with its term.
-/

namespace Pathwise

/-- Two terms of one sort of numbers. -/
structure NumericPair where
  {n : Numeric}
  left : Term (.num n)
  right : Term (.num n)

/-- The wider of two sorts of numbers. -/
def Numeric.join : Numeric → Numeric → Numeric
  | .int, n => n
  | .real, _ => .real

namespace Term

/-- Bring a number term to a sort that is at least as wide. -/
def widen : {m : Numeric} → (n : Numeric) → Term (.num m) → Term (.num (m.join n))
  | .int, .int, t => t
  | .int, .real, t => .toReal t
  | .real, _, t => t

/-- As `widen`, for the right operand. -/
def widenRight : (m : Numeric) → {n : Numeric} → Term (.num n) → Term (.num (m.join n))
  | .int, _, t => t
  | .real, .int, t => .toReal t
  | .real, .real, t => t

end Term

namespace NumericPair

/-- Two number terms, brought to one sort. -/
def ofTerms {m n : Numeric} (a : Term (.num m)) (b : Term (.num n)) : NumericPair :=
  ⟨a.widen n, b.widenRight m⟩

/-- Arithmetic on two terms of one sort. A remainder needs integers, and a power is rational. -/
def arith (op : Arith) : NumericPair → Except Fault Held
  | @NumericPair.mk n a b =>
    match op with
    | .ring r => .ok (.term (.ring r a b))
    | .pow => .ok (.term (.pow a b))
    | .mod =>
      match n, a, b with
      | .int, a, b => .ok (.term (.mod a b))
      | .real, _, _ => .error .integerExpected

/-- A comparison of two terms of one sort. -/
def compare (op : Comparison) (p : NumericPair) : Formula :=
  match op with
  | .order o => .order o p.left p.right
  | .eq => .eq p.left p.right
  | .ne => .distinct p.left p.right

end NumericPair

namespace Held

/-- Two number terms of one sort, made of two held values of which at least one is a number
term. `none` if neither is. -/
def numericPair? : Held → Held → Option (Except Fault NumericPair)
  | .term (k := .num _) a, .term (k := .num _) b => some (.ok (.ofTerms a b))
  | .term (k := .num _) a, .term (k := .bool) q => some (.ok (.ofTerms a (.ofFormula q)))
  | .term (k := .bool) p, .term (k := .num _) b => some (.ok (.ofTerms (.ofFormula p) b))
  | .term (k := .num n) a, .plain v => some ((v.toNumeral n).map fun b => ⟨a, b⟩)
  | .plain v, .term (k := .num n) b => some ((v.toNumeral n).map fun a => ⟨a, b⟩)
  | _, _ => none

/-- A number beside a truth value counts if the truth value holds, else zero counts. -/
def choose {n : Numeric} (p : Formula) (a : Term (.num n)) : Held :=
  .term (.ite p a (.numeral n 0))

/-- The product of a truth value and a plain value: a one keeps it, a zero is all that is left. -/
def choosePlain (p : Formula) (v : Plain) : Except Fault Held :=
  if v.equal (.int 1) then .ok (.term p)
  else if v.equal (.int 0) then .ok (.plain (.int 0))
  else
    match v with
    | .int i => .ok (choose p (.int i))
    | .float _ => v.toRealNumeral.map fun q => .term (.ite p (.real q) (.toReal (.int 0)))
    | .str _ => .error .sortMismatch
    | _ => .error .plainExpected

/-- Products in which a truth value takes part, which are choices. -/
def product? : Held → Held → Option (Except Fault Held)
  | .term (k := .bool) p, .term (k := .num _) a => some (.ok (choose p a))
  | .term (k := .num _) a, .term (k := .bool) p => some (.ok (choose p a))
  | .term (k := .bool) p, .plain v => some (choosePlain p v)
  | .plain v, .term (k := .bool) p => some (choosePlain p v)
  | .term (k := .bool) _, .term (k := .bool) _ => some (.error (.booleanExpected "1" "int"))
  | _, _ => none

/-- Arithmetic on held values. -/
def arith (op : Arith) (a b : Held) : Except Fault Held :=
  match a, b with
  | .plain u, .plain v => (Plain.binary (Binary.arith op).title (.arith op) u v).map .plain
  | _, _ =>
    let general : Except Fault Held :=
      match numericPair? a b with
      | some p => p >>= NumericPair.arith op
      | none => .error (.unsupportedOperands (Binary.arith op).title a.typeName b.typeName)
    if op = .mul then (product? a b).getD general else general

/-- The negative. -/
def neg : Held → Except Fault Held
  | .plain v => (v.unary .neg).map .plain
  | .term (k := .num _) t => .ok (.term (.neg t))
  | .term (k := .bool) _ => .error (.badOperand Unary.neg.title Kind.bool.typeName)

/-- Whether two held values are equal. Nothing equals no term. -/
def equality (positive : Bool) (a b : Held) : Except Fault Held :=
  let op : Comparison := if positive then .eq else .ne
  let onFormulas (p q : Formula) : Held := .term (if positive then .eq p q else .distinct p q)
  match a, b with
  | .plain u, .plain v => (u.compare op v).map fun r => .plain (.bool r)
  | .term _, .plain .none | .plain .none, .term _ => .ok (.plain (.bool !positive))
  | .term (k := .bool) p, .term (k := .bool) q => .ok (onFormulas p q)
  | .term (k := .bool) p, .plain v | .plain v, .term (k := .bool) p =>
    (toFormula (.plain v)).map fun q => onFormulas p q
  | .plain u, .term (k := .num n) t =>
    (u.toNumeral n).map fun s => .term (NumericPair.compare op ⟨t, s⟩)
  | _, _ =>
    match numericPair? a b with
    | some p => p.map fun p => .term (p.compare op)
    | none => .error .sortMismatch

/-- How two held values are ordered. A comparison whose left operand is no number term is read
from the right. -/
def order (o : Order) (a b : Held) : Except Fault Held :=
  match a, b with
  | .plain u, .plain v => (u.compare (.order o) v).map fun r => .plain (.bool r)
  | .plain u, .term (k := .num n) t =>
    (u.toNumeral n).map fun s => .term (.order o.converse t s)
  | .term (k := .bool) p, .term (k := .num _) t =>
    let pair := NumericPair.ofTerms t (.ofFormula p)
    .ok (.term (.order o.converse pair.left pair.right))
  | _, _ =>
    match numericPair? a b with
    | some p => p.map fun p => .term (.order o p.left p.right)
    | none => .error (.unordered o.sign a.typeName b.typeName)

/-- A comparison of held values: a plain answer or a formula. -/
def compare (op : Comparison) (a b : Held) : Except Fault Held :=
  match op with
  | .eq => equality true a b
  | .ne => equality false a b
  | .order o => order o a b

/-- The sort that operands of a junction have in common; plain ones follow a term. -/
def commonSort : Held → Held → Kind
  | .term (k := .bool) _, .term (k := .bool) _ => .bool
  | .term (k := .bool) _, .term (k := .num n) _ => .num n
  | .term (k := .num n) _, .term (k := .bool) _ => .num n
  | .term (k := .num m) _, .term (k := .num n) _ => .num (m.join n)
  | .term (k := k) _, .plain _ => k
  | .plain _, .term (k := k) _ => k
  | .plain u, .plain v => ofPlain u v
where
  /-- The sort of a plain value as a numeral. -/
  own : Plain → Kind
    | .bool _ => .bool
    | .float _ => .real
    | _ => .int
  /-- The wider sort of two plain values. -/
  ofPlain (u v : Plain) : Kind :=
    match own u, own v with
    | .bool, k => k
    | k, .bool => k
    | .num m, .num n => .num (m.join n)

/-- Conjunction and disjunction, which need truth values. -/
def junction (op : Junction) (a b : Held) : Except Fault Held :=
  match commonSort a b with
  | .bool => do
    let p ← a.toFormula
    let q ← b.toFormula
    return .term (match op with | .and => .and p q | .or => .or p q)
  | .num n =>
    match unreadable n a b with
    | some f => .error f
    | none => .error (.wrongSort op.word (Kind.num n).word)
where
  /-- The fault of an operand that is not even a numeral. -/
  unreadable (n : Numeric) : Held → Held → Option Fault
    | .plain .none, .plain _ | .plain _, .plain .none => some .plainExpected
    | .term _, .plain v | .plain v, .term _ =>
      match v.toNumeral n with
      | .error f => some f
      | .ok _ => none
    | _, _ => none

end Held

end Pathwise
