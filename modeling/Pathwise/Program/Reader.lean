import Pathwise.Program.Syntax
import Pathwise.Json.Basic

/-!
# Reading programs from JSON

A program is an object with the fields `globals`, `classes`, `functions` and `aliases`.
An expression is a number, a truth value, null, a name (a text), a text literal
(an object with the field `str`) or a list that starts with an operator. A statement is a list
that starts with its keyword.
-/

namespace Pathwise

namespace Binary

/-- The operator of a sign. -/
def ofSign? : String → Option Binary
  | "+" => some (.arith .add)
  | "-" => some (.arith .sub)
  | "*" => some (.arith .mul)
  | "%" => some (.arith .mod)
  | "**" => some (.arith .pow)
  | "/" => some .div
  | "//" => some .floorDiv
  | "<<" => some .shiftLeft
  | ">>" => some .shiftRight
  | "^" => some .xor
  | "&" => some (.junction .and)
  | "|" => some (.junction .or)
  | _ => none

/-- The operator of an updating assignment's sign. -/
def ofUpdateSign? (s : String) : Option Binary :=
  if s.endsWith "=" then ofSign? (s.dropEnd 1).toString else none

end Binary

namespace Comparison

/-- The comparison of a sign. -/
def ofSign? : String → Option Comparison
  | "<" => some (.order .lt)
  | "<=" => some (.order .le)
  | ">" => some (.order .gt)
  | ">=" => some (.order .ge)
  | "==" => some .eq
  | "!=" => some .ne
  | _ => none

end Comparison

namespace Unary

/-- The operator of a word. -/
def ofWord? : String → Option Unary
  | "neg" => some .neg
  | "pos" => some .pos
  | "inv" => some .inv
  | _ => none

end Unary

namespace Expr

/-- Join at least one expression by an operator, the last two first. -/
def joinRight (join : Expr → Expr → Expr) : List Expr → Option Expr
  | [] => none
  | [a] => some a
  | a :: rest => (joinRight join rest).map (join a)

mutual

/-- Read an expression. -/
def ofJson? (steps : Nat) (j : Json) : Option Expr :=
  match steps with
  | 0 => none
  | steps + 1 =>
    match j with
    | .int n => some (.literal (.int n))
    | .float x => some (.literal (.float x))
    | .bool b => some (.literal (.bool b))
    | .null => some (.literal .none)
    | .str x => some (.name x)
    | .object _ => (j.field? "str").bind fun s => s.str?.map fun s => .literal (.str s)
    | .list (.str op :: rest) => ofParts? steps op rest
    | .list _ => none

/-- Read an expression that starts with an operator. -/
def ofParts? (steps : Nat) (op : String) (parts : List Json) : Option Expr :=
  match steps with
  | 0 => none
  | steps + 1 =>
    let read (j : Json) : Option Expr := ofJson? steps j
    let many (js : List Json) : Option (List Expr) := js.mapM fun j => ofJson? steps j
    match op, parts with
    | "not", [a] => (read a).map .not
    | "and", parts => (many parts).bind (joinRight .and)
    | "or", parts => (many parts).bind (joinRight .or)
    | "ite", [c, a, b] => do return .ite (← read c) (← read a) (← read b)
    | "call", .str f :: args => (many args).map fun args => .call f (.ofList args)
    | "chain", a :: links => do return .chain (← read a) (← linksOf? steps links)
    | "var", [.str x] => some (.unknown .int x)
    | "bvar", [.str x] => some (.unknown .bool x)
    | "proxy", [a] => (read a).map .number
    | "boolproxy", [a] => (read a).map .condition
    | "term", [a] => (read a).map .termOf
    | "formula", [a] => (read a).map .formulaOf
    | "z3not", [a] => (read a).map .negation
    | "method", a :: .str m :: args => do return .method (← read a) m (.ofList (← many args))
    | op, [a] => do return .unary (← Unary.ofWord? op) (← read a)
    | op, [a, b] =>
      match Binary.ofSign? op, Comparison.ofSign? op with
      | some o, _ => do return .binary o (← read a) (← read b)
      | none, some o => do return .compare o (← read a) (← read b)
      | none, none => none
    | _, _ => none

/-- Read the comparisons of a chain. -/
def linksOf? (steps : Nat) (parts : List Json) : Option Links :=
  match steps with
  | 0 => none
  | steps + 1 =>
    match parts with
    | [.str op, a] => do return .last (← Comparison.ofSign? op) (← ofJson? steps a)
    | .str op :: a :: rest => do
      return .more (← Comparison.ofSign? op) (← ofJson? steps a) (← linksOf? steps rest)
    | _ => none

end

end Expr

namespace Json

mutual

/-- The number of nodes, which bounds every walk through the data. -/
def nodes : Json → Nat
  | .list items => nodesAll items + 1
  | .object fields => nodesFields fields + 1
  | _ => 1

/-- The number of nodes of items. -/
def nodesAll : List Json → Nat
  | [] => 0
  | j :: rest => nodes j + nodesAll rest

/-- The number of nodes of fields. -/
def nodesFields : List (String × Json) → Nat
  | [] => 0
  | (_, j) :: rest => nodes j + nodesFields rest

end

/-- Read an expression. -/
def toExpr? (j : Json) : Option Expr := Expr.ofJson? (3 * j.nodes + 3) j

/-- An optional text. -/
def optionalStr? : List Json → Option (Option String)
  | [] => some none
  | [.str s] => some (some s)
  | _ => none

mutual

/-- Read a statement. -/
def stmt? (steps : Nat) (j : Json) : Option Stmt :=
  match steps with
  | 0 => none
  | steps + 1 =>
    match j with
    | .list (.str word :: parts) =>
      match word, parts with
      | "=", [.str x, e] => e.toExpr?.map (.assign x)
      | "if", [c, yes] => do return .branch (← c.toExpr?) (← block? steps yes) .done
      | "if", [c, yes, no] => do
        return .branch (← c.toExpr?) (← block? steps yes) (← block? steps no)
      | "while", [c, body] => do return .loop (← c.toExpr?) (← block? steps body)
      | "for", [.str x, .list bounds, body] => do
        return .range x (.ofList (← bounds.mapM toExpr?)) (← block? steps body)
      | "return", [] => some (.result none)
      | "return", [e] => e.toExpr?.map fun e => .result (some e)
      | "expr", [e] => e.toExpr?.map .discard
      | "print", [.str s] => some (.print s)
      | "raise", .str c :: rest => (optionalStr? rest).map (.raise c)
      | "assert", e :: rest => do return .assert (← e.toExpr?) (← optionalStr? rest)
      | "pass", [] => some .pass
      | "break", [] => some .exitLoop
      | "continue", [] => some .nextRound
      | "global", names => (names.mapM str?).map .declareGlobal
      | "try", [body, .str c, handler] => do
        return .attempt (← block? steps body) c (← block? steps handler)
      | word, [.str x, e] => do return .update x (← Binary.ofUpdateSign? word) (← e.toExpr?)
      | _, _ => none
    | _ => none

/-- Read statements. They have no lines of their own. -/
def block? (steps : Nat) (j : Json) : Option Block :=
  match steps with
  | 0 => none
  | steps + 1 => do
    let statements ← (← j.list?).mapM fun s => stmt? steps s
    return .ofList (statements.map fun s => (0, s))

end

/-- Read a parameter. -/
def param? (j : Json) : Option Param :=
  match j with
  | .str x => some ⟨x, .positional, none⟩
  | .object _ => do
    let x ← (← j.field? "name").str?
    let kind ← match j.field? "kind" with
      | none => some ParamKind.positional
      | some (.str "posonly") => some ParamKind.positionalOnly
      | some (.str "var") => some ParamKind.rest
      | some (.str "kwonly") => some ParamKind.keywordOnly
      | some (.str "kw") => some ParamKind.keywords
      | some _ => none
    let default? ← match j.field? "default" with
      | none => some none
      | some e => e.toExpr?.map some
    return ⟨x, kind, default?⟩
  | _ => none

/-- Read a function definition. -/
def definition? (j : Json) : Option Definition := do
  let name ← (← j.field? "name").str?
  let params ← (← (← j.field? "params").list?).mapM param?
  let body ← j.field? "body"
  return ⟨0, name, params, ← block? (2 * body.nodes + 2) body⟩

/-- The items of an optional field. -/
def fieldItems? (j : Json) (name : String) : Option (List Json) :=
  match j.field? name with
  | none => some []
  | some v => v.list?

/-- Read a program. -/
def program? (j : Json) : Option Program := do
  let globals ← (← j.fieldItems? "globals").mapM fun
    | .list [.str x, e] => e.toExpr?.map fun e => (x, e)
    | _ => none
  let classes ← (← j.fieldItems? "classes").mapM str?
  let functions ← (← j.fieldItems? "functions").mapM definition?
  let aliases ← (← j.fieldItems? "aliases").mapM fun
    | .list [.str new, .str old] => some (new, old)
    | _ => none
  return ⟨globals, classes, functions, aliases⟩

end Json

end Pathwise
