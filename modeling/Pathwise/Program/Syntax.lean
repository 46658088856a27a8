import Pathwise.Plain.Basic
import Pathwise.Operator

/-!
# The syntax of target programs

A program is a module of functions over numbers. Statements carry the line on which they stand,
so that a run can report the lines it executes.

Beside the expressions of the language there are forms that build symbolic values directly and
look inside them; only a session uses those.
-/

namespace Pathwise

mutual

/-- Expressions. -/
inductive Expr where
  | literal (v : Plain)
  | name (x : String)
  | binary (op : Binary) (a b : Expr)
  | compare (op : Comparison) (a b : Expr)
  | unary (op : Unary) (a : Expr)
  | not (a : Expr)
  | and (a b : Expr)
  | or (a b : Expr)
  /-- A chain of comparisons, in which each operand is evaluated once. -/
  | chain (first : Expr) (links : Links)
  | ite (c a b : Expr)
  | call (f : String) (args : Args)
  /-- A symbolic number over an unknown. -/
  | unknown (k : Kind) (x : String)
  /-- A symbolic number over a given value. -/
  | number (a : Expr)
  /-- A symbolic condition over a given value. -/
  | condition (a : Expr)
  /-- What a symbolic number holds. -/
  | termOf (a : Expr)
  /-- What a symbolic condition holds. -/
  | formulaOf (a : Expr)
  /-- The condition that holds when a given one fails. -/
  | negation (a : Expr)
  | method (a : Expr) (name : String) (args : Args)

/-- Arguments of a call. -/
inductive Args where
  | nil
  | cons (a : Expr) (rest : Args)

/-- The comparisons of a chain after its first operand. -/
inductive Links where
  | last (op : Comparison) (a : Expr)
  | more (op : Comparison) (a : Expr) (rest : Links)

end

mutual

/-- Statements. -/
inductive Stmt where
  | assign (x : String) (e : Expr)
  | update (x : String) (op : Binary) (e : Expr)
  | branch (c : Expr) (yes no : Block)
  | loop (c : Expr) (body : Block)
  /-- A loop over a range of integers, given by one to three bounds. -/
  | range (x : String) (bounds : Args) (body : Block)
  /-- Leave the function, with a value or without one. -/
  | result (e : Option Expr)
  | discard (e : Expr)
  | print (text : String)
  | raise (className : String) (text : Option String)
  | assert (e : Expr) (text : Option String)
  | pass
  /-- Leave the innermost loop. -/
  | exitLoop
  /-- Go on with the next round of the innermost loop. -/
  | nextRound
  | declareGlobal (names : List String)
  | attempt (body : Block) (className : String) (handler : Block)

/-- Statements one after the other, each with its line. -/
inductive Block where
  | done
  | step (line : Nat) (s : Stmt) (rest : Block)

end

/-- How a parameter receives its value. -/
inductive ParamKind where
  /-- By position and not by name. -/
  | positionalOnly
  /-- By position or by name. -/
  | positional
  /-- All remaining positional arguments. -/
  | rest
  | keywordOnly
  /-- All remaining keyword arguments. -/
  | keywords
  deriving DecidableEq, Repr

/-- Whether a parameter of the kind takes one argument by position. -/
def ParamKind.byPosition : ParamKind → Bool
  | .positionalOnly | .positional => true
  | .rest | .keywordOnly | .keywords => false

/-- A parameter with the expression of its default value. -/
structure Param where
  name : String
  kind : ParamKind
  default? : Option Expr

/-- A function definition. -/
structure Definition where
  line : Nat
  name : String
  params : List Param
  body : Block

/-- A module: its variables, classes, functions and further names for them, in the order in which
they are executed. -/
structure Program where
  globals : List (String × Expr)
  classes : List String
  functions : List Definition
  aliases : List (String × String)

namespace Args

/-- Arguments from a list. -/
def ofList : List Expr → Args
  | [] => .nil
  | a :: rest => .cons a (ofList rest)

end Args

namespace Block

/-- A block from numbered statements. -/
def ofList : List (Nat × Stmt) → Block
  | [] => .done
  | (line, s) :: rest => .step line s (ofList rest)

end Block

mutual

/-- Names that a statement assigns. -/
def Stmt.assigned : Stmt → List String
  | .assign x _ | .update x _ _ => [x]
  | .branch _ yes no => yes.assigned ++ no.assigned
  | .loop _ body => body.assigned
  | .range x _ body => x :: body.assigned
  | .attempt body _ handler => body.assigned ++ handler.assigned
  | _ => []

/-- Names that a block assigns. -/
def Block.assigned : Block → List String
  | .done => []
  | .step _ s rest => s.assigned ++ rest.assigned

end

mutual

/-- Names that a statement declares to be global. -/
def Stmt.globals : Stmt → List String
  | .declareGlobal names => names
  | .branch _ yes no => yes.globals ++ no.globals
  | .loop _ body | .range _ _ body => body.globals
  | .attempt body _ handler => body.globals ++ handler.globals
  | _ => []

/-- Names that a block declares to be global. -/
def Block.globals : Block → List String
  | .done => []
  | .step _ s rest => s.globals ++ rest.globals

end

end Pathwise
