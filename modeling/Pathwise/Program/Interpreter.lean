import Pathwise.Program.Builtin

/-!
# Running programs

Expressions and statements are run by recursion on their syntax; calls of functions of the module
go through the environment, where `invoke` ties the knot with a bound on the depth of calls.

An expression has three uses, gathered in `Meaning`: its value, its truth where a condition
stands, and both at once for an operand of "and" and "or". In each use every operand is tested at
most once.
-/

namespace Pathwise

/-- Where names are looked up. -/
inductive Frame where
  /-- In a call, which owns these names. -/
  | call (owned : List String)
  /-- Outside of all calls, with these names. -/
  | outside (names : Scope)

/-- What surrounds a piece of program. -/
structure Env where
  frame : Frame
  /-- How many rounds a loop can have. -/
  rounds : Nat
  /-- Call a value. -/
  invoke : Value → List Value → Eval Value

/-- How far runs can go. -/
structure Limits where
  /-- How many rounds a loop can have. -/
  rounds : Nat
  /-- How deep calls can be nested. -/
  calls : Nat

/-- Limits for a program about which nothing else is known. -/
def Limits.standard : Limits := ⟨10000000, 980⟩

/-- The uses of an expression. -/
structure Meaning where
  value : Eval Value
  truth : Eval Bool
  /-- The value together with its truth. -/
  tested : Eval (Value × Bool)

namespace Meaning

/-- An expression that is tested by testing its value. -/
def ofValue (v : Eval Value) : Meaning where
  value := v
  truth := do (← v).truth
  tested := do
    let x ← v
    return (x, ← x.truth)

end Meaning

namespace Env

/-- The value of a name that no variable has. -/
def always (x : String) : Eval Value :=
  match Builtin.ofName? x with
  | some b => return .builtin b
  | none => if Fault.classes.contains x then return .class x else throw (.undefinedName x)

/-- The value of a name. -/
def read (env : Env) (x : String) : Eval Value := do
  match env.frame with
  | .call owned =>
    let s ← get
    if owned.contains x then
      match s.locals.lookup x with
      | some v => return v
      | none => throw (.unboundLocal x)
    else
      match s.memory.globals.lookup x with
      | some v => return v
      | none => always x
  | .outside names =>
    match names.lookup x with
    | some v => return v
    | none => always x

/-- Give a name a value. -/
def write (env : Env) (x : String) (v : Value) : Eval Unit :=
  match env.frame with
  | .call owned => if owned.contains x then Eval.setLocal x v else Eval.setGlobal x v
  | .outside _ => Eval.setGlobal x v

/-- The class of faults that a name stands for. -/
def faultClass (env : Env) (x : String) (otherwise : Fault) : Eval String := do
  match ← env.read x with
  | .class c => if Fault.classes.contains c then return c else throw otherwise
  | _ => throw otherwise

end Env

mutual

/-- What an expression means in its surroundings. -/
def Expr.meaning (env : Env) : Expr → Meaning
  | .literal v => .ofValue (return .held (.plain v))
  | .name x => .ofValue (env.read x)
  | .binary op a b => .ofValue do
    let u ← (a.meaning env).value
    let v ← (b.meaning env).value
    Eval.binary op.title op u v
  | .compare op a b => .ofValue do
    let u ← (a.meaning env).value
    let v ← (b.meaning env).value
    Eval.compare op u v
  | .unary op a => .ofValue do
    let u ← (a.meaning env).value
    Eval.ofExcept (Value.unary op u)
  | .not a =>
    { Meaning.ofValue do
        let u ← (a.meaning env).value
        return .bool !(← u.truth) with
      truth := do return !(← (a.meaning env).truth) }
  | .and a b => {
      value := do
        let (u, holds) ← (a.meaning env).tested
        if holds then (b.meaning env).value else return u
      truth := do
        if ← (a.meaning env).truth then (b.meaning env).truth else return false
      tested := do
        let (u, holds) ← (a.meaning env).tested
        if holds then (b.meaning env).tested else return (u, false) }
  | .or a b => {
      value := do
        let (u, holds) ← (a.meaning env).tested
        if holds then return u else (b.meaning env).value
      truth := do
        if ← (a.meaning env).truth then return true else (b.meaning env).truth
      tested := do
        let (u, holds) ← (a.meaning env).tested
        if holds then return (u, true) else (b.meaning env).tested }
  | .chain a links =>
    { Meaning.ofValue do
        let u ← (a.meaning env).value
        links.value env u with
      truth := do
        let u ← (a.meaning env).value
        links.truth env u }
  | .ite c a b =>
    { Meaning.ofValue do
        if ← (c.meaning env).truth then (a.meaning env).value else (b.meaning env).value with
      truth := do
        if ← (c.meaning env).truth then (a.meaning env).truth else (b.meaning env).truth }
  | .call f args => .ofValue do
    let callee ← env.read f
    let values ← args.values env
    env.invoke callee values
  | .unknown k x => .ofValue do
    Eval.ofExcept (encodable x)
    return .number (.term (.var k x))
  | .number a => .ofValue do
    return .number (← Eval.ofExcept (← (a.meaning env).value).holdable)
  | .condition a => .ofValue do
    Eval.newCondition (← Eval.ofExcept (← (a.meaning env).value).holdable)
  | .termOf a => .ofValue do
    Eval.ofExcept (← (a.meaning env).value).termOf
  | .formulaOf a => .ofValue do
    return .held (← Eval.ofExcept (← (a.meaning env).value).formulaOf)
  | .negation a => .ofValue do
    let h ← Eval.ofExcept (← (a.meaning env).value).formulaOf
    Eval.newCondition (← Eval.ofExcept h.negated)
  | .method a name args => .ofValue do
    let v ← (a.meaning env).value
    let values ← args.values env
    v.callMethod name values

/-- The values of arguments, from left to right. -/
def Args.values (env : Env) : Args → Eval (List Value)
  | .nil => return []
  | .cons a rest => do
    let v ← (a.meaning env).value
    return v :: (← rest.values env)

/-- The value of a chain whose operand before these comparisons is given: the first comparison
that fails, else the last. -/
def Links.value (env : Env) : Links → Value → Eval Value
  | .last op a, u => do Eval.compare op u (← (a.meaning env).value)
  | .more op a rest, u => do
    let v ← (a.meaning env).value
    let c ← Eval.compare op u v
    if ← c.truth then rest.value env v else return c

/-- The truth of a chain where a condition stands. -/
def Links.truth (env : Env) : Links → Value → Eval Bool
  | .last op a, u => do (← Eval.compare op u (← (a.meaning env).value)).truth
  | .more op a rest, u => do
    let v ← (a.meaning env).value
    if ← (← Eval.compare op u v).truth then rest.truth env v else return false

end

namespace Expr

/-- The value of an expression. -/
def eval (env : Env) (e : Expr) : Eval Value := (e.meaning env).value

/-- The truth of an expression where a condition stands. -/
def test (env : Env) (e : Expr) : Eval Bool := (e.meaning env).truth

end Expr

/-- How a statement ends, if not by a fault. -/
inductive Flow where
  | next
  | exitLoop
  | nextRound
  | result (v : Value)

namespace Flow

/-- A loop: as long as the test holds, go round. -/
def loop (test : Eval Bool) (body : Eval Flow) : Nat → Eval Flow
  | 0 => throw .endless
  | rounds + 1 => do
    let holds ← test
    Eval.note (.side holds)
    if holds then
      match ← body with
      | .next | .nextRound => loop test body rounds
      | .exitLoop => return .next
      | .result v => return .result v
    else return .next

/-- A loop over so many integers from a first one on, `step` apart. -/
def range (body : Int → Eval Flow) (step : Int) : Nat → Int → Eval Flow
  | 0, _ => return .next
  | rounds + 1, i => do
    match ← body i with
    | .next | .nextRound => range body step rounds (i + step)
    | .exitLoop => return .next
    | .result v => return .result v

end Flow

/-- A range of integers: the first, the distance, and how many there are. -/
structure Range where
  first : Int
  step : Int
  count : Nat

namespace Range

/-- The integers from `first` up to `last`, or down to it, without `last`. -/
def between (first last step : Int) : Except Fault Range :=
  if step = 0 then .error .zeroStep
  else
    let span := if 0 < step then last - first else first - last
    .ok ⟨first, step, ((span + step.natAbs - 1) / step.natAbs).toNat⟩

/-- The range of one to three bounds. -/
def ofValues (vs : List Value) : Except Fault Range := do
  match ← vs.mapM Value.toIndex with
  | [last] => between 0 last 1
  | [first, last] => between first last 1
  | [first, last, step] => between first last step
  | ns => throw (.wrongCount ("range expected at most 3 arguments, got " ++ toString ns.length))

end Range

/-- Run a block and, if it fails with a fault of the handler's class, the handler. -/
def Eval.attempt (env : Env) (body : Eval Flow) (className : String) (handler : Eval Flow) :
    Eval Flow :=
  tryCatch body fun f => do
    match f with
    | .endless => throw f
    | _ =>
      let c ← env.faultClass className .notCatchable
      if f.isCaughtBy c then handler else throw f

mutual

/-- Run a statement. -/
def Stmt.exec (env : Env) : Stmt → Eval Flow
  | .assign x e => do
    env.write x (← e.eval env)
    return .next
  | .update x op e => do
    let u ← env.read x
    let v ← e.eval env
    env.write x (← Eval.binary op.updateTitle op u v)
    return .next
  | .branch c yes no => do
    let holds ← c.test env
    Eval.note (.side holds)
    if holds then yes.exec env else no.exec env
  | .loop c body => Flow.loop (c.test env) (body.exec env) env.rounds
  | .range x bounds body => do
    let r ← Eval.ofExcept (Range.ofValues (← bounds.values env))
    Flow.range (fun i => do env.write x (.int i); body.exec env) r.step r.count r.first
  | .result none => return .result .none
  | .result (some e) => return .result (← e.eval env)
  | .discard e => do
    let _ ← e.eval env
    return .next
  | .print text => do
    Eval.print text
    return .next
  | .raise c text => do
    match ← env.read c with
    | .class c =>
      if Fault.classes.contains c then throw (.raised c text)
      else if text.isSome then throw (.wrongCount (c ++ "() takes no arguments"))
      else throw .notAnException
    | _ => throw .notAnException
  | .assert e text => do
    if ← e.test env then return .next else throw (.assertion text)
  | .pass => return .next
  | .exitLoop => return .exitLoop
  | .nextRound => return .nextRound
  | .declareGlobal _ => return .next
  | .attempt body c handler => Eval.attempt env (body.exec env) c (handler.exec env)

/-- Run statements one after the other. -/
def Block.exec (env : Env) : Block → Eval Flow
  | .done => return .next
  | .step line s rest => do
    Eval.note (.line line)
    match ← s.exec env with
    | .next => rest.exec env
    | flow => return flow

end

/-- The value that a function body gives. -/
def Flow.value : Flow → Value
  | .result v => v
  | _ => .none

/-- Call a value, with loops of at most so many rounds and calls nested at most so deep. -/
def invoke (functions : List Function) (rounds depth : Nat) (callee : Value) (args : List Value)
    (keywords : List (String × Value)) : Eval Value :=
  match callee with
  | .function i =>
    match functions[i]? with
    | none => throw (.notCallable "function")
    | some f =>
      match f.bind args keywords with
      | .error cause => throw (.binding f.name cause)
      | .ok locals =>
        match depth with
        | 0 => throw .tooDeep
        | depth + 1 =>
          let env : Env :=
            ⟨.call f.owned, rounds, fun g vs => invoke functions rounds depth g vs []⟩
          Eval.within locals do return (← f.body.exec env).value
  | .builtin b => b.apply args
  | .class c =>
    if args.isEmpty && keywords.isEmpty then return .object (← Eval.fresh) c
    else throw (.wrongCount (c ++ "() takes no arguments"))
  | v => throw (.notCallable v.typeName)

end Pathwise
