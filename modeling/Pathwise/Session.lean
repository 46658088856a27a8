import Pathwise.Analysis

/-!
# Sessions

A session works on one module and one trail, step by step. Names in its expressions are the
functions and variables of the module as they were at the start, and registers that earlier steps
have set.

`Session.perform` does one step. What went wrong in a step does not end the session: the step
answers with the fault, and the trail is as the step left it.
-/

namespace Pathwise

/-- A session between two steps. -/
structure Session where
  module : Module
  names : Scope
  trail : Trail

/-- What a session can be asked to do. -/
inductive Step where
  /-- Evaluate an expression and keep it in a register, if one is named. -/
  | eval (e : Expr) (register : Option String)
  /-- Set the path and the conditions. -/
  | setTrail (path : List Bool) (conditions : List Expr)
  /-- Look for a model of the conditions, or of those of the trail. -/
  | solve (conditions : Option (List Expr))
  /-- Describe a model of the conditions, or of those of the trail, as a test. -/
  | describe (conditions : Option (List Expr)) (params : List String)
  /-- List the parameters of a function. -/
  | params (f : String)
  /-- Explore a function on unknowns. -/
  | explore (f : String)
  /-- Explore a call. -/
  | test (f : String) (args : List Expr) (keywords : List (String × Expr))
  /-- Explore all functions. -/
  | exploreAll

/-- What a step yields. -/
inductive Outcome where
  | none
  | value (v : Value)
  | unsatisfiable
  /-- The unknowns, each with its value if there is only one. -/
  | satisfiable (forced : List (String × Option Reading))
  | test (t : Test) (left : List String)
  | names (xs : List String)
  | count (n : Nat)
  | counts (ns : List (String × Nat))

/-- The answer to a step. -/
structure Reply where
  result : Except Fault Outcome
  /-- For steps that explore, the functions for which a leaf was found. -/
  records : Option (List Record)
  /-- Printed texts. -/
  output : List String

namespace Session

/-- A session on a module. -/
def start (m : Module) : Session := ⟨m, m.memory.globals, ⟨[], []⟩⟩

/-- An answer without more to it. -/
def plainly (result : Except Fault Outcome) : Reply := ⟨result, none, []⟩

/-- Run code on the session's trail. The memory afterwards knows all stamps given out. -/
def run {α : Type} (solver : Solver) (s : Session) (code : Env → Eval α) :
    Except Fault α × List String × Session :=
  let env : Env :=
    ⟨.outside s.names, s.module.limits.rounds, fun f vs => s.module.invoke f vs []⟩
  let ((r, after), trail) := (code env (State.start s.module.memory)).play solver s.trail
  let memory : Memory := ⟨after.memory.globals, after.stamp⟩
  (r, after.output.reverse, { s with module := { s.module with memory }, trail })

/-- What an expression contributes to a list of conditions. -/
def conditionOf (env : Env) (e : Expr) : Eval Held := do
  let v ← e.eval env
  match v.toHeld? with
  | some h => return h
  | none => throw (.booleanExpected v.typeName v.typeName)

/-- The values of conditions. -/
def conditions (solver : Solver) (s : Session) (es : List Expr) :
    Except Fault (List Held) × List String × Session :=
  s.run solver fun env => es.mapM (conditionOf env)

/-- The given conditions, or those of the trail. -/
def given (solver : Solver) (s : Session) (es : Option (List Expr)) :
    Except Fault (List Held) × List String × Session :=
  match es with
  | some es => s.conditions solver es
  | none => (.ok s.trail.conditions, [], s)

/-- Look for a model and say which unknowns it leaves no choice for. -/
def solveConditions (solver : Solver) (hs : List Held) : Except Fault Outcome := do
  let φs ← Held.toFormulas hs
  if solver.admits φs then
    return .satisfiable ((Formula.unknownsOf φs).map fun u => (u.name, solver.forced? φs u))
  else return .unsatisfiable

/-- Describe a model as a test, showing only what does not depend on the model. -/
def describeConditions (solver : Solver) (hs : List Held) (params : List String) :
    Except Fault Outcome := do
  let φs ← Held.toFormulas hs
  match solver φs with
  | none => throw .noModel
  | some m =>
    let (test, left) := m.describe params
    let test ← test
    return .test (View.general solver hs params test) left

/-- The function of a name. -/
def function (s : Session) (name : String) : Except Fault Nat :=
  match s.names.lookup name with
  | some (.function i) => .ok i
  | some v => .error (.notCallable v.typeName)
  | none => .error (.undefinedName name)

/-- The answer of an exploration of one function. -/
def report (s : Session) (found : Module.Finding) (printed : List String) : Reply × Session :=
  (⟨found.result.map fun ts => .count ts.length,
      some (found.record.toList.filter fun r => !r.leaves.isEmpty), printed ++ found.output⟩,
    { s with module := found.module, trail := found.trail })

/-- The answer of a step that fails before it explores. -/
def failed (f : Fault) (printed : List String) (s : Session) : Reply × Session :=
  (⟨.error f, some [], printed⟩, s)

/-- Do one step. -/
def perform (solver : Solver) (s : Session) : Step → Reply × Session
  | .eval e register =>
    let (r, printed, s) := s.run solver fun env => e.eval env
    let names := match r, register with
      | .ok v, some x => s.names.set x v
      | _, _ => s.names
    (⟨r.map .value, none, printed⟩, { s with names })
  | .setTrail path es =>
    let (r, printed, s) := s.conditions solver es
    match r with
    | .ok hs => (⟨.ok .none, none, printed⟩, { s with trail := ⟨path, hs⟩ })
    | .error f => (⟨.error f, none, printed⟩, s)
  | .solve es =>
    let (r, printed, s) := s.given solver es
    (⟨r.bind (solveConditions solver), none, printed⟩, s)
  | .describe es params =>
    let (r, printed, s) := s.given solver es
    (⟨r.bind fun hs => describeConditions solver hs params, none, printed⟩, s)
  | .params name =>
    (plainly do
      let i ← s.function name
      return .names ((s.module.function? i).map Function.paramNames |>.getD []), s)
  | .explore name =>
    match s.function name with
    | .error f => failed f [] s
    | .ok i => s.report (s.module.exploreFunction solver i s.trail) []
  | .test name args keywords =>
    let (r, printed, s) := s.run solver fun env => do
      let keywords ← keywords.mapM fun (k, e) => do return (k, ← e.eval env)
      let args ← args.mapM fun e => e.eval env
      return (args, keywords)
    match r, s.function name with
    | .ok (args, keywords), .ok i =>
      s.report (s.module.testFunction solver i args keywords s.trail) printed
    | .error f, _ => failed f printed s
    | _, .error f => failed f printed s
  | .exploreAll =>
    let found := s.module.exploreAll solver (.general solver) s.trail
    (⟨found.result.map fun tests => .counts (tests.map fun (x, ts) => (x, ts.length)),
        some (found.records.filter fun r => !r.leaves.isEmpty), found.output⟩,
      { s with module := found.module, trail := found.trail })

end Session

end Pathwise
