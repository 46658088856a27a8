import Pathwise.Program.Interpreter
import Pathwise.Search.Exploration

/-!
# Modules

Loading a program executes it once: variables, classes, functions with the values of their
defaults, and further names, in that order. The result is a table of functions and the first
memory.
-/

namespace Pathwise

namespace Run

variable {α : Type}

/-- The result of a run that has no one to ask: every question fails. -/
def unanswered : Run α → α
  | .done a => a
  | .ask _ k => (k (.error .symbolicTruth)).unanswered

end Run

/-- A loaded program. -/
structure Module where
  functions : List Function
  memory : Memory
  /-- How far runs of its code can go. -/
  limits : Limits

namespace Module

/-- Call a value with the functions of the module. -/
def invoke (m : Module) (callee : Value) (args : List Value)
    (keywords : List (String × Value)) : Eval Value :=
  Pathwise.invoke m.functions m.limits.rounds m.limits.calls callee args keywords

/-- The surroundings of code outside of all functions. -/
def outer (m : Module) : Env := ⟨.call [], m.limits.rounds, fun f vs => m.invoke f vs []⟩

/-- Run code of the module that is in no function. -/
def run (m : Module) (code : Env → Eval Value) : Except Fault Value × Memory :=
  let (r, s) := (code m.outer (State.start m.memory)).unanswered
  (r, s.memory)

/-- Give a name of the module a value. -/
def define (m : Module) (x : String) (v : Value) : Module :=
  { m with memory := { m.memory with globals := m.memory.globals.set x v } }

/-- Execute an assignment. -/
def assign (m : Module) (x : String) (e : Expr) : Except Fault Module := do
  let (r, memory) := m.run e.eval
  return { m with memory }.define x (← r)

/-- The default value of a parameter. -/
def parameter (m : Module) (p : Param) : Except Fault Parameter := do
  match p.default? with
  | none => return ⟨p.name, p.kind, none⟩
  | some e => return ⟨p.name, p.kind, some (← (m.run e.eval).1)⟩

/-- Execute a function definition. -/
def addFunction (m : Module) (d : Definition) : Except Fault Module := do
  let params ← d.params.mapM m.parameter
  let f : Function := ⟨d.name, params, d.body⟩
  return { m with functions := m.functions ++ [f] }.define d.name (.function m.functions.length)

/-- Give something another name. -/
def addAlias (m : Module) (new old : String) : Except Fault Module := m.assign new (.name old)

/-- Execute a program. The limits hold for loading it and for all runs of its code. -/
def load (limits : Limits) (p : Program) : Except Fault Module := do
  let m ← p.globals.foldlM (fun m (x, e) => m.assign x e) ⟨[], ⟨[], 0⟩, limits⟩
  let m := p.classes.foldl (fun m c => m.define c (.class c)) m
  let m ← p.functions.foldlM addFunction m
  p.aliases.foldlM (fun m (new, old) => m.addAlias new old) m

/-- Call what a name of the module stands for on plain values: the result, and what was printed. -/
def call (m : Module) (name : String) (args : List Plain) : Except Fault Value × List String :=
  match m.memory.globals.lookup name with
  | none => (.error (.undefinedName name), [])
  | some f =>
    let (r, s) :=
      (m.invoke f (args.map fun v => .held (.plain v)) [] (State.start m.memory)).unanswered
    (r, s.output.reverse)

/-- The functions of a module under their names, in the order of the names. -/
def members (m : Module) : List (String × Nat) :=
  let found := m.memory.globals.filterMap fun
    | (x, .function i) => some (x, i)
    | _ => none
  found.mergeSort fun a b => a.1 ≤ b.1

end Module

end Pathwise
