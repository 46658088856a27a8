import Pathwise.Run
import Pathwise.Program.Binding

/-!
# The state of a running program

* `Memory` is what outlives a call: the variables of the module.
* `State` is what a run works on: the memory, the variables of the current call, what was printed,
  and a trace of what happened, with the variables of that time.
* `Eval` is a computation on the state that may fail and may ask for truth.

Stamps give conditions their identity. The memory remembers a stamp above all those that its
values carry; a run counts on from there, so a run that leaves the variables of the module alone
leaves the memory as it was.
-/

namespace Pathwise

/-- The variables of a module. -/
structure Memory where
  globals : Scope
  /-- A stamp above all stamps in the variables. -/
  stamp : Nat

/-- What a trace tells of a run. -/
inductive Event where
  /-- A statement on a line was reached. -/
  | line (n : Nat)
  /-- The condition of a branch or of a loop had an outcome. -/
  | side (holds : Bool)
  /-- Operands that cannot be exchanged were exchanged. -/
  | exchange
  deriving DecidableEq, Repr

/-- What a run works on. -/
structure State where
  memory : Memory
  locals : Scope
  stamp : Nat
  /-- Printed texts, the last one first. -/
  output : List String
  /-- What happened, the last event first. -/
  trace : List Event
  /-- The variables of the call in which it happened, for each event. -/
  stores : List Scope

namespace State

/-- The state at the start of a run. -/
def start (m : Memory) : State := ⟨m, [], m.stamp, [], [], []⟩

/-- The executed lines, in order. -/
def lines (s : State) : List Nat :=
  s.trace.reverse.filterMap fun
    | .line n => some n
    | _ => none

end State

/-- Computations of a running program. -/
abbrev Eval := ExceptT Fault (StateT State Run)

namespace Eval

/-- Ask whether a condition holds. -/
def ask (h : Held) : Eval Bool := fun s => .ask h fun answer => .done (answer, s)

/-- A stamp that no value carries. -/
def fresh : Eval Nat := do
  let s ← get
  set { s with stamp := s.stamp + 1 }
  return s.stamp

/-- Print a text. -/
def print (text : String) : Eval Unit := modify fun s => { s with output := text :: s.output }

/-- Note an event. -/
def note (e : Event) : Eval Unit :=
  modify fun s => { s with trace := e :: s.trace, stores := s.locals :: s.stores }

/-- Take a result that may be a fault. -/
def ofExcept {α : Type} : Except Fault α → Eval α
  | .ok a => pure a
  | .error f => throw f

/-- Work with other local variables, and return to those of now whatever happens. -/
def within {α : Type} (locals : Scope) (body : Eval α) : Eval α := fun s => do
  let (result, after) ← body { s with locals := locals }
  return (result, { after with locals := s.locals })

/-- Give a variable of the current call a value. -/
def setLocal (x : String) (v : Value) : Eval Unit :=
  modify fun s => { s with locals := s.locals.set x v }

/-- Give a variable of the module a value. -/
def setGlobal (x : String) (v : Value) : Eval Unit :=
  modify fun s => { s with memory := ⟨s.memory.globals.set x v, s.stamp⟩ }

end Eval

end Pathwise
