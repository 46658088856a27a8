import Pathwise.Program.Module
import Pathwise.Solver.Decision

/-!
# Exploring the functions of a module

* `Module.target` is a call of a function as something to explore.
* `Module.testFunction` explores a call with given arguments.
* `Module.exploreFunction` explores a call in which every parameter is an unknown.
* `Module.exploreAll` explores all functions of a module whose names do not start with two
  underscores, one after the other. A fault that ends the search of one ends all of it.
-/

namespace Pathwise

/-- The record of exploring one function: its own name, its parameters and what was found. -/
structure Record where
  function : String
  params : List String
  leaves : List Leaf

/-- How a test is shown, given the conditions it was made for and the parameters. -/
abbrev View := List Held → List String → Test → Test

namespace View

/-- Every test as it is. -/
def exact : View := fun _ _ t => t

/-- Only what does not depend on the choice of a model. -/
def general (solver : Solver) : View := fun conditions params t =>
  match Held.toFormulas conditions with
  | .ok φs => solver.generalize φs params
  | .error _ => t

end View

namespace Record

/-- The tests of a record, as they are shown. -/
def tests (r : Record) (view : View) : List Test :=
  r.leaves.filterMap fun leaf => leaf.test.map (view leaf.conditions r.params)

end Record

namespace Module

/-- A call as something to explore. -/
def target (m : Module) (index : Nat) (args : List Value)
    (keywords : List (String × Value)) : Target Memory := fun memory => do
  let (result, s) ← m.invoke (.function index) args keywords (State.start memory)
  return ⟨s.memory, s.output.reverse, Fault.of? result⟩

/-- The function at a place of the table. -/
def function? (m : Module) (index : Nat) : Option Function := m.functions[index]?

/-- The outcome of exploring one function. -/
structure Finding where
  module : Module
  trail : Trail
  output : List String
  /-- Missing if the search did not start. -/
  record : Option Record
  result : Except Fault (List Test)

/-- Explore a call with given arguments. -/
def testFunction (solver : Solver) (m : Module) (index : Nat) (args : List Value)
    (keywords : List (String × Value)) (trail : Trail) : Finding :=
  match m.function? index with
  | none => ⟨m, trail, [], none, .error (.notCallable "NoneType")⟩
  | some f =>
    let e := explore solver f.paramNames (m.target index args keywords) m.memory
    ⟨{ m with memory := e.world }, e.trail, e.output, some ⟨f.name, f.paramNames, e.leaves⟩,
      e.result⟩

/-- Explore a call in which every parameter is an unknown of its name, passed by position. -/
def exploreFunction (solver : Solver) (m : Module) (index : Nat) (trail : Trail) : Finding :=
  match m.function? index with
  | none => ⟨m, trail, [], none, .error (.notCallable "NoneType")⟩
  | some f =>
    match f.paramNames.forM encodable with
    | .error cause => ⟨m, trail, [], none, .error cause⟩
    | .ok _ => testFunction solver m index (f.paramNames.map .unknown) [] trail

/-- The outcome of exploring all functions. -/
structure Survey where
  module : Module
  trail : Trail
  output : List String
  records : List Record
  /-- The tests of the functions whose search did not fail. -/
  tests : List (String × List Test)
  /-- The fault that ended the exploration early. -/
  escape : Option Fault

/-- The tests that the exploration of a module returns, or the fault that it ends with. -/
def Survey.result (s : Survey) : Except Fault (List (String × List Test)) :=
  match s.escape with
  | none => .ok s.tests
  | some f => .error f

/-- The text of a list of tests. -/
def testsText (tests : List Test) : String :=
  Text.bracketed (tests.map fun t => Text.bracketed (t.map fun e => Text.quoted e.text))

/-- Explore one function under a name and report on it, unless its search ends all exploring. -/
def surveyOne (solver : Solver) (view : View) (s : Survey) (name : String) (index : Nat) :
    Survey :=
  let found := exploreFunction solver s.module index s.trail
  let shown := (found.record.map fun r => r.tests view).getD []
  let (lines, tests, escape) := match found.result with
    | .ok _ => (["Tests for " ++ name ++ ": " ++ testsText shown], s.tests ++ [(name, shown)], none)
    | .error f =>
      if f.escapes then ([], s.tests, some f)
      else (["Error executing " ++ name ++ ": " ++ f.message], s.tests, none)
  ⟨found.module, found.trail, s.output ++ ["Executing " ++ name] ++ found.output ++ lines,
    s.records ++ found.record.toList, tests, escape⟩

/-- Explore functions one after the other, up to one whose search ends all exploring. -/
def surveyFrom (solver : Solver) (view : View) : List (String × Nat) → Survey → Survey
  | [], s => s
  | (name, index) :: rest, s =>
    let s := surveyOne solver view s name index
    if s.escape.isSome then s else surveyFrom solver view rest s

/-- Explore all functions of a module. -/
def exploreAll (solver : Solver) (view : View) (m : Module) (trail : Trail) : Survey :=
  surveyFrom solver view (m.members.filter fun (name, _) => !name.startsWith "__")
    ⟨m, trail, [], [], [], none⟩

end Module

end Pathwise
