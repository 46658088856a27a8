import Pathwise.Search.Trail
import Pathwise.Search.Entry

/-!
# Exploring a target

A target is run again and again, each time along the next path, until all paths are explored.
Each run ends at a leaf: the conditions of the sides it took, and a test that takes them again.

* `nextPath` is the successor of a path, true sides before false ones.
* `explore` is the whole search.

A target may keep a world of its own from run to run. A run that ends with a fault is explored like
any other, unless the fault is one of those that end the search (`Fault.escapes`).
-/

namespace Pathwise

/-- How a run of a target ends. -/
structure Ending (ω : Type) where
  world : ω
  /-- Texts printed, in order. -/
  output : List String
  /-- The fault that ended the run, if one did. -/
  fault : Option Fault

/-- Something to explore: a run for every state of its world. -/
abbrev Target (ω : Type) := ω → Run (Ending ω)

namespace Ending

variable {ω : Type}

/-- Whether a run ends with a fault that ends the search as well. -/
def escapes (e : Ending ω) : Bool := e.fault.any Fault.escapes

/-- This fault. -/
def escape? (e : Ending ω) : Option Fault := e.fault.filter Fault.escapes

/-- All that is printed for a run, the text of a fault last if the search has caught it. -/
def printed (e : Ending ω) : List String :=
  e.output ++ (e.fault.filter fun f => !f.escapes).toList.map Fault.message

end Ending

/-- The next path to take: false sides at the end are done with, and the last true one becomes
false. After the last path there is none. -/
def nextPath : List Bool → Option (List Bool)
  | [] => none
  | side :: rest =>
    match nextPath rest with
    | some next => some (side :: next)
    | none => if side then some [false] else none

/-- The end of a run: how it got there and what takes a run there again. -/
structure Leaf where
  path : List Bool
  conditions : List Held
  model : Model
  /-- Missing if the model speaks of something that is no parameter. -/
  test : Option Test

/-- The record of a search. -/
structure Exploration (ω : Type) where
  /-- The trail when the search ended. -/
  trail : Trail
  world : ω
  /-- Everything printed, in order. -/
  output : List String
  leaves : List Leaf
  /-- The tests, or the fault that ended the search early. -/
  result : Except Fault (List Test)

namespace Exploration

variable {ω : Type}

/-- A search whose first run ended at `leaf` and which then went on as `rest`. -/
def prepend (output : List String) (leaf : Leaf) (test : Test) (rest : Exploration ω) :
    Exploration ω :=
  { rest with
    output := output ++ rest.output
    leaves := leaf :: rest.leaves
    result := rest.result.map (test :: ·) }

end Exploration

/-- Look for a model of conditions. -/
def Solver.solve (solver : Solver) (conditions : List Held) : Except Fault (Option Model) :=
  (Held.toFormulas conditions).map solver

variable {ω : Type}

/-- What follows a run that ended on the trail `t` with a result or a fault that was caught: find
its test, and go on along the next path with `resume`. -/
def proceed (solver : Solver) (params : List String) (e : Ending ω) (t : Trail)
    (resume : List Bool → Exploration ω) : Exploration ω :=
  match solver.solve t.conditions with
  | .error f => ⟨t, e.world, e.printed, [], .error f⟩
  | .ok none => ⟨t, e.world, e.printed, [], .error .noModel⟩
  | .ok (some m) =>
    match (m.describe params).1 with
    | .error f =>
      ⟨t, e.world, e.printed, [⟨t.path, t.conditions, m, none⟩], .error f⟩
    | .ok test =>
      let leaf : Leaf := ⟨t.path, t.conditions, m, some test⟩
      match nextPath t.path with
      | none => ⟨⟨[], t.conditions⟩, e.world, e.printed, [leaf], .ok [test]⟩
      | some path => (resume path).prepend e.printed leaf test

/-- What follows a run that ended on the trail `t`. -/
def conclude (solver : Solver) (params : List String) (e : Ending ω) (t : Trail)
    (resume : List Bool → Exploration ω) : Exploration ω :=
  match e.escape? with
  | some f => ⟨t, e.world, e.printed, [], .error f⟩
  | none => proceed solver params e t resume

/-- Search from a path on, with at most the given number of runs. -/
def exploreFrom (solver : Solver) (params : List String) (target : Target ω) :
    Nat → List Bool → ω → Exploration ω
  | 0, path, w => ⟨.start path, w, [], [], .ok []⟩
  | runs + 1, path, w =>
    let ending := (target w).play solver (.start path)
    conclude solver params ending.1 ending.2 fun next =>
      exploreFrom solver params target runs next ending.1.world

/-- Search all paths of a target. There are no more of them than sides of `depthLimit` tests. -/
def explore (solver : Solver) (params : List String) (target : Target ω) (w : ω) :
    Exploration ω :=
  exploreFrom solver params target (Nat.pow 2 depthLimit) [] w

end Pathwise
