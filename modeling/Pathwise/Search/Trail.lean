import Pathwise.Run
import Pathwise.Solver.Basic

/-!
# The trail of a run

A trail is the state in which a run is answered: the `path` says which side to take at each
recorded test, and `conditions` are the sides taken so far in this run. While the conditions are
fewer than the path is long, the run replays the path; after that it extends it.

* `Trail.decide` answers one test.
* `Run.play` answers a whole run.
-/

namespace Pathwise

/-- Sides to take, and the conditions of the sides taken. -/
structure Trail where
  path : List Bool
  conditions : List Held

/-- How many tests a path can record. -/
def depthLimit : Nat := 15

namespace Trail

/-- No side taken, along a given path. -/
def start (path : List Bool) : Trail := ⟨path, []⟩

/-- Take a side of a test that either side of is possible. -/
def record (t : Trail) (φ : Held) (p : Formula) (side : Bool) : List Held :=
  t.conditions ++ [if side then φ else .term (.not p)]

/-- Answer a test of which both sides, or neither, are possible: from the path while it lasts,
else with true. -/
def branch (t : Trail) (φ : Held) (p : Formula) : Except Fault Bool × Trail :=
  match t.path[t.conditions.length]? with
  | some side => (.ok side, { t with conditions := t.record φ p side })
  | none =>
    if depthLimit ≤ t.path.length then (.error .depthLimit, t)
    else (.ok true, ⟨t.path ++ [true], t.record φ p true⟩)

/-- Answer a test. If only one side is possible it is the answer, and the trail stays as it is. -/
def decide (solver : Solver) (φ : Held) (t : Trail) : Except Fault Bool × Trail :=
  match Held.toFormulas t.conditions, φ.toFormula with
  | .error f, _ => (.error f, t)
  | .ok _, .error f => (.error f, t)
  | .ok given, .ok p =>
    let canHold := solver.admits (given ++ [p])
    let canFail := solver.admits (given ++ [.not p])
    if canHold && !canFail then (.ok true, t)
    else if canFail && !canHold then (.ok false, t)
    else t.branch φ p

end Trail

namespace Run

variable {α : Type}

/-- Answer all tests of a run, starting from a trail. -/
def play (solver : Solver) : Run α → Trail → α × Trail
  | .done a, t => (a, t)
  | .ask φ k, t => (k (t.decide solver φ).1).play solver (t.decide solver φ).2

end Run

end Pathwise
