import Pathwise.Solver.Basic
import Pathwise.Fault

/-!
# Tests

A test gives every parameter of a function a value. It is written as a list of entries
`name = value`.

* `Model.describe` makes a test of a model: first what the model declares, then zero for the
  parameters it leaves out, the last parameter first.
* `generalize` is the part of a test that does not depend on the choice of a model: a value is
  shown only if the conditions admit no other.
-/

namespace Pathwise

/-- The value in an entry. -/
inductive Shown where
  | reading (r : Reading)
  /-- More than one value is possible. -/
  | any
  deriving DecidableEq, Repr

namespace Shown

/-- The text of a value in an entry. -/
def text : Shown → String
  | .reading r => r.text
  | .any => "*"

/-- The value of a parameter that nothing is known about. -/
abbrev zero : Shown := .reading (.int 0)

end Shown

/-- One parameter and its value. -/
structure Entry where
  name : String
  value : Shown
  deriving DecidableEq, Repr

namespace Entry

/-- The text of an entry. -/
def text (e : Entry) : String := e.name ++ " = " ++ e.value.text

end Entry

/-- A value for every parameter. -/
abbrev Test := List Entry

namespace Model

/-- Entries of zero for parameters, the last one first. -/
def padding (params : List String) : Test :=
  params.reverse.map fun x => ⟨x, .zero⟩

/-- Match declarations against parameters: the test, and the parameters that are left. The first
declaration that is no parameter ends it. -/
def describeEntries : List (String × Reading) → List String → Except Fault Test × List String
  | [], params => (.ok (padding params), [])
  | (x, r) :: rest, params =>
    if x ∈ params then
      let (test, left) := describeEntries rest (params.erase x)
      (test.map (⟨x, .reading r⟩ :: ·), left)
    else (.error .foreignUnknown, params)

/-- The test that a model describes. -/
def describe (m : Model) (params : List String) : Except Fault Test × List String :=
  describeEntries m.entries params

end Model

namespace Solver

/-- The formula that an unknown has another value than the given reading. -/
def differs (u : Unknown) : Reading → Option Formula
  | .int n => some (.distinct (.var .int u.name) (.int n))
  | .bool b => some (.distinct (.var .bool u.name) (.bool b))
  | .real q => some (.distinct (.var .real u.name) (.real q))
  | .modZero _ | .power _ => none

/-- The only value that an unknown can have, if there is only one. -/
def forced? (s : Solver) (φs : List Formula) (u : Unknown) : Option Reading := do
  let m ← s φs
  let r ← m.read? u
  let other ← differs u r
  if s.admits (φs ++ [other]) then none else some r

/-- The value of an unknown as far as the conditions fix it. -/
def shown (s : Solver) (φs : List Formula) (u : Unknown) : Shown :=
  match s.forced? φs u with
  | some r => .reading r
  | none => .any

/-- The part of a test that all models of the conditions share. -/
def generalize (s : Solver) (φs : List Formula) (params : List String) : Test :=
  let met := Formula.unknownsOf φs
  let known := params.eraseDups.filterMap fun x => met.find? fun u => u.name = x
  let left := known.foldl (fun ps u => ps.erase u.name) params
  known.map (fun u => ⟨u.name, s.shown φs u⟩) ++ Model.padding left

end Solver

end Pathwise
