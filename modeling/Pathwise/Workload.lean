import Pathwise.Command.Tool
import Pathwise.Held.Arithmetic
import Pathwise.Sample.Programs

/-!
# Workloads

Five pieces of work of known results that exercise one part of the library each: arithmetic on
symbolic numbers that hold plain integers, writing out models, exploring a function, exploring a
module, and a run of the tool.
-/

namespace Pathwise

namespace Workload

/-- The number of rounds of arithmetic for a size: one for every thirty operations, and at least
one. -/
def rounds (size : Int) : Nat := max 1 (size.fdiv 30).toNat

/-- The polynomial `4 a² - 3 a + 8 + a mod 7`, computed by the operators of symbolic numbers. -/
def polynomial (a : Int) : Except Fault Held := do
  let x := Held.plain (.int a)
  let const (n : Int) := Held.plain (.int n)
  let square ← Held.arith (.ring .mul) (← Held.arith (.ring .mul) x x) (const 4)
  let linear ← Held.arith (.ring .sub) square (← Held.arith (.ring .mul) x (const 3))
  Held.arith (.ring .add) (← Held.arith (.ring .add) linear (const 8))
    (← Held.arith .mod x (const 7))

/-- The sum of the polynomial over consecutive integers from three on, one for each round. -/
def arithmetic (size : Int) : Except Fault Held :=
  (List.range (rounds size)).foldlM
    (fun acc (i : Nat) => do Held.arith (.ring .add) acc (← polynomial (i + 3))) (.plain (.int 0))

/-- The test for a model that declares nothing, with as many parameters as the size says and at
least one. -/
def description (size : Int) : Test :=
  Model.padding ((List.range (max 1 size.toNat)).map fun (i : Nat) => "p" ++ decimal i)

/-- A function that tells three ranges of a number apart. -/
def ranges : Definition :=
  Sample.define 1 "ranges" ["x"] [
    (2, .branch (.compare (.order .gt) (.name "x") (Sample.num 10))
      (.ofList [(3, .branch (.compare (.order .gt) (.name "x") (Sample.num 20))
        (.ofList [(4, .result (some (Sample.num 2)))])
        (.ofList [(6, .result (some (Sample.num 1)))]))])
      (.ofList [(8, .result (some (Sample.num 0)))]))]

/-- A function that tells the sign of a number. -/
def sign (line : Nat) (name : String) : Definition :=
  Sample.define line name ["x"] [
    (line + 1, .branch (.compare (.order .lt) (.name "x") (Sample.num 0))
      (.ofList [(line + 2, Sample.answer true)])
      (.ofList [(line + 4, Sample.answer false)]))]

/-- The tests that exploring a program finds, function by function. -/
def testsOf (solver : Solver) (view : View) (p : Program) : List (String × List Test) :=
  match Module.load .standard p with
  | .ok m => (m.exploreAll solver view ⟨[], []⟩).tests
  | .error _ => []

/-- The tests for three ranges of a number. -/
def branching (solver : Solver) (view : View) : List Test :=
  (testsOf solver view (Sample.moduleOf [ranges])).flatMap Prod.snd

/-- How many tests each function of a module of two has. -/
def survey (solver : Solver) (view : View) : List Nat :=
  (testsOf solver view (Sample.moduleOf [sign 1 "first", sign 7 "second"])).map
    fun (_, tests) => tests.length

/-- How many files a run of the tool on a small target writes. -/
def filesWritten (solver : Solver) (view : View) : Nat :=
  let run := Tool.run solver view .standard
    (Path.read [(["work", "sign.py"], Sample.moduleOf [sign 1 "sign"])]) "" ["-t", "work/sign.py"]
  run.written.toList.length

end Workload

end Pathwise
