import Pathwise.Search.Entry
import Pathwise.Term.Text

/-!
# Test files

A test file calls each function with the values of each of its tests: a header that imports the
functions, then one test case for each test, numbered through from zero.
-/

namespace Pathwise

namespace TestFile

/-- The first line of every test file. -/
def opening : String := "import pytest\n"

/-- The line that imports the functions of a module. -/
def importing (module : String) : String := "from " ++ module ++ " import *\n "

/-- A test as arguments of a call. -/
def arguments (test : Test) : String := ",".intercalate (test.map Entry.text)

/-- One test case. -/
def testCase (number : Nat) (function : String) (test : Test) : String :=
  "\ndef test_case_" ++ decimal number ++ "(): \n  " ++ function ++ "(" ++ arguments test ++ ")"

/-- All tests with the functions they are for, in order. -/
def calls (tests : List (String × List Test)) : List (String × Test) :=
  tests.flatMap fun (f, ts) => ts.map fun t => (f, t)

/-- The test cases, numbered from zero. -/
def testCases (tests : List (String × List Test)) : List String :=
  (calls tests).zipIdx.map fun ((f, t), i) => testCase i f t

/-- The text of a test file. -/
def text (module : String) (tests : List (String × List Test)) : String :=
  opening ++ importing module ++ String.join (testCases tests)

end TestFile

end Pathwise
