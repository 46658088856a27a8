import Pathwise.Json.Basic

/-!
# Reference coverage of the samples

The lines of each sample program that its tests are expected to execute, and those of the test
files themselves. Two lines of the fourth sample are executed by no test.
-/

namespace Pathwise

namespace Sample

/-- The executed lines of each file. -/
def executedLines : List (String × List Nat) := [
  ("example1.py", [1, 2, 3, 4, 5, 7]),
  ("example2.py", [1, 2, 3, 4, 5, 7, 9, 11]),
  ("example3.py", [1, 2, 3, 4, 6]),
  ("example4.py", [1, 2, 5, 7, 8, 10, 11, 13]),
  ("example5.py", [1, 2, 3, 5, 7, 8, 9, 10, 11, 12, 14, 16, 17, 18, 20]),
  ("example6.py", [3, 4, 5, 7, 8, 9, 11, 12, 13, 14, 16]),
  ("test_example1.py", [1, 3, 5, 6, 7, 8, 10]),
  ("test_example2.py", [1, 3, 5, 6, 7, 8, 9, 11]),
  ("test_example3.py", [1, 3, 5, 6, 7, 9]),
  ("test_example4.py", [1, 3, 5, 6, 8, 9, 10, 11, 13]),
  ("test_example5.py", [1, 3, 5, 6, 7, 9, 10, 11, 12, 13, 14, 15, 16, 17, 18, 20]),
  ("test_example6.py", [1, 3, 5, 6, 7, 8, 9, 11])]

/-- The executed lines as coverage data. -/
def reference : Json :=
  .object [("files", .object (executedLines.map fun (file, lines) =>
    (file, .object [("executed_lines", .list (lines.map fun (n : Nat) => .int n))])))]

end Sample

end Pathwise
