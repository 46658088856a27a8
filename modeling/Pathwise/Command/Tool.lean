import Pathwise.Analysis
import Pathwise.Command.Arguments
import Pathwise.Command.Path
import Pathwise.Command.TestFile

/-!
# The command-line tool

The tool explores all functions of a target and writes a test file beside it. The file is called
after the target with `test_` in front.

`Tool.run` is the whole of it, up to reading the target and writing the file: `read` gives the
program behind a path, and the outcome names the file to write and its text. The name of the
module that the test file imports is cut out of the path: what stands before the first dot, and of
that what stands between the first and the second slash. A path without these parts ends the run
with a fault, the latter after the opening of the test file is written.
-/

namespace Pathwise

namespace Tool

/-- The name of the tool. -/
def name : String := "psym.py"

/-- How the tool is called. -/
def usage : String := "usage: " ++ name ++ " [-h] -t TARGET"

/-- The help text, line by line. -/
def help : List String := [
  usage,
  "",
  "Symbolically execute all functions in a specified file.",
  "",
  "options:",
  "  -h, --help            show this help message and exit",
  "  -t TARGET, --target TARGET",
  "                        the target file to symbolically execute"]

/-- Causes for which the tool breaks off. -/
inductive Failure where
  /-- The name of the target does not end as that of a program does. -/
  | noLoader
  | unreadable (cause : Path.Obstacle) (path : String)
  /-- The path has too few parts. -/
  | shortPath
  /-- Executing the target failed, or exploring it was ended by a fault. -/
  | program (cause : Fault)
  deriving DecidableEq, Repr

namespace Failure

/-- The text that goes with a failure. -/
def message : Failure → String
  | .noLoader => "'NoneType' object has no attribute 'loader'"
  | .unreadable cause path => cause.message ++ ": " ++ Text.quoted path
  | .shortPath => "list index out of range"
  | .program cause => cause.message

/-- The class of a failure. -/
def className : Failure → String
  | .noLoader => "AttributeError"
  | .unreadable .missing _ => "FileNotFoundError"
  | .unreadable .notDirectory _ => "NotADirectoryError"
  | .unreadable .isDirectory _ => "IsADirectoryError"
  | .shortPath => "IndexError"
  | .program cause => cause.className

/-- What is printed when the tool breaks off, and its exit code. To leave the program is no error,
unless there is something to say. -/
def report (f : Failure) : List String × Nat :=
  let text := if f.message.isEmpty then [] else [f.message]
  if f.className = "SystemExit" then (text, text.length)
  else ([": ".intercalate (f.className :: text)], 1)

end Failure

/-- What a run of the tool leaves behind. -/
structure Outcome where
  output : List String
  errors : List String
  /-- The exit code, or why the run broke off. -/
  ending : Except Failure Nat
  /-- The path of the file that was written, and its text. -/
  written : Option (String × String)

/-- The tool breaks off before anything is written. -/
def broken (output : List String) (cause : Failure) : Outcome := ⟨output, [], .error cause, none⟩

/-- Whether a path has the ending of programs. -/
def isProgram (target : String) : Bool := [ '.', 'p', 'y' ].isSuffixOf target.toList

/-- The path of the test file for a target. -/
def testPath (target : String) : String :=
  Path.join (Path.directory target) ("test_" ++ Path.base target)

/-- The module that the test file for a target imports. -/
def moduleName? (target : String) : Option String :=
  (Path.names ((Text.split '.' target).head?.getD ""))[1]?

/-- Write the test file of a target, given what exploring it printed and found. -/
def writeTests (target : String) (output : List String) (tests : List (String × List Test)) :
    Outcome :=
  if (Path.names target).length < 2 then broken output .shortPath
  else
    match moduleName? target with
    | none => ⟨output, [], .error .shortPath, some (testPath target, TestFile.opening)⟩
    | some module => ⟨output, [], .ok 0, some (testPath target, TestFile.text module tests)⟩

/-- Explore a target and write its tests. Nothing is written if a fault ends the exploration. -/
def exploreTarget (solver : Solver) (view : View) (limits : Limits)
    (read : String → Except Path.Obstacle Program) (here target : String) : Outcome :=
  if !isProgram target then broken [] .noLoader
  else
    match read target with
    | .error cause => broken [] (.unreadable cause (Path.absolute here target))
    | .ok program =>
      match Module.load limits program with
      | .error cause => broken [] (.program cause)
      | .ok m =>
        let survey := m.exploreAll solver view ⟨[], []⟩
        match survey.result with
        | .error cause => broken survey.output (.program cause)
        | .ok tests => writeTests target survey.output tests

/-- Run the tool in the directory `here`. -/
def run (solver : Solver) (view : View) (limits : Limits)
    (read : String → Except Path.Obstacle Program) (here : String) (arguments : List String) :
    Outcome :=
  match Request.ofArguments arguments with
  | .help => ⟨help, [], .ok 0, none⟩
  | .misuse m => ⟨[], [usage, name ++ ": error: " ++ m.message], .ok 2, none⟩
  | .explore target => exploreTarget solver view limits read here target

end Tool

end Pathwise
