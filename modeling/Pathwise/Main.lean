import Pathwise.Command.Tool
import Pathwise.Json.Reader
import Pathwise.Program.Reader

/-!
# The program

Runs the tool on the arguments of the process. The target holds a program in its JSON form.
-/

namespace Pathwise

/-- The program in a file. -/
def readTarget (target : String) : IO (Except Path.Obstacle Program) := do
  try
    let text ← IO.FS.readFile target
    match (Json.parse? text).bind Json.program? with
    | some program => return .ok program
    | none => throw (IO.userError (target ++ " holds no program"))
  catch
    | .noFileOrDirectory .. => return .error .missing
    | e => throw e

end Pathwise

open Pathwise

/-- Run the tool. -/
def main (arguments : List String) : IO UInt32 := do
  let here ← IO.currentDir
  let read ← match Request.ofArguments arguments with
    | .explore target =>
      if Tool.isProgram target then readTarget target else pure (.error .missing)
    | _ => pure (.error .missing)
  let run := Tool.run Solver.standard View.exact .standard (fun _ => read) here.toString arguments
  for line in run.output do
    IO.println line
  for line in run.errors do
    IO.eprintln line
  if let some (path, text) := run.written then
    IO.FS.writeFile path text
  match run.ending with
  | .ok code => return UInt32.ofNat code
  | .error cause =>
    let (lines, code) := cause.report
    for line in lines do
      IO.eprintln line
    return UInt32.ofNat code
