import Pathwise.Json.Basic
import Pathwise.Plain.Arithmetic

/-!
# Comparing coverage

Coverage data tells which lines of which files were executed: under `files`, then the name of the
file, then `executed_lines`. `Coverage.compare` holds the lines of one file against a reference.

Lines are compared as sets. Equal numbers are one line, whatever their type; a text counts as the
set of its characters and an object as the set of its keys.
-/

namespace Pathwise

namespace Json

/-- The name of the data's type. -/
def typeName : Json → String
  | .null => "NoneType"
  | .bool _ => "bool"
  | .int _ => "int"
  | .float _ => "float"
  | .str _ => "str"
  | .list _ => "list"
  | .object _ => "dict"

end Json

namespace Coverage

/-- Why data cannot be compared. -/
inductive Failure where
  | missingKey (key : String)
  | notSubscriptable (type : String)
  | listIndex
  | textIndex
  | notContainer (type : String)
  | notIterable (type : String)
  | unhashable (type : String)
  /-- Lines that have no order, and those of the first side if they were listed before. -/
  | unordered (cause : Fault) (listed : List Plain)
  deriving Repr

namespace Failure

/-- The text that goes with a failure. -/
def message : Failure → String
  | .missingKey key => Text.quoted key
  | .notSubscriptable t => "'" ++ t ++ "' object is not subscriptable"
  | .listIndex => "list indices must be integers or slices, not str"
  | .textIndex => "string indices must be integers, not 'str'"
  | .notContainer t => "argument of type '" ++ t ++ "' is not iterable"
  | .notIterable t => "'" ++ t ++ "' object is not iterable"
  | .unhashable t => "unhashable type: '" ++ t ++ "'"
  | .unordered cause _ => cause.message

/-- The class of a failure. -/
def className : Failure → String
  | .missingKey _ => "KeyError"
  | _ => "TypeError"

end Failure

/-- The part of the data under a key. -/
def part (key : String) (data : Json) : Except Failure Json :=
  match data with
  | .object _ =>
    match data.field? key with
    | some j => .ok j
    | none => .error (.missingKey key)
  | .list _ => .error .listIndex
  | .str _ => .error .textIndex
  | j => .error (.notSubscriptable j.typeName)

/-- Whether a text occurs in another. -/
def occursIn (needle : List Char) : List Char → Bool
  | [] => needle.isEmpty
  | c :: rest => needle.isPrefixOf (c :: rest) || occursIn needle rest

/-- Whether the data under `files` knows a file. -/
def knows (files : Json) (target : String) : Except Failure Bool :=
  match files with
  | .object fields => .ok (fields.any fun (name, _) => name == target)
  | .list items => .ok (items.any fun j => j.str? == some target)
  | .str s => .ok (occursIn target.toList s.toList)
  | j => .error (.notContainer j.typeName)

/-- A line, as data gives it. -/
def line : Json → Except Failure Plain
  | .null => .ok .none
  | .bool b => .ok (.bool b)
  | .int n => .ok (.int n)
  | .float x => .ok (.float x)
  | .str s => .ok (.str s)
  | j => .error (.unhashable j.typeName)

/-- Whether one of the lines equals the given one. -/
def contains (lines : List Plain) (l : Plain) : Bool := lines.any fun k => k.equal l

/-- Without repetitions: of equal lines the first stays. -/
def distinct (lines : List Plain) : List Plain :=
  lines.foldl (fun kept l => if contains kept l then kept else kept ++ [l]) []

/-- The lines that data lists. -/
def lines : Json → Except Failure (List Plain)
  | .list items => do return distinct (← items.mapM line)
  | .str s => .ok (distinct (s.toList.map fun c => .str (String.singleton c)))
  | .object fields => .ok (distinct (fields.map fun (name, _) => .str name))
  | j => .error (.notIterable j.typeName)

/-- The executed lines of a file. -/
def executedLines (data : Json) (target : String) : Except Failure (List Plain) := do
  lines (← part "executed_lines" (← part target (← part "files" data)))

/-- The lines of the first list that the second does not have. -/
def missingFrom (own other : List Plain) : List Plain := own.filter fun l => !contains other l

/-- Compare each line with the one before it. -/
def checkOrder : List Plain → Except Fault Unit
  | a :: b :: rest => do
    let _ ← Plain.compare (.order .lt) b a
    checkOrder (b :: rest)
  | _ => .ok ()

/-- Put lines into an order in which none is below an earlier one. -/
def arrange (lines : List Plain) : List Plain :=
  lines.mergeSort fun a b =>
    match Plain.compare (.order .lt) b a with
    | .ok below => !below
    | .error _ => true

/-- Lines in ascending order, if they have one: numbers and texts cannot be sorted together. -/
def sorted (lines : List Plain) : Except Fault (List Plain) := do
  checkOrder lines
  return arrange lines

/-- What a comparison finds. -/
inductive Finding where
  /-- The reference does not know the file. -/
  | unknownFile
  /-- The lines that only one side has, in ascending order. -/
  | compared (onlyCurrent onlyReference : List Plain)

/-- Compare the executed lines of a file with those of a reference. -/
def compare (current reference : Json) (target : String) : Except Failure Finding := do
  if ← knows (← part "files" reference) target then
    let current ← executedLines current target
    let reference ← executedLines reference target
    let onlyCurrent ← (sorted (missingFrom current reference)).mapError (.unordered · [])
    let onlyReference ←
      (sorted (missingFrom reference current)).mapError (.unordered · onlyCurrent)
    return .compared onlyCurrent onlyReference
  else return .unknownFile

namespace Finding

/-- Whether both sides have the same lines. -/
def agrees : Finding → Bool
  | .unknownFile => false
  | .compared a b => a.isEmpty && b.isEmpty

/-- The line above the differences. -/
def heading (target : String) : String := "Differences in " ++ target ++ ":"

/-- Lines that only one side has, if there are any. -/
def listing (side : String) (lines : List Plain) : List String :=
  if lines.isEmpty then []
  else ["  Only in " ++ side ++ ": " ++ Text.bracketed (lines.map Plain.text)]

/-- The report on a file, line by line. There is nothing to report when both sides agree. -/
def report (target : String) : Finding → List String
  | .unknownFile => ["File " ++ target ++ " is not present in the reference coverage."]
  | .compared a b =>
    match listing "current" a ++ listing "reference" b with
    | [] => []
    | found => heading target :: found

end Finding

/-- What was printed about a file before the comparison failed. -/
def Failure.report (target : String) : Failure → List String
  | .unordered _ listed => Finding.heading target :: Finding.listing "current" listed
  | _ => []

end Coverage

end Pathwise
