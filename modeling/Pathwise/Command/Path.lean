import Pathwise.Text.Split

/-!
# Paths

A path is a text of names with slashes between them. `directory` and `base` take it apart at the
last slash, `join` puts it together again. `read` walks along a path through a tree of files,
where the empty name and `.` stay in place and `..` goes up.
-/

namespace Pathwise

namespace Path

/-- The names of a path. -/
def names (path : String) : List String := Text.split '/' path

/-- The name after the last slash. -/
def base (path : String) : String := (names path).getLast?.getD ""

/-- Without the slashes at the end, unless there is nothing else. -/
def trimmed (path : String) : String :=
  let kept := (path.toList.reverse.dropWhile (· = '/')).reverse
  if kept.isEmpty then path else String.ofList kept

/-- What comes before the last name. -/
def directory (path : String) : String :=
  trimmed (String.join ((names path).dropLast.map (· ++ "/")))

/-- A name inside a directory; the empty text is the directory one is in. -/
def join (dir name : String) : String :=
  if dir = "" ∨ dir.toList.getLast? = some '/' then dir ++ name else dir ++ "/" ++ name

/-- Whether a path starts at the root of all files. -/
def isAbsolute (path : String) : Bool := path.toList.head? = some '/'

/-- The path as seen from the root of all files, given the directory one is in. -/
def absolute (here path : String) : String :=
  if isAbsolute path then path else here ++ "/" ++ path

/-- A file's place in a tree: the directories above it and its own name. -/
abbrev Place := List String

/-- The place that a path names, whatever files there are. -/
def place (path : String) : Place :=
  (names path).foldl
    (fun place name =>
      if name = "" ∨ name = "." then place
      else if name = ".." then place.dropLast
      else place ++ [name])
    []

/-- Why a path leads to no file. -/
inductive Obstacle where
  | missing
  | notDirectory
  | isDirectory
  deriving DecidableEq, Repr

namespace Obstacle

/-- The number and the wording of each case. -/
def message : Obstacle → String
  | .missing => "[Errno 2] No such file or directory"
  | .notDirectory => "[Errno 20] Not a directory"
  | .isDirectory => "[Errno 21] Is a directory"

end Obstacle

/-- Whether a place is a directory with one of the files in it. -/
def isDirectory (files : List Place) (place : Place) : Bool :=
  place.isEmpty || files.any fun f => place.isPrefixOf f && place.length < f.length

/-- Walk on from a place along names. -/
def walk (files : List Place) (place : Place) : List String → Except Obstacle Place
  | [] => .ok place
  | name :: rest =>
    if !isDirectory files place then .error (if place ∈ files then .notDirectory else .missing)
    else if name = "" ∨ name = "." then walk files place rest
    else if name = ".." then
      if place.isEmpty then .error .missing else walk files place.dropLast rest
    else walk files (place ++ [name]) rest

/-- Where a path leads to, if files are all that is there. -/
def follow (files : List Place) (path : String) : Except Obstacle Place :=
  if isAbsolute path then .error .missing else walk files [] (names path)

/-- What the file holds that a path leads to. -/
def read {α : Type} (files : List (Place × α)) (path : String) : Except Obstacle α := do
  let places := files.map Prod.fst
  let place ← follow places path
  if isDirectory places place then .error .isDirectory
  else
    match files.lookup place with
    | some content => .ok content
    | none => .error .missing

end Path

end Pathwise
