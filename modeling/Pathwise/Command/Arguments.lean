import Pathwise.Text.Quoted
import Pathwise.Text.Split

/-!
# Command-line arguments

There are two switches: `-h` or `--help`, and `-t` or `--target`, which takes a value. A long name
may be cut short as long as it stays unambiguous. A value follows as the next argument or is
attached: after `=`, or directly after a short name.

`Request.ofArguments` decides what an argument list asks for. Arguments are first told apart into
words; the words are then read from left to right. Everything after `--` is a plain word.
-/

namespace Pathwise

/-- The switches of the command line. -/
inductive Switch where
  | help
  | target
  deriving DecidableEq, Repr

namespace Switch

/-- Short and long name. -/
def names : Switch → String × String
  | .help => ("-h", "--help")
  | .target => ("-t", "--target")

/-- Both names, as messages show them. -/
def title (s : Switch) : String := s.names.1 ++ "/" ++ s.names.2

/-- The names of all switches. -/
def table : List (String × Switch) :=
  [.help, .target].flatMap fun (s : Switch) => [(s.names.1, s), (s.names.2, s)]

/-- The switch of a complete name. -/
def ofName? (name : String) : Option Switch := table.lookup name

/-- The switch whose short name has the letter. -/
def ofLetter? (c : Char) : Option Switch := ofName? (String.ofList ['-', c])

end Switch

/-- Why an argument list is refused. -/
inductive Misuse where
  | ambiguous (written : String) (candidates : List String)
  | expectedValue (s : Switch)
  | ignoredValue (s : Switch) (value : String)
  | missingTarget
  | unrecognized (words : List String)
  deriving DecidableEq, Repr

namespace Misuse

/-- The wording of each case. -/
def message : Misuse → String
  | .ambiguous written candidates =>
    "ambiguous option: " ++ written ++ " could match " ++ ", ".intercalate candidates
  | .expectedValue s => "argument " ++ s.title ++ ": expected one argument"
  | .ignoredValue s value =>
    "argument " ++ s.title ++ ": ignored explicit argument " ++ Text.quoted value
  | .missingTarget => "the following arguments are required: " ++ Switch.target.title
  | .unrecognized words => "unrecognized arguments: " ++ " ".intercalate words

end Misuse

/-- What is written together with the name of a switch. -/
inductive Attached where
  | nothing
  /-- A value after `=`. -/
  | equals (value : String)
  /-- What follows a short name directly. -/
  | directly (text : List Char)
  deriving DecidableEq, Repr

/-- One argument, as far as it can be understood on its own. -/
inductive Word where
  | switch (s : Switch) (attached : Attached)
  /-- Looks like a switch and is none. -/
  | unknown (text : String)
  | plain (text : String)
  /-- The mark after which all words are plain. -/
  | divider
  deriving DecidableEq, Repr

namespace Word

/-- Whether a word is a number with a minus sign, with or without a fraction. -/
def isNegativeNumber : List Char → Bool
  | '-' :: rest =>
    match Text.pieces '.' rest with
    | [whole] => !whole.isEmpty && whole.all Char.isDigit
    | [whole, fraction] =>
      whole.all Char.isDigit && !fraction.isEmpty && fraction.all Char.isDigit
    | _ => false
  | _ => false

/-- A name and the value after its first `=`. -/
def cut (text : String) : String × Attached :=
  let cs := text.toList
  let name := String.ofList (cs.takeWhile (· ≠ '='))
  match cs.dropWhile (· ≠ '=') with
  | [] => (name, .nothing)
  | _ :: value => (name, .equals (String.ofList value))

/-- The long names that a shortened one may stand for. -/
def candidates (name : String) : List (String × Switch) :=
  Switch.table.filter fun (full, _) => name.toList.isPrefixOf full.toList

/-- A word that is no complete name, with or without a value after `=`. -/
def ofUnlisted (text : String) : Except Misuse Word :=
  let other : Word :=
    if isNegativeNumber text.toList || text.contains ' ' then .plain text else .unknown text
  match text.toList with
  | '-' :: '-' :: _ =>
    let (name, attached) := cut text
    match candidates name with
    | [] => .ok other
    | [(_, s)] => .ok (.switch s attached)
    | several => .error (.ambiguous text (several.map Prod.fst))
  | '-' :: c :: rest =>
    match Switch.ofLetter? c with
    | some s => .ok (.switch s (.directly rest))
    | none => .ok other
  | _ => .ok (.plain text)

/-- Understand one argument. -/
def ofText (text : String) : Except Misuse Word :=
  let (name, attached) := cut text
  match Switch.ofName? name with
  | some s => .ok (.switch s attached)
  | none => ofUnlisted text

/-- Understand all arguments. -/
def ofTexts : List String → Except Misuse (List Word)
  | [] => .ok []
  | text :: rest =>
    if text = "--" then .ok (.divider :: rest.map .plain)
    else do
      let word ← ofText text
      return word :: (← ofTexts rest)

end Word

/-- What an argument list asks for. -/
inductive Request where
  | help
  | explore (target : String)
  | misuse (m : Misuse)
  deriving DecidableEq, Repr

namespace Request

/-- What is asked for once all words are read: the last target, if nothing is left over. -/
def ofTarget (target : Option String) (left : List String) : Request :=
  match target with
  | none => .misuse .missingTarget
  | some t => if left.isEmpty then .explore t else .misuse (.unrecognized left)

/-- A help switch with a text directly after its short name. The text is read as further short
switches; help is given once they are found to have what they need. A letter that is no switch ends
the reading. -/
def ofCluster (next : Option Word) : List Char → Request
  | [] => .help
  | '-' :: rest => .misuse (.ignoredValue .help (String.ofList ('-' :: rest)))
  | c :: rest =>
    match Switch.ofLetter? c, rest with
    | none, _ => .help
    | some .help, '=' :: value => .misuse (.ignoredValue .help (String.ofList value))
    | some .help, rest => ofCluster next rest
    | some .target, _ :: _ => .help
    | some .target, [] =>
      match next with
      | some (.plain _) => .help
      | _ => .misuse (.expectedValue .target)

/-- Read words from left to right, given the last target and the words left over. -/
def ofWords (target : Option String) (left : List String) : List Word → Request
  | [] => ofTarget target left
  | .plain text :: rest => ofWords target (left ++ [text]) rest
  | .unknown text :: rest => ofWords target (left ++ [text]) rest
  | .divider :: rest => ofWords target (left ++ ["--"]) rest
  | .switch .help .nothing :: _ => .help
  | .switch .help (.equals value) :: _ => .misuse (.ignoredValue .help value)
  | .switch .help (.directly text) :: rest => ofCluster rest.head? text
  | .switch .target (.equals value) :: rest => ofWords (some value) left rest
  | .switch .target (.directly text) :: rest => ofWords (some (String.ofList text)) left rest
  | .switch .target .nothing :: .plain value :: rest => ofWords (some value) left rest
  | .switch .target .nothing :: _ => .misuse (.expectedValue .target)

/-- What an argument list asks for. -/
def ofArguments (arguments : List String) : Request :=
  match Word.ofTexts arguments with
  | .error m => .misuse m
  | .ok words => ofWords none [] words

end Request

end Pathwise
