import Pathwise.Text.Quoted

/-!
# What can go wrong

`Fault` lists the causes for which an operation, a call or an exploration ends without a result.
The wording is in one place, `Fault.message`; the class under which a program can catch a fault
is `Fault.className`, and `isKindOf` is the order of the classes. Faults of classes that do not lie
below `Exception`, such as `SystemExit`, are not held by the handler under which calls are explored
(`Fault.escapes`).
-/

namespace Pathwise

/-- Divisions that have no result. -/
inductive ZeroDivision where
  | quotient
  | floorQuotient
  | remainder
  | floatQuotient
  | floatFloorQuotient
  | floatRemainder
  | power
  deriving DecidableEq, Repr

namespace ZeroDivision

/-- The wording of each case. -/
def message : ZeroDivision → String
  | .quotient => "division by zero"
  | .floorQuotient => "integer division or modulo by zero"
  | .remainder => "integer modulo by zero"
  | .floatQuotient => "float division by zero"
  | .floatFloorQuotient => "float floor division by zero"
  | .floatRemainder => "float modulo"
  | .power => "0.0 cannot be raised to a negative power"

end ZeroDivision

/-- Numbers that do not fit a floating point number. -/
inductive TooLarge where
  | conversion
  | quotient
  | result
  | infinity
  | shift
  deriving DecidableEq, Repr

namespace TooLarge

/-- The wording of each case. -/
def message : TooLarge → String
  | .conversion => "int too large to convert to float"
  | .quotient => "integer division result too large for a float"
  | .result => "(34, 'Numerical result out of range')"
  | .infinity => "cannot convert float infinity to integer"
  | .shift => "too many digits in integer"

end TooLarge

/-- Why arguments do not bind to the parameters of a function. -/
inductive BindingFault where
  | unexpected (keyword : String)
  | repeated (param : String)
  /-- The least and the greatest number of positional arguments, the number given, and how many
  keyword-only ones were given beside them. -/
  | tooMany (least most given keywords : Nat)
  | missing (params : List String)
  | missingKeywords (params : List String)
  /-- Parameters that take their arguments by position only and were given by name. -/
  | positionalOnly (params : List String)
  deriving DecidableEq, Repr

namespace BindingFault

/-- Names in quotes: `'x'`, `'x' and 'y'`, `'x', 'y', and 'z'`. -/
def enumerate (names : List String) : String :=
  let shown := names.map fun n => "'" ++ n ++ "'"
  match shown with
  | [] => ""
  | [a] => a
  | [a, b] => a ++ " and " ++ b
  | _ => ", ".intercalate shown.dropLast ++ ", and " ++ shown.getLast?.getD ""

/-- The plural ending for a count. -/
def plural (n : Nat) : String := if n = 1 then "" else "s"

private def missingText (sort : String) (names : List String) : String :=
  let n := names.length
  "missing " ++ toString n ++ " required " ++ sort ++ " argument" ++ plural n ++ ": "
    ++ enumerate names

/-- The wording of each case, to follow the name of the function. -/
def message : BindingFault → String
  | .unexpected k => "got an unexpected keyword argument '" ++ k ++ "'"
  | .repeated p => "got multiple values for argument '" ++ p ++ "'"
  | .tooMany least most given keywords =>
    let range :=
      if least = most then toString most
      else "from " ++ toString least ++ " to " ++ toString most
    let takes := "takes " ++ range ++ " positional argument"
      ++ (if least = most then plural most else "s") ++ " but " ++ toString given
    if keywords = 0 then takes ++ (if given = 1 then " was" else " were") ++ " given"
    else takes ++ " positional argument" ++ plural given ++ " (and " ++ toString keywords
      ++ " keyword-only argument" ++ plural keywords ++ ") were given"
  | .missing names => missingText "positional" names
  | .missingKeywords names => missingText "keyword-only" names
  | .positionalOnly names =>
    "got some positional-only arguments passed as keyword arguments: '"
      ++ ", ".intercalate names ++ "'"

end BindingFault

/-- Causes of failure. Type names are those that messages use. -/
inductive Fault where
  -- names and attributes
  | undefinedName (name : String)
  | unboundLocal (name : String)
  | missingAttribute (type name : String)
  -- operators on plain values
  | unsupportedOperands (op left right : String)
  | unordered (op left right : String)
  | badOperand (op type : String)
  | cannotConcatenate (left right : String)
  | cannotRepeat (type : String)
  | unusedFormatArguments
  | missingFormatArguments
  | badFormat (text : String)
  | zeroDivision (cause : ZeroDivision)
  | tooLarge (cause : TooLarge)
  | notANumber
  | negativeShift
  -- calls
  | notCallable (type : String)
  | notIterable (type : String)
  | notAnInteger (type : String)
  | notConvertible (type : String)
  | badLiteral (base : Nat) (text : String)
  | badBase
  | zeroStep
  | emptySequence (function : String)
  | wrongCount (text : String)
  | binding (function : String) (cause : BindingFault)
  | tooDeep
  -- statements
  | raised (className : String) (text : Option String)
  | assertion (text : Option String)
  | notAnException
  | notCatchable
  /-- A loop that ran out of rounds. No handler sees it. -/
  | endless
  -- terms
  | integerExpected
  | booleanExpected (shown type : String)
  | notBoolean
  | wrongSort (op sort : String)
  | wrongArgument
  | badNumeral
  | plainExpected
  | sortMismatch
  | symbolicTruth
  -- exploration
  | depthLimit
  | noModel
  | foreignUnknown
  /-- A character of a name that has no code below 256, with the places of the first and the last
  of several in a row. -/
  | unencodable (code : Nat) (first last : Nat)
  deriving DecidableEq, Repr

namespace Fault

/-- The text that goes with a fault. -/
def message : Fault → String
  | .undefinedName x => "name '" ++ x ++ "' is not defined"
  | .unboundLocal x =>
    "cannot access local variable '" ++ x ++ "' where it is not associated with a value"
  | .missingAttribute t a => "'" ++ t ++ "' object has no attribute '" ++ a ++ "'"
  | .unsupportedOperands op l r =>
    "unsupported operand type(s) for " ++ op ++ ": '" ++ l ++ "' and '" ++ r ++ "'"
  | .unordered op l r =>
    "'" ++ op ++ "' not supported between instances of '" ++ l ++ "' and '" ++ r ++ "'"
  | .badOperand op t => "bad operand type for " ++ op ++ ": '" ++ t ++ "'"
  | .cannotConcatenate l r => "can only concatenate " ++ l ++ " (not \"" ++ r ++ "\") to " ++ l
  | .cannotRepeat t => "can't multiply sequence by non-int of type '" ++ t ++ "'"
  | .unusedFormatArguments => "not all arguments converted during string formatting"
  | .missingFormatArguments => "not enough arguments for format string"
  | .badFormat text => text
  | .zeroDivision c => c.message
  | .tooLarge c => c.message
  | .notANumber => "cannot convert float NaN to integer"
  | .negativeShift => "negative shift count"
  | .notCallable t => "'" ++ t ++ "' object is not callable"
  | .notIterable t => "'" ++ t ++ "' object is not iterable"
  | .notAnInteger t => "'" ++ t ++ "' object cannot be interpreted as an integer"
  | .notConvertible t =>
    "int() argument must be a string, a bytes-like object or a real number, not '" ++ t ++ "'"
  | .badLiteral base text =>
    "invalid literal for int() with base " ++ toString base ++ ": " ++ Text.quoted text
  | .badBase => "int() base must be >= 2 and <= 36, or 0"
  | .zeroStep => "range() arg 3 must not be zero"
  | .emptySequence f => f ++ "() arg is an empty sequence"
  | .wrongCount text => text
  | .binding f c => f ++ "() " ++ c.message
  | .tooDeep => "maximum recursion depth exceeded"
  | .raised c text =>
    match text with
    | none => ""
    | some s => if c = "KeyError" then Text.quoted s else s
  | .assertion text => text.getD ""
  | .notAnException => "exceptions must derive from BaseException"
  | .notCatchable => "catching classes that do not inherit from BaseException is not allowed"
  | .endless => "the loop does not end"
  | .integerExpected => "Z3 integer expression expected"
  | .booleanExpected s t =>
    "True, False or Z3 Boolean expression expected. Received " ++ s ++ " of type <class '" ++ t
      ++ "'>"
  | .notBoolean => "Value cannot be converted into a Z3 Boolean value"
  | .wrongSort op sort =>
    "b'Sort mismatch at argument #1 for function (declare-fun " ++ op
      ++ " (Bool Bool) Bool) supplied sort is " ++ sort ++ "'"
  | .wrongArgument => "argument 2: TypeError: wrong type"
  | .badNumeral => "b'parser error'"
  | .plainExpected => "Python bool, int, long or float expected"
  | .sortMismatch => "sort mismatch"
  | .symbolicTruth => "Symbolic expressions cannot be cast to concrete Boolean values."
  | .depthLimit => "Depth Exception"
  | .noModel => "'NoneType' object has no attribute 'decls'"
  | .foreignUnknown => "list.remove(x): x not in list"
  | .unencodable code first last =>
    if first = last then
      "'latin-1' codec can't encode character '" ++ Text.numbered code ++ "' in position "
        ++ toString first ++ ": ordinal not in range(256)"
    else
      "'latin-1' codec can't encode characters in position " ++ toString first ++ "-"
        ++ toString last ++ ": ordinal not in range(256)"

/-- The class of a fault. -/
def className : Fault → String
  | .undefinedName _ => "NameError"
  | .unboundLocal _ => "UnboundLocalError"
  | .missingAttribute .. | .noModel => "AttributeError"
  | .unsupportedOperands .. | .unordered .. | .badOperand .. | .cannotConcatenate ..
  | .cannotRepeat _ | .unusedFormatArguments | .missingFormatArguments | .notCallable _
  | .notIterable _ | .notAnInteger _ | .notConvertible _ | .wrongCount _ | .binding ..
  | .notAnException | .notCatchable => "TypeError"
  | .badFormat _ | .notANumber | .negativeShift | .badLiteral .. | .badBase | .zeroStep
  | .emptySequence _ | .foreignUnknown => "ValueError"
  | .zeroDivision _ => "ZeroDivisionError"
  | .tooLarge _ => "OverflowError"
  | .tooDeep => "RecursionError"
  | .raised c _ => c
  | .assertion _ => "AssertionError"
  | .endless => "TimeoutError"
  | .integerExpected | .booleanExpected .. | .notBoolean | .wrongSort .. | .badNumeral
  | .plainExpected | .sortMismatch | .symbolicTruth => "Z3Exception"
  | .wrongArgument => "ArgumentError"
  | .depthLimit => "Exception"
  | .unencodable .. => "UnicodeEncodeError"

/-- The class directly above each built-in class of faults; the topmost are not listed. -/
def parents : List (String × String) := [
  ("ArithmeticError", "Exception"), ("ZeroDivisionError", "ArithmeticError"),
  ("OverflowError", "ArithmeticError"), ("FloatingPointError", "ArithmeticError"),
  ("LookupError", "Exception"), ("KeyError", "LookupError"), ("IndexError", "LookupError"),
  ("NameError", "Exception"), ("UnboundLocalError", "NameError"),
  ("RuntimeError", "Exception"), ("RecursionError", "RuntimeError"),
  ("NotImplementedError", "RuntimeError"),
  ("ValueError", "Exception"), ("UnicodeError", "ValueError"),
  ("UnicodeEncodeError", "UnicodeError"), ("UnicodeDecodeError", "UnicodeError"),
  ("OSError", "Exception"), ("TimeoutError", "OSError"), ("FileNotFoundError", "OSError"),
  ("PermissionError", "OSError"), ("ConnectionError", "OSError"),
  ("TypeError", "Exception"), ("AttributeError", "Exception"), ("AssertionError", "Exception"),
  ("BufferError", "Exception"), ("EOFError", "Exception"), ("ImportError", "Exception"),
  ("ModuleNotFoundError", "ImportError"), ("MemoryError", "Exception"),
  ("ReferenceError", "Exception"), ("StopIteration", "Exception"), ("SystemError", "Exception"),
  ("Warning", "Exception"), ("UserWarning", "Warning"), ("DeprecationWarning", "Warning"),
  ("RuntimeWarning", "Warning"), ("Exception", "BaseException"),
  ("KeyboardInterrupt", "BaseException"), ("SystemExit", "BaseException"),
  ("GeneratorExit", "BaseException")]

/-- The built-in classes of faults. -/
def classes : List String := "BaseException" :: parents.map Prod.fst

/-- Whether the first class is the second one or lies below it. Classes that are not built in lie
directly below `Exception`. -/
def isKindOf (child ancestor : String) : Bool :=
  climb child parents.length
where
  /-- Go up from a class, at most the given number of times. -/
  climb (c : String) : Nat → Bool
    | 0 => c == ancestor
    | fuel + 1 =>
      c == ancestor ||
        match parents.lookup c with
        | some p => climb p fuel
        | none => if c == "BaseException" then false else climb "Exception" fuel

/-- Whether a handler for the class receives the fault. -/
def isCaughtBy (f : Fault) (handler : String) : Bool :=
  match f with
  | .endless => false
  | _ => isKindOf f.className handler

/-- Whether a fault ends not only the call in which it comes up but all exploring. Calls are made
under a handler for `Exception`. -/
def escapes (f : Fault) : Bool := !f.isCaughtBy "Exception"

/-- The fault that a computation ended with, if it did. -/
def of? {α : Type} : Except Fault α → Option Fault
  | .ok _ => none
  | .error f => some f

end Fault

end Pathwise
