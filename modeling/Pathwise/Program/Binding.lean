import Pathwise.Program.Syntax
import Pathwise.Value.Basic

/-!
# Functions and the binding of arguments

`Function.bind` matches the arguments of a call with the parameters of a function. Keywords are
looked at first, in the order given, then superfluous positional arguments, then missing
positional and missing keyword-only ones.
-/

namespace Pathwise

/-- Values by name. A name occurs at most once. -/
abbrev Scope := List (String × Value)

namespace Scope

/-- Give a name a value; a new name comes last. -/
def set (s : Scope) (x : String) (v : Value) : Scope :=
  match s with
  | [] => [(x, v)]
  | (y, w) :: rest => if y = x then (y, v) :: rest else (y, w) :: set rest x v

theorem lookup_set_self (s : Scope) (x : String) (v : Value) : (s.set x v).lookup x = some v := by
  induction s with
  | nil => simp [set]
  | cons p rest ih =>
    obtain ⟨y, w⟩ := p
    by_cases h : y = x
    · subst h; simp [set]
    · have h' : (x == y) = false := by simpa using fun e => h e.symm
      simp [set, h, List.lookup_cons, h', ih]

end Scope

/-- A parameter with its default value. -/
structure Parameter where
  name : String
  kind : ParamKind
  default? : Option Value

/-- A function of a module. -/
structure Function where
  name : String
  params : List Parameter
  body : Block

namespace Function

/-- The parameters of a kind. -/
def ofKind (f : Function) (k : ParamKind) : List Parameter :=
  f.params.filter fun p => p.kind = k

/-- The parameters that take one argument each by position. -/
def positional (f : Function) : List Parameter := f.params.filter fun p => p.kind.byPosition

/-- The names of all parameters. -/
def paramNames (f : Function) : List String := f.params.map Parameter.name

/-- The names that belong to a call of the function: its parameters, and what its body assigns
and does not declare to be global. -/
def owned (f : Function) : List String :=
  let declared := f.body.globals
  f.paramNames ++ f.body.assigned.filter fun x => !declared.contains x

/-- Give keyword arguments to the parameters of these names; those that no parameter takes are
gathered, if they may be, and otherwise refused. -/
def bindKeywords (takers : List String) (gathers : Bool) (refusal : String → BindingFault) :
    List (String × Value) → Scope → Scope → Except BindingFault (Scope × Scope)
  | [], bound, extra => .ok (bound, extra)
  | (k, v) :: rest, bound, extra =>
    if takers.contains k then
      if (bound.lookup k).isSome then .error (.repeated k)
      else bindKeywords takers gathers refusal rest (bound.set k v) extra
    else if gathers then bindKeywords takers gathers refusal rest bound (extra.set k v)
    else .error (refusal k)

/-- Why a call with the keywords is refused if no parameter takes one of them: parameters that are
among them but take no keyword are named first of all. -/
def refusal (f : Function) (keywords : List (String × Value)) (k : String) : BindingFault :=
  match ((f.ofKind .positionalOnly).map Parameter.name).filter
      fun x => (keywords.lookup x).isSome with
  | [] => .unexpected k
  | names => .positionalOnly names

/-- The parameters that are not bound and have no default value. -/
def missing (ps : List Parameter) (bound : Scope) : List String :=
  (ps.filter fun p => (bound.lookup p.name).isNone && p.default?.isNone).map Parameter.name

/-- Give default values to the parameters that are not bound. -/
def fill (ps : List Parameter) (bound : Scope) : Scope :=
  ps.foldl
    (fun s p =>
      match s.lookup p.name, p.default? with
      | none, some v => s.set p.name v
      | _, _ => s)
    bound

/-- The values of the parameters in a call. -/
def bind (f : Function) (args : List Value) (keywords : List (String × Value)) :
    Except BindingFault Scope := do
  let positional := f.positional
  let keywordOnly := f.ofKind .keywordOnly
  let rest := f.ofKind .rest
  let gatherers := f.ofKind .keywords
  let count := positional.length
  let first : Scope := (positional.map Parameter.name).zip args
  let packed : Scope := rest.map fun p => (p.name, .tuple (args.drop count))
  let takers := (f.ofKind .positional ++ keywordOnly).map Parameter.name
  let (bound, extra) ←
    bindKeywords takers (!gatherers.isEmpty) (f.refusal keywords) keywords first []
  if rest.isEmpty && count < args.length then
    let least := (positional.filter fun p => p.default?.isNone).length
    let given := (keywordOnly.filter fun p => (bound.lookup p.name).isSome).length
    throw (.tooMany least count args.length given)
  let lacking := missing positional bound
  if !lacking.isEmpty then throw (.missing lacking)
  let lacking := missing keywordOnly bound
  if !lacking.isEmpty then throw (.missingKeywords lacking)
  return fill (positional ++ keywordOnly) bound ++ packed
    ++ gatherers.map fun p => (p.name, .table extra)

end Function

end Pathwise
