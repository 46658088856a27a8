import Pathwise.Proofs.Calls
import Pathwise.Solver.Decision

/-!
# The parameters of explored calls and of test cases

A function is explored by a call that passes an unknown for every parameter, all of them by
position. Its tests are written as calls that pass every parameter by name. The two ways of calling
agree on parameters that can be given in either way. A parameter that can only be given by name
cannot be reached by position: the explored call is refused before it begins, and what is recorded
of it is one round that has asked nothing. A parameter that can only be given by position is
explored, but the call of a test is refused.

Default values make no difference to either call, since no parameter is left out.

* `Module.Enters` — a call reaches the body of a function with given values of the parameters.
* `Function.Ungathered.bind_of_keywordOnly` — why the explored call is refused.
* `Function.Ungathered.bind_of_positionalOnly` — why the call of a test is refused.
* `Module.parameters_entered_iff` — both for the exploration of a function.
-/

namespace Pathwise

/-- What takes one argument, and not by name alone, can be given by position. -/
theorem ParamKind.byPosition_of_ne {k : ParamKind} (hrest : k ≠ .rest) (hkeywords : k ≠ .keywords)
    (hnamed : k ≠ .keywordOnly) : k.byPosition = true := by
  cases k with
  | positionalOnly | positional => rfl
  | rest => exact absurd rfl hrest
  | keywordOnly => exact absurd rfl hnamed
  | keywords => exact absurd rfl hkeywords

/-! ## Arguments by position -/

namespace Function

variable {f : Function}

/-- Parameters of different kinds have different names. -/
theorem name_not_mem_ofKind (hnodup : f.paramNames.Nodup) {p : Parameter} {k : ParamKind}
    (hp : p ∈ f.params) (hk : p.kind ≠ k) : p.name ∉ (f.ofKind k).map Parameter.name := by
  intro hmem
  obtain ⟨q, hq, hname⟩ := List.mem_map.mp hmem
  obtain ⟨hq, hqk⟩ := mem_ofKind.mp hq
  exact hk (List.inj_on_of_nodup_map hnodup hq hp hname ▸ hqk)

/-- Why a call that passes as many arguments by position as there are parameters is refused, if
some parameters can only be given by name. -/
def surplus (f : Function) : BindingFault :=
  .tooMany (f.positional.filter fun p => p.default?.isNone).length f.positional.length
    f.params.length 0

/-- As many arguments by position as there are parameters are too many, if a parameter can only be
given by name. -/
theorem Ungathered.bind_of_keywordOnly (h : f.Ungathered) (hnodup : f.paramNames.Nodup)
    {p : Parameter} (hp : p ∈ f.params) (hk : p.kind = .keywordOnly) {args : List Value}
    (hlength : args.length = f.paramNames.length) : f.bind args [] = .error f.surplus := by
  rw [paramNames, List.length_map] at hlength
  have hcount : f.positional.length < args.length := by
    rw [hlength]
    exact List.length_filter_lt_length_iff_exists.mpr ⟨p, hp, by simp [hk, ParamKind.byPosition]⟩
  -- no argument has gone to a parameter that can only be given by name
  have hgiven : ((f.ofKind .keywordOnly).filter fun q =>
      (((f.positional.map Parameter.name).zip args).lookup q.name).isSome) = [] := by
    refine List.filter_eq_nil_iff.mpr fun q hq hsome => ?_
    obtain ⟨hq, hqk⟩ := mem_ofKind.mp hq
    have hname := List.isSome_lookup_iff_mem_map_fst.mp hsome
    rw [List.map_fst_zip (by rw [List.length_map]; exact hcount.le)] at hname
    obtain ⟨r, hr, hsame⟩ := List.mem_map.mp hname
    obtain ⟨hr, hposition⟩ := mem_positional.mp hr
    rw [List.inj_on_of_nodup_map hnodup hr hq hsame, hqk] at hposition
    cases hposition
  rw [bind_eq_settle]
  show f.settle args _ [] = _
  rw [settle, if_pos (by simp [h.ofKind_rest, hcount]), hgiven, hlength]
  rfl

/-! ## Arguments by name -/

/-- Keywords of different names are refused if one of them is not taken and none are gathered. -/
theorem bindKeywords_of_refused {takers : List String} {refusal : String → BindingFault}
    {cause : BindingFault} (hcause : ∀ x, refusal x = cause) {extra : Scope}
    {keywords : List (String × Value)} {bound : Scope}
    (hrefused : ∃ e ∈ keywords, e.1 ∉ takers)
    (hnodup : ((bound ++ keywords).map Prod.fst).Nodup) :
    bindKeywords takers false refusal keywords bound extra = .error cause := by
  induction keywords generalizing bound with
  | nil =>
    obtain ⟨e, he, -⟩ := hrefused
    cases he
  | cons e keywords ih =>
    obtain ⟨x, v⟩ := e
    by_cases hx : x ∈ takers
    · -- this one is taken, so the refused one comes later
      rw [bindKeywords_cons_of_taken hx hnodup]
      rw [List.append_cons] at hnodup
      refine ih ?_ hnodup
      obtain ⟨e, he, hno⟩ := hrefused
      rcases List.mem_cons.mp he with rfl | he
      · exact absurd hx hno
      · exact ⟨e, he, hno⟩
    · rw [bindKeywords, if_neg fun h => hx (List.contains_iff_mem.mp h),
        if_neg Bool.false_ne_true, hcause]

/-- Why a call that passes all parameters by name is refused, if some can only be given by
position. -/
def unnamed (f : Function) : BindingFault :=
  .positionalOnly ((f.ofKind .positionalOnly).map Parameter.name)

/-- Parameters cannot all be given by name, if one can only be given by position. -/
theorem Ungathered.bind_of_positionalOnly (h : f.Ungathered) (hnodup : f.paramNames.Nodup)
    {p : Parameter} (hp : p ∈ f.params) (hk : p.kind = .positionalOnly)
    {keywords : List (String × Value)} (hperm : (keywords.map Prod.fst).Perm f.paramNames) :
    f.bind [] keywords = .error f.unnamed := by
  have hmem : p.name ∈ keywords.map Prod.fst := hperm.mem_iff.mpr (List.mem_map_of_mem hp)
  -- all parameters are among the keywords, so all that take no keyword are named
  have hcause : ∀ x, f.refusal keywords x = f.unnamed := by
    intro x
    have hall : ((f.ofKind .positionalOnly).map Parameter.name).filter
        (fun x => (keywords.lookup x).isSome) = (f.ofKind .positionalOnly).map Parameter.name := by
      refine List.filter_eq_self.mpr fun y hy => ?_
      obtain ⟨q, hq, rfl⟩ := List.mem_map.mp hy
      exact List.isSome_lookup_iff_mem_map_fst.mpr
        (hperm.mem_iff.mpr (List.mem_map_of_mem (mem_ofKind.mp hq).1))
    rw [refusal, hall, unnamed]
    split
    · rename_i hnil
      have := List.mem_map_of_mem (f := Parameter.name) (mem_ofKind.mpr ⟨hp, hk⟩)
      rw [hnil] at this
      cases this
    · rfl
  have hrefused : ∃ e ∈ keywords,
      e.1 ∉ (f.ofKind .positional ++ f.ofKind .keywordOnly).map Parameter.name := by
    obtain ⟨e, he, hname⟩ := List.mem_map.mp hmem
    refine ⟨e, he, ?_⟩
    rw [hname, List.map_append, List.mem_append, not_or]
    exact ⟨name_not_mem_ofKind hnodup hp (by rw [hk]; decide),
      name_not_mem_ofKind hnodup hp (by rw [hk]; decide)⟩
  have hbound : bindKeywords _ false (f.refusal keywords) keywords [] [] = .error f.unnamed :=
    bindKeywords_of_refused hcause hrefused (hperm.nodup_iff.mpr hnodup)
  rw [bind_eq_settle, List.zip_nil_right, h.ofKind_keywords]
  exact congrArg (· >>= _) hbound

end Function

/-! ## Entering a body -/

namespace Module

/-- The surroundings of the body of a function that is called from outside of all functions. -/
def inner (m : Module) (f : Function) : Env :=
  ⟨.call f.owned, m.limits.rounds, fun g vs =>
    Pathwise.invoke m.functions m.limits.rounds (m.limits.calls - 1) g vs []⟩

/-- From a state, a call enters the body of a function, with each parameter bound to its value. -/
def Enters (m : Module) (index : Nat) (f : Function) (args : List Value)
    (keywords : List (String × Value)) (value : String → Value) (s : State) : Prop :=
  ∃ scope, f.bind args keywords = .ok scope ∧
    (∀ x ∈ f.paramNames, scope.lookup x = some (value x)) ∧
    m.invoke (.function index) args keywords s =
      Eval.within scope (do return (← f.body.exec (m.inner f)).value) s

variable {m : Module} {index : Nat} {f : Function} {args : List Value}
  {keywords : List (String × Value)} {value : String → Value}

/-- A call whose arguments can be bound enters the body. -/
theorem enters_of_bind (hf : m.function? index = some f) (hcalls : 0 < m.limits.calls)
    {scope : Scope} (hbind : f.bind args keywords = .ok scope)
    (hvalue : ∀ x ∈ f.paramNames, scope.lookup x = some (value x)) (s : State) :
    m.Enters index f args keywords value s := by
  refine ⟨scope, hbind, hvalue, ?_⟩
  have hf' : m.functions[index]? = some f := hf
  have hdepth : m.limits.calls = m.limits.calls - 1 + 1 := by omega
  rw [invoke, hdepth, Pathwise.invoke]
  simp only [hf', hbind]
  rfl

/-- A call whose arguments cannot be bound is over before it begins. -/
theorem invoke_of_bind_error (hf : m.function? index = some f) {cause : BindingFault}
    (hbind : f.bind args keywords = .error cause) (s : State) :
    m.invoke (.function index) args keywords s = .done (.error (.binding f.name cause), s) := by
  have hf' : m.functions[index]? = some f := hf
  rw [invoke, Pathwise.invoke]
  simp only [hf', hbind]
  rfl

/-- A call by position enters the body, if all parameters can be given so. -/
theorem enters_by_position (hf : m.function? index = some f) (hcalls : 0 < m.limits.calls)
    (hkinds : ∀ p ∈ f.params, p.kind.byPosition = true) (value : String → Value) (s : State) :
    m.Enters index f (f.paramNames.map value) [] value s := by
  refine enters_of_bind hf hcalls (Function.bind_positions hkinds (List.length_map _)) ?_ s
  intro x hx
  rw [List.lookup_zip_map, if_pos hx]

/-- A call by name, each parameter once and in any order, enters the body, if all parameters can be
given so. -/
theorem enters_by_name (hf : m.function? index = some f) (hcalls : 0 < m.limits.calls)
    (hkinds : f.Ungathered) (hnamed : ∀ p ∈ f.params, p.kind ≠ .positionalOnly)
    (hnodup : f.paramNames.Nodup) {names : List String} (hperm : names.Perm f.paramNames)
    (value : String → Value) (s : State) :
    m.Enters index f [] (names.map fun x => (x, value x)) value s := by
  have hnames : (names.map fun x => (x, value x)).map Prod.fst = names := by
    rw [List.map_map]
    exact List.map_id' names
  refine enters_of_bind hf hcalls (hkinds.bind_keywords hnamed hnodup (hnames.symm ▸ hperm)) ?_ s
  intro x hx
  exact Model.lookup_map_self value (hperm.mem_iff.mpr hx)

end Module

/-! ## Explored calls -/

/-- A target that asks nothing has one round. -/
theorem rounds_of_done {ω : Type} {solver : Solver} {params : List String} {target : Target ω}
    {w : ω} {e : Ending ω} (h : target w = .done e) :
    rounds solver params target w = [⟨[], w, e, .start []⟩] := by
  have hstart : Round.start solver target [] w = ⟨[], w, e, .start []⟩ := by
    rw [Round.start, h]
    rfl
  show roundsFrom solver params target (32767 + 1) [] w = _
  rw [roundsFrom_succ, hstart]
  cases hresume : e.resume? solver params (.start []) with
  | none => rfl
  | some next => cases nextPath_of_resume? hresume

namespace Module

variable {m : Module} {index : Nat} {f : Function}

/-- A function is explored in one round that asks nothing, if a parameter can only be given by
name. -/
theorem rounds_of_keywordOnly (solver : Solver) (hf : m.function? index = some f)
    (hkinds : f.Ungathered) (hnodup : f.paramNames.Nodup) {p : Parameter} (hp : p ∈ f.params)
    (hk : p.kind = .keywordOnly) :
    m.rounds solver index f =
      [⟨[], m.memory, ⟨m.memory, [], some (.binding f.name f.surplus)⟩, .start []⟩] := by
  have hbind := hkinds.bind_of_keywordOnly hnodup hp hk (List.length_map Value.unknown)
  refine rounds_of_done ?_
  rw [target, invoke_of_bind_error hf hbind]
  rfl

/-- The tests of an exploration give values to all parameters. -/
theorem names_of_mem_tests {solver : Solver} {trail : Trail} {tests : List Test}
    (hf : m.function? index = some f)
    (hok : (m.exploreFunction solver index trail).result = .ok tests) {test : Test}
    (htest : test ∈ tests) : (Test.names test).Perm f.paramNames := by
  have henc := encodable_of_ok hf hok
  rw [exploreFunction_eq hf henc] at hok
  have hmem := List.mem_map_of_mem (f := some) htest
  rw [← exploreFrom_tests hok] at hmem
  obtain ⟨r, -, hround⟩ := List.mem_map.mp hmem
  obtain ⟨leaf, hleaf, hleaftest⟩ := Option.bind_eq_some_iff.mp hround
  exact Test.names_describe
    (Solver.describe_of_leaf (Ending.leaf?_eq_some_iff.mp hleaf).2 hleaftest)

/--
**Which parameters are explored.** Let the parameters of a function be positional, positional-only
or keyword-only, with default values or without, in any number and order. In every round of its
exploration the body is entered with every parameter bound to the unknown of its name exactly if no
parameter is keyword-only. Otherwise there is one round: it asks nothing, prints nothing, and ends
with the type error that there are too many arguments by position. A test that the exploration
returns has one entry for each parameter. The call that passes all of them by name enters the body,
from whatever state and with every parameter bound to the value that is given for it, exactly if no
parameter is positional-only. Otherwise it is refused with the type error that names these.
-/
theorem parameters_entered_iff (hf : m.function? index = some f) (hkinds : f.Ungathered)
    (hnodup : f.paramNames.Nodup) (hcalls : 0 < m.limits.calls) (solver : Solver) (trail : Trail) :
    ((∀ r ∈ m.rounds solver index f,
        m.Enters index f (f.paramNames.map .unknown) [] .unknown (State.start r.world)) ↔
      ∀ p ∈ f.params, p.kind ≠ .keywordOnly) ∧
    ((∃ p ∈ f.params, p.kind = .keywordOnly) →
      (Fault.binding f.name f.surplus).className = "TypeError" ∧
      m.rounds solver index f =
        [⟨[], m.memory, ⟨m.memory, [], some (.binding f.name f.surplus)⟩, .start []⟩]) ∧
    ∀ tests, (m.exploreFunction solver index trail).result = .ok tests → ∀ test ∈ tests,
      (Test.names test).Perm f.paramNames ∧
      ∀ (value : String → Value) (s : State),
        (m.Enters index f [] (test.map fun e => (e.name, value e.name)) value s ↔
          ∀ p ∈ f.params, p.kind ≠ .positionalOnly) ∧
        ((∃ p ∈ f.params, p.kind = .positionalOnly) →
          (Fault.binding f.name f.unnamed).className = "TypeError" ∧
          m.invoke (.function index) [] (test.map fun e => (e.name, value e.name)) s =
            .done (.error (.binding f.name f.unnamed), s)) := by
  refine ⟨⟨fun hall p hp hk => ?_, fun hno r _ => ?_⟩, ?_, fun tests hok test htest => ?_⟩
  · -- the first round cannot have entered the body, since its arguments are not bound
    obtain ⟨scope, hbind, -⟩ := hall _ (by
      rw [rounds_of_keywordOnly solver hf hkinds hnodup hp hk]
      exact List.mem_singleton_self _)
    rw [hkinds.bind_of_keywordOnly hnodup hp hk (List.length_map Value.unknown)] at hbind
    cases hbind
  · refine enters_by_position hf hcalls (fun p hp => ?_) .unknown (State.start r.world)
    exact ParamKind.byPosition_of_ne (hkinds p hp).1 (hkinds p hp).2 (hno p hp)
  · rintro ⟨p, hp, hk⟩
    exact ⟨rfl, rounds_of_keywordOnly solver hf hkinds hnodup hp hk⟩
  · have hperm := names_of_mem_tests hf hok htest
    refine ⟨hperm, fun value s => ?_⟩
    have hnames : (test.map fun e => (e.name, value e.name)).map Prod.fst = Test.names test := by
      rw [List.map_map]
      rfl
    have hrefused : (∃ p ∈ f.params, p.kind = .positionalOnly) →
        f.bind [] (test.map fun e => (e.name, value e.name)) = .error f.unnamed := by
      rintro ⟨p, hp, hk⟩
      exact hkinds.bind_of_positionalOnly hnodup hp hk (hnames ▸ hperm)
    refine ⟨⟨?_, fun hnamed => ?_⟩, fun hsome => ⟨rfl, invoke_of_bind_error hf (hrefused hsome) s⟩⟩
    · rintro ⟨scope, hbind, -⟩ p hp hk
      rw [hrefused ⟨p, hp, hk⟩] at hbind
      cases hbind
    · have henters := enters_by_name hf hcalls hkinds hnamed hnodup hperm value s
      rwa [Test.names, List.map_map] at henters

end Module

/-! ## Samples -/

namespace Sample

/-- A function whose second parameter has a default value, one whose second parameter can only be
given by name, and one whose first parameter can only be given by position. -/
def signatures : Program := moduleOf [
  ⟨1, "f", [⟨"a", .positional, none⟩, ⟨"b", .positional, some (num 2)⟩],
    .ofList [(2, .print "A")]⟩,
  ⟨4, "g", [⟨"a", .positional, none⟩, ⟨"k", .keywordOnly, some (num 3)⟩],
    .ofList [(5, .print "B")]⟩,
  ⟨7, "h", [⟨"a", .positionalOnly, none⟩, ⟨"b", .positional, none⟩],
    .ofList [(8, .print "C")]⟩]

/-- The first function of the sample. -/
def defaulted : Function :=
  ⟨"f", [⟨"a", .positional, none⟩, ⟨"b", .positional, some (.int 2)⟩], .ofList [(2, .print "A")]⟩

/-- The second function of the sample. -/
def namedAlone : Function :=
  ⟨"g", [⟨"a", .positional, none⟩, ⟨"k", .keywordOnly, some (.int 3)⟩], .ofList [(5, .print "B")]⟩

/-- The third function of the sample. -/
def placedAlone : Function :=
  ⟨"h", [⟨"a", .positionalOnly, none⟩, ⟨"b", .positional, none⟩], .ofList [(8, .print "C")]⟩

abbrev signaturesModule : Module :=
  ⟨[defaulted, namedAlone, placedAlone],
    ⟨[("f", .function 0), ("g", .function 1), ("h", .function 2)], 0⟩, .standard⟩

theorem namedAlone_result :
    (signaturesModule.exploreFunction Solver.standard 1 (.start [])).result =
      .ok [[⟨"k", .zero⟩, ⟨"a", .zero⟩]] := by
  decide +kernel

theorem placedAlone_result :
    (signaturesModule.exploreFunction Solver.standard 2 (.start [])).result =
      .ok [[⟨"b", .zero⟩, ⟨"a", .zero⟩]] := by
  decide +kernel

/-- The first function is entered in all rounds. The second is refused in its only round, and is
entered by the call of its test. The third is entered, and the call of its test is refused. -/
theorem signatures_entered :
    Module.load .standard signatures = .ok signaturesModule ∧
    (∀ r ∈ signaturesModule.rounds Solver.standard 0 defaulted,
      signaturesModule.Enters 0 defaulted [.unknown "a", .unknown "b"] [] .unknown
        (State.start r.world)) ∧
    signaturesModule.rounds Solver.standard 1 namedAlone =
      [⟨[], signaturesModule.memory, ⟨signaturesModule.memory, [],
        some (.binding "g" (.tooMany 1 1 2 0))⟩, .start []⟩] ∧
    (signaturesModule.exploreFunction Solver.standard 1 (.start [])).result =
      .ok [[⟨"k", .zero⟩, ⟨"a", .zero⟩]] ∧
    signaturesModule.Enters 1 namedAlone [] [("k", .int 0), ("a", .int 0)] (fun _ => .int 0)
      (State.start signaturesModule.memory) ∧
    (∀ r ∈ signaturesModule.rounds Solver.standard 2 placedAlone,
      signaturesModule.Enters 2 placedAlone [.unknown "a", .unknown "b"] [] .unknown
        (State.start r.world)) ∧
    (signaturesModule.exploreFunction Solver.standard 2 (.start [])).result =
      .ok [[⟨"b", .zero⟩, ⟨"a", .zero⟩]] ∧
    signaturesModule.invoke (.function 2) [] [("b", .int 0), ("a", .int 0)]
        (State.start signaturesModule.memory) =
      .done (.error (.binding "h" (.positionalOnly ["a"])),
        State.start signaturesModule.memory) := by
  have hcalls : 0 < signaturesModule.limits.calls := by decide
  have hf : signaturesModule.function? 0 = some defaulted := rfl
  have hg : signaturesModule.function? 1 = some namedAlone := rfl
  have hh : signaturesModule.function? 2 = some placedAlone := rfl
  obtain ⟨hentered, -, -⟩ := Module.parameters_entered_iff hf (by decide) (by decide) hcalls
    Solver.standard (.start [])
  obtain ⟨-, hrefused, htests⟩ := Module.parameters_entered_iff hg (by decide) (by decide) hcalls
    Solver.standard (.start [])
  obtain ⟨hplaced, -, hcalled⟩ := Module.parameters_entered_iff hh (by decide) (by decide) hcalls
    Solver.standard (.start [])
  obtain ⟨-, hnamed⟩ := htests _ namedAlone_result _ List.mem_cons_self
  obtain ⟨-, hunnamed⟩ := hcalled _ placedAlone_result _ List.mem_cons_self
  refine ⟨rfl, hentered.mpr (by decide), ?_, namedAlone_result, ?_, hplaced.mpr (by decide),
    placedAlone_result, ?_⟩
  · exact (hrefused ⟨⟨"k", .keywordOnly, some (.int 3)⟩, by simp [namedAlone], rfl⟩).2
  · exact (hnamed (fun _ => .int 0) _).1.mpr (by decide)
  · exact ((hunnamed (fun _ => .int 0) _).2
      ⟨⟨"a", .positionalOnly, none⟩, by simp [placedAlone], rfl⟩).2

/-- A function that prints, with a parameter that can only be given by name. -/
def named : Program := moduleOf [
  ⟨1, "f", [⟨"a", .positional, none⟩, ⟨"k", .keywordOnly, none⟩], .ofList [(2, .print "A")]⟩]

abbrev namedModule : Module := loaded named ["f"]

/-- Its exploration does not reach the body, and reports a test for which nothing was explored: the
call of the test prints what the exploration has not. -/
theorem named_parameter_unexplored :
    Module.load .standard named = .ok namedModule ∧
    (namedModule.exploreFunction Solver.standard 0 (.start [])).result =
      .ok [[⟨"k", .zero⟩, ⟨"a", .zero⟩]] ∧
    (namedModule.exploreFunction Solver.standard 0 (.start [])).output =
      ["f() takes 1 positional argument but 2 were given"] ∧
    (namedModule.invoke (.function 0) [] [("k", .int 0), ("a", .int 0)]
      (State.start namedModule.memory)).unanswered.2.output = ["A"] :=
  ⟨rfl, by decide +kernel, by decide +kernel, by decide +kernel⟩

end Sample

end Pathwise
