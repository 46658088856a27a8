import Pathwise.Command.TestFile
import Pathwise.Proofs.Entries

/-!
# The calls of test cases

A test case calls a function on the integers of a test, by the names of its parameters. The order
of the names is that of a model, so a test case need not list the parameters in their order; what
the call does is the same as if it did.

* `Test.ofInts` — tests that give names integers. All tests that are found for integral conditions
  are of this form.
* `Function.Ungathered.bind_keywords`, `Function.bind_positions` — parameters that are all given by
  name, or all by position, where they can be.
* `Module.callOn_sameCourse` — a call by name takes the course of the call by position.
* `Module.Agrees.exists_tests` — the calls of the tests of a function take the courses of all calls
  on integers, if no run is cut off.
-/

namespace Pathwise

/-! ## Tests of integers -/

namespace Test

/-- The test that gives names integers. -/
def ofInts (ints : List (String × Int)) : Test := ints.map fun e => ⟨e.1, .reading (.int e.2)⟩

/-- The integers that a test gives names, if it gives them nothing else. -/
def ints? (t : Test) : Option (List (String × Int)) :=
  t.mapM fun e =>
    match e.value with
    | .reading (.int n) => some (e.name, n)
    | _ => none

variable {ints : List (String × Int)}

theorem ints?_eq_some {t : Test} : ints? t = some ints ↔ t = ofInts ints := by
  unfold ints? ofInts
  induction t generalizing ints with
  | nil =>
    cases ints with
    | nil => exact ⟨fun _ => rfl, fun _ => rfl⟩
    | cons _ _ => exact ⟨fun h => (by cases h), fun h => (by cases h)⟩
  | cons e t ih =>
    obtain ⟨x, v⟩ := e
    rw [List.mapM_cons]
    constructor
    · intro h
      obtain ⟨i, hi, h⟩ := Option.bind_eq_some_iff.mp h
      obtain ⟨is, his, h⟩ := Option.bind_eq_some_iff.mp h
      obtain rfl := Option.some.inj h
      rw [List.map_cons, ← ih.mp his]
      dsimp only at hi
      split at hi
      · obtain rfl := Option.some.inj hi
        rfl
      · cases hi
    · intro h
      cases ints with
      | nil => cases h
      | cons i is =>
        rw [List.map_cons, List.cons.injEq] at h
        obtain ⟨he, ht⟩ := h
        obtain ⟨rfl, rfl⟩ := Entry.mk.inj he
        rw [ih.mpr ht]
        rfl

theorem names_ofInts (ints : List (String × Int)) : names (ofInts ints) = ints.map Prod.fst := by
  rw [names, ofInts, List.map_map]
  rfl

/-- What the integers of a test mean. -/
theorem int_valuation_ofInts (ints : List (String × Int)) (x : String) :
    (valuation (ofInts ints)).int x = (ints.lookup x).getD 0 := by
  show ((model (ofInts ints)).int? x).getD 0 = _
  congr 1
  rw [Model.int?, model, ofInts, List.filterMap_map]
  induction ints with
  | nil => rfl
  | cons e ints ih =>
    obtain ⟨y, n⟩ := e
    rw [List.lookup_cons]
    by_cases hxy : x = y
    · simp [hxy]
    · have hbeq : (x == y) = false := by simpa using hxy
      rw [hbeq, ← ih]
      simp [Ne.symm hxy]

/-- A model of integers describes a test of integers. -/
theorem exists_ofInts_describe {m : Model} {params : List String} {test : Test}
    (h : (m.describe params).1 = .ok test)
    (hint : ∀ e ∈ m.entries, e.2.kind? = some .int) : ∃ ints, test = ofInts ints := by
  obtain ⟨entries⟩ := m
  simp only [Model.describe] at h hint
  -- by induction on the model: what it does not declare is zero in the end
  induction entries generalizing params test with
  | nil =>
    obtain rfl := Except.ok.inj h
    refine ⟨params.reverse.map fun x => (x, 0), ?_⟩
    rw [ofInts, List.map_map]
    rfl
  | cons e entries ih =>
    obtain ⟨x, r⟩ := e
    obtain ⟨-, rest, hrest, rfl⟩ := Model.of_describeEntries_cons h
    obtain ⟨ints, rfl⟩ := ih hrest fun e he => hint e (List.mem_cons_of_mem _ he)
    have hr := hint (x, r) List.mem_cons_self
    cases r with
    | int n => exact ⟨(x, n) :: ints, rfl⟩
    | _ => cases hr

end Test

theorem TestFile.mem_calls {tests : List (String × List Test)} {name : String} {test : Test} :
    (name, test) ∈ TestFile.calls tests ↔ ∃ ts, (name, ts) ∈ tests ∧ test ∈ ts := by
  simp only [TestFile.calls, List.mem_flatMap, List.mem_map, Prod.mk.injEq]
  constructor
  · rintro ⟨⟨x, ts⟩, hmem, t, ht, rfl, rfl⟩
    exact ⟨ts, hmem, ht⟩
  · rintro ⟨ts, hmem, ht⟩
    exact ⟨(name, ts), hmem, test, ht, rfl, rfl⟩

/-! ## Parameters that are given by name -/

/-- What takes one argument, and not by position alone, can be given by name. -/
theorem ParamKind.positional_or_keywordOnly {k : ParamKind} (hrest : k ≠ .rest)
    (hkeywords : k ≠ .keywords) (hplaced : k ≠ .positionalOnly) :
    k = .positional ∨ k = .keywordOnly := by
  cases k with
  | positional => exact .inl rfl
  | keywordOnly => exact .inr rfl
  | positionalOnly => exact absurd rfl hplaced
  | rest => exact absurd rfl hrest
  | keywords => exact absurd rfl hkeywords

theorem Scope.set_of_notMem {s : Scope} {x : String} (h : x ∉ s.map Prod.fst) (v : Value) :
    s.set x v = s ++ [(x, v)] := by
  induction s with
  | nil => rfl
  | cons e rest ih =>
    obtain ⟨y, w⟩ := e
    obtain ⟨hy, hrest⟩ := not_or.mp (fun hor => h (List.mem_cons.mpr hor))
    rw [set, if_neg (Ne.symm hy), ih hrest]
    rfl

namespace Function

/-- A keyword that is taken and is not bound yet is added at the end. -/
theorem bindKeywords_cons_of_taken {takers : List String} {gathers : Bool}
    {refusal : String → BindingFault} {extra : Scope} {x : String} {v : Value}
    {keywords : List (String × Value)} {bound : Scope} (htaken : x ∈ takers)
    (hnodup : ((bound ++ (x, v) :: keywords).map Prod.fst).Nodup) :
    bindKeywords takers gathers refusal ((x, v) :: keywords) bound extra =
      bindKeywords takers gathers refusal keywords (bound ++ [(x, v)]) extra := by
  have hnew : x ∉ bound.map Prod.fst := by
    rw [List.map_append, List.map_cons] at hnodup
    exact fun hmem => (List.nodup_append.mp hnodup).2.2 x hmem x List.mem_cons_self rfl
  have hfree : ¬ (bound.lookup x).isSome := fun h =>
    hnew (List.isSome_lookup_iff_mem_map_fst.mp h)
  rw [bindKeywords, if_pos (List.contains_iff_mem.mpr htaken), if_neg hfree,
    Scope.set_of_notMem hnew]

/-- Keywords of different names that are all taken are bound in their order. -/
theorem bindKeywords_of_taken {takers : List String} {gathers : Bool}
    {refusal : String → BindingFault} {extra : Scope} {keywords : List (String × Value)}
    {bound : Scope} (htaken : ∀ e ∈ keywords, e.1 ∈ takers)
    (hnodup : ((bound ++ keywords).map Prod.fst).Nodup) :
    bindKeywords takers gathers refusal keywords bound extra = .ok (bound ++ keywords, extra) := by
  induction keywords generalizing bound with
  | nil => rw [bindKeywords, List.append_nil]
  | cons e keywords ih =>
    obtain ⟨hhead, htail⟩ := List.forall_mem_cons.mp htaken
    rw [bindKeywords_cons_of_taken hhead hnodup]
    rw [List.append_cons bound e keywords] at hnodup ⊢
    exact ih htail hnodup

variable {f : Function}

theorem missing_eq_nil {ps : List Parameter} {bound : Scope}
    (h : ∀ p ∈ ps, p.name ∈ bound.map Prod.fst) : missing ps bound = [] := by
  unfold missing
  rw [List.map_eq_nil_iff, List.filter_eq_nil_iff]
  intro p hp
  obtain ⟨v, hv⟩ := Option.isSome_iff_exists.mp (List.isSome_lookup_iff_mem_map_fst.mpr (h p hp))
  rw [hv]
  simp

/-- Parameters that are bound need no default value. -/
theorem fill_of_bound {ps : List Parameter} {bound : Scope}
    (h : ∀ p ∈ ps, p.name ∈ bound.map Prod.fst) : fill ps bound = bound := by
  unfold fill
  induction ps with
  | nil => rfl
  | cons p ps ih =>
    obtain ⟨v, hv⟩ :=
      Option.isSome_iff_exists.mp (List.isSome_lookup_iff_mem_map_fst.mpr (h p List.mem_cons_self))
    rw [List.foldl_cons, hv]
    exact ih fun q hq => h q (List.mem_cons_of_mem _ hq)

theorem mem_ofKind {p : Parameter} {k : ParamKind} :
    p ∈ f.ofKind k ↔ p ∈ f.params ∧ p.kind = k := by
  rw [ofKind, List.mem_filter, decide_eq_true_eq]

theorem ofKind_eq_nil {k : ParamKind} (h : ∀ p ∈ f.params, p.kind ≠ k) : f.ofKind k = [] :=
  List.eq_nil_iff_forall_not_mem.mpr fun p hp => h p (mem_ofKind.mp hp).1 (mem_ofKind.mp hp).2

theorem mem_positional {p : Parameter} :
    p ∈ f.positional ↔ p ∈ f.params ∧ p.kind.byPosition = true := List.mem_filter

/-- No parameter gathers arguments: each takes one, by position or by name. -/
def Ungathered (f : Function) : Prop := ∀ p ∈ f.params, p.kind ≠ .rest ∧ p.kind ≠ .keywords

instance (f : Function) : Decidable f.Ungathered :=
  inferInstanceAs (Decidable (∀ p ∈ f.params, p.kind ≠ .rest ∧ p.kind ≠ .keywords))

namespace Ungathered

theorem ofKind_rest (h : f.Ungathered) : f.ofKind .rest = [] :=
  ofKind_eq_nil fun p hp => (h p hp).1

theorem ofKind_keywords (h : f.Ungathered) : f.ofKind .keywords = [] :=
  ofKind_eq_nil fun p hp => (h p hp).2

/-- A call is settled once all parameters are bound, whatever their default values. -/
theorem settle_eq (h : f.Ungathered) {args : List Value} {bound extra : Scope}
    (hbound : ∀ x ∈ f.paramNames, x ∈ bound.map Prod.fst)
    (hcount : args.length ≤ f.positional.length) :
    f.settle args bound extra = .ok bound := by
  have hpositional : ∀ p ∈ f.positional, p.name ∈ bound.map Prod.fst := fun p hp =>
    hbound p.name (List.mem_map_of_mem (mem_positional.mp hp).1)
  have hkeywordOnly : ∀ p ∈ f.ofKind .keywordOnly, p.name ∈ bound.map Prod.fst := fun p hp =>
    hbound p.name (List.mem_map_of_mem (mem_ofKind.mp hp).1)
  have hfill : fill (f.positional ++ f.ofKind .keywordOnly) bound = bound :=
    fill_of_bound fun p hp => (List.mem_append.mp hp).elim (hpositional p) (hkeywordOnly p)
  simp [settle, missing_eq_nil hpositional, missing_eq_nil hkeywordOnly, hfill, h.ofKind_rest,
    h.ofKind_keywords, Nat.not_lt.mpr hcount]

/-- Parameters that are all given by name, each once, and can be. -/
theorem bind_keywords (h : f.Ungathered) (hnamed : ∀ p ∈ f.params, p.kind ≠ .positionalOnly)
    (hnodup : f.paramNames.Nodup) {keywords : List (String × Value)}
    (hperm : (keywords.map Prod.fst).Perm f.paramNames) : f.bind [] keywords = .ok keywords := by
  have htaken : ∀ e ∈ keywords,
      e.1 ∈ (f.ofKind .positional ++ f.ofKind .keywordOnly).map Parameter.name := by
    intro e he
    obtain ⟨p, hp, hname⟩ := List.mem_map.mp (hperm.mem_iff.mp (List.mem_map_of_mem he))
    refine List.mem_map.mpr ⟨p, List.mem_append.mpr ?_, hname⟩
    rw [mem_ofKind, mem_ofKind, ← and_or_left]
    exact ⟨hp, ParamKind.positional_or_keywordOnly (h p hp).1 (h p hp).2 (hnamed p hp)⟩
  have hbound :
      bindKeywords ((f.ofKind .positional ++ f.ofKind .keywordOnly).map Parameter.name)
        (!(f.ofKind .keywords).isEmpty) (f.refusal keywords) keywords [] [] =
        .ok (keywords, []) :=
    bindKeywords_of_taken htaken (hperm.nodup_iff.mpr hnodup)
  rw [bind_eq_settle, List.zip_nil_right, hbound]
  exact h.settle_eq (fun x hx => hperm.mem_iff.mpr hx) (Nat.zero_le _)

end Ungathered

/-- Parameters that are all given by position. -/
theorem bind_positions (h : ∀ p ∈ f.params, p.kind.byPosition = true) {args : List Value}
    (hlength : args.length = f.paramNames.length) :
    f.bind args [] = .ok (f.paramNames.zip args) := by
  have hungathered : f.Ungathered := by
    intro p hp
    have hposition := h p hp
    constructor
    all_goals
      intro hk
      rw [hk] at hposition
      cases hposition
  have hall : f.positional = f.params := List.filter_eq_self.mpr h
  rw [bind_eq_settle, hall]
  show f.settle args (f.paramNames.zip args) [] = _
  refine hungathered.settle_eq (fun x hx => ?_) ?_
  · rwa [List.map_fst_zip hlength.ge]
  · rw [hall, hlength, paramNames, List.length_map]

end Function

/-! ## Calls by name and by position -/

theorem Value.like_refl {pairs : Nat → Nat → Prop} (h : ∀ i, pairs i i) :
    (v : Value) → v.Like pairs v
  | .held g => .held g
  | .number g => .number g
  | .condition stamp g => .condition stamp g
  | .tuple vs => like_tuple (List.forall₂_same.mpr fun v _ => like_refl h v)
  | .table _ => .table rfl
  | .function i => .function (h i)
  | .builtin b => .builtin b
  | .class c => .class c
  | .object stamp c => .object stamp c

theorem Value.rel_refl {pairs : Nat → Nat → Prop} (h : ∀ i, pairs i i) (v : Option Value) :
    Option.Rel (Value.Like pairs) v v := by
  cases v with
  | none => exact .none
  | some v => exact .some (like_refl h v)

namespace Module

variable {m : Module} {index : Nat} {f : Function}

/-- A module as code sees it that may read all of its names, beside itself. -/
def sameness (m : Module) : Likeness where
  memory := m.memory
  memory' := m.memory
  names _ := True
  pairs i j := i = j
  unique h h' := by rw [h, h']
  globals x _ := Value.rel_refl (fun _ => rfl) _

theorem sameness_serves (hfree : m.globalFree = true) :
    m.sameness.Serves m.functions m.functions := by
  rintro i j ⟨rfl⟩
  cases hf : m.functions[i]? with
  | none => exact .none
  | some f =>
    refine .some ⟨rfl, List.forall₂_same.mpr fun p _ => ⟨rfl, rfl, ?_⟩, rfl, ?_, ?_⟩
    · exact Value.rel_refl (fun _ => rfl) _
    · simpa using List.all_eq_true.mp hfree f (List.mem_of_getElem? hf)
    · exact fun _ _ => .inr trivial

/-- Calls whose arguments give the parameters the same values take the same course. -/
theorem invoke_sameCourse (hfree : m.globalFree = true) (hf : m.function? index = some f)
    {args args' : List Value} {keywords keywords' : List (String × Value)} {s s' : Scope}
    (hs : f.bind args keywords = .ok s) (hs' : f.bind args' keywords' = .ok s')
    (hsame : s.Like (· = ·) s') :
    SameCourse
      (m.invoke (.function index) args keywords (State.start m.memory)).unanswered
      (m.invoke (.function index) args' keywords' (State.start m.memory)).unanswered := by
  -- the module is compared with itself; only the ways of binding differ
  have hserves := sameness_serves hfree
  have hcall : Eval.Like.value m.sameness (m.invoke (.function index) args keywords)
      (m.invoke (.function index) args' keywords') := by
    refine invoke_function_like hserves (fun k _ g g' vs vs' hg hvs => ?_) rfl ?_
    · exact invoke_like hserves _ k hg hvs
    · intro g g' hg hg' _
      obtain rfl := Option.some.inj (hf.symm.trans hg)
      obtain rfl := Option.some.inj (hf.symm.trans hg')
      rw [hs, hs']
      exact .ok hsame
  obtain ⟨hresult, hstate⟩ := (hcall (State.start m.memory) (State.start m.memory)
    ⟨rfl, rfl, fun _ => .none, rfl, rfl, rfl⟩).unanswered
  exact ⟨hstate.trace, hstate.output, hresult.ending⟩

/-- Call what a name of the module stands for on integers that are given by name. -/
def callOn (m : Module) (name : String) (ints : List (String × Int)) :
    Except Fault Value × State :=
  match m.memory.globals.lookup name with
  | none => (.error (.undefinedName name), State.start m.memory)
  | some v =>
    (m.invoke v [] (ints.map fun e => (e.1, .int e.2)) (State.start m.memory)).unanswered

theorem lookup_map_int (ints : List (String × Int)) (x : String) :
    (ints.map fun e => (e.1, Value.int e.2)).lookup x = (ints.lookup x).map .int := by
  induction ints with
  | nil => rfl
  | cons e ints ih =>
    rw [List.map_cons, List.lookup_cons, List.lookup_cons, ih]
    cases x == e.1 <;> rfl

/-- A call by name takes the course of the call by position. -/
theorem callOn_sameCourse (hfree : m.globalFree = true) (hf : m.function? index = some f)
    (hplain : ∀ p ∈ f.params, p.kind = .positional ∧ p.default? = none)
    (hnodup : f.paramNames.Nodup) {name : String}
    (hname : m.memory.globals.lookup name = some (.function index)) {ints : List (String × Int)}
    (hperm : (ints.map Prod.fst).Perm f.paramNames) :
    SameCourse (m.callOn name ints)
      (m.result index (f.paramNames.map (Test.valuation (Test.ofInts ints)).int)) := by
  unfold callOn
  rw [hname]
  have hungathered : f.Ungathered := fun p hp => by rw [(hplain p hp).1]; decide
  have hkeywords : f.bind [] (ints.map fun e => (e.1, .int e.2)) = _ :=
    hungathered.bind_keywords (fun p hp => by rw [(hplain p hp).1]; decide) hnodup
      (by rwa [List.map_map])
  have hpositions :
      f.bind ((f.paramNames.map (Test.valuation (Test.ofInts ints)).int).map .int) [] = _ :=
    Function.bind_positions (fun p hp => by rw [(hplain p hp).1]; rfl) (by simp)
  refine invoke_sameCourse hfree hf hkeywords hpositions fun x => ?_
  rw [lookup_map_int, List.map_map, List.lookup_zip_map]
  -- a name has a value in both scopes or in neither, and then it is the integer of the test
  split
  · rename_i hx
    obtain ⟨n, hn⟩ := Option.isSome_iff_exists.mp
      (List.isSome_lookup_iff_mem_map_fst.mpr (hperm.mem_iff.mpr hx))
    rw [hn, Function.comp_apply, Test.int_valuation_ofInts, hn]
    exact .some (.held _)
  · rename_i hx
    have hnone : ints.lookup x = none := by
      rw [← Option.not_isSome_iff_eq_none, List.isSome_lookup_iff_mem_map_fst, hperm.mem_iff]
      exact hx
    rw [hnone]
    exact .none

/-! ## The calls of all tests -/

variable {solver : Solver} {uses : Nat → Yield → Bool} {y : Yield}

/-- The tests of integral conditions over the parameters give integers to the parameters. -/
theorem exists_ofInts_of_leaf (hF : solver.Frugal) {params : List String} {t : Trail}
    {test : Test} (htest : (solver.leaf? params t).bind Leaf.test = some test)
    (hconds : ∀ c ∈ t.conditions, c.Over params) :
    ∃ ints, test = Test.ofInts ints ∧ (ints.map Prod.fst).Perm params := by
  obtain ⟨leaf, hleaf, htest⟩ := Option.bind_eq_some_iff.mp htest
  obtain ⟨hints, -⟩ := hF.declares_ints hleaf fun c hc p hp => (hconds c hc).toFormula hp
  have hok := Solver.describe_of_leaf hleaf htest
  obtain ⟨ints, rfl⟩ := Test.exists_ofInts_describe hok fun e he => (hints e he).2
  refine ⟨ints, rfl, ?_⟩
  rw [← Test.names_ofInts]
  exact Test.names_describe hok

/-- The search of a function of the fragment whose runs all go to their ends, leave the search going
and exchange no operands: every call on integers takes the course of a run, and of the call of a
test. -/
theorem Agrees.exists_tests (hm : m.Agrees uses) (huse : uses index y = true) (hS : solver.Correct)
    (hF : solver.Frugal) (hf : m.function? index = some f)
    (henc : f.paramNames.forM encodable = .ok ())
    (hruns : ∀ r ∈ m.rounds solver index f, survived (m.outcome solver index f r.path) = true ∧
      (m.outcome solver index f r.path).1 ≠ .error .depthLimit ∧
        .exchange ∉ (m.outcome solver index f r.path).2.trace) (trail : Trail) :
    ∃ tests, (m.exploreFunction solver index trail).result = .ok tests ∧
      (∀ test ∈ tests, ∃ ints, test = Test.ofInts ints ∧
        (ints.map Prod.fst).Perm f.paramNames) ∧
      ∀ ns : List Int, ns.length = f.paramNames.length →
        ∃ r ∈ m.rounds solver index f, ∃ test ∈ tests,
          SameCourse (m.outcome solver index f r.path) (m.result index ns) ∧
          SameCourse (m.result index (f.paramNames.map (Test.valuation test).int))
            (m.result index ns) := by
  have hserves := hm.serves (some f.paramNames) huse
  have hnames : ∀ ys ∈ (some f.paramNames), ys = f.paramNames := by
    rintro ys ⟨rfl⟩
    rfl
  obtain ⟨-, hnodup, -⟩ := Function.agrees_iff.mp (hm.agrees index y f huse hf)
  have hstay : ∀ r ∈ m.rounds solver index f, r.ending.escapes = false := fun r hr =>
    not_escapes_of_survived hserves hnames hr (hruns r hr).1
  obtain ⟨tests, hok⟩ := hserves.exploreFunction_ok rfl hS hF hf henc hstay trail
  refine ⟨tests, hok, ?_⟩
  rw [exploreFunction_eq hf henc] at hok
  have hfound := exploreFrom_tests hok
  constructor
  · intro test htest
    have hmem := List.mem_map_of_mem (f := some) htest
    rw [← hfound] at hmem
    obtain ⟨r, hr, hleaf⟩ := List.mem_map.mp hmem
    rw [Ending.leaf?_of_not_escapes (hstay r hr)] at hleaf
    exact exists_ofInts_of_leaf hF hleaf (hserves.over_of_mem_rounds rfl hr)
  · intro ns hlength
    -- some round has conditions that the integers meet, and then it covers them
    have hcount := explore_partition (hserves.steady hnames) hok
      (Valuation.assigning f.paramNames ns)
    obtain ⟨r, hr, hmeets⟩ := List.countP_pos_iff.mp (hcount ▸ Nat.one_pos)
    have hmem : (solver.leaf? f.paramNames r.trail).bind Leaf.test ∈ tests.map some := by
      rw [← hfound]
      exact List.mem_map.mpr ⟨r, hr, by rw [Ending.leaf?_of_not_escapes (hstay r hr)]⟩
    obtain ⟨test, htest, hleaf⟩ := List.mem_map.mp hmem
    obtain ⟨-, hcut, hno⟩ := hruns r hr
    have hcovers := hm.covers huse hS hnodup hr hno hleaf.symm hlength hmeets
    exact ⟨r, hr, test, htest, hcovers.input.same hcut, (hcovers.same hcut).symm⟩

end Module

end Pathwise
