import Mathlib.Data.List.Nodup
import Pathwise.Proofs.Independence
import Pathwise.Solver.Decision

/-!
# What a model is described as

`Model.describe` goes through the declarations of a model and strikes each off the parameters; what
is left over it pads with zeros, from the last parameter to the first. It consumes its list of
parameters from two ends at once, so it has to be shown that nothing is lost and nothing is listed
twice, and that the zeros do no harm.

All of it follows from one equation, `describeEntries_append`: declarations that are parameters are
listed in their order, and the rest of the work is done on the parameters without them.

* `Model.describe_of_declared` — a model that declares parameters only.
* `Model.describe_of_foreign` — a model that declares something else.
* `Test.agrees_of_describe` — whatever agrees with the test agrees with the model.
* `Model.described_whole` — all of this, and that the test makes the formulas true.
-/

namespace Pathwise

namespace Model

/-- The declarations of a model as entries of a test. -/
def listed (entries : List (String × Reading)) : Test :=
  entries.map fun e => ⟨e.1, .reading e.2⟩

/-- The parameters that no declaration strikes off. -/
def leftOver (params : List String) (entries : List (String × Reading)) : List String :=
  params.filter fun x => x ∉ entries.map Prod.fst

variable {params : List String} {before after : List (String × Reading)}

theorem leftOver_cons (hp : params.Nodup) (x : String) (r : Reading)
    (entries : List (String × Reading)) :
    leftOver params ((x, r) :: entries) = leftOver (params.erase x) entries := by
  unfold leftOver
  rw [hp.erase_eq_filter, List.filter_filter]
  refine List.filter_congr fun y _ => ?_
  rw [List.map_cons, Bool.eq_iff_iff, Bool.and_eq_true, decide_eq_true_eq, decide_eq_true_eq,
    bne_iff_ne, List.mem_cons, not_or, and_comm]

/-- Declarations that are parameters are listed in their order, and the parameters without them go
on to the declarations after them. -/
theorem describeEntries_append (hp : params.Nodup) (hnodup : (before.map Prod.fst).Nodup)
    (hbefore : ∀ e ∈ before, e.1 ∈ params) :
    describeEntries (before ++ after) params =
      ((describeEntries after (leftOver params before)).1.map (listed before ++ ·),
        (describeEntries after (leftOver params before)).2) := by
  -- induction on the declarations before, for all parameters: each step strikes one off
  induction before generalizing params with
  | nil =>
    have hleft : leftOver params [] = params := by
      unfold leftOver
      simp
    rw [hleft]
    show describeEntries after params = _
    cases h : (describeEntries after params).1 <;> simp [listed, Except.map, ← h]
  | cons e before ih =>
    obtain ⟨x, r⟩ := e
    have hx : x ∈ params := hbefore (x, r) List.mem_cons_self
    rw [List.map_cons, List.nodup_cons] at hnodup
    have hrest := mem_erase_of_declared hnodup.1 hbefore
    rw [List.cons_append, describeEntries_cons hx, ih (hp.erase x) hnodup.2 hrest,
      leftOver_cons hp]
    cases (describeEntries after (leftOver (params.erase x) before)).1 <;> rfl

/-- A model that declares parameters only: its declarations in their order, then the other
parameters from the last to the first. -/
theorem describe_of_declared {m : Model} (hp : params.Nodup)
    (hnodup : (m.entries.map Prod.fst).Nodup) (hall : ∀ e ∈ m.entries, e.1 ∈ params) :
    m.describe params = (.ok (listed m.entries ++ padding (leftOver params m.entries)), []) := by
  have happend : describeEntries (m.entries ++ []) params = _ :=
    describeEntries_append hp hnodup hall
  rw [List.append_nil] at happend
  exact happend

/-- The first declaration that is no parameter ends the description, when exactly the declarations
before it have been struck off. -/
theorem describe_of_foreign {m : Model} {e : String × Reading} (hp : params.Nodup)
    (hnodup : (m.entries.map Prod.fst).Nodup) (hm : m.entries = before ++ e :: after)
    (hbefore : ∀ d ∈ before, d.1 ∈ params) (he : e.1 ∉ params) :
    m.describe params = (.error .foreignUnknown, leftOver params before) := by
  rw [hm, List.map_append, List.nodup_append] at hnodup
  have hleft : e.1 ∉ leftOver params before := fun h => he (List.mem_of_mem_filter h)
  rw [describe, hm, describeEntries_append hp hnodup.1 hbefore, describeEntries, if_neg hleft]
  rfl

/-- Declarations that are not all parameters have a first one that is none. -/
theorem exists_first_foreign {entries : List (String × Reading)}
    (h : ¬ ∀ e ∈ entries, e.1 ∈ params) :
    ∃ before e after, entries = before ++ e :: after ∧ (∀ d ∈ before, d.1 ∈ params) ∧
      e.1 ∉ params := by
  cases hfind : entries.find? fun e => e.1 ∉ params with
  | none =>
    rw [List.find?_eq_none] at hfind
    exact absurd (fun e he => by simpa using hfind e he) h
  | some e =>
    obtain ⟨he, before, after, hsplit, hbefore⟩ := List.find?_eq_some_iff_append.mp hfind
    refine ⟨before, e, after, hsplit, fun d hd => ?_, by simpa using he⟩
    simpa using hbefore d hd

/-- What agrees with a longer model agrees with what it begins with. -/
theorem Agrees.of_append {m : Model} (more : List (String × Reading)) {ρ : Valuation}
    (h : (Model.mk (m.entries ++ more)).Agrees ρ) : m.Agrees ρ where
  int x n hx := h.int x n ((List.prefix_append _ _).findSome?_eq_some hx)
  bool x b hx := h.bool x b ((List.prefix_append _ _).findSome?_eq_some hx)
  real x q hx := h.real x q ((List.prefix_append _ _).findSome?_eq_some hx)
  modZero a r hr := h.modZero a r ((List.prefix_append _ _).findSome?_eq_some hr)
  openPower a b r hr := h.openPower a b r ((List.prefix_append _ _).findSome?_eq_some hr)

end Model

/-- Whatever agrees with a test agrees with the model that it was made of: the zeros come last. -/
theorem Test.agrees_of_describe {m : Model} {params : List String} {test : Test}
    (h : (m.describe params).1 = .ok test) {ρ : Valuation} (hρ : (Test.model test).Agrees ρ) :
    m.Agrees ρ := by
  obtain ⟨left, hleft⟩ := Test.entries_describe h
  refine Model.Agrees.of_append (left.map fun x => (x, .int 0)) ?_
  rw [← hleft]
  exact hρ

/-- Conditions that can be met have a model, and whatever agrees with its test meets them. If they
are over the parameters and leave nothing open, there is a test. -/
theorem Solver.Correct.exists_described {solver : Solver} (hS : solver.Correct)
    (params : List String) {cs : List Held} (hPos : Possible cs) :
    ∃ m, solver.solve cs = .ok (some m) ∧
      (∀ test, (m.describe params).1 = .ok test →
        ∀ ρ, (Test.model test).Agrees ρ → ρ.meets cs = true) ∧
      (solver.Frugal → (∀ h ∈ cs, ∀ p, h.toFormula = .ok p → p.Integral params) →
        ∃ test, (m.describe params).1 = .ok test) := by
  obtain ⟨leaf, hleaf, -, -, htest, hmeets⟩ := hS.exists_leaf params (t := ⟨[], cs⟩) hPos
  obtain ⟨-, -, -, φs, hφs, hm⟩ := Solver.leaf?_eq_some hleaf
  refine ⟨leaf.model, ?_, ?_, ?_⟩
  · rw [Solver.solve, show Held.toFormulas cs = .ok φs from hφs, ← hm]
    rfl
  · intro test hok ρ hρ
    exact hmeets ρ (Test.agrees_of_describe hok hρ)
  · intro hF hover
    obtain ⟨hnodup, hall⟩ := hF.declaredIn hleaf hover
    exact Test.exists_describe hnodup hall

/--
**Descriptions are whole.** Against parameters without repetition, a model that declares no name
twice is described exactly if all it declares are parameters. Otherwise the description ends with a
value error at the first other declaration, and exactly those before it have been struck off the
parameters. The test has one entry for each parameter: first the declarations in their order, as the
model reads them, then the parameters that are left, the last one first, with zero; no parameter
remains. A correct solver finds a model of whatever conditions can be met, and whatever agrees with
the test that describes it meets the conditions. There is such a test, from a frugal solver, if the
conditions are over the parameters and leave nothing open.
-/
theorem Model.described_whole {params : List String} (hp : params.Nodup) :
    (∀ m : Model, (m.entries.map Prod.fst).Nodup →
      ((∃ test, (m.describe params).1 = .ok test) ↔ ∀ e ∈ m.entries, e.1 ∈ params) ∧
      ((¬ ∀ e ∈ m.entries, e.1 ∈ params) →
        Fault.foreignUnknown.className = "ValueError" ∧
        ∃ before e after, m.entries = before ++ e :: after ∧ (∀ d ∈ before, d.1 ∈ params) ∧
          e.1 ∉ params ∧ m.describe params = (.error .foreignUnknown, leftOver params before)) ∧
      ∀ test, (m.describe params).1 = .ok test →
        (Test.names test).Perm params ∧ (m.describe params).2 = [] ∧
        test = listed m.entries ++
          (leftOver params m.entries).reverse.map fun x => ⟨x, .reading (.int 0)⟩) ∧
    ∀ (solver : Solver) (cs : List Held), solver.Correct → Possible cs →
      ∃ m, solver.solve cs = .ok (some m) ∧
        (∀ test, (m.describe params).1 = .ok test →
          ∀ ρ, (Test.model test).Agrees ρ → ρ.meets cs = true) ∧
        (solver.Frugal → (∀ h ∈ cs, ∀ p, h.toFormula = .ok p → p.Integral params) →
          ∃ test, (m.describe params).1 = .ok test) := by
  refine ⟨fun m hnodup => ?_, fun solver cs hS hPos => hS.exists_described params hPos⟩
  -- a model that declares anything else has no test
  have hforeign : (¬ ∀ e ∈ m.entries, e.1 ∈ params) →
      ∃ before e after, m.entries = before ++ e :: after ∧ (∀ d ∈ before, d.1 ∈ params) ∧
        e.1 ∉ params ∧ m.describe params = (.error .foreignUnknown, leftOver params before) := by
    intro hnot
    obtain ⟨before, e, after, hm, hbefore, he⟩ := exists_first_foreign hnot
    exact ⟨before, e, after, hm, hbefore, he, describe_of_foreign hp hnodup hm hbefore he⟩
  have hall : ∀ test, (m.describe params).1 = .ok test → ∀ e ∈ m.entries, e.1 ∈ params := by
    intro test htest
    by_contra hnot
    obtain ⟨_, _, _, _, _, _, herror⟩ := hforeign hnot
    rw [herror] at htest
    cases htest
  refine ⟨⟨fun ⟨test, htest⟩ => hall test htest, Test.exists_describe hnodup⟩,
    fun hnot => ⟨rfl, hforeign hnot⟩, fun test htest => ⟨Test.names_describe htest, ?_⟩⟩
  have heq := describe_of_declared hp hnodup (hall test htest)
  rw [heq] at htest ⊢
  exact ⟨rfl, (Except.ok.inj htest).symm⟩

/-! ## Samples -/

namespace Sample

/-- Two of three parameters, not in the order of the parameters. -/
def twoOfThree : Model := ⟨[("y", .int 4), ("x", .int (-2))]⟩

/-- A table of remainders between two parameters. -/
def tableBetween : Model := ⟨[("y", .int 4), ("mod0", .modZero [(4, 1)]), ("x", .int 1)]⟩

theorem evenDifference_integral : evenDifference.Integral ["x", "y", "z"] where
  definite := rfl
  unknowns := by decide

/-- Two models against three parameters, one of them described and the other not, and the model of
an even difference. -/
theorem three_described_whole :
    ["x", "y", "z"].Nodup ∧
    (twoOfThree.entries.map Prod.fst).Nodup ∧
    twoOfThree.describe ["x", "y", "z"] =
      (.ok [⟨"y", .reading (.int 4)⟩, ⟨"x", .reading (.int (-2))⟩, ⟨"z", .reading (.int 0)⟩], []) ∧
    (tableBetween.entries.map Prod.fst).Nodup ∧
    (¬ ∃ test, (tableBetween.describe ["x", "y", "z"]).1 = .ok test) ∧
    tableBetween.describe ["x", "y", "z"] = (.error .foreignUnknown, ["x", "z"]) ∧
    Solver.ideal.Correct ∧ Solver.ideal.Frugal ∧ Possible [.term evenDifference] ∧
    ∃ m test, Solver.ideal.solve [.term evenDifference] = .ok (some m) ∧
      (m.describe ["x", "y", "z"]).1 = .ok test ∧
      ∀ ρ, (Test.model test).Agrees ρ → ρ.meets [.term evenDifference] = true := by
  have hp : ["x", "y", "z"].Nodup := by decide
  have htwo : (twoOfThree.entries.map Prod.fst).Nodup := by decide
  have htable : (tableBetween.entries.map Prod.fst).Nodup := by decide
  have hPos : Possible [.term evenDifference] :=
    ⟨Valuation.assigning ["x", "y"] [0, 0], by decide⟩
  obtain ⟨hmodels, hsolvers⟩ := Model.described_whole hp
  obtain ⟨hiff, -, hwhole⟩ := hmodels twoOfThree htwo
  obtain ⟨test, htest⟩ := hiff.mpr (by decide)
  obtain ⟨-, hleft, hlisted⟩ := hwhole test htest
  obtain ⟨hnot, -, -⟩ := hmodels tableBetween htable
  obtain ⟨m, hm, hmeets, hover⟩ := hsolvers Solver.ideal _ Solver.ideal_correct hPos
  obtain ⟨found, hfound⟩ := hover Solver.ideal_frugal (by
    intro h hh p hread
    obtain rfl := List.mem_singleton.mp hh
    obtain rfl := Except.ok.inj hread
    exact evenDifference_integral)
  refine ⟨hp, htwo, Prod.ext (htest.trans (congrArg _ hlisted)) hleft, htable,
    fun h => absurd (hnot.mp h) (by decide), by decide, Solver.ideal_correct,
    Solver.ideal_frugal, hPos, m, found, hm, hfound, hmeets found hfound⟩

/-- Conditions over the parameters whose model has no test: the remainder by an unknown may be one
by zero, and the model that the solver finds declares those as well. -/
theorem remainder_not_described :
    Possible [.term leavesOne] ∧
    (∀ u ∈ leavesOne.unknowns, u.kind = .int ∧ u.name ∈ ["x", "y"]) ∧
    ∃ m : Model, Solver.standard.solve [.term leavesOne] = .ok (some m) ∧
      (∀ ρ, m.Agrees ρ → ρ.meets [.term leavesOne] = true) ∧
      m.describe ["x", "y"] = (.error .foreignUnknown, []) := by
  refine ⟨⟨Valuation.assigning ["x", "y"] [1, 2], by decide⟩, by decide,
    ⟨[("x", .int 0), ("y", .int 0), ("mod0", .modZero [(0, 1)])]⟩, by decide +kernel, ?_,
    by decide⟩
  intro ρ hρ
  have hx : ρ.int "x" = 0 := hρ.int "x" 0 rfl
  have hy : ρ.int "y" = 0 := hρ.int "y" 0 rfl
  have hmod : ρ.modZero 0 = 1 := hρ.modZero 0 1 rfl
  rw [Valuation.meets_singleton, Held.holds_of_toFormula (p := leavesOne) rfl]
  simp [leavesOne, Term.eval, Valuation.read, Valuation.mod, Kind.same, hx, hy, hmod]

end Sample

end Pathwise
