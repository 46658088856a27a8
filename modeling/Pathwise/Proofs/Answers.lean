import Pathwise.Proofs.Completion
import Pathwise.Proofs.Lists
import Pathwise.Proofs.Rounds

/-!
# The answers of a run are true of its test

A run that ends has been told many things, and only the sides it chose are on record. What it was
told because there was no choice has left no trace. Still all of it is true of the test that the
search prints for the run: an answer without choice follows from the conditions recorded before
it, and these stay on record to the end.

Nothing is asked of the target. It may change its world from run to run and may go on after the
fault of a test.

* `Run.transcript` lists the tests of a run with their answers.
* `Run.transcript_true` — under a valuation that meets the last conditions all answers are true.
* `Run.play_possible` — the last conditions can be met.
* `Test.valuation_describe` — a printed test means the model it was made of, completed by zeros.
-/

namespace Pathwise

/-! ## One test -/

namespace Trail

variable {solver : Solver} {φ : Held} {t : Trail}

/-- Conditions on record stay on record. -/
theorem decide_conditions (solver : Solver) (φ : Held) (t : Trail) :
    t.conditions <+: (t.decide solver φ).2.conditions := by
  obtain ⟨f, hd⟩ | ⟨side, -, hd⟩ | ⟨p, side, -, -, hd⟩ | ⟨p, -, -, -, hd⟩ :=
    decide_cases solver φ t
  · exact hd ▸ List.prefix_rfl
  · exact hd ▸ List.prefix_rfl
  · exact hd ▸ List.prefix_append _ _
  · exact hd ▸ List.prefix_append _ _

/-- An answer is true under every valuation that meets the conditions after it. -/
theorem decide_true (hS : solver.Correct) {ρ : Valuation} {side : Bool}
    (hρ : ρ.meets (t.decide solver φ).2.conditions = true)
    (h : (t.decide solver φ).1 = .ok side) : ∃ p, φ.toFormula = .ok p ∧ p.eval ρ = side := by
  obtain ⟨f, hd⟩ | ⟨b, hout, hd⟩ | ⟨p, b, hout, -, hd⟩ | ⟨p, hout, -, -, hd⟩ :=
    decide_cases solver φ t
  all_goals
    rw [hd] at h hρ
    cases h
  · exact outlook_forced hS hout hρ
  · have hp := toFormula_of_either hout
    rw [meets_record hp] at hρ
    exact ⟨p, hp, by simpa using (Bool.and_eq_true_iff.mp hρ).2⟩
  · have hp := toFormula_of_either hout
    rw [meets_record hp] at hρ
    exact ⟨p, hp, by simpa using (Bool.and_eq_true_iff.mp hρ).2⟩

/-- A test keeps the conditions possible, whichever side is taken. -/
theorem decide_possible (hS : solver.Correct) (hPos : Possible t.conditions) :
    Possible (t.decide solver φ).2.conditions := by
  obtain ⟨f, hd⟩ | ⟨b, -, hd⟩ | ⟨p, side, hout, -, hd⟩ | ⟨p, hout, -, -, hd⟩ :=
    decide_cases solver φ t
  · rwa [hd]
  · rwa [hd]
  · rw [hd]
    obtain ⟨hTrue, hFalse⟩ := outlook_either hS hout hPos
    cases side
    · exact hFalse
    · exact hTrue
  · rw [hd]
    exact (outlook_either hS hout hPos).1

end Trail

/-! ## A whole run -/

namespace Run

variable {α : Type} {solver : Solver}

/-- The tests of a run with the answers they are given, in order. -/
def transcript (solver : Solver) : Run α → Trail → List (Held × Except Fault Bool)
  | .done _, _ => []
  | .ask φ k, t =>
    (φ, (t.decide solver φ).1) ::
      (k (t.decide solver φ).1).transcript solver (t.decide solver φ).2

theorem play_conditions (solver : Solver) (r : Run α) (t : Trail) :
    t.conditions <+: (r.play solver t).2.conditions := by
  induction r generalizing t with
  | done a => exact List.prefix_rfl
  | ask φ k ih => exact (Trail.decide_conditions solver φ t).trans (ih _ _)

theorem meets_of_prefix {ρ : Valuation} {hs gs : List Held} (h : hs <+: gs)
    (hρ : ρ.meets gs = true) : ρ.meets hs = true := by
  obtain ⟨rest, rfl⟩ := h
  rw [Valuation.meets_append] at hρ
  exact (Bool.and_eq_true_iff.mp hρ).1

/-- All answers of a run are true under a valuation that meets its last conditions. -/
theorem transcript_true (hS : solver.Correct) {r : Run α} {t : Trail} {ρ : Valuation}
    (hρ : ρ.meets (r.play solver t).2.conditions = true) {φ : Held} {side : Bool}
    (h : (φ, .ok side) ∈ r.transcript solver t) : ∃ p, φ.toFormula = .ok p ∧ p.eval ρ = side := by
  induction r generalizing t with
  | done a => cases h
  | ask ψ k ih =>
    rw [transcript, List.mem_cons] at h
    rcases h with h | h
    · -- the first test: its condition is still on record at the end
      obtain ⟨rfl, hside⟩ := Prod.mk.inj h
      have hfirst : ρ.meets (t.decide solver φ).2.conditions = true :=
        meets_of_prefix (play_conditions solver (k _) _) hρ
      exact Trail.decide_true hS hfirst hside.symm
    · exact ih _ hρ h

theorem play_possible (hS : solver.Correct) (r : Run α) {t : Trail}
    (hPos : Possible t.conditions) : Possible (r.play solver t).2.conditions := by
  induction r generalizing t with
  | done a => exact hPos
  | ask φ k ih => exact ih _ (Trail.decide_possible hS hPos)

end Run

/-- An answer is the truth under every valuation that meets the conditions after it, or the path
is too long. -/
theorem Trail.decide_truthful {solver : Solver} (hS : solver.Correct) {φ : Held} {t : Trail}
    {ρ : Valuation} (hρ : ρ.meets (t.decide solver φ).2.conditions = true) :
    (t.decide solver φ).1 = .error .depthLimit ∨
      (t.decide solver φ).1 = φ.toFormula.map (Term.eval ρ) := by
  cases hanswer : (t.decide solver φ).1 with
  | ok side =>
    obtain ⟨p, hp, heval⟩ := decide_true hS hρ hanswer
    rw [hp]
    exact .inr (congrArg Except.ok heval.symm)
  | error f =>
    -- the conditions can be met and so can be read, which leaves the test itself to blame
    have hmeets := Run.meets_of_prefix (decide_conditions solver φ t) hρ
    obtain ⟨given, hgiven⟩ := Valuation.toFormulas_of_meets hmeets
    rw [decide, hgiven] at hanswer
    cases hp : φ.toFormula with
    | error g =>
      rw [hp] at hanswer
      exact .inr hanswer.symm
    | ok p =>
      rw [hp] at hanswer
      dsimp only at hanswer
      -- only a path at its limit leaves a formula without an answer
      split at hanswer
      · cases hanswer
      · split at hanswer
        · cases hanswer
        · unfold branch at hanswer
          split at hanswer
          · cases hanswer
          · split at hanswer
            · exact .inl hanswer.symm
            · cases hanswer

/-! ## What a printed test means -/

namespace Model

variable {x : String} {r : Reading} {entries : List (String × Reading)} {params : List String}

/-- A declaration that is a parameter is listed, and the others are matched against the rest of the
parameters. -/
theorem describeEntries_cons (hx : x ∈ params) :
    describeEntries ((x, r) :: entries) params =
      ((describeEntries entries (params.erase x)).1.map (⟨x, .reading r⟩ :: ·),
        (describeEntries entries (params.erase x)).2) := by
  rw [describeEntries, if_pos hx]

/-- Striking off a declaration leaves the parameters that the others declare. -/
theorem mem_erase_of_declared (hx : x ∉ entries.map Prod.fst)
    (hall : ∀ e ∈ (x, r) :: entries, e.1 ∈ params) : ∀ e ∈ entries, e.1 ∈ params.erase x := by
  intro e he
  have hne : e.1 ≠ x := fun h => hx (List.mem_map.mpr ⟨e, he, h⟩)
  exact (List.mem_erase_of_ne hne).mpr (hall e (List.mem_cons_of_mem _ he))

/-- Declarations that are described begin with a parameter. -/
theorem of_describeEntries_cons {test : Test}
    (h : (describeEntries ((x, r) :: entries) params).1 = .ok test) :
    x ∈ params ∧ ∃ rest, (describeEntries entries (params.erase x)).1 = .ok rest ∧
      test = ⟨x, .reading r⟩ :: rest := by
  by_cases hx : x ∈ params
  · rw [describeEntries_cons hx] at h
    cases hrest : (describeEntries entries (params.erase x)).1 with
    | error f =>
      rw [hrest] at h
      cases h
    | ok rest =>
      rw [hrest] at h
      exact ⟨hx, rest, rfl, (Except.ok.inj h).symm⟩
  · rw [describeEntries, if_neg hx] at h
    cases h

end Model

namespace Test

/-- What a test says, as a model. -/
def model (t : Test) : Model :=
  ⟨t.filterMap fun e =>
    match e.value with
    | .reading r => some (e.name, r)
    | .any => none⟩

/-- The valuation that a test stands for: what it says, and zero for all else. -/
def valuation (t : Test) : Valuation := (model t).completion

theorem model_padding (params : List String) :
    (model (Model.padding params)).entries = params.reverse.map fun x => (x, .int 0) := by
  simp only [model, Model.padding, List.filterMap_map]
  rw [← List.filterMap_eq_map]
  rfl

/-- A described model is a test that lists its declarations and then zeros. -/
theorem entries_describe {m : Model} {params : List String} {test : Test}
    (h : (m.describe params).1 = .ok test) :
    ∃ left : List String,
      (model test).entries = m.entries ++ left.map fun x => (x, .int 0) := by
  obtain ⟨entries⟩ := m
  simp only [Model.describe] at h ⊢
  induction entries generalizing params test with
  | nil =>
    obtain rfl := Except.ok.inj h
    exact ⟨_, model_padding params⟩
  | cons e entries ih =>
    obtain ⟨-, rest, hrest, rfl⟩ := Model.of_describeEntries_cons h
    obtain ⟨left, hleft⟩ := ih hrest
    exact ⟨left, by simpa [model] using hleft⟩

/-- A model that declares parameters only, each at most once, describes a test. -/
theorem exists_describe {m : Model} {params : List String}
    (hnodup : (m.entries.map Prod.fst).Nodup) (hsub : ∀ e ∈ m.entries, e.1 ∈ params) :
    ∃ test, (m.describe params).1 = .ok test := by
  obtain ⟨entries⟩ := m
  simp only [Model.describe] at hnodup hsub ⊢
  induction entries generalizing params with
  | nil => exact ⟨_, rfl⟩
  | cons e entries ih =>
    obtain ⟨x, r⟩ := e
    rw [List.map_cons, List.nodup_cons] at hnodup
    have hx : x ∈ params := hsub _ List.mem_cons_self
    obtain ⟨test, htest⟩ := ih hnodup.2 (Model.mem_erase_of_declared hnodup.1 hsub)
    refine ⟨⟨x, .reading r⟩ :: test, ?_⟩
    rw [Model.describeEntries_cons hx, htest]
    rfl

/-- A look-up that passes over zeros is not changed by zeros at the end. -/
theorem findSome?_append_zeros {β : Type} (entries : List (String × Reading))
    (left : List String) {f : String × Reading → Option β} (hf : ∀ x, f (x, .int 0) = none) :
    (entries ++ left.map fun x => (x, Reading.int 0)).findSome? f = entries.findSome? f := by
  have hzeros : (left.map fun x => (x, Reading.int 0)).findSome? f = none := by
    rw [List.findSome?_eq_none_iff]
    intro e he
    obtain ⟨x, -, rfl⟩ := List.mem_map.mp he
    exact hf x
  rw [List.findSome?_append, hzeros, Option.or_none]

theorem int?_append_zeros (m : Model) (left : List String) (x : String) :
    ((Model.mk (m.entries ++ left.map fun x => (x, .int 0))).int? x).getD 0 =
      (m.int? x).getD 0 := by
  simp only [Model.int?, List.findSome?_append]
  cases m.entries.findSome? _ with
  | some n => rfl
  | none =>
    -- the look-up goes on to the zeros, and whatever it finds there is the default
    rw [Option.none_or]
    cases h : (left.map fun x => (x, Reading.int 0)).findSome? _ with
    | none => rfl
    | some n =>
      obtain ⟨e, he, hn⟩ := List.exists_of_findSome?_eq_some h
      obtain ⟨y, -, rfl⟩ := List.mem_map.mp he
      simp only [Option.ite_none_right_eq_some, Option.some.injEq] at hn
      rw [Option.getD_some, Option.getD_none, hn.2]

/-- Adding zeros for integers does not change what a model is completed to. -/
theorem completion_append_zeros (m : Model) (left : List String) :
    (Model.mk (m.entries ++ left.map fun x => (x, .int 0))).completion = m.completion := by
  simp only [Model.completion, Valuation.mk.injEq]
  refine ⟨?_, ?_, ?_, ?_, ?_⟩
  · funext x
    exact int?_append_zeros m left x
  · funext x
    exact congrArg (Option.getD · _) (findSome?_append_zeros _ _ fun _ => rfl)
  · funext x
    exact congrArg (Option.getD · _) (findSome?_append_zeros _ _ fun _ => rfl)
  · funext a
    exact congrArg (Option.getD · _) (findSome?_append_zeros _ _ fun _ => rfl)
  · funext a b
    exact congrArg (Option.getD · _) (findSome?_append_zeros _ _ fun _ => rfl)

/-- A printed test stands for the model it was made of, completed by zeros. -/
theorem valuation_describe {m : Model} {params : List String} {test : Test}
    (h : (m.describe params).1 = .ok test) : valuation test = m.completion := by
  obtain ⟨left, hleft⟩ := entries_describe h
  rw [valuation, ← completion_append_zeros m left, ← hleft]

end Test

/-! ## A whole search -/

/-- Conditions that can be met have a leaf, and whatever agrees with its model meets them. -/
theorem Solver.Correct.exists_leaf {solver : Solver} (hS : solver.Correct) (params : List String)
    {t : Trail} (hPos : Possible t.conditions) :
    ∃ leaf, solver.leaf? params t = some leaf ∧ leaf.path = t.path ∧
      leaf.conditions = t.conditions ∧ leaf.test = (leaf.model.describe params).1.toOption ∧
      ∀ ρ, leaf.model.Agrees ρ → ρ.meets t.conditions = true := by
  obtain ⟨ρ, hρ⟩ := hPos
  obtain ⟨φs, hφs⟩ := Valuation.toFormulas_of_meets hρ
  obtain ⟨m, hm⟩ :=
    Option.isSome_iff_exists.mp (hS.complete φs ⟨ρ, (Valuation.meets_iff hφs).mp hρ⟩)
  have hsolve : solver.solve t.conditions = .ok (some m) := by
    rw [Solver.solve, hφs, ← hm]
    rfl
  refine ⟨⟨t.path, t.conditions, m, (m.describe params).1.toOption⟩, ?_, rfl, rfl, rfl, ?_⟩
  · rw [Solver.leaf?, hsolve]
  · intro σ hσ
    exact (Valuation.meets_iff hφs).mpr (hS.sound φs m hm σ hσ)

/-- The model declares each name at most once, and only names among the given ones. -/
def Model.DeclaredIn (m : Model) (params : List String) : Prop :=
  (m.entries.map Prod.fst).Nodup ∧ ∀ e ∈ m.entries, e.1 ∈ params

/-- Models of conditions over the parameters declare integers for them, each at most once. -/
theorem Solver.Frugal.declares_ints {solver : Solver} (hF : solver.Frugal) {params : List String}
    {t : Trail} {leaf : Leaf} (hleaf : solver.leaf? params t = some leaf)
    (hconds : ∀ h ∈ t.conditions, ∀ p, h.toFormula = .ok p → p.Integral params) :
    (∀ e ∈ leaf.model.entries, e.1 ∈ params ∧ e.2.kind? = some .int) ∧
      (leaf.model.entries.map fun e => (e.1, e.2.kind?)).Nodup := by
  obtain ⟨-, -, -, φs, hφs, hm⟩ := Solver.leaf?_eq_some hleaf
  have hall : ∀ p ∈ φs, p.Integral params := by
    intro p hp
    obtain ⟨h, hh, hread⟩ := Held.exists_of_mem_toFormulas hφs p hp
    exact hconds h hh p hread
  have hdef : φs.all Term.definite = true :=
    List.all_eq_true.mpr fun p hp => (hall p hp).definite
  refine ⟨fun e he => ?_, hF.nodup φs _ hm hdef⟩
  obtain ⟨u, hu, hname, hkind⟩ := hF.declares φs _ hm hdef e he
  obtain ⟨p, hp, hup⟩ := Model.mem_unknownsOf.mp hu
  obtain ⟨hint, hmem⟩ := (hall p hp).unknowns u hup
  exact ⟨hname ▸ hmem, hint ▸ hkind⟩

/-- Models of conditions over the parameters declare parameters only. -/
theorem Solver.Frugal.declaredIn {solver : Solver} (hF : solver.Frugal) {params : List String}
    {t : Trail} {leaf : Leaf} (hleaf : solver.leaf? params t = some leaf)
    (hconds : ∀ h ∈ t.conditions, ∀ p, h.toFormula = .ok p → p.Integral params) :
    leaf.model.DeclaredIn params := by
  obtain ⟨hdecl, hnodup⟩ := hF.declares_ints hleaf hconds
  refine ⟨?_, fun e he => (hdecl e he).1⟩
  -- all entries are for integers, so entries for different unknowns have different names
  rw [List.map_congr_left fun e he => by rw [(hdecl e he).2]] at hnodup
  refine List.Nodup.of_map (fun x => (x, some Kind.int)) ?_
  rwa [List.map_map]

/-- Conditions over the parameters have a test at their leaf. -/
theorem Solver.Frugal.exists_test {solver : Solver} (hF : solver.Frugal) {params : List String}
    {t : Trail} {leaf : Leaf} (hleaf : solver.leaf? params t = some leaf)
    (hconds : ∀ h ∈ t.conditions, ∀ p, h.toFormula = .ok p → p.Integral params) :
    ∃ test, leaf.test = some test := by
  obtain ⟨-, -, htest, -⟩ := Solver.leaf?_eq_some hleaf
  obtain ⟨hnodup, hmem⟩ := hF.declaredIn hleaf hconds
  obtain ⟨test, hdescribe⟩ := Test.exists_describe hnodup hmem
  exact ⟨test, by rw [htest, hdescribe]; rfl⟩

/-- The test of a leaf is what its model is described as. -/
theorem Solver.describe_of_leaf {solver : Solver} {params : List String} {t : Trail} {leaf : Leaf}
    {test : Test} (hleaf : solver.leaf? params t = some leaf) (htest : leaf.test = some test) :
    (leaf.model.describe params).1 = .ok test := by
  obtain ⟨-, -, hdescribe, -⟩ := leaf?_eq_some hleaf
  exact Except.eq_ok_of_toOption (hdescribe.symm.trans htest)

/-- The test at the end of a trail meets its conditions. -/
theorem Solver.Correct.meets_test {solver : Solver} (hS : solver.Correct) {params : List String}
    {t : Trail} {test : Test} (h : (solver.leaf? params t).bind Leaf.test = some test) :
    (Test.valuation test).meets t.conditions = true := by
  obtain ⟨leaf, hleaf, htest⟩ := Option.bind_eq_some_iff.mp h
  obtain ⟨-, -, -, φs, hφs, hm⟩ := Solver.leaf?_eq_some hleaf
  rw [Test.valuation_describe (Solver.describe_of_leaf hleaf htest), Valuation.meets_iff hφs]
  exact hS.sound φs _ hm _ leaf.model.agrees_completion

section Search

variable {ω : Type} {solver : Solver} {params : List String} {target : Target ω} {w : ω}

theorem eq_start_of_mem_roundsFrom {n : Nat} {path : List Bool} {r : Round ω}
    (h : r ∈ roundsFrom solver params target n path w) :
    r = Round.start solver target r.path r.world := by
  induction n generalizing path w with
  | zero => cases h
  | succ n ih =>
    rw [roundsFrom_succ, List.mem_cons] at h
    rcases h with rfl | h
    · rfl
    · split at h
      · exact ih h
      · cases h

/--
**Every answer is true of the printed test.** With a correct solver there is a leaf for the end of
every round of a search, and unless the round ends the search, it is a leaf of the search. Every
answer that the run was given in this round, on record or not, is the outcome of the tested formula
under whatever agrees with the model of the leaf, and so under the test that is printed for it.
-/
theorem answers_true_of_test (hS : solver.Correct) {r : Round ω}
    (hr : r ∈ rounds solver params target w) :
    ∃ leaf, solver.leaf? params r.trail = some leaf ∧
      (r.ending.escapes = false → leaf ∈ (explore solver params target w).leaves) ∧
      leaf.path = r.trail.path ∧ leaf.conditions = r.trail.conditions ∧
      ∀ φ side, (φ, .ok side) ∈ (target r.world).transcript solver (.start r.path) →
        ∃ p, φ.toFormula = .ok p ∧
          (∀ ρ, leaf.model.Agrees ρ → p.eval ρ = side) ∧
          ∀ test, leaf.test = some test → p.eval (Test.valuation test) = side := by
  have hstart := eq_start_of_mem_roundsFrom hr
  have htrail : r.trail = ((target r.world).play solver (.start r.path)).2 := by
    rw [hstart]
    rfl
  have hPos : Possible r.trail.conditions := by
    rw [htrail]
    exact Run.play_possible hS _ possible_nil
  obtain ⟨leaf, hleaf, hpath, hconds, htest, hmeets⟩ := hS.exists_leaf params hPos
  have hmem : r.ending.escapes = false → leaf ∈ (explore solver params target w).leaves := by
    intro hno
    rw [explore, exploreFrom_leaves]
    exact List.mem_filterMap.mpr ⟨r, hr, Ending.leaf?_eq_some_iff.mpr ⟨hno, hleaf⟩⟩
  refine ⟨leaf, hleaf, hmem, hpath, hconds, ?_⟩
  intro φ side hφ
  have htrue : ∀ ρ, leaf.model.Agrees ρ → ∃ p, φ.toFormula = .ok p ∧ p.eval ρ = side := by
    intro ρ hρ
    have hρ' := hmeets ρ hρ
    rw [htrail] at hρ'
    exact Run.transcript_true hS hρ' hφ
  -- the formula is the same whatever valuation shows that there is one
  obtain ⟨p, hp, -⟩ := htrue _ leaf.model.agrees_completion
  have hall : ∀ ρ, leaf.model.Agrees ρ → p.eval ρ = side := by
    intro ρ hρ
    obtain ⟨q, hq, hside⟩ := htrue ρ hρ
    rwa [Except.ok.inj (hp.symm.trans hq)]
  refine ⟨p, hp, hall, ?_⟩
  intro test ht
  rw [htest] at ht
  rw [Test.valuation_describe (Except.eq_ok_of_toOption ht)]
  exact hall _ leaf.model.agrees_completion

end Search

/-! ### A test without choice -/

namespace Positive

/-- The unknown is greater than a number. -/
def above (n : Int) : Formula := .order .gt (.var .int "x") (.int n)

theorem eval_above (ρ : Valuation) (n : Int) : (above n).eval ρ = decide (n < ρ.int "x") := rfl

/-- Ask whether the unknown is positive, and then whether it is greater than minus one. The second
test has no choice once the first has a positive answer. -/
def target : Target Unit := fun _ =>
  .ask (.term (above 0)) fun _ => .ask (.term (above (-1))) fun _ => .done ⟨(), [], none⟩

/-- The valuation of all integers by one number. -/
def valued (n : Int) : Valuation :=
  ⟨fun _ => n, fun _ => false, fun _ => 0, fun _ => 0, fun _ _ => 0⟩

theorem outlook_first : Trail.outlook Solver.ideal (.term (above 0)) [] = .either (above 0) :=
  Trail.outlook_of_possible Solver.ideal_correct rfl ⟨valued 1, by decide⟩ ⟨valued 0, by decide⟩

theorem outlook_second :
    Trail.outlook Solver.ideal (.term (above (-1))) [.term (above 0)] = .forced true := by
  refine Trail.outlook_of_forall Solver.ideal_correct rfl ⟨valued 1, by decide⟩ ?_
  intro ρ hρ
  rw [Valuation.meets_singleton, Held.holds_of_toFormula (p := above 0) rfl, eval_above,
    decide_eq_true_eq] at hρ
  rw [eval_above, decide_eq_true_eq]
  omega

theorem decide_first : Trail.decide Solver.ideal (.term (above 0)) (.start []) =
    (.ok true, ⟨[true], [.term (above 0)]⟩) := by
  rw [Trail.decide_eq, Trail.start, outlook_first]
  rfl

theorem decide_second : Trail.decide Solver.ideal (.term (above (-1)))
    ⟨[true], [.term (above 0)]⟩ = (.ok true, ⟨[true], [.term (above 0)]⟩) := by
  rw [Trail.decide_eq, outlook_second]

/-- The unrecorded answer of the second test is true of the test at the leaf. -/
theorem answers_true_at_leaf :
    ∃ leaf ∈ (explore Solver.ideal ["x"] target ()).leaves, ∃ test, leaf.test = some test ∧
      leaf.conditions = [.term (above 0)] ∧ (above (-1)).eval (Test.valuation test) = true := by
  have hr : Round.start Solver.ideal target [] () ∈ rounds Solver.ideal ["x"] target () :=
    List.mem_cons_self
  obtain ⟨leaf, hleaf, hmem, -, hconds, hanswers⟩ := answers_true_of_test Solver.ideal_correct hr
  have hno : (Round.start Solver.ideal target [] ()).ending.escapes = false := by
    simp only [Round.start, target, Run.play]
    rfl
  have htrail : (Round.start Solver.ideal target [] ()).trail = ⟨[true], [.term (above 0)]⟩ := by
    simp only [Round.start, target, Run.play, decide_first, decide_second]
  rw [htrail] at hleaf hconds
  obtain ⟨test, htest⟩ := Solver.ideal_frugal.exists_test hleaf (by
    simp only [List.mem_singleton, forall_eq]
    rintro p ⟨rfl⟩
    exact ⟨rfl, by simp [above, Term.unknowns]⟩)
  obtain ⟨p, hp, -, htrue⟩ := hanswers (.term (above (-1))) true (by
    show _ ∈ (target ()).transcript Solver.ideal (.start [])
    simp only [target, Run.transcript, decide_first, decide_second]
    exact List.mem_cons_of_mem _ List.mem_cons_self)
  obtain rfl : above (-1) = p := Except.ok.inj hp
  exact ⟨leaf, hmem hno, test, htest, hconds, htrue test htest⟩

end Positive

end Pathwise
