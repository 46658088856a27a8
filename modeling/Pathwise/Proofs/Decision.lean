import Mathlib.Data.List.Basic
import Pathwise.Search.Trail

/-!
# What a test does to a trail

`Trail.decide` looks at two answers of a solver and at two lists. `Trail.outlook` names the three
things that can come of it: the test cannot be asked, only one side is possible, or the trail has
to choose. Everything said later about a whole run goes through `decide_eq` and the facts below.

* `outlook_forced` — a side that is the only possible one is the true one, under every valuation
  that meets the conditions so far.
* `outlook_either` — where the trail has to choose, both sides are possible, as long as the
  conditions so far are.
* `meets_record` — taking a side adds exactly the condition that the test has this outcome.
-/

namespace Pathwise

/-! ## Conditions under a valuation -/

/-- Whether a held value is a condition that is true under a valuation. -/
def Held.holds (ρ : Valuation) (h : Held) : Bool :=
  match h.toFormula with
  | .ok p => p.eval ρ
  | .error _ => false

/-- Whether a valuation makes all conditions true. -/
def Valuation.meets (ρ : Valuation) (hs : List Held) : Bool := hs.all (Held.holds ρ)

theorem Held.holds_of_toFormula {ρ : Valuation} {h : Held} {p : Formula}
    (hp : h.toFormula = .ok p) : h.holds ρ = p.eval ρ := by
  rw [Held.holds, hp]

@[simp] theorem Valuation.meets_nil (ρ : Valuation) : ρ.meets [] = true := rfl

@[simp] theorem Valuation.meets_append (ρ : Valuation) (hs gs : List Held) :
    ρ.meets (hs ++ gs) = (ρ.meets hs && ρ.meets gs) := by
  simp [Valuation.meets, List.all_append]

@[simp] theorem Valuation.meets_singleton (ρ : Valuation) (h : Held) :
    ρ.meets [h] = h.holds ρ := by
  simp [Valuation.meets]

theorem Held.toFormulas_cons (h : Held) (hs : List Held) :
    Held.toFormulas (h :: hs) = h.toFormula >>= fun p =>
      Held.toFormulas hs >>= fun φs => pure (p :: φs) := by
  simp [Held.toFormulas, List.mapM_cons]

/-- Conditions that can be read are met exactly if the formulas read hold. -/
theorem Valuation.meets_iff {ρ : Valuation} {hs : List Held} {φs : List Formula}
    (h : Held.toFormulas hs = .ok φs) : ρ.meets hs = true ↔ ρ.HoldsAll φs := by
  induction hs generalizing φs with
  | nil =>
    obtain rfl : φs = [] := by simpa [Held.toFormulas, pure, Except.pure] using h.symm
    simp [Valuation.HoldsAll]
  | cons g gs ih =>
    rw [Held.toFormulas_cons] at h
    cases hg : g.toFormula with
    | error f => simp [hg, bind, Except.bind] at h
    | ok p =>
      cases hgs : Held.toFormulas gs with
      | error f => simp [hg, hgs, bind, Except.bind] at h
      | ok ψs =>
        obtain rfl : φs = p :: ψs := by
          simpa [hg, hgs, bind, Except.bind, pure, Except.pure] using h.symm
        have hrest := ih hgs
        simp only [Valuation.meets, List.all_cons, Bool.and_eq_true] at hrest ⊢
        rw [hrest, Held.holds_of_toFormula hg]
        simp [Valuation.HoldsAll, Valuation.Holds]

/-- Conditions that some valuation meets can be read. -/
theorem Valuation.toFormulas_of_meets {ρ : Valuation} {hs : List Held}
    (h : ρ.meets hs = true) : ∃ φs, Held.toFormulas hs = .ok φs := by
  induction hs with
  | nil => exact ⟨[], rfl⟩
  | cons g gs ih =>
    simp only [Valuation.meets, List.all_cons, Bool.and_eq_true] at h
    obtain ⟨φs, hφs⟩ := ih h.2
    cases hg : g.toFormula with
    | error f => simp [Held.holds, hg] at h
    | ok p => exact ⟨p :: φs, by rw [Held.toFormulas_cons, hg, hφs]; rfl⟩

/-- Every formula read is that of a condition. -/
theorem Held.exists_of_mem_toFormulas {hs : List Held} {φs : List Formula}
    (h : Held.toFormulas hs = .ok φs) : ∀ p ∈ φs, ∃ g ∈ hs, g.toFormula = .ok p := by
  induction hs generalizing φs with
  | nil =>
    obtain rfl := Except.ok.inj h
    intro p hp
    cases hp
  | cons g gs ih =>
    rw [Held.toFormulas_cons] at h
    cases hg : g.toFormula with
    | error f => simp [hg, bind, Except.bind] at h
    | ok q =>
      cases hgs : Held.toFormulas gs with
      | error f => simp [hg, hgs, bind, Except.bind] at h
      | ok ψs =>
        obtain rfl : φs = q :: ψs := by
          simpa [hg, hgs, bind, Except.bind, pure, Except.pure] using h.symm
        intro p hp
        rcases List.mem_cons.mp hp with rfl | hp
        · exact ⟨g, List.mem_cons_self, hg⟩
        · obtain ⟨g', hg', hp'⟩ := ih hgs p hp
          exact ⟨g', List.mem_cons_of_mem _ hg', hp'⟩

/-- Some valuation meets the conditions. -/
def Possible (hs : List Held) : Prop := ∃ ρ : Valuation, ρ.meets hs = true

theorem possible_nil : Possible [] := ⟨⟨fun _ => 0, fun _ => false, fun _ => 0, fun _ => 0,
  fun _ _ => 0⟩, rfl⟩

theorem possible_iff {hs : List Held} {φs : List Formula} (h : Held.toFormulas hs = .ok φs) :
    Possible hs ↔ Satisfiable φs := by
  unfold Possible Satisfiable
  simp only [Valuation.meets_iff h]

namespace Trail

/-! ## The outlook of a test -/

/-- What can come of a test. -/
inductive Outlook where
  /-- The test, or a condition before it, is no condition. -/
  | fault (f : Fault)
  /-- One side is possible and the other is not. -/
  | forced (side : Bool)
  /-- Both sides are possible, or neither is. -/
  | either (p : Formula)

/-- What can come of a test, given which sides are possible. -/
def Outlook.ofSides (p : Formula) : (canHold canFail : Bool) → Outlook
  | true, false => .forced true
  | false, true => .forced false
  | _, _ => .either p

theorem Outlook.ofSides_eq_forced {p : Formula} {canHold canFail side : Bool} :
    Outlook.ofSides p canHold canFail = .forced side ↔ canHold = side ∧ canFail = !side := by
  cases canHold <;> cases canFail <;> cases side <;> simp [Outlook.ofSides]

theorem Outlook.ofSides_eq_either {p q : Formula} {canHold canFail : Bool} :
    Outlook.ofSides p canHold canFail = .either q ↔ p = q ∧ canHold = canFail := by
  cases canHold <;> cases canFail <;> simp [Outlook.ofSides]

/-- What can come of a test under given conditions. -/
def outlook (solver : Solver) (φ : Held) (conditions : List Held) : Outlook :=
  match Held.toFormulas conditions, φ.toFormula with
  | .error f, _ => .fault f
  | .ok _, .error f => .fault f
  | .ok given, .ok p =>
    .ofSides p (solver.admits (given ++ [p])) (solver.admits (given ++ [.not p]))

theorem decide_eq (solver : Solver) (φ : Held) (t : Trail) :
    t.decide solver φ =
      match outlook solver φ t.conditions with
      | .fault f => (.error f, t)
      | .forced side => (.ok side, t)
      | .either p => t.branch φ p := by
  unfold decide outlook
  cases Held.toFormulas t.conditions with
  | error f => rfl
  | ok given =>
    cases φ.toFormula with
    | error f => rfl
    | ok p =>
      dsimp only
      cases solver.admits (given ++ [p]) <;> cases solver.admits (given ++ [.not p]) <;> rfl

section Correct

variable {solver : Solver} {φ : Held} {p : Formula} {cs : List Held}

/-- A test that has an outlook at all is a formula under formulas. -/
theorem outlook_cases (solver : Solver) (φ : Held) (cs : List Held) :
    (∃ f, outlook solver φ cs = .fault f) ∨
      ∃ given p, Held.toFormulas cs = .ok given ∧ φ.toFormula = .ok p ∧
        outlook solver φ cs =
          .ofSides p (solver.admits (given ++ [p])) (solver.admits (given ++ [.not p])) := by
  unfold outlook
  cases Held.toFormulas cs with
  | error f => exact .inl ⟨f, rfl⟩
  | ok given =>
    cases φ.toFormula with
    | error f => exact .inl ⟨f, rfl⟩
    | ok p => exact .inr ⟨given, p, rfl, rfl, rfl⟩

theorem toFormula_of_either (h : outlook solver φ cs = .either p) : φ.toFormula = .ok p := by
  obtain ⟨f, hf⟩ | ⟨given, q, -, hq, hout⟩ := outlook_cases solver φ cs
  · rw [hf] at h
    cases h
  · rw [hout, Outlook.ofSides_eq_either] at h
    rw [hq, h.1]

theorem holds_term_not (ρ : Valuation) (p : Formula) :
    Held.holds ρ (.term (.not p)) = !p.eval ρ := rfl

/-- Taking a side of a test adds the condition that the test has this outcome. -/
theorem meets_record (hp : φ.toFormula = .ok p) (t : Trail) (ρ : Valuation) (side : Bool) :
    ρ.meets (t.record φ p side) = (ρ.meets t.conditions && p.eval ρ == side) := by
  rw [record, Valuation.meets_append, Valuation.meets_singleton]
  cases side
  · simp [holds_term_not]
  · simp [Held.holds_of_toFormula hp]

theorem toFormulas_concat {given : List Formula} (hcs : Held.toFormulas cs = .ok given)
    (hp : φ.toFormula = .ok p) : Held.toFormulas (cs ++ [φ]) = .ok (given ++ [p]) := by
  simp only [Held.toFormulas] at hcs ⊢
  simp [List.mapM_append, hcs, hp, bind, Except.bind, pure, Except.pure]

/-- A correct solver admits a side exactly if the conditions are possible with it. -/
theorem admits_concat (hS : solver.Correct) {given : List Formula}
    (hcs : Held.toFormulas cs = .ok given) (hp : φ.toFormula = .ok p) :
    solver.admits (given ++ [p]) = true ↔ Possible (cs ++ [φ]) := by
  rw [hS.admits_iff, possible_iff (toFormulas_concat hcs hp)]

/-- The side that a valuation takes is admitted, if the valuation meets the conditions so far. -/
theorem admits_taken (hS : solver.Correct) {given : List Formula}
    (hcs : Held.toFormulas cs = .ok given) (hp : φ.toFormula = .ok p) {ρ : Valuation}
    (hρ : ρ.meets cs = true) :
    (p.eval ρ = true → solver.admits (given ++ [p]) = true) ∧
      (p.eval ρ = false → solver.admits (given ++ [.not p]) = true) := by
  constructor
  · intro hv
    rw [admits_concat hS hcs hp]
    exact ⟨ρ, by simp [hρ, Held.holds_of_toFormula hp, hv]⟩
  · intro hv
    rw [admits_concat (φ := .term (.not p)) hS hcs rfl]
    exact ⟨ρ, by simp [hρ, holds_term_not, hv]⟩

/-- The only possible side of a test is its outcome under every valuation that meets the
conditions so far. -/
theorem outlook_forced (hS : solver.Correct) {side : Bool}
    (h : outlook solver φ cs = .forced side) {ρ : Valuation} (hρ : ρ.meets cs = true) :
    ∃ p, φ.toFormula = .ok p ∧ p.eval ρ = side := by
  obtain ⟨f, hf⟩ | ⟨given, p, hcs, hp, hout⟩ := outlook_cases solver φ cs
  · rw [hf] at h
    cases h
  · rw [hout, Outlook.ofSides_eq_forced] at h
    obtain ⟨hHold, hFail⟩ := h
    obtain ⟨htrue, hfalse⟩ := admits_taken hS hcs hp hρ
    refine ⟨p, hp, ?_⟩
    -- the side that `ρ` takes is admitted, so it is not the one ruled out
    cases hv : p.eval ρ with
    | true => rw [← hHold, htrue hv]
    | false =>
      rw [hfalse hv] at hFail
      simpa using hFail

/-- Where a test can have either outcome both are possible, if the conditions so far are. -/
theorem outlook_either (hS : solver.Correct) (h : outlook solver φ cs = .either p)
    (hPos : Possible cs) : Possible (cs ++ [φ]) ∧ Possible (cs ++ [.term (.not p)]) := by
  have hp := toFormula_of_either h
  obtain ⟨f, hf⟩ | ⟨given, q, hcs, hq, hout⟩ := outlook_cases solver φ cs
  · rw [hf] at h
    cases h
  · obtain rfl : p = q := Except.ok.inj (hp.symm.trans hq)
    rw [hout, Outlook.ofSides_eq_either] at h
    obtain ⟨-, hsame⟩ := h
    rw [← admits_concat hS hcs hp, ← admits_concat (φ := .term (.not p)) hS hcs rfl]
    -- some valuation takes one of the sides, so that one is admitted, and the other with it
    obtain ⟨ρ, hρ⟩ := hPos
    obtain ⟨htrue, hfalse⟩ := admits_taken hS hcs hp hρ
    cases hv : p.eval ρ with
    | true => exact ⟨htrue hv, hsame ▸ htrue hv⟩
    | false => exact ⟨hsame ▸ hfalse hv, hfalse hv⟩

/-- The outlook of a test that has the same outcome under all valuations that meet the conditions
so far. -/
theorem outlook_of_forall (hS : solver.Correct) (hp : φ.toFormula = .ok p) (hPos : Possible cs)
    {side : Bool} (h : ∀ ρ : Valuation, ρ.meets cs = true → p.eval ρ = side) :
    outlook solver φ cs = .forced side := by
  cases hout : outlook solver φ cs with
  | fault f =>
    obtain ⟨ρ, hρ⟩ := hPos
    obtain ⟨given, hcs⟩ := Valuation.toFormulas_of_meets hρ
    simp [outlook, hcs, hp, Outlook.ofSides] at hout
    split at hout <;> cases hout
  | forced b =>
    obtain ⟨ρ, hρ⟩ := hPos
    obtain ⟨q, hq, hb⟩ := outlook_forced hS hout hρ
    obtain rfl : p = q := Except.ok.inj (hp.symm.trans hq)
    rw [← hb, h ρ hρ]
  | either q =>
    obtain rfl : p = q := Except.ok.inj (hp.symm.trans (toFormula_of_either hout))
    -- the valuation that takes the other side meets the conditions as well
    obtain ⟨⟨ρ, hρ⟩, ⟨σ, hσ⟩⟩ := outlook_either hS hout hPos
    simp only [Valuation.meets_append, Valuation.meets_singleton, Bool.and_eq_true,
      Held.holds_of_toFormula hp, holds_term_not, Bool.not_eq_true'] at hρ hσ
    have := h ρ hρ.1
    have := h σ hσ.1
    simp_all

/-- The outlook of a test that can have either outcome. -/
theorem outlook_of_possible (hS : solver.Correct) (hp : φ.toFormula = .ok p)
    (hTrue : Possible (cs ++ [φ])) (hFalse : Possible (cs ++ [.term (.not p)])) :
    outlook solver φ cs = .either p := by
  obtain ⟨ρ, hρ⟩ := hTrue
  obtain ⟨σ, hσ⟩ := hFalse
  have hcs : ρ.meets cs = true := by
    rw [Valuation.meets_append] at hρ
    exact (Bool.and_eq_true_iff.mp hρ).1
  obtain ⟨given, hgiven⟩ := Valuation.toFormulas_of_meets hcs
  have hHold := (admits_concat hS hgiven hp).mpr ⟨ρ, hρ⟩
  have hFail := (admits_concat (φ := .term (.not p)) hS hgiven rfl).mpr ⟨σ, hσ⟩
  simp [outlook, hgiven, hp, hHold, hFail, Outlook.ofSides]

end Correct

end Trail

end Pathwise
