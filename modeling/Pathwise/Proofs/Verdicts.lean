import Pathwise.Proofs.Answers

/-!
# Only the verdicts of a solver matter

A test asks a solver whether there is a model and never looks at the model. So all that a run does
follows from which lists of formulas are satisfiable, and two solvers that both decide this are
answered alike at every test.

* `Solver.Decides` — the solver finds a model exactly when there is one. Nothing is said of the
  models that it finds.
* `Trail.outlook_verdict` — what comes of a test under conditions that can be met, read off the
  sides that can be met with them.
* `Run.play_congr` — a run goes the same way with every solver that decides satisfiability.
-/

namespace Pathwise

namespace Solver

/-- A solver that finds a model exactly when there is one. -/
def Decides (s : Solver) : Prop := ∀ φs, s.admits φs = true ↔ Satisfiable φs

theorem Correct.decides {s : Solver} (h : s.Correct) : s.Decides := h.admits_iff

theorem Decides.admits_eq {s s' : Solver} (hS : s.Decides) (hS' : s'.Decides)
    (φs : List Formula) : s.admits φs = s'.admits φs := by
  rw [Bool.eq_iff_iff, hS, hS']

/-- Conditions that can be met have a model. -/
theorem Decides.exists_solve {s : Solver} (hS : s.Decides) {cs : List Held} (hPos : Possible cs) :
    ∃ m, s.solve cs = .ok (some m) := by
  obtain ⟨ρ, hρ⟩ := hPos
  obtain ⟨φs, hφs⟩ := Valuation.toFormulas_of_meets hρ
  have hsat : Satisfiable φs := (possible_iff hφs).mp ⟨ρ, hρ⟩
  obtain ⟨m, hm⟩ := Option.isSome_iff_exists.mp ((hS φs).mpr hsat)
  refine ⟨m, ?_⟩
  rw [solve, hφs, ← hm]
  rfl

end Solver

/-- The condition that a test of a formula has a given outcome. -/
def Held.outcome (φ : Held) (p : Formula) (side : Bool) : Held :=
  if side then φ else .term (.not p)

theorem Trail.record_eq (t : Trail) (φ : Held) (p : Formula) (side : Bool) :
    t.record φ p side = t.conditions ++ [φ.outcome p side] := rfl

/-- One of the two outcomes of a formula can be met, if the conditions so far can. -/
theorem Possible.outcome {cs : List Held} (hPos : Possible cs) {φ : Held} {p : Formula}
    (hp : φ.toFormula = .ok p) : ∃ side, Possible (cs ++ [φ.outcome p side]) := by
  obtain ⟨ρ, hρ⟩ := hPos
  refine ⟨p.eval ρ, ρ, ?_⟩
  rw [Valuation.meets_append, Valuation.meets_singleton, hρ]
  cases hv : p.eval ρ with
  | true => simp [Held.outcome, Held.holds_of_toFormula hp, hv]
  | false => simp [Held.outcome, Trail.holds_term_not, hv]

namespace Trail

variable {solver solver' : Solver} {φ : Held} {cs : List Held}

/-- What comes of a test under conditions that can be met: it is no formula, or one outcome can be
met with them and the other cannot, or both can. -/
theorem outlook_verdict (hS : solver.Decides) (hPos : Possible cs) (φ : Held) :
    (∃ f, φ.toFormula = .error f ∧ outlook solver φ cs = .fault f) ∨
    (∃ p side, φ.toFormula = .ok p ∧ Possible (cs ++ [φ.outcome p side]) ∧
      ¬ Possible (cs ++ [φ.outcome p !side]) ∧ outlook solver φ cs = .forced side) ∨
    (∃ p, φ.toFormula = .ok p ∧ (∀ side, Possible (cs ++ [φ.outcome p side])) ∧
      outlook solver φ cs = .either p) := by
  obtain ⟨ρ, hρ⟩ := hPos
  obtain ⟨given, hgiven⟩ := Valuation.toFormulas_of_meets hρ
  cases hp : φ.toFormula with
  | error f =>
    refine .inl ⟨f, rfl, ?_⟩
    rw [outlook, hgiven, hp]
  | ok p =>
    have hout : outlook solver φ cs =
        .ofSides p (solver.admits (given ++ [p])) (solver.admits (given ++ [.not p])) := by
      rw [outlook, hgiven, hp]
    -- the two questions to the solver are whether the two outcomes can be met
    have hHold : solver.admits (given ++ [p]) = true ↔ Possible (cs ++ [φ.outcome p true]) := by
      rw [hS, ← possible_iff (toFormulas_concat hgiven hp)]
      rfl
    have hFail : solver.admits (given ++ [.not p]) = true ↔
        Possible (cs ++ [φ.outcome p false]) := by
      rw [hS, ← possible_iff (toFormulas_concat (φ := .term (.not p)) hgiven rfl)]
      rfl
    rw [hout]
    cases hcanHold : solver.admits (given ++ [p]) <;>
      cases hcanFail : solver.admits (given ++ [.not p]) <;>
      rw [hcanHold] at hHold <;> rw [hcanFail] at hFail
    · -- neither can be met, though `ρ` takes one of them
      obtain ⟨side, hside⟩ := Possible.outcome ⟨ρ, hρ⟩ hp
      cases side with
      | true => exact absurd (hHold.mpr hside) Bool.false_ne_true
      | false => exact absurd (hFail.mpr hside) Bool.false_ne_true
    · refine .inr (.inl ⟨p, false, rfl, hFail.mp rfl, ?_, rfl⟩)
      intro hpos
      exact absurd (hHold.mpr hpos) Bool.false_ne_true
    · refine .inr (.inl ⟨p, true, rfl, hHold.mp rfl, ?_, rfl⟩)
      intro hpos
      exact absurd (hFail.mpr hpos) Bool.false_ne_true
    · refine .inr (.inr ⟨p, rfl, ?_, rfl⟩)
      intro side
      cases side with
      | true => exact hHold.mp rfl
      | false => exact hFail.mp rfl

theorem outlook_congr (hS : solver.Decides) (hS' : solver'.Decides) (φ : Held)
    (cs : List Held) : outlook solver φ cs = outlook solver' φ cs := by
  unfold outlook
  simp only [hS.admits_eq hS']

theorem decide_congr (hS : solver.Decides) (hS' : solver'.Decides) (φ : Held) (t : Trail) :
    t.decide solver φ = t.decide solver' φ := by
  rw [decide_eq, decide_eq, outlook_congr hS hS']

end Trail

/-- A run goes the same way with every solver that decides satisfiability. -/
theorem Run.play_congr {α : Type} {solver solver' : Solver} (hS : solver.Decides)
    (hS' : solver'.Decides) (r : Run α) (t : Trail) : r.play solver t = r.play solver' t := by
  induction r generalizing t with
  | done a => rfl
  | ask φ k ih =>
    rw [play, play, Trail.decide_congr hS hS']
    exact ih _ _

theorem Round.start_congr {ω : Type} {solver solver' : Solver} (hS : solver.Decides)
    (hS' : solver'.Decides) (target : Target ω) (path : List Bool) (w : ω) :
    Round.start solver target path w = Round.start solver' target path w := by
  rw [Round.start, Round.start, Run.play_congr hS hS']

end Pathwise
