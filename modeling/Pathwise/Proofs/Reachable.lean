import Pathwise.Proofs.PathOrder
import Pathwise.Proofs.Verdicts

/-!
# The trails that tests can reach

A round starts on a path that the search has chosen, with nothing on record. From there on only
tests change its trail. `Trail.Sound` is what all trails have that come about in this way, whatever
is tested and in whatever order: it holds at the start of every round, and a test keeps it.

Three things that the search does not check follow from it. A formula always has an outcome that
can be met, so the search need not tell "both" from "neither". The limit on the depth is reached
only by a test that adds a sixteenth condition, though the search looks at the length of the path.
And at the end of a round there is always a model.

* `Trail.Sound.decide` — one test keeps a trail sound.
* `Trail.Sound.after` — so do tests one after the other.
* `Trail.Sound.depthLimit_iff` — when the limit on the depth is reached.
* `Run.checks` — a look at all ends of a run; `Run.good_play` says what it is worth.
* `trails_sound` — all of this for the rounds of any search.
-/

namespace Pathwise

namespace Trail

/-- The trail after tests, one after the other, whatever was answered. -/
def after (solver : Solver) : Trail → List Held → Trail
  | t, [] => t
  | t, φ :: rest => (t.decide solver φ).2.after solver rest

theorem after_append (solver : Solver) (t : Trail) (tests more : List Held) :
    t.after solver (tests ++ more) = (t.after solver tests).after solver more := by
  induction tests generalizing t with
  | nil => rfl
  | cons φ tests ih => exact ih _

/-- The conditions are those that the tested formulas have the outcomes on the path. -/
def Records (tested : List Held) (t : Trail) : Prop :=
  tested.length = t.conditions.length ∧
    ∀ (i : Nat) side, t.path[i]? = some side → ∀ c, t.conditions[i]? = some c →
      ∃ (φ : Held) (p : Formula),
        tested[i]? = some φ ∧ φ.toFormula = .ok p ∧ c = φ.outcome p side

/-- What is true of a trail after tests. -/
structure Sound (tests : List Held) (t : Trail) : Prop where
  possible : Possible t.conditions
  length_le : t.conditions.length ≤ t.path.length
  bounded : t.path.length ≤ 15
  /-- Some of the tests, in their order, are on record. -/
  recorded : ∃ tested, tested.Sublist tests ∧ Records tested t

variable {solver : Solver} {φ : Held} {p : Formula} {t : Trail} {tests tested : List Held}

theorem Sound.start {path : List Bool} (hle : path.length ≤ depthLimit) :
    Sound [] (.start path) where
  possible := possible_nil
  length_le := Nat.zero_le _
  bounded := hle
  recorded := ⟨[], List.Sublist.refl _, rfl, fun _ _ _ _ hc => by cases hc⟩

/-! ## One test -/

/-- One more condition, on a path that goes on from the one so far. -/
theorem Records.concat (h : Records tested t) (hle : t.conditions.length ≤ t.path.length)
    (hp : φ.toFormula = .ok p) {path : List Bool} {side : Bool} (hpath : t.path <+: path)
    (hside : path[t.conditions.length]? = some side) :
    Records (tested ++ [φ]) ⟨path, t.record φ p side⟩ := by
  obtain ⟨hlen, hrec⟩ := h
  obtain ⟨rest, rfl⟩ := hpath
  constructor
  · rw [record, List.length_append, List.length_append, hlen]
    rfl
  · intro i s hs c hc
    dsimp only at hs hc
    rw [record_eq] at hc
    rcases Nat.lt_or_ge i t.conditions.length with hlt | hge
    · -- an older condition: neither the path nor the record has changed there
      have hi : i < t.path.length := Nat.lt_of_lt_of_le hlt hle
      rw [List.getElem?_append_left hlt] at hc
      rw [List.getElem?_append_left hi] at hs
      obtain ⟨ψ, q, hψ, hq, hceq⟩ := hrec i s hs c hc
      refine ⟨ψ, q, ?_, hq, hceq⟩
      rw [List.getElem?_append_left (hlen ▸ hlt)]
      exact hψ
    · -- the new one, which stands where the path has `side`
      rw [List.getElem?_append_right hge, List.getElem?_singleton] at hc
      split at hc
      · rename_i hzero
        obtain rfl : i = t.conditions.length := by omega
        obtain rfl : side = s := Option.some.inj (hside.symm.trans hs)
        refine ⟨φ, p, ?_, hp, (Option.some.inj hc).symm⟩
        rw [← hlen, List.getElem?_append_right (Nat.le_refl _), Nat.sub_self]
        rfl
      · cases hc

/-- A test that is left unrecorded. -/
theorem Sound.skip (h : Sound tests t) (φ : Held) : Sound (tests ++ [φ]) t where
  possible := h.possible
  length_le := h.length_le
  bounded := h.bounded
  recorded := by
    obtain ⟨tested, hsub, hrec⟩ := h.recorded
    exact ⟨tested, hsub.trans (List.sublist_append_left _ _), hrec⟩

/-- Recording an outcome that can be met, on a path that goes on from the one so far. -/
theorem Sound.record (h : Sound tests t) (hp : φ.toFormula = .ok p) {path : List Bool}
    {side : Bool} (hpos : Possible (t.conditions ++ [φ.outcome p side])) (hpath : t.path <+: path)
    (hside : path[t.conditions.length]? = some side) (hle : path.length ≤ depthLimit) :
    Sound (tests ++ [φ]) ⟨path, t.record φ p side⟩ where
  possible := hpos
  length_le := by
    have hlt := (List.getElem?_eq_some_iff.mp hside).1
    rw [Trail.record, List.length_append]
    exact hlt
  bounded := hle
  recorded := by
    obtain ⟨tested, hsub, hrec⟩ := h.recorded
    exact ⟨tested ++ [φ], hsub.append_right [φ], hrec.concat h.length_le hp hpath hside⟩

/-- On a trail that has been replayed the next condition belongs at the end of the path. -/
theorem Sound.length_eq (h : Sound tests t) (hnone : t.path[t.conditions.length]? = none) :
    t.conditions.length = t.path.length :=
  Nat.le_antisymm h.length_le (List.getElem?_eq_none_iff.mp hnone)

/-- A test keeps a trail sound. -/
theorem Sound.decide (h : Sound tests t) (hS : solver.Decides) (φ : Held) :
    Sound (tests ++ [φ]) (t.decide solver φ).2 := by
  -- "either" is also the outlook when neither outcome can be met, but not on a sound trail
  have hboth : ∀ p, outlook solver φ t.conditions = .either p →
      φ.toFormula = .ok p ∧ ∀ side, Possible (t.conditions ++ [φ.outcome p side]) := by
    intro p hout
    obtain ⟨f, -, hout'⟩ | ⟨q, side, -, -, -, hout'⟩ | ⟨q, hq, hpos, hout'⟩ :=
      outlook_verdict hS h.possible φ
    all_goals
      rw [hout'] at hout
      cases hout
    exact ⟨hq, hpos⟩
  obtain ⟨f, hd⟩ | ⟨side, -, hd⟩ | ⟨p, side, hout, hside, hd⟩ | ⟨p, hout, hnone, hlt, hd⟩ :=
    decide_cases solver φ t
  all_goals rw [hd]
  · exact h.skip φ
  · exact h.skip φ
  · obtain ⟨hp, hpos⟩ := hboth p hout
    exact h.record hp (hpos side) List.prefix_rfl hside h.bounded
  · obtain ⟨hp, hpos⟩ := hboth p hout
    refine h.record hp (hpos true) (List.prefix_append _ _) ?_ ?_
    · rw [h.length_eq hnone, List.getElem?_append_right (Nat.le_refl _), Nat.sub_self]
      rfl
    · rw [List.length_append]
      exact hlt

theorem depthLimit_ne_of_toFormula {f : Fault} (h : φ.toFormula = .error f) :
    f ≠ .depthLimit := by
  rintro rfl
  unfold Held.toFormula at h
  split at h <;> cases h

/-- The limit on the depth is reached exactly by a test that can have both outcomes with fifteen
conditions on record. -/
theorem Sound.depthLimit_iff (h : Sound tests t) (hS : solver.Decides) (φ : Held) :
    (t.decide solver φ).1 = .error .depthLimit ↔
      (∃ p, φ.toFormula = .ok p ∧ ∀ side, Possible (t.conditions ++ [φ.outcome p side])) ∧
        t.conditions.length = 15 := by
  obtain ⟨f, hf, hout⟩ | ⟨p, side, hp, -, hno, hout⟩ | ⟨p, hp, hpos, hout⟩ :=
    outlook_verdict hS h.possible φ
  all_goals rw [decide_eq, hout]
  · constructor
    · intro heq
      exact absurd (Except.error.inj heq) (depthLimit_ne_of_toFormula hf)
    · rintro ⟨⟨p, hp, -⟩, -⟩
      rw [hf] at hp
      cases hp
  · constructor
    · intro heq
      cases heq
    · rintro ⟨⟨q, hq, hpos⟩, -⟩
      obtain rfl : p = q := Except.ok.inj (hp.symm.trans hq)
      exact absurd (hpos !side) hno
  · -- while the path lasts there are fewer conditions than sides, and of those at most fifteen
    have hbounded := h.bounded
    simp only [branch]
    cases hside : t.path[t.conditions.length]? with
    | some side =>
      have hlt := (List.getElem?_eq_some_iff.mp hside).1
      constructor
      · intro heq
        cases heq
      · rintro ⟨-, hfull⟩
        omega
    | none =>
      have hlen := h.length_eq hside
      by_cases hfull : depthLimit ≤ t.path.length
      · simp only [if_pos hfull, true_iff]
        refine ⟨⟨p, hp, hpos⟩, ?_⟩
        rw [hlen]
        exact Nat.le_antisymm hbounded hfull
      · simp only [if_neg hfull]
        constructor
        · intro heq
          cases heq
        · rintro ⟨-, hfull'⟩
          rw [hlen] at hfull'
          exact absurd (Nat.le_of_eq hfull'.symm) hfull

/-- A test that ends in a fault leaves the trail as it is. -/
theorem decide_of_error {f : Fault} (h : (t.decide solver φ).1 = .error f) :
    (t.decide solver φ).2 = t := by
  obtain ⟨g, hd⟩ | ⟨side, -, hd⟩ | ⟨p, side, -, -, hd⟩ | ⟨p, -, -, -, hd⟩ :=
    decide_cases solver φ t
  · rw [hd]
  all_goals
    rw [hd] at h
    cases h

/-! ## A whole run -/

theorem Sound.after (h : Sound tests t) (hS : solver.Decides) (more : List Held) :
    Sound (tests ++ more) (t.after solver more) := by
  induction more generalizing tests t with
  | nil =>
    rw [List.append_nil]
    exact h
  | cons φ more ih =>
    have hrest := ih (h.decide hS φ)
    rw [List.append_assoc] at hrest
    exact hrest

end Trail

/-- A run ends on the trail that its tests lead to. -/
theorem Run.play_eq_after {α : Type} (solver : Solver) (r : Run α) (t : Trail) :
    (r.play solver t).2 = t.after solver ((r.transcript solver t).map Prod.fst) := by
  induction r generalizing t with
  | done a => rfl
  | ask φ k ih => exact ih _ _

/-! ## Runs that come to good ends -/

namespace Run

variable {α : Type}

/-- Whether a run has at most so many tests one after the other, all of formulas, and only good
ends. Where a formula is refuted, the run is not followed to what it does if the formula holds. -/
def checks (refuted : Formula → Bool) (good : α → Bool) : Nat → Run α → Bool
  | _, .done a => good a
  | 0, .ask _ _ => false
  | n + 1, .ask φ k =>
    match φ.toFormula with
    | .error _ => false
    | .ok p =>
      (k (.ok false)).checks refuted good n &&
        (refuted p || (k (.ok true)).checks refuted good n)

variable {solver : Solver} {refuted : Formula → Bool} {good : α → Bool}

/-- A run that passes the check passes it after every answer that can be true. -/
theorem checks_answer {n : Nat} {φ : Held} {k : Except Fault Bool → Run α}
    (h : (Run.ask φ k).checks refuted good (n + 1) = true) {ρ : Valuation}
    (hrefuted : ∀ p, refuted p = true → p.eval ρ = false) :
    ∃ p, φ.toFormula = .ok p ∧ (k (.ok (p.eval ρ))).checks refuted good n = true := by
  rw [checks] at h
  cases hp : φ.toFormula with
  | error f =>
    rw [hp] at h
    cases h
  | ok p =>
    rw [hp] at h
    obtain ⟨hno, hyes⟩ := Bool.and_eq_true_iff.mp h
    refine ⟨p, rfl, ?_⟩
    -- a refuted formula is not true of the valuation, so its side need not be followed
    cases hside : p.eval ρ with
    | false => exact hno
    | true =>
      rcases Bool.or_eq_true_iff.mp hyes with hfalse | hyes
      · rw [hrefuted p hfalse] at hside
        cases hside
      · exact hyes

/-- Along every path, a run that passes the check comes to a good end. All answers are true of
what meets the conditions, and there are too few tests to reach the limit on the depth. -/
theorem good_play (hS : solver.Correct)
    (hrefuted : ∀ p, refuted p = true → ∀ ρ : Valuation, p.eval ρ = false) {n : Nat} {r : Run α}
    (h : r.checks refuted good n = true) {tests : List Held} {t : Trail}
    (hsound : Trail.Sound tests t) (hn : tests.length + n ≤ depthLimit) :
    good (r.play solver t).1 = true := by
  -- by induction on the tests that may still come
  induction n generalizing r tests t with
  | zero =>
    cases r with
    | done a => exact h
    | ask φ k => cases h
  | succ n ih =>
    cases r with
    | done a => exact h
    | ask φ k =>
      have hnext := hsound.decide hS.decides φ
      have hlength : (tests ++ [φ]).length + n ≤ depthLimit := by
        rw [List.length_append, List.length_singleton]
        omega
      obtain ⟨ρ, hρ⟩ := hnext.possible
      obtain ⟨p, hp, hanswer⟩ := checks_answer h fun p hp => hrefuted p hp ρ
      rw [play]
      rcases Trail.decide_truthful hS hρ with hcut | htrue
      · -- at the limit there would be more conditions than there have been tests
        have hfull := ((hsound.depthLimit_iff hS.decides φ).mp hcut).2
        obtain ⟨tested, hsub, hrecords, -⟩ := hsound.recorded
        have hle := hsub.length_le
        have hlimit : depthLimit = 15 := rfl
        omega
      · rw [htrue, hp]
        exact ih hanswer hnext hlength

end Run

/-! ## A whole search -/

section Search

variable {ω : Type} {solver : Solver} {params : List String} {target : Target ω} {w : ω}

theorem Round.trail_eq_after {r : Round ω} (hr : r ∈ rounds solver params target w) :
    r.trail = (Trail.start r.path).after solver
      (((target r.world).transcript solver (.start r.path)).map Prod.fst) := by
  have hstart := eq_start_of_mem_roundsFrom hr
  rw [← Run.play_eq_after]
  rw [hstart]
  rfl

/-- Whatever is tested in a round, its trail is sound. -/
theorem sound_after_of_mem_rounds (hS : solver.Decides) {r : Round ω}
    (hr : r ∈ rounds solver params target w) (tests : List Held) :
    Trail.Sound tests ((Trail.start r.path).after solver tests) := by
  have hpath : r.path.length ≤ depthLimit :=
    (roundsFrom_calls _ [] w).path_length_le (Nat.zero_le depthLimit) r hr
  exact (Trail.Sound.start hpath).after hS tests

/-- Every round has a model at its end. -/
theorem exists_solve_of_mem_rounds (hS : solver.Decides) {r : Round ω}
    (hr : r ∈ rounds solver params target w) :
    ∃ m, solver.solve r.trail.conditions = .ok (some m) := by
  have hsound := sound_after_of_mem_rounds hS hr
    (((target r.world).transcript solver (.start r.path)).map Prod.fst)
  rw [← Round.trail_eq_after hr] at hsound
  exact hS.exists_solve hsound.possible

theorem describeEntries_ne_noModel (entries : List (String × Reading)) (params : List String) :
    (Model.describeEntries entries params).1 ≠ .error .noModel := by
  induction entries generalizing params with
  | nil =>
    intro h
    cases h
  | cons e entries ih =>
    obtain ⟨x, v⟩ := e
    rw [Model.describeEntries]
    intro h
    split at h
    · change Except.map _ (Model.describeEntries entries (params.erase x)).1 = _ at h
      cases hrest : (Model.describeEntries entries (params.erase x)).1 with
      | ok test =>
        rw [hrest] at h
        cases h
      | error f =>
        rw [hrest] at h
        exact ih _ (hrest.trans h)
    · cases h

/-- A search in which every round has a model does not end for want of one. -/
theorem exploreFrom_ne_noModel {n : Nat} {path : List Bool}
    (h : ∀ r ∈ roundsFrom solver params target n path w,
      ∃ m, solver.solve r.trail.conditions = .ok (some m)) :
    (exploreFrom solver params target n path w).result ≠ .error .noModel := by
  induction n generalizing path w with
  | zero =>
    intro hf
    cases hf
  | succ n ih =>
    rw [roundsFrom_succ] at h
    rw [exploreFrom_succ]
    generalize Round.start solver target path w = r at h ⊢
    cases hescape : r.ending.escape? with
    | some g =>
      rw [conclude_of_escape hescape]
      intro hf
      obtain rfl : g = .noModel := Except.error.inj hf
      exact absurd (Ending.escape?_eq_some_iff.mp hescape).2 (by decide)
    | none =>
      have hno := Ending.escape?_eq_none_iff.mp hescape
      -- with a model at hand, the round itself can fail only in describing it
      obtain ⟨m, hm⟩ := h r List.mem_cons_self
      simp only [conclude_of_not_escapes hno, proceed, hm]
      cases hd : (m.describe params).1 with
      | error f =>
        intro hf
        obtain rfl : f = .noModel := Except.error.inj hf
        exact describeEntries_ne_noModel _ _ hd
      | ok test =>
        have hl : r.ending.resume? solver params r.trail = nextPath r.trail.path :=
          Ending.resume?_of_test (by
            simp [Ending.leaf?_of_not_escapes hno, Solver.leaf?, hm, hd, Except.toOption])
        rw [hl] at h
        cases hn : nextPath r.trail.path with
        | none =>
          intro hf
          cases hf
        | some next =>
          rw [hn] at h
          intro hf
          have hrest := ih fun r' hr' => h r' (List.mem_cons_of_mem _ hr')
          simp only [Exploration.prepend] at hf
          cases hres : (exploreFrom solver params target n next r.ending.world).result with
          | ok tests =>
            rw [hres] at hf
            cases hf
          | error g =>
            rw [hres] at hf
            exact hrest (hres.trans hf)

/--
**What tests can reach.** In every round of a search with a solver that decides satisfiability,
for any target in any world, and after any tests: the conditions can be met, they are no more than
the sides on the path, and these are at most fifteen; each condition is the tested formula or its
negation, as the path says. A formula has an outcome that can be met with them. Asking it reaches
the limit on the depth exactly if both outcomes can and there are fifteen conditions, and then
leaves the trail alone. The round itself ends on such a trail and has a model, so no search ends
for want of one.
-/
theorem trails_sound (hS : solver.Decides) (params : List String) (target : Target ω) (w : ω) :
    (∀ r ∈ rounds solver params target w,
      (∀ tests, Trail.Sound tests ((Trail.start r.path).after solver tests)) ∧
      (∀ tests φ, let t := (Trail.start r.path).after solver tests
        (∀ p, φ.toFormula = .ok p → ∃ side, Possible (t.conditions ++ [φ.outcome p side])) ∧
        ((t.decide solver φ).1 = .error .depthLimit ↔
          (∃ p, φ.toFormula = .ok p ∧ ∀ side, Possible (t.conditions ++ [φ.outcome p side])) ∧
            t.conditions.length = 15) ∧
        ((t.decide solver φ).1 = .error .depthLimit → (t.decide solver φ).2 = t)) ∧
      r.trail = (Trail.start r.path).after solver
        (((target r.world).transcript solver (.start r.path)).map Prod.fst) ∧
      ∃ m, solver.solve r.trail.conditions = .ok (some m)) ∧
    (explore solver params target w).result ≠ .error .noModel := by
  refine ⟨?_, exploreFrom_ne_noModel fun r hr => exists_solve_of_mem_rounds hS hr⟩
  intro r hr
  have hsound := sound_after_of_mem_rounds hS hr
  refine ⟨hsound, ?_, Round.trail_eq_after hr, exists_solve_of_mem_rounds hS hr⟩
  intro tests φ
  refine ⟨?_, (hsound tests).depthLimit_iff hS φ, Trail.decide_of_error⟩
  intro p hp
  exact (hsound tests).possible.outcome hp

end Search

/-! ### Up to the limit -/

namespace Positive

/-- Ask whether the unknown is greater than 0, than 1, and so on. -/
def rungs (n : Nat) : List Held := (List.range n).map fun i : Nat => .term (above i)

theorem rungs_succ (n : Nat) : rungs (n + 1) = rungs n ++ [.term (above n)] := by
  rw [rungs, List.range_succ, List.map_append]
  rfl

theorem holds_above (ρ : Valuation) (n : Int) :
    Held.holds ρ (.term (above n)) = decide (n < ρ.int "x") := rfl

theorem meets_rungs {n : Nat} {k : Int} (h : n ≤ k) : (valued k).meets (rungs n) = true := by
  rw [Valuation.meets, List.all_eq_true]
  intro c hc
  obtain ⟨i, hi, rfl⟩ := List.mem_map.mp hc
  have hlt : (i : Int) < k := by
    have := List.mem_range.mp hi
    omega
  rw [holds_above]
  exact decide_eq_true hlt

/-- However many of them are on record, the next one can have either outcome. -/
theorem possible_rung (n : Nat) (side : Bool) :
    Possible (rungs n ++ [Held.outcome (.term (above n)) (above n) side]) := by
  refine ⟨valued (if side then n + 1 else n), ?_⟩
  rw [Valuation.meets_append, Valuation.meets_singleton, Bool.and_eq_true]
  refine ⟨meets_rungs (by split <;> omega), ?_⟩
  cases side with
  | true =>
    have hlt : (n : Int) < n + 1 := by omega
    simp [Held.outcome, holds_above, valued, hlt]
  | false => simp [Held.outcome, Trail.holds_term_not, eval_above, valued]

theorem after_rungs {n : Nat} (hn : n ≤ 15) :
    (Trail.start []).after Solver.ideal (rungs n) = ⟨List.replicate n true, rungs n⟩ := by
  induction n with
  | zero => rfl
  | succ n ih =>
    have hout : Trail.outlook Solver.ideal (.term (above n)) (rungs n) = .either (above n) :=
      Trail.outlook_of_possible Solver.ideal_correct rfl (possible_rung n true)
        (possible_rung n false)
    have hlen : (rungs n).length = n := by rw [rungs, List.length_map, List.length_range]
    have hlt : ¬ depthLimit ≤ n := Nat.not_le.mpr hn
    rw [rungs_succ, Trail.after_append, ih (by omega), Trail.after, Trail.after,
      Trail.decide_eq, hout]
    simp [Trail.branch, Trail.record, hlen, hlt, List.replicate_succ']

/-- Fifteen conditions are on record, and the next test reaches the limit. -/
theorem restless_trails_sound :
    let t := (Trail.start []).after Solver.ideal (rungs 15)
    Solver.ideal.Decides ∧ t.Sound (rungs 15) ∧ t.conditions = rungs 15 ∧
      (t.decide Solver.ideal (.term (above 15))).1 = .error .depthLimit ∧
      (t.decide Solver.ideal (.term (above 15))).2 = t ∧
      (explore Solver.ideal ["x"] restless 0).result ≠ .error .noModel := by
  have hS : Solver.ideal.Decides := Solver.ideal_correct.decides
  have hr : Round.start Solver.ideal restless [] 0 ∈ rounds Solver.ideal ["x"] restless 0 :=
    List.mem_cons_self
  obtain ⟨hrounds, hmodel⟩ := trails_sound hS ["x"] restless 0
  obtain ⟨hsound, hasked, -, -⟩ := hrounds _ hr
  obtain ⟨-, hlimit, hkept⟩ := hasked (rungs 15) (.term (above 15))
  have hafter := after_rungs (Nat.le_refl 15)
  have hdepth := hlimit.mpr (by
    show _ ∧ ((Trail.start []).after Solver.ideal (rungs 15)).conditions.length = 15
    refine ⟨⟨above 15, rfl, ?_⟩, ?_⟩
    · show ∀ side, Possible (((Trail.start []).after Solver.ideal (rungs 15)).conditions ++ _)
      rw [hafter]
      exact possible_rung 15
    · rw [hafter]
      rfl)
  exact ⟨hS, hsound (rungs 15), by rw [hafter], hdepth, hkept hdepth, hmodel⟩

end Positive

end Pathwise
