import Pathwise.Proofs.Answers
import Pathwise.Proofs.PathOrder

/-!
# The leaves of a target, in order

A search starts its target again for every leaf and only remembers a path. A target that behaves
the same at every start is one tree of tests, and then the search goes through the leaves of the
tree from left to right.

* `Run.remaining` lists the leaves of a tree from the one at the end of a path on. From the empty
  path on these are all leaves.
* `Run.remaining_spec` — a run along a path ends at the first remaining leaf, and the leaves after
  it are those that remain from the next path on.
* `rounds_eq_upTo` — the rounds of a search of a steady target end at the leaves of its tree, up to
  the first one at which the search stops.

Nothing is asked of the solver but that it answers the same question alike.
-/

namespace Pathwise

/-! ## What holds of all leaves -/

namespace Run

variable {α : Type}

/-- Whatever is answered, a run tests only what satisfies `asked` and ends with what satisfies
`result`. -/
def Ensures (asked : Held → Prop) (result : α → Prop) : Run α → Prop
  | .done a => result a
  | .ask φ k => asked φ ∧ ∀ answer, (k answer).Ensures asked result

variable {asked : Held → Prop} {result : α → Prop} {r : Run α}

theorem Ensures.mono {asked' : Held → Prop} {result' : α → Prop} (h : r.Ensures asked result)
    (hasked : ∀ φ, asked φ → asked' φ) (hresult : ∀ a, result a → result' a) :
    r.Ensures asked' result' := by
  induction r with
  | done a => exact hresult a h
  | ask φ k ih => exact ⟨hasked φ h.1, fun answer => ih answer (h.2 answer)⟩

theorem Ensures.bind {β : Type} {f : α → Run β} {result' : β → Prop}
    (h : r.Ensures asked result) (hf : ∀ a, result a → (f a).Ensures asked result') :
    (r.bind f).Ensures asked result' := by
  induction r with
  | done a => exact hf a h
  | ask φ k ih => exact ⟨h.1, fun answer => ih answer (h.2 answer)⟩

theorem Ensures.play (h : r.Ensures asked result) (solver : Solver) (t : Trail) :
    result (r.play solver t).1 := by
  induction r generalizing t with
  | done a => exact h
  | ask φ k ih => exact ih _ (h.2 _) _

theorem play_bind {β : Type} (solver : Solver) (r : Run α) (f : α → Run β) (t : Trail) :
    (r.bind f).play solver t = (f (r.play solver t).1).play solver (r.play solver t).2 := by
  induction r generalizing t with
  | done a => rfl
  | ask φ k ih => exact ih _ _

/-- What holds of all that is tested, and of the negations, holds of all conditions on record. -/
theorem Ensures.conditions (h : r.Ensures asked result)
    (hnot : ∀ φ p, asked φ → φ.toFormula = .ok p → asked (.term (.not p)))
    (solver : Solver) {t : Trail} (ht : ∀ c ∈ t.conditions, asked c) :
    ∀ c ∈ (r.play solver t).2.conditions, asked c := by
  induction r generalizing t with
  | done a => exact ht
  | ask φ k ih =>
    refine ih _ (h.2 _) ?_
    -- what is recorded is the test or its negation
    have hrecord : ∀ p side, Trail.outlook solver φ t.conditions = .either p →
        ∀ c ∈ t.record φ p side, asked c := by
      intro p side hout c hc
      rw [Trail.record, List.mem_append, List.mem_singleton] at hc
      rcases hc with hc | rfl
      · exact ht c hc
      · cases side
        · exact hnot φ p h.1 (Trail.toFormula_of_either hout)
        · exact h.1
    obtain ⟨f, hd⟩ | ⟨side, -, hd⟩ | ⟨p, side, hout, -, hd⟩ | ⟨p, hout, -, -, hd⟩ :=
      Trail.decide_cases solver φ t
    all_goals rw [hd]
    · exact ht
    · exact ht
    · exact hrecord p side hout
    · exact hrecord p true hout

end Run

/-- A target that leaves its world as it is, whatever is answered. -/
def Target.Steady {ω : Type} (target : Target ω) (w : ω) : Prop :=
  (target w).Ensures (fun _ => True) fun e => e.world = w

/-! ## The leaves from a path on -/

namespace Trail

/-- Take a side and put it on the path. -/
def take (t : Trail) (φ : Held) (p : Formula) (side : Bool) : Trail :=
  ⟨t.path ++ [side], t.record φ p side⟩

/-- The path has been replayed: every side on it has its condition on record. -/
def Replayed (t : Trail) : Prop := t.path.length = t.conditions.length

theorem replayed_start : (start []).Replayed := rfl

theorem Replayed.take {t : Trail} (h : t.Replayed) (φ : Held) (p : Formula) (side : Bool) :
    (t.take φ p side).Replayed := by
  simp only [Replayed, Trail.take, record, List.length_append, List.length_singleton] at h ⊢
  rw [h]

end Trail

namespace Run

variable {α : Type} (solver : Solver)

/-- The results and trails at the leaves of a run from the path `rest` on, where `rest` is what
is left of a path after the trail. -/
def remaining : Run α → Trail → List Bool → List (α × Trail)
  | .done a, t, _ => [(a, t)]
  | .ask φ k, t, rest =>
    match Trail.outlook solver φ t.conditions with
    | .fault f => (k (.error f)).remaining t rest
    | .forced side => (k (.ok side)).remaining t rest
    | .either p =>
      match rest with
      | [] =>
        if depthLimit ≤ t.path.length then (k (.error .depthLimit)).remaining t []
        else (k (.ok true)).remaining (t.take φ p true) [] ++
          (k (.ok false)).remaining (t.take φ p false) []
      | true :: rest =>
        (k (.ok true)).remaining (t.take φ p true) rest ++
          (k (.ok false)).remaining (t.take φ p false) []
      | false :: rest => (k (.ok false)).remaining (t.take φ p false) rest

/-- A run along the path `rest` meets a choice for every side on it. -/
def Fits : Run α → Trail → List Bool → Prop
  | .done _, _, rest => rest = []
  | .ask φ k, t, rest =>
    match Trail.outlook solver φ t.conditions with
    | .fault f => (k (.error f)).Fits t rest
    | .forced side => (k (.ok side)).Fits t rest
    | .either p =>
      match rest with
      | [] => True
      | side :: rest =>
        t.path.length < depthLimit ∧ (k (.ok side)).Fits (t.take φ p side) rest

variable {solver}

theorem fits_nil (r : Run α) (t : Trail) : r.Fits solver t [] := by
  induction r with
  | done a => rfl
  | ask φ k ih =>
    rw [Fits]
    cases Trail.outlook solver φ t.conditions with
    | fault f | forced side => exact ih _
    | either p => trivial

/-- No path goes on from a trail that is as long as can be. -/
theorem eq_nil_of_fits {r : Run α} {t : Trail} {rest : List Bool}
    (hfits : r.Fits solver t rest) (hfull : depthLimit ≤ t.path.length) : rest = [] := by
  induction r with
  | done a => exact hfits
  | ask φ k ih =>
    rw [Fits] at hfits
    cases hout : Trail.outlook solver φ t.conditions with
    | fault f | forced side =>
      simp only [hout] at hfits
      exact ih _ hfits
    | either p =>
      simp only [hout] at hfits
      cases rest with
      | nil => rfl
      | cons side rest => exact absurd hfull (Nat.not_le.mpr hfits.1)

theorem decide_of_either_cons {φ : Held} {t : Trail} {p : Formula}
    (hout : Trail.outlook solver φ t.conditions = .either p) (ht : t.Replayed) (side : Bool)
    (rest : List Bool) :
    Trail.decide solver φ ⟨t.path ++ side :: rest, t.conditions⟩ =
      (.ok side, ⟨(t.take φ p side).path ++ rest, (t.take φ p side).conditions⟩) := by
  unfold Trail.Replayed at ht
  rw [Trail.decide_eq, hout]
  simp [Trail.branch, ← ht, Trail.take, Trail.record]

theorem decide_of_either_nil {φ : Held} {t : Trail} {p : Formula}
    (hout : Trail.outlook solver φ t.conditions = .either p) (ht : t.Replayed) :
    Trail.decide solver φ t =
      if depthLimit ≤ t.path.length then (.error .depthLimit, t) else (.ok true, t.take φ p true) := by
  unfold Trail.Replayed at ht
  rw [Trail.decide_eq, hout]
  simp [Trail.branch, ← ht, Trail.take]

/-- `later` is what remains after the leaf at the end of `sides`. -/
structure RemainsAfter (solver : Solver) (r : Run α) (t : Trail) (sides : List Bool)
    (later : List (α × Trail)) : Prop where
  none : nextPath sides = none → later = []
  some : ∀ next, nextPath sides = some next →
    r.Fits solver t next ∧ later = r.remaining solver t next

section Choice

variable {φ : Held} {k : Except Fault Bool → Run α} {t : Trail} {p : Formula} {sides : List Bool}
  {later : List (α × Trail)}

/-- After a leaf on the true side of a choice there remain the later ones of that side, and then
all of the false side. -/
theorem RemainsAfter.true_side (hout : Trail.outlook solver φ t.conditions = .either p)
    (hlt : t.path.length < depthLimit)
    (h : RemainsAfter solver (k (.ok true)) (t.take φ p true) sides later) :
    RemainsAfter solver (.ask φ k) t (true :: sides)
      (later ++ (k (.ok false)).remaining solver (t.take φ p false) []) := by
  cases hn : nextPath sides with
  | none =>
    obtain rfl := h.none hn
    refine ⟨fun hnone => by simp [nextPath, hn] at hnone, ?_⟩
    intro next hnext
    obtain rfl : [false] = next := by simpa [nextPath, hn] using hnext
    simp only [Fits, remaining, hout]
    exact ⟨⟨hlt, fits_nil _ _⟩, rfl⟩
  | some next =>
    obtain ⟨hfits, rfl⟩ := h.some next hn
    refine ⟨fun hnone => by simp [nextPath, hn] at hnone, ?_⟩
    intro next' hnext
    obtain rfl : true :: next = next' := by simpa [nextPath, hn] using hnext
    simp only [Fits, remaining, hout]
    exact ⟨⟨hlt, hfits⟩, trivial⟩

theorem RemainsAfter.false_side (hout : Trail.outlook solver φ t.conditions = .either p)
    (hlt : t.path.length < depthLimit)
    (h : RemainsAfter solver (k (.ok false)) (t.take φ p false) sides later) :
    RemainsAfter solver (.ask φ k) t (false :: sides) later := by
  cases hn : nextPath sides with
  | none =>
    obtain rfl := h.none hn
    exact ⟨fun _ => rfl, fun next hnext => by simp [nextPath, hn] at hnext⟩
  | some next =>
    obtain ⟨hfits, rfl⟩ := h.some next hn
    refine ⟨fun hnone => by simp [nextPath, hn] at hnone, ?_⟩
    intro next' hnext
    obtain rfl : false :: next = next' := by simpa [nextPath, hn] using hnext
    simp only [Fits, remaining, hout]
    exact ⟨⟨hlt, hfits⟩, trivial⟩

end Choice

/-- A run along a path ends at the first remaining leaf, and the others remain after it. -/
theorem remaining_spec (r : Run α) {t : Trail} {rest : List Bool} (ht : t.Replayed)
    (hfits : r.Fits solver t rest) :
    ∃ a sides cs later, r.remaining solver t rest = (a, ⟨t.path ++ sides, cs⟩) :: later ∧
      r.play solver ⟨t.path ++ rest, t.conditions⟩ = (a, ⟨t.path ++ sides, cs⟩) ∧
      RemainsAfter solver r t sides later := by
  induction r generalizing t rest with
  | done a =>
    obtain rfl : rest = [] := hfits
    exact ⟨a, [], t.conditions, [], by simp [remaining], by simp [play], fun _ => rfl,
      fun next h => by cases h⟩
  | ask φ k ih =>
    cases hout : Trail.outlook solver φ t.conditions with
    | fault f | forced side =>
      -- the test leaves the trail alone: the leaves are those of what follows
      simp only [Fits, hout] at hfits
      obtain ⟨a, sides, cs, later, hrem, hplay, hafter⟩ := ih _ ht hfits
      refine ⟨a, sides, cs, later, ?_, ?_, hafter.none, ?_⟩
      · simpa only [remaining, hout] using hrem
      · simpa only [play, Trail.decide_eq, hout] using hplay
      · simpa only [Fits, remaining, hout] using hafter.some
    | either p =>
      simp only [Fits, hout] at hfits
      cases rest with
      | nil =>
        by_cases hfull : depthLimit ≤ t.path.length
        · -- the fault leaves the trail alone, and so does all that follows
          obtain ⟨a, sides, cs, later, hrem, hplay, hafter⟩ :=
            ih (.error .depthLimit) ht (fits_nil _ _)
          refine ⟨a, sides, cs, later, ?_, ?_, hafter.none, ?_⟩
          · simpa only [remaining, hout, if_pos hfull] using hrem
          · simpa only [play, List.append_nil, decide_of_either_nil hout ht, if_pos hfull]
              using hplay
          · intro next hnext
            obtain rfl := eq_nil_of_fits (hafter.some next hnext).1 hfull
            obtain ⟨c, rest, -, hc⟩ := nextPath_eq_some hnext
            simp at hc
        · obtain ⟨a, sides, cs, later, hrem, hplay, hafter⟩ :=
            ih (.ok true) (ht.take φ p true) (fits_nil _ _)
          refine ⟨a, true :: sides, cs, _, ?_, ?_,
            hafter.true_side hout (Nat.not_le.mp hfull)⟩
          · rw [remaining, hout]
            simp only [if_neg hfull, hrem]
            simp [Trail.take]
          · simp only [play, List.append_nil, decide_of_either_nil hout ht, if_neg hfull] at hplay ⊢
            simpa [Trail.take] using hplay
      | cons side rest =>
        -- the path says which side to take; only on the true one there is another side left
        obtain ⟨hlt, hfits⟩ := hfits
        obtain ⟨a, sides, cs, later, hrem, hplay, hafter⟩ := ih (.ok side) (ht.take φ p side) hfits
        have hplay' : (Run.ask φ k).play solver ⟨t.path ++ side :: rest, t.conditions⟩ =
            (a, ⟨t.path ++ side :: sides, cs⟩) := by
          rw [play, decide_of_either_cons hout ht]
          simpa [Trail.take] using hplay
        cases side with
        | true =>
          refine ⟨a, true :: sides, cs, _, ?_, hplay', hafter.true_side hout hlt⟩
          simp only [remaining, hout, hrem]
          simp [Trail.take]
        | false =>
          refine ⟨a, false :: sides, cs, later, ?_, hplay', hafter.false_side hout hlt⟩
          simp only [remaining, hout, hrem]
          simp [Trail.take]

/-- A tree has no more leaves than there are ways to extend the path. -/
theorem length_remaining_le (r : Run α) (t : Trail) :
    (r.remaining solver t []).length ≤ 2 ^ (depthLimit - t.path.length) := by
  induction r generalizing t with
  | done a => exact Nat.one_le_two_pow
  | ask φ k ih =>
    rw [remaining]
    cases Trail.outlook solver φ t.conditions with
    | fault f | forced side => exact ih _ t
    | either p =>
      by_cases hfull : depthLimit ≤ t.path.length
      · simpa only [if_pos hfull] using ih _ t
      · -- the leaves of the two sides, each one step further down
        have hTrue := ih (.ok true) (t.take φ p true)
        have hFalse := ih (.ok false) (t.take φ p false)
        simp only [Trail.take, List.length_append, List.length_singleton] at hTrue hFalse
        simp only [if_neg hfull, List.length_append]
        rw [show depthLimit - t.path.length = depthLimit - (t.path.length + 1) + 1 by omega,
          Nat.pow_succ]
        simp only [Trail.take]
        omega

end Run

/-! ## The rounds of a steady target -/

/-- The members of a list up to the first one at which to stop, and that one. -/
def upTo {α : Type} (stop : α → Bool) : List α → List α
  | [] => []
  | a :: rest => if stop a then [a] else a :: upTo stop rest

theorem upTo_eq_self {α : Type} {stop : α → Bool} {l : List α}
    (h : ∀ a ∈ upTo stop l, stop a = false) : upTo stop l = l := by
  induction l with
  | nil => rfl
  | cons a l ih =>
    rw [upTo] at h ⊢
    cases hstop : stop a with
    | true =>
      rw [hstop] at h
      have := h a (by simp)
      rw [hstop] at this
      cases this
    | false =>
      simp only [hstop, Bool.false_eq_true, if_false, List.mem_cons, forall_eq_or_imp] at h ⊢
      rw [ih h.2]

section Search

variable {ω : Type} {solver : Solver} {params : List String} {target : Target ω} {w : ω}

/-- All rounds of a steady target start in the same world. -/
theorem world_of_mem_roundsFrom (hsteady : target.Steady w) {n : Nat} {path : List Bool}
    {r : Round ω} (hr : r ∈ roundsFrom solver params target n path w) : r.world = w := by
  induction n generalizing path with
  | zero => cases hr
  | succ n ih =>
    rw [roundsFrom_succ, List.mem_cons] at hr
    rcases hr with rfl | hr
    · rfl
    · have hworld : (Round.start solver target path w).ending.world = w :=
        Run.Ensures.play hsteady solver (.start path)
      rw [hworld] at hr
      split at hr
      · exact ih hr
      · cases hr

/-- Whether a search goes no further than the end of a run, because it finds no test there or the
run ends the search. -/
def Ending.stops (solver : Solver) (params : List String) (e : Ending ω) (t : Trail) : Bool :=
  ((e.leaf? solver params t).bind Leaf.test).isNone

/-- The rounds of a search end at the remaining leaves of the target's tree, up to the first one
at which the search stops. -/
theorem roundsFrom_eq_upTo (hsteady : target.Steady w) {n : Nat} {path : List Bool}
    (hfits : (target w).Fits solver (.start []) path)
    (hn : ((target w).remaining solver (.start []) path).length ≤ n) :
    (roundsFrom solver params target n path w).map (fun r => (r.ending, r.trail)) =
      upTo (fun leaf => leaf.1.stops solver params leaf.2)
        ((target w).remaining solver (.start []) path) := by
  induction n generalizing path with
  | zero =>
    obtain ⟨a, sides, cs, later, hrem, -, -⟩ := Run.remaining_spec _ Trail.replayed_start hfits
    simp [hrem] at hn
  | succ n ih =>
    obtain ⟨a, sides, cs, later, hrem, hplay, hafter⟩ :=
      Run.remaining_spec _ Trail.replayed_start hfits
    replace hplay : (target w).play solver (.start path) = (a, ⟨sides, cs⟩) := hplay
    have hworld : a.world = w := by
      have := Run.Ensures.play hsteady solver (.start path)
      rwa [hplay] at this
    -- the first round ends at the first remaining leaf, in the world it started from
    have hstart : Round.start solver target path w = ⟨path, w, a, ⟨sides, cs⟩⟩ := by
      rw [Round.start, hplay]
    rw [hrem] at hn ⊢
    replace hrem : (target w).remaining solver (.start []) path = (a, ⟨sides, cs⟩) :: later := hrem
    rw [roundsFrom_succ, hstart, upTo]
    simp only [hworld]
    cases hstop : a.stops solver params ⟨sides, cs⟩ with
    | true =>
      have hresume : a.resume? solver params ⟨sides, cs⟩ = none := by
        rw [Ending.resume?, Option.isNone_iff_eq_none.mp hstop]
        rfl
      rw [hresume]
      simp [Trail.start, hstop]
    | false =>
      have htest : ((a.leaf? solver params ⟨sides, cs⟩).bind Leaf.test).isSome := by
        exact Option.isNone_eq_false_iff.mp hstop
      rw [Ending.resume?_of_test htest]
      simp only [Trail.start, List.nil_append, hstop, Bool.false_eq_true, if_false]
      cases hnext : nextPath sides with
      | none =>
        rw [hafter.none hnext]
        rfl
      | some next =>
        obtain ⟨hfits', hlater⟩ := hafter.some next hnext
        have hrest := ih hfits' (by rw [← hlater]; simpa using hn)
        rw [List.map_cons, hrest, hlater]

/-- The rounds of a search of a steady target end at the leaves of its tree, from left to right,
up to the first one at which the search stops. -/
theorem rounds_eq_upTo (hsteady : target.Steady w) :
    (rounds solver params target w).map (fun r => (r.ending, r.trail)) =
      upTo (fun leaf => leaf.1.stops solver params leaf.2)
        ((target w).remaining solver (.start []) []) :=
  roundsFrom_eq_upTo hsteady (Run.fits_nil _ _) (Run.length_remaining_le _ _)

/-- The rounds of a search of a steady target, if all have tests, end at the leaves of its tree,
from left to right. -/
theorem rounds_eq_remaining (hsteady : target.Steady w)
    (htests : ∀ r ∈ rounds solver params target w,
      ((r.ending.leaf? solver params r.trail).bind Leaf.test).isSome) :
    (rounds solver params target w).map (fun r => (r.ending, r.trail)) =
      (target w).remaining solver (.start []) [] := by
  have hupTo : (rounds solver params target w).map (fun r => (r.ending, r.trail)) = _ :=
    rounds_eq_upTo hsteady
  rw [hupTo]
  refine upTo_eq_self ?_
  rw [← hupTo]
  intro leaf hleaf
  obtain ⟨r, hr, rfl⟩ := List.mem_map.mp hleaf
  exact Option.isNone_eq_false_iff.mpr (htests r hr)

end Search

end Pathwise
