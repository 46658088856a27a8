import Pathwise.Proofs.Traversal

/-!
# Replay stays in step

A search keeps a path from one round to the next and nothing else. The next round runs the target
from its start and is told the sides on the path, one for each test that can have either outcome. So
the path means what it is meant to mean only if the run meets the same tests again, in the same
order and with the same outlook, up to the side that was turned round. Nothing in the search checks
this. It follows from the run itself: as long as all answers are the same, so are the conditions,
and then a test that has one possible outcome is answered the same as well.

* `Run.play_replayed` — a run uses up the path that it is given, and ends with as many conditions as
  there are sides.
* `Run.partAt_next` — a run along the next path makes the tests of the run before, up to the side
  that is turned round; by induction on the run, along both paths at once.
* `replay_retraces` — both for all rounds of a search.
-/

namespace Pathwise

/-! ## The tests of a run -/

/-- A test in a run: what is tested, the conditions on record at that time, and the answer. -/
structure Asked where
  test : Held
  given : List Held
  answer : Except Fault Bool

/-- Either outcome of a test can be met together with the conditions. -/
def Undecided (given : List Held) (φ : Held) : Prop :=
  ∃ p, φ.toFormula = .ok p ∧ ∀ side, Possible (given ++ [φ.outcome p side])

open Classical in
/-- The tests among those of a run that can have either outcome. -/
noncomputable def choices (asked : List Asked) : List Asked :=
  asked.filter fun a => decide (Undecided a.given a.test)

/-- All tests of a run, in order. -/
def Run.interview {α : Type} (solver : Solver) : Run α → Trail → List Asked
  | .done _, _ => []
  | .ask φ k, t =>
    ⟨φ, t.conditions, (t.decide solver φ).1⟩ ::
      (k (t.decide solver φ).1).interview solver (t.decide solver φ).2

/-- Two runs make the same tests under the same conditions and are answered alike, up to the `n`-th
test that can have either outcome. There the first is told yes and the second no. -/
def PartAt (n : Nat) (first second : List Asked) : Prop :=
  ∃ shared φ given rest rest',
    first = shared ++ ⟨φ, given, .ok true⟩ :: rest ∧
    second = shared ++ ⟨φ, given, .ok false⟩ :: rest' ∧
    Undecided given φ ∧ (choices shared).length + 1 = n

section Choices

variable {a : Asked} {asked first second : List Asked} {n : Nat}

theorem choices_cons_of_undecided (h : Undecided a.given a.test) :
    choices (a :: asked) = a :: choices asked := by
  simp [choices, h]

theorem choices_cons_of_not_undecided (h : ¬ Undecided a.given a.test) :
    choices (a :: asked) = choices asked := by
  simp [choices, h]

/-- A test that is decided does not count. -/
theorem PartAt.cons_decided (h : PartAt n first second) (ha : ¬ Undecided a.given a.test) :
    PartAt n (a :: first) (a :: second) := by
  obtain ⟨shared, φ, given, rest, rest', rfl, rfl, hφ, hn⟩ := h
  refine ⟨a :: shared, φ, given, rest, rest', rfl, rfl, hφ, ?_⟩
  rw [choices_cons_of_not_undecided ha, hn]

theorem PartAt.cons_undecided (h : PartAt n first second) (ha : Undecided a.given a.test) :
    PartAt (n + 1) (a :: first) (a :: second) := by
  obtain ⟨shared, φ, given, rest, rest', rfl, rfl, hφ, hn⟩ := h
  refine ⟨a :: shared, φ, given, rest, rest', rfl, rfl, hφ, ?_⟩
  rw [choices_cons_of_undecided ha, List.length_cons, hn]

theorem partAt_one {φ : Held} {given : List Held} (h : Undecided given φ)
    (rest rest' : List Asked) :
    PartAt 1 (⟨φ, given, .ok true⟩ :: rest) (⟨φ, given, .ok false⟩ :: rest') :=
  ⟨[], φ, given, rest, rest', rfl, rfl, h, rfl⟩

end Choices

/-! ## One test -/

section Test

variable {α : Type} {solver : Solver} {φ : Held} {k : Except Fault Bool → Run α} {t : Trail}
  {rest : List Bool}

/-- A test of which both outcomes can be met is where the trail has to choose. -/
theorem undecided_iff (hS : solver.Decides) (hPos : Possible t.conditions) :
    Undecided t.conditions φ ↔ ∃ p, Trail.outlook solver φ t.conditions = .either p := by
  obtain ⟨f, hf, hout⟩ | ⟨p, side, hp, -, hno, hout⟩ | ⟨p, hp, hpos, hout⟩ :=
    Trail.outlook_verdict hS hPos φ
  · constructor
    · rintro ⟨p, hp, -⟩
      rw [hf] at hp
      cases hp
    · rintro ⟨p, hp⟩
      rw [hout] at hp
      cases hp
  · constructor
    · rintro ⟨q, hq, hpos⟩
      obtain rfl : p = q := Except.ok.inj (hp.symm.trans hq)
      exact absurd (hpos !side) hno
    · rintro ⟨q, hq⟩
      rw [hout] at hq
      cases hq
  · exact ⟨fun _ => ⟨p, hout⟩, fun _ => ⟨p, hp, hpos⟩⟩

/-- What a test does in a run along a path, where `rest` is what is left of the path: it is answered
without a choice, whatever the path; or there is no room for another condition, and the path has
been used up; or a side is taken, the next one on the path or a new one. -/
theorem Run.Fits.decide_cases (ht : t.Replayed) (hfits : (Run.ask φ k).Fits solver t rest) :
    ((∀ p, Trail.outlook solver φ t.conditions ≠ .either p) ∧
      ∃ answer, (∀ path, Trail.decide solver φ ⟨path, t.conditions⟩ =
        (answer, ⟨path, t.conditions⟩)) ∧ (k answer).Fits solver t rest) ∨
    (∃ p, Trail.outlook solver φ t.conditions = .either p ∧ rest = [] ∧
      depthLimit ≤ t.path.length ∧ Trail.decide solver φ t = (.error .depthLimit, t)) ∨
    (∃ p side rest', Trail.outlook solver φ t.conditions = .either p ∧
      t.path.length < depthLimit ∧
      Trail.decide solver φ ⟨t.path ++ rest, t.conditions⟩ =
        (.ok side, ⟨(t.take φ p side).path ++ rest', (t.take φ p side).conditions⟩) ∧
      (k (.ok side)).Fits solver (t.take φ p side) rest') := by
  rw [Run.Fits] at hfits
  cases hout : Trail.outlook solver φ t.conditions with
  | fault f | forced side =>
    rw [hout] at hfits
    refine .inl ⟨fun p hp => (by cases hp), _, fun path => ?_, hfits⟩
    rw [Trail.decide_eq, hout]
  | either p =>
    rw [hout] at hfits
    refine .inr ?_
    cases rest with
    | nil =>
      have hd := Run.decide_of_either_nil hout ht
      by_cases hfull : depthLimit ≤ t.path.length
      · exact .inl ⟨p, rfl, rfl, hfull, by rw [hd, if_pos hfull]⟩
      · refine .inr ⟨p, true, [], rfl, Nat.not_le.mp hfull, ?_, Run.fits_nil _ _⟩
        rw [List.append_nil, List.append_nil, hd, if_neg hfull]
    | cons side rest =>
      exact .inr ⟨p, side, rest, rfl, hfits.1, Run.decide_of_either_cons hout ht side rest,
        hfits.2⟩

end Test

/-! ## A run along two paths -/

namespace Run

variable {α : Type} {solver : Solver}

/-- A run along a path ends with a condition for every side, the sides that it was given
included. -/
theorem play_replayed (r : Run α) {t : Trail} {rest : List Bool} (ht : t.Replayed)
    (hfits : r.Fits solver t rest) :
    (r.play solver ⟨t.path ++ rest, t.conditions⟩).2.Replayed := by
  induction r generalizing t rest with
  | done a =>
    obtain rfl : rest = [] := hfits
    rw [List.append_nil]
    exact ht
  | ask φ k ih =>
    rw [play]
    obtain ⟨-, answer, hd, hfits'⟩ | ⟨p, -, rfl, -, hd⟩ | ⟨p, side, rest', -, -, hd, hfits'⟩ :=
      hfits.decide_cases ht
    · rw [hd]
      exact ih answer ht hfits'
    · rw [List.append_nil, hd]
      simpa using ih (.error .depthLimit) ht (fits_nil _ _)
    · rw [hd]
      exact ih (.ok side) (ht.take φ p side) hfits'

/-- The path at the end of a run goes on from the one at its start. -/
theorem exists_play_path (solver : Solver) (r : Run α) (t : Trail) :
    ∃ sides, (r.play solver t).2.path = t.path ++ sides := by
  obtain ⟨n, hn⟩ := (plays_play solver r t).reaches.path_eq
  exact ⟨_, hn⟩

/-- A run along the path after the one on which a run has ended makes the same tests as that run,
up to the side that is turned round. -/
theorem partAt_next (hS : solver.Decides) (r : Run α) {t : Trail} {rest : List Bool}
    (ht : t.Replayed) (hPos : Possible t.conditions) (hle : t.path.length ≤ depthLimit)
    (hfits : r.Fits solver t rest) {sides next : List Bool}
    (hend : (r.play solver ⟨t.path ++ rest, t.conditions⟩).2.path = t.path ++ sides)
    (hnext : nextPath sides = some next) :
    PartAt next.length (r.interview solver ⟨t.path ++ rest, t.conditions⟩)
      (r.interview solver ⟨t.path ++ next, t.conditions⟩) := by
  induction r generalizing t rest sides next with
  | done a =>
    -- the run ends on the path it was given, and that has no side left
    obtain rfl : rest = [] := hfits
    obtain rfl : [] = sides := List.append_cancel_left hend
    cases hnext
  | ask φ k ih =>
    rw [play] at hend
    obtain ⟨hno, answer, hd, hfits'⟩ | ⟨p, -, rfl, hfull, hd⟩ |
      ⟨p, side, rest', hout, hlt, hd, hfits'⟩ := hfits.decide_cases ht
    · -- a decided test is answered alike on both paths and leaves both as they are
      have hdecided : ¬ Undecided t.conditions φ := by
        rw [undecided_iff hS hPos]
        rintro ⟨p, hp⟩
        exact hno p hp
      rw [hd] at hend
      simp only [interview, hd]
      exact (ih answer ht hPos hle hfits' hend hnext).cons_decided hdecided
    · -- without room for another condition the path stays as it is, and there is no side to turn
      rw [List.append_nil, hd] at hend
      have hlen := (plays_play solver (k (.error .depthLimit)) t).reaches.length_le hle
      rw [hend, List.length_append] at hlen
      obtain rfl : sides = [] := List.eq_nil_of_length_eq_zero (by omega)
      cases hnext
    · have hundecided : Undecided t.conditions φ := (undecided_iff hS hPos).mpr ⟨p, hout⟩
      have hpos : Possible (t.take φ p side).conditions := by
        obtain ⟨q, hq, hboth⟩ := hundecided
        obtain rfl : p = q := Except.ok.inj ((Trail.toFormula_of_either hout).symm.trans hq)
        exact hboth side
      have hle' : (t.take φ p side).path.length ≤ depthLimit := by
        rw [Trail.take, List.length_append]
        exact hlt
      -- the side taken is the first one that is new on the path at the end
      rw [hd] at hend
      obtain ⟨more, hmore⟩ := exists_play_path solver (k (.ok side))
        ⟨(t.take φ p side).path ++ rest', (t.take φ p side).conditions⟩
      rw [List.append_assoc] at hmore
      obtain rfl : side :: (rest' ++ more) = sides := by
        have heq := hmore.symm.trans hend
        rw [Trail.take, List.append_assoc] at heq
        exact List.append_cancel_left heq
      have hturned := decide_of_either_cons hout ht
      rw [nextPath] at hnext
      cases hlater : nextPath (rest' ++ more) with
      | some later =>
        -- the side to turn comes later, and this one is taken again
        rw [hlater] at hnext
        obtain rfl := Option.some.inj hnext
        have hrest := ih (.ok side) (ht.take φ p side) hpos hle' hfits' hmore hlater
        simp only [interview, hd, hturned side later]
        exact hrest.cons_undecided hundecided
      | none =>
        -- all later sides are false, so this is the one to turn
        rw [hlater] at hnext
        cases side with
        | false => cases hnext
        | true =>
          obtain rfl := Option.some.inj hnext
          simp only [interview, hd, hturned false []]
          exact partAt_one hundecided _ _

end Run

/-! ## The rounds of a search -/

section Search

variable {ω : Type} {solver : Solver} {params : List String} {target : Target ω} {w : ω}

/-- The path of the first round. -/
theorem path_of_roundsFrom_zero {n : Nat} {path : List Bool} {r : Round ω}
    (h : (roundsFrom solver params target n path w)[0]? = some r) : r.path = path := by
  cases n with
  | zero => cases h
  | succ n =>
    rw [roundsFrom_succ] at h
    obtain rfl := Option.some.inj h
    rfl

/-- Each later round has the path that comes next after the round before. -/
theorem path_of_roundsFrom_succ {n i : Nat} {path : List Bool} {r : Round ω}
    (h : (roundsFrom solver params target n path w)[i + 1]? = some r) :
    ∃ previous, (roundsFrom solver params target n path w)[i]? = some previous ∧
      nextPath previous.trail.path = some r.path := by
  induction n generalizing i path w with
  | zero => cases h
  | succ n ih =>
    rw [roundsFrom_succ] at h ⊢
    cases hresume : (Round.start solver target path w).ending.resume? solver params
        (Round.start solver target path w).trail with
    | none =>
      rw [hresume] at h
      cases h
    | some next =>
      rw [hresume] at h
      rw [List.getElem?_cons_succ] at h
      cases i with
      | zero =>
        rw [path_of_roundsFrom_zero h]
        exact ⟨_, rfl, nextPath_of_resume? hresume⟩
      | succ i => exact ih h

/-- A steady target meets a choice for every side on the path of a round. -/
theorem fits_of_mem_roundsFrom (hsteady : target.Steady w) {n : Nat} {path : List Bool}
    (hfits : (target w).Fits solver (.start []) path) {r : Round ω}
    (hr : r ∈ roundsFrom solver params target n path w) :
    (target w).Fits solver (.start []) r.path := by
  induction n generalizing path with
  | zero => cases hr
  | succ n ih =>
    rw [roundsFrom_succ, List.mem_cons] at hr
    rcases hr with rfl | hr
    · exact hfits
    · have hworld : (Round.start solver target path w).ending.world = w :=
        Run.Ensures.play hsteady solver (.start path)
      rw [hworld] at hr
      cases hresume : (Round.start solver target path w).ending.resume? solver params
          (Round.start solver target path w).trail with
      | none =>
        rw [hresume] at hr
        cases hr
      | some next =>
        rw [hresume] at hr
        obtain ⟨a, sides, cs, later, -, hplay, hafter⟩ :=
          Run.remaining_spec _ Trail.replayed_start hfits
        have hpath : (Round.start solver target path w).trail.path = sides := by
          exact congrArg (fun out => out.2.path) hplay
        refine ih (hafter.some next ?_).1 hr
        rw [← hpath]
        exact nextPath_of_resume? hresume

/--
**Replay stays in step.** Search a target that leaves its world alone, with a solver that decides
satisfiability. However a round ends, its trail has as many conditions as sides. A round that starts
with a path of `k > 0` sides comes after another one, and makes the same tests under the same
conditions with the same answers, whether they were forced or chosen, up to the `k`-th test that can
have either outcome. That one is the same test again; the round before was told yes, and this one is
told no.
-/
theorem replay_retraces (hS : solver.Decides) (hsteady : target.Steady w) (params : List String) :
    (∀ r ∈ rounds solver params target w, r.trail.path.length = r.trail.conditions.length) ∧
    ∀ (i : Nat) (r : Round ω), (rounds solver params target w)[i]? = some r →
      0 < r.path.length →
      ∃ j previous, i = j + 1 ∧ (rounds solver params target w)[j]? = some previous ∧
        PartAt r.path.length
          ((target previous.world).interview solver (.start previous.path))
          ((target r.world).interview solver (.start r.path)) := by
  have hfits : ∀ r ∈ rounds solver params target w,
      (target w).Fits solver (.start []) r.path := by
    intro r hr
    exact fits_of_mem_roundsFrom hsteady (Run.fits_nil _ _) hr
  have hplay : ∀ r ∈ rounds solver params target w,
      r.trail = ((target w).play solver (.start r.path)).2 := by
    intro r hr
    rw [eq_start_of_mem_roundsFrom hr, world_of_mem_roundsFrom hsteady hr]
    rfl
  constructor
  · intro r hr
    rw [hplay r hr]
    exact (target w).play_replayed Trail.replayed_start (hfits r hr)
  · intro i r hi hpos
    cases i with
    | zero =>
      -- the first round starts without a path
      rw [path_of_roundsFrom_zero hi] at hpos
      cases hpos
    | succ j =>
      obtain ⟨previous, hj, hnext⟩ := path_of_roundsFrom_succ hi
      have hprevious := List.mem_of_getElem? hj
      refine ⟨j, previous, rfl, hj, ?_⟩
      rw [world_of_mem_roundsFrom hsteady hprevious,
        world_of_mem_roundsFrom hsteady (List.mem_of_getElem? hi)]
      refine Run.partAt_next hS (target w) Trail.replayed_start possible_nil
        (Nat.zero_le depthLimit) (hfits previous hprevious) ?_ hnext
      rw [hplay previous hprevious]
      rfl

end Search

/-! ## A sample -/

namespace Sample

open Pathwise.Positive (above valued decide_first decide_second)

/-- Two choices with a decided test between them. The decided test leads to a fault that is caught,
and after the second choice a fault ends the run. -/
def landings : Program := moduleOf [
  define 1 "f" ["x"] [
    (2, .branch (.compare (.order .gt) (.name "x") (num 0))
      (.ofList [
        (3, .attempt
          (.ofList [(4, .branch (.compare (.order .gt) (.name "x") (.unary .neg (num 1)))
            (.ofList [(5, .raise "ValueError" none)])
            .done)])
          "ValueError" .done),
        (7, .branch (.compare (.order .gt) (.name "x") (num 5))
          (.ofList [(8, .raise "ValueError" (some "A"))])
          .done)])
      .done)]]

abbrev landingsModule : Module := loaded landings ["f"]

abbrev landingsTarget : Target Memory := landingsModule.target 0 [.unknown "x"] []

/-- The tests of the sample up to the first end. -/
theorem landings_asks : ∃ k₀ k₁ k₂ e,
    landingsTarget landingsModule.memory = .ask (.term (above 0)) k₀ ∧
    k₀ (.ok true) = .ask (.term (above (-1))) k₁ ∧
    k₁ (.ok true) = .ask (.term (above 5)) k₂ ∧
    k₂ (.ok true) = .done e ∧ e.fault = some (.raised "ValueError" (some "A")) :=
  ⟨_, _, _, _, rfl, rfl, rfl, rfl, rfl⟩

theorem decide_third :
    Trail.decide Solver.ideal (.term (above 5)) ⟨[true], [.term (above 0)]⟩ =
      (.ok true, ⟨[true, true], [.term (above 0), .term (above 5)]⟩) := by
  have hout : Trail.outlook Solver.ideal (.term (above 5)) [.term (above 0)] =
      .either (above 5) :=
    Trail.outlook_of_possible Solver.ideal_correct rfl ⟨valued 6, by decide⟩ ⟨valued 1, by decide⟩
  rw [Trail.decide_eq, hout]
  rfl

/-- The first round of the sample takes both true sides and ends with a fault. -/
theorem landings_first_round :
    let r := Round.start Solver.ideal landingsTarget [] landingsModule.memory
    r.ending.fault = some (.raised "ValueError" (some "A")) ∧
      r.trail = ⟨[true, true], [.term (above 0), .term (above 5)]⟩ := by
  obtain ⟨k₀, k₁, k₂, e, hask, h₀, h₁, h₂, he⟩ := landings_asks
  simp only [Round.start, hask, Run.play, decide_first, h₀, decide_second, h₁, decide_third, h₂, he,
    and_self]

/-- The search goes on from there along the other side of the second choice. -/
theorem landings_resume {e : Ending Memory} (he : e.escapes = false) :
    e.resume? Solver.ideal ["x"] ⟨[true, true], [.term (above 0), .term (above 5)]⟩ =
      some [true, false] := by
  obtain ⟨leaf, hleaf, -⟩ := Solver.ideal_correct.exists_leaf ["x"]
    (t := ⟨[true, true], [.term (above 0), .term (above 5)]⟩) ⟨valued 6, by decide⟩
  obtain ⟨test, htest⟩ := Solver.ideal_frugal.exists_test hleaf (by
    simp only [List.mem_cons, List.not_mem_nil, or_false, forall_eq_or_imp, forall_eq]
    constructor
    all_goals
      rintro p ⟨rfl⟩
      exact ⟨rfl, by simp [above, Term.unknowns]⟩)
  refine (Ending.resume?_of_test ?_).trans rfl
  rw [Ending.leaf?_of_not_escapes he, hleaf, Option.bind_some, htest]
  rfl

/-- The second round of the sample retraces the first one up to its second choice. -/
theorem landings_retraced :
    Module.load .standard landings = .ok landingsModule ∧ Solver.ideal.Decides ∧
    landingsTarget.Steady landingsModule.memory ∧
    ∃ first second,
      (rounds Solver.ideal ["x"] landingsTarget landingsModule.memory)[0]? = some first ∧
      first.ending.fault = some (.raised "ValueError" (some "A")) ∧
      first.trail.path.length = first.trail.conditions.length ∧
      (rounds Solver.ideal ["x"] landingsTarget landingsModule.memory)[1]? = some second ∧
      second.path = [true, false] ∧
      PartAt 2 ((landingsTarget first.world).interview Solver.ideal (.start first.path))
        ((landingsTarget second.world).interview Solver.ideal (.start second.path)) := by
  have hS : Solver.ideal.Decides := Solver.ideal_correct.decides
  have hsteady : landingsTarget.Steady landingsModule.memory :=
    Module.steady_of_globalFree rfl 0 [.unknown "x"] []
  obtain ⟨hfault, htrail⟩ := landings_first_round
  have hstays : (Round.start Solver.ideal landingsTarget [] landingsModule.memory).ending.escapes =
      false := by
    rw [Ending.escapes, hfault]
    decide
  obtain ⟨second, hsecond, hpath⟩ : ∃ second,
      (rounds Solver.ideal ["x"] landingsTarget landingsModule.memory)[1]? = some second ∧
        second.path = [true, false] := by
    show ∃ second, (roundsFrom Solver.ideal ["x"] landingsTarget (32766 + 1 + 1) []
      landingsModule.memory)[1]? = some second ∧ _
    rw [roundsFrom_succ, htrail, landings_resume hstays]
    exact ⟨_, rfl, rfl⟩
  obtain ⟨hlengths, hretraces⟩ := replay_retraces hS hsteady ["x"]
  obtain ⟨j, first, hj, hfirst, hpart⟩ := hretraces 1 second hsecond (by rw [hpath]; decide)
  obtain rfl : 0 = j := by omega
  rw [hpath] at hpart
  refine ⟨rfl, hS, hsteady, first, second, hfirst, ?_,
    hlengths first (List.mem_of_getElem? hfirst), hsecond, hpath, ?_⟩
  · obtain rfl := Option.some.inj hfirst
    exact hfault
  · rw [hpath]
    exact hpart

end Sample

end Pathwise
