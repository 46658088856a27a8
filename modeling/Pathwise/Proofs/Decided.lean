import Pathwise.Proofs.Traversal

/-!
# Tests that are decided already

A test whose outcome follows from what a run has been told before asks nothing new. It is answered
as it must be, on a first visit as on a replay; it uses up no side of the path and adds no
condition. So it can be inserted anywhere, any number of times, and a search does not notice.

`Padded` relates a run to one with such tests inserted. It follows a run only where tests can lead
(`Comes`), so that an inserted test has to be decided where it is met and nowhere else: after a
fault of a test that was caught, say, by the conditions that led to the fault.

What a run has been told is more than its conditions, since answers without choice are not
recorded. `Trail.Stands` ties the two together: they are true under the same valuations.

* `Trail.Stands.decide` — what a test leads to is one of the things that can come of it.
* `Trail.Stands.decide_settled` — a decided test leaves the trail alone.
* `Padded.play` — a run ends as the one with tests inserted, with the same faults on the way.
* `decided_tests_free` — so do their searches.
-/

namespace Pathwise

/-! ## What can come of a test -/

/-- A formula has the given value wherever all that was told is true. -/
def Settles (told : List Held) (p : Formula) (side : Bool) : Prop :=
  ∀ ρ : Valuation, ρ.meets told = true → p.eval ρ = side

/-- What can come of a test, with `n` conditions on record and `told` the outcomes of all tests so
far, on record or not: the answer, and the two after it. -/
inductive Comes (n : Nat) (told : List Held) (φ : Held) :
    Except Fault Bool → Nat → List Held → Prop where
  | fault {f : Fault} (hf : φ.toFormula = .error f) : Comes n told φ (.error f) n told
  /-- One outcome follows from what was told; it is not recorded. -/
  | forced {p : Formula} {side : Bool} (hp : φ.toFormula = .ok p) (h : Settles told p side) :
      Comes n told φ (.ok side) n (told ++ [φ.outcome p side])
  /-- Either outcome is possible, and there is room for it on record. -/
  | either {p : Formula} (hp : φ.toFormula = .ok p)
      (hpos : ∀ side, Possible (told ++ [φ.outcome p side])) (hlt : n < depthLimit)
      (side : Bool) : Comes n told φ (.ok side) (n + 1) (told ++ [φ.outcome p side])
  /-- Either outcome is possible, and there is no room left. -/
  | full {p : Formula} (hp : φ.toFormula = .ok p)
      (hpos : ∀ side, Possible (told ++ [φ.outcome p side])) (hfull : n = depthLimit) :
      Comes n told φ (.error .depthLimit) n told

/-- The second run is the first one with tests inserted, each of a formula whose outcome follows
from what was told before. The answer to an inserted test is discarded: the second run goes on from
it as the first one does. -/
inductive Padded {α : Type} : Nat → List Held → Run α → Run α → Prop where
  | done (n : Nat) (told : List Held) (a : α) : Padded n told (.done a) (.done a)
  | ask {n : Nat} {told : List Held} {φ : Held} {k k' : Except Fault Bool → Run α}
      (rest : ∀ answer n' told', Comes n told φ answer n' told' →
        Padded n' told' (k answer) (k' answer)) :
      Padded n told (.ask φ k) (.ask φ k')
  | insert {n : Nat} {told : List Held} {φ : Held} {p : Formula} {side : Bool} {r : Run α}
      {k' : Except Fault Bool → Run α} (hp : φ.toFormula = .ok p) (h : Settles told p side)
      (rest : Padded n (told ++ [φ.outcome p side]) r (k' (.ok side))) :
      Padded n told r (.ask φ k')

theorem Valuation.meets_outcome {φ : Held} {p : Formula} (hp : φ.toFormula = .ok p)
    (cs : List Held) (ρ : Valuation) (side : Bool) :
    ρ.meets (cs ++ [φ.outcome p side]) = (ρ.meets cs && p.eval ρ == side) :=
  Trail.meets_record hp ⟨[], cs⟩ ρ side

namespace Settles

variable {told : List Held} {φ : Held} {p : Formula} {side : Bool}

/-- An outcome that cannot be met together with what was told leaves only the other. -/
theorem of_not_possible (hp : φ.toFormula = .ok p)
    (h : ¬ Possible (told ++ [φ.outcome p !side])) : Settles told p side := by
  intro ρ hρ
  by_contra hne
  refine h ⟨ρ, ?_⟩
  rw [Valuation.meets_outcome hp, hρ]
  cases side <;> simpa using hne

/-- No other outcome can be met together with what was told. -/
theorem eq_of_possible (h : Settles told p side) (hp : φ.toFormula = .ok p) {b : Bool}
    (hpos : Possible (told ++ [φ.outcome p b])) : b = side := by
  obtain ⟨ρ, hρ⟩ := hpos
  rw [Valuation.meets_outcome hp, Bool.and_eq_true, beq_iff_eq] at hρ
  exact hρ.2.symm.trans (h ρ hρ.1)

/-- Whatever was answered before is settled, on record or not. -/
theorem of_mem (hp : φ.toFormula = .ok p) (h : φ.outcome p side ∈ told) :
    Settles told p side := by
  intro ρ hρ
  rw [Valuation.meets, List.all_eq_true] at hρ
  have htrue : ρ.meets ([] ++ [φ.outcome p side]) = true := by
    rw [List.nil_append, Valuation.meets_singleton]
    exact hρ _ h
  rw [Valuation.meets_outcome hp, Bool.and_eq_true, beq_iff_eq] at htrue
  exact htrue.2

/-- Being told what is settled excludes nothing. -/
theorem meets_append (h : Settles told p side) (hp : φ.toFormula = .ok p) (ρ : Valuation) :
    ρ.meets (told ++ [φ.outcome p side]) = ρ.meets told := by
  rw [Valuation.meets_outcome hp]
  cases hρ : ρ.meets told with
  | false => rfl
  | true => simp [h ρ hρ]

end Settles

section Inversion

variable {α : Type} {n : Nat} {told : List Held} {φ : Held} {p : Formula} {side : Bool}
  {k k' : Except Fault Bool → Run α}

theorem Padded.done_of_eq {r r' : Run α} {a : α} (h : r = .done a) (h' : r' = .done a) :
    Padded n told r r' := by
  rw [h, h']
  exact .done n told a

/-- A test that both runs make, whose outcome follows from what was told. -/
theorem Padded.ask_of_settled (hPos : Possible told) (hp : φ.toFormula = .ok p)
    (hs : Settles told p side)
    (rest : Padded n (told ++ [φ.outcome p side]) (k (.ok side)) (k' (.ok side))) :
    Padded n told (.ask φ k) (.ask φ k') := by
  refine .ask fun answer n' told' hcomes => ?_
  have hboth : ¬ ∀ b, Possible (told ++ [φ.outcome p b]) := by
    intro hpos
    exact absurd (hs.eq_of_possible hp (hpos !side)) (by simp)
  cases hcomes with
  | fault hf =>
    rw [hp] at hf
    cases hf
  | forced hq hs' =>
    obtain rfl := Except.ok.inj (hp.symm.trans hq)
    obtain ⟨ρ, hρ⟩ := hPos
    obtain rfl := (hs' ρ hρ).symm.trans (hs ρ hρ)
    exact rest
  | either hq hpos =>
    obtain rfl := Except.ok.inj (hp.symm.trans hq)
    exact absurd hpos hboth
  | full hq hpos =>
    obtain rfl := Except.ok.inj (hp.symm.trans hq)
    exact absurd hpos hboth

/-- A test that both runs make and that can have either outcome, with room on record. -/
theorem Padded.ask_of_open (hp : φ.toFormula = .ok p)
    (hpos : ∀ side, Possible (told ++ [φ.outcome p side])) (hlt : n < depthLimit)
    (rest : ∀ side, Padded (n + 1) (told ++ [φ.outcome p side]) (k (.ok side)) (k' (.ok side))) :
    Padded n told (.ask φ k) (.ask φ k') := by
  refine .ask fun answer n' told' hcomes => ?_
  cases hcomes with
  | fault hf =>
    rw [hp] at hf
    cases hf
  | @forced _ side hq hs =>
    obtain rfl := Except.ok.inj (hp.symm.trans hq)
    exact absurd (hs.eq_of_possible hp (hpos !side)) (by simp)
  | either hq _ _ side =>
    obtain rfl := Except.ok.inj (hp.symm.trans hq)
    exact rest side
  | full _ _ hfull => omega

end Inversion

/-! ## One test -/

namespace Trail

/-- The trail of a run that has been told the outcomes of some tests and has `n` of them on
record: the conditions say neither more nor less than what was told. -/
structure Stands (t : Trail) (n : Nat) (told : List Held) : Prop where
  sound : ∃ tests, Sound tests t
  count : t.conditions.length = n
  same : ∀ ρ : Valuation, ρ.meets t.conditions = ρ.meets told

variable {solver : Solver} {t : Trail} {n : Nat} {told : List Held} {φ : Held} {p : Formula}
  {side : Bool}

theorem stands_start {path : List Bool} (hle : path.length ≤ depthLimit) :
    (start path).Stands 0 [] :=
  ⟨⟨[], Sound.start hle⟩, rfl, fun _ => rfl⟩

namespace Stands

theorem possible_append (h : t.Stands n told) (hs : List Held) :
    Possible (t.conditions ++ hs) ↔ Possible (told ++ hs) := by
  unfold Possible
  simp only [Valuation.meets_append, h.same]

/-- The trail stays as it is when something is told that was settled. -/
theorem tell (h : t.Stands n told) (hp : φ.toFormula = .ok p) (hs : Settles told p side) :
    t.Stands n (told ++ [φ.outcome p side]) where
  sound := h.sound
  count := h.count
  same ρ := (h.same ρ).trans (hs.meets_append hp ρ).symm

/-- One more condition, on a sound trail. -/
theorem record (h : t.Stands n told) {path : List Bool}
    (hsound : ∃ tests, Sound tests ⟨path, t.record φ p side⟩) :
    Stands ⟨path, t.record φ p side⟩ (n + 1) (told ++ [φ.outcome p side]) where
  sound := hsound
  count := by simp [Trail.record, h.count]
  same ρ := by rw [record_eq, Valuation.meets_append, Valuation.meets_append, h.same]

/-- A settled test is answered as it must be and leaves the trail alone. -/
theorem decide_settled (h : t.Stands n told) (hS : solver.Decides) (hp : φ.toFormula = .ok p)
    (hs : Settles told p side) : t.decide solver φ = (.ok side, t) := by
  obtain ⟨tests, hsound⟩ := h.sound
  -- an outcome that can be met is the settled one
  have hside : ∀ b, Possible (t.conditions ++ [φ.outcome p b]) → b = side :=
    fun b hpos => hs.eq_of_possible hp ((h.possible_append _).mp hpos)
  obtain ⟨f, hf, -⟩ | ⟨q, b, hq, hpos, -, hout⟩ | ⟨q, hq, hpos, -⟩ :=
    outlook_verdict hS hsound.possible φ
  · rw [hp] at hf
    cases hf
  · obtain rfl : p = q := Except.ok.inj (hp.symm.trans hq)
    rw [decide_eq, hout, hside b hpos]
  · obtain rfl : p = q := Except.ok.inj (hp.symm.trans hq)
    have htrue := hside true (hpos true)
    rw [← hside false (hpos false)] at htrue
    cases htrue

/-- A test leads to one of the things that can come of it. -/
theorem decide (h : t.Stands n told) (hS : solver.Decides) (φ : Held) :
    ∃ n' told', Comes n told φ (t.decide solver φ).1 n' told' ∧
      (t.decide solver φ).2.Stands n' told' := by
  obtain ⟨tests, hsound⟩ := h.sound
  have hnext : ∃ tests, Sound tests (t.decide solver φ).2 := ⟨_, hsound.decide hS φ⟩
  obtain ⟨f, hf, hout⟩ | ⟨p, side, hp, -, hno, hout⟩ | ⟨p, hp, hpos, hout⟩ :=
    outlook_verdict hS hsound.possible φ
  all_goals
    rw [decide_eq, hout] at hnext ⊢
  · exact ⟨n, told, .fault hf, h⟩
  · rw [h.possible_append] at hno
    have hs := Settles.of_not_possible hp hno
    exact ⟨n, _, .forced hp hs, h.tell hp hs⟩
  · have hboth : ∀ side, Possible (told ++ [φ.outcome p side]) :=
      fun side => (h.possible_append _).mp (hpos side)
    have hcount := h.count
    have hbounded : t.path.length ≤ depthLimit := hsound.bounded
    simp only [branch] at hnext ⊢
    -- while the path lasts there is room, since it is no longer than the limit
    cases hside : t.path[t.conditions.length]? with
    | some side =>
      rw [hside] at hnext
      have hlt := (List.getElem?_eq_some_iff.mp hside).1
      exact ⟨n + 1, _, .either hp hboth (by omega) side, h.record hnext⟩
    | none =>
      rw [hside] at hnext
      have hlen := hsound.length_eq hside
      by_cases hfull : depthLimit ≤ t.path.length
      · simp only [if_pos hfull] at hnext ⊢
        exact ⟨n, told, .full hp hboth (by omega), h⟩
      · simp only [if_neg hfull] at hnext ⊢
        exact ⟨n + 1, _, .either hp hboth (by omega) true, h.record hnext⟩

end Stands

end Trail

/-! ## A whole run -/

/-- The tests of a run that end in a fault, with the faults, in order. -/
def Run.faults {α : Type} (solver : Solver) (r : Run α) (t : Trail) :
    List (Held × Except Fault Bool) :=
  (r.transcript solver t).filter fun e => !e.2.isOk

theorem Run.faults_of_ok {α : Type} {solver : Solver} {φ : Held} {k : Except Fault Bool → Run α}
    {t : Trail} {side : Bool} (h : t.decide solver φ = (.ok side, t)) :
    (Run.ask φ k).faults solver t = (k (.ok side)).faults solver t := by
  rw [faults, transcript, h]
  exact List.filter_cons_of_neg Bool.false_ne_true

/-- A run ends as the one with tests inserted, on the same trail, and the same tests of it end in
faults. -/
theorem Padded.play {α : Type} {solver : Solver} (hS : solver.Decides) {n : Nat}
    {told : List Held} {r r' : Run α} (h : Padded n told r r') {t : Trail}
    (ht : t.Stands n told) :
    r'.play solver t = r.play solver t ∧ r'.faults solver t = r.faults solver t := by
  -- induction on how the tests are inserted, for every trail
  induction h generalizing t with
  | done n told a => exact ⟨rfl, rfl⟩
  | @ask n told φ k k' _ ih =>
    obtain ⟨n', told', hcomes, hnext⟩ := ht.decide hS φ
    obtain ⟨hplay, hfaults⟩ := ih _ _ _ hcomes hnext
    refine ⟨hplay, ?_⟩
    unfold Run.faults at hfaults ⊢
    rw [Run.transcript, Run.transcript, List.filter_cons, List.filter_cons, hfaults]
  | insert hp hs _ ih =>
    have hd := ht.decide_settled hS hp hs
    rw [Run.play, hd, Run.faults_of_ok hd]
    exact ih (ht.tell hp hs)

/-! ## A whole search -/

section Search

variable {ω : Type} {solver : Solver} {params : List String} {target target' : Target ω} {w : ω}

/-- The search that follows a run depends on what comes after the next path only. -/
theorem conclude_congr {e : Ending ω} {t : Trail} {resume resume' : List Bool → Exploration ω}
    (h : ∀ next, nextPath t.path = some next → resume next = resume' next) :
    conclude solver params e t resume = conclude solver params e t resume' := by
  simp only [conclude, proceed]
  split
  · rfl
  · split
    · rfl
    · rfl
    · split
      · rfl
      · split
        · rfl
        · rename_i next hnext
          rw [h next hnext]

/-- Targets whose rounds are the same along every path are searched alike, the one in the world in
which the other stays. -/
theorem search_congr (params : List String) (hsteady : target.Steady w)
    (h : ∀ path : List Bool, path.length ≤ depthLimit →
      Round.start solver target' path w = Round.start solver target path w)
    (n : Nat) (path : List Bool) (hle : path.length ≤ depthLimit) :
    roundsFrom solver params target' n path w = roundsFrom solver params target n path w ∧
    exploreFrom solver params target' n path w = exploreFrom solver params target n path w := by
  induction n generalizing path with
  | zero => exact ⟨rfl, rfl⟩
  | succ n ih =>
    have hworld : (Round.start solver target path w).ending.world = w :=
      Run.Ensures.play hsteady solver (.start path)
    have hlen := ((Round.start_plays solver target path w).path_spec hle).2.1
    rw [roundsFrom_succ, roundsFrom_succ, exploreFrom_succ, exploreFrom_succ, h path hle, hworld]
    constructor
    · cases hnext : (Round.start solver target path w).ending.resume? solver params
          (Round.start solver target path w).trail with
      | none => rfl
      | some next =>
        have hle' := (nextPath_length_le (nextPath_of_resume? hnext)).trans hlen
        exact congrArg _ (ih next hle').1
    · refine conclude_congr fun next hnext => ?_
      exact (ih next ((nextPath_length_le hnext).trans hlen)).2

/--
**Decided tests are free.** Let a target leave its world alone, and let another one be the same with
tests inserted, any number and anywhere, each of a formula whose outcome follows from the conditions
where it is met. With a solver that decides satisfiability the searches of the two go through the
same rounds: the same paths, the same conditions, the same endings. In each round the same tests end
in faults, and so the limit on the depth is reached in the same rounds. The searches report the
same, tests included.
-/
theorem decided_tests_free (hS : solver.Decides) (hsteady : target.Steady w)
    (hpadded : Padded 0 [] (target w) (target' w)) (params : List String) :
    rounds solver params target' w = rounds solver params target w ∧
    (∀ r ∈ rounds solver params target w,
      (target' r.world).faults solver (.start r.path) =
        (target r.world).faults solver (.start r.path)) ∧
    explore solver params target' w = explore solver params target w := by
  have hstart : ∀ path : List Bool, path.length ≤ depthLimit →
      Round.start solver target' path w = Round.start solver target path w := by
    intro path hle
    rw [Round.start, Round.start, (hpadded.play hS (Trail.stands_start hle)).1]
  obtain ⟨hrounds, hexplore⟩ := search_congr params hsteady hstart (Nat.pow 2 depthLimit) []
    (Nat.zero_le depthLimit)
  refine ⟨hrounds, fun r hr => ?_, hexplore⟩
  have hle : r.path.length ≤ depthLimit :=
    (roundsFrom_calls _ [] w).path_length_le (Nat.zero_le depthLimit) r hr
  rw [world_of_mem_roundsFrom hsteady hr]
  exact (hpadded.play hS (Trail.stands_start hle)).2

end Search

/-! ## Samples -/

namespace Sample

/-- A guard within a guard: the second can only be true. -/
def guards : Program := moduleOf [
  define 1 "f" ["x"] [
    (2, .branch (.compare (.order .gt) (.name "x") (num 0))
      (.ofList [(3, .branch (.compare (.order .gt) (.name "x") (.unary .neg (num 1)))
        (.ofList [(4, .print "A")])
        .done)])
      .done)]]

/-- The guards with tests inserted: one that says nothing, and the second guard once more, whose
answer is not on record. -/
def paddedGuards : Program := moduleOf [
  define 1 "f" ["x"] [
    (2, .branch (.compare .eq (.name "x") (.name "x")) .done .done),
    (3, .branch (.compare (.order .gt) (.name "x") (num 0))
      (.ofList [(4, .branch (.compare (.order .gt) (.name "x") (.unary .neg (num 1)))
        (.ofList [
          (5, .branch (.compare (.order .gt) (.name "x") (.unary .neg (num 1))) .done .done),
          (6, .print "A")])
        .done)])
      .done)]]

abbrev guardsModule : Module := loaded guards ["f"]

abbrev paddedGuardsModule : Module := loaded paddedGuards ["f"]

open Pathwise.Positive (above valued eval_above)

/-- A test that says nothing. -/
def selfEqual : Formula := .eq (.var .int "x") (.var .int "x")

theorem selfEqual_settled (told : List Held) : Settles told selfEqual true := by
  intro ρ _
  exact (Kind.same_iff .int _ _).mpr rfl

/-- The second guard follows from the first. -/
theorem above_settled {told : List Held} (h : Settles told (above 0) true) :
    Settles told (above (-1)) true := by
  intro ρ hρ
  have hpositive := h ρ hρ
  rw [eval_above, decide_eq_true_eq] at hpositive ⊢
  omega

theorem guards_padded :
    Padded 0 [] (guardsModule.target 0 [.unknown "x"] [] guardsModule.memory)
      (paddedGuardsModule.target 0 [.unknown "x"] [] guardsModule.memory) := by
  have hanswered : ∀ {told : List Held} {c : Held}, c ∈ told ++ [c] := by simp
  refine .insert (φ := .term selfEqual) rfl (selfEqual_settled []) ?_
  refine .ask_of_open (φ := .term (above 0)) rfl ?_ (by decide) ?_
  · rintro (_ | _)
    · exact ⟨valued 0, by decide⟩
    · exact ⟨valued 1, by decide⟩
  rintro (_ | _)
  · exact .done_of_eq (a := ⟨guardsModule.memory, [], none⟩) rfl rfl
  · refine .ask_of_settled (φ := .term (above (-1))) ⟨valued 1, by decide⟩ rfl
      (above_settled (.of_mem rfl hanswered)) ?_
    refine .insert (φ := .term (above (-1))) rfl (.of_mem rfl hanswered) ?_
    exact .done_of_eq (a := ⟨guardsModule.memory, ["A"], none⟩) rfl rfl

/-- The guards are explored alike with the tests inserted and without them. -/
theorem guards_explored_alike :
    Module.load .standard guards = .ok guardsModule ∧
    Module.load .standard paddedGuards = .ok paddedGuardsModule ∧
    Solver.ideal.Decides ∧
    (guardsModule.target 0 [.unknown "x"] []).Steady guardsModule.memory ∧
    Padded 0 [] (guardsModule.target 0 [.unknown "x"] [] guardsModule.memory)
      (paddedGuardsModule.target 0 [.unknown "x"] [] guardsModule.memory) ∧
    (paddedGuardsModule.exploreFunction Solver.ideal 0 (.start [])).record =
      (guardsModule.exploreFunction Solver.ideal 0 (.start [])).record ∧
    (paddedGuardsModule.exploreFunction Solver.ideal 0 (.start [])).result =
      (guardsModule.exploreFunction Solver.ideal 0 (.start [])).result := by
  have hS : Solver.ideal.Decides := Solver.ideal_correct.decides
  have hsteady := Module.steady_of_globalFree (m := guardsModule) rfl 0 [.unknown "x"] []
  obtain ⟨-, -, hexplore⟩ := decided_tests_free hS hsteady guards_padded ["x"]
  refine ⟨rfl, rfl, hS, hsteady, guards_padded, ?_⟩
  have hf : guardsModule.function? 0 = some _ := rfl
  have hf' : paddedGuardsModule.function? 0 = some _ := rfl
  rw [Module.exploreFunction_eq hf rfl, Module.exploreFunction_eq hf' rfl]
  exact ⟨congrArg (fun e : Exploration Memory => some (Record.mk "f" ["x"] e.leaves)) hexplore,
    congrArg Exploration.result hexplore⟩

end Sample

end Pathwise
