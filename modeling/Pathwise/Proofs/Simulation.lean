import Pathwise.Proofs.Traversal

/-!
# Runs on unknowns simulate calls on integers

A round of a search runs a function on its unknown parameters. For a function of the fragment this
is no approximation: every choice of integers that meets the conditions of the round makes the
function do, on these integers, just what it did in the round. The same statements are executed
with the same outcomes of conditions. At each of them every variable of the call has the integer
that the term in the round stands for. The same texts are printed, and both runs return, or both
fail with the same fault. What they return corresponds.

* `InStep` — two runs that correspond in this way.
* `InStep.of_agree` — two runs that are not told apart by `Eval.Agree`, if neither an exchange of
  operands nor the depth limit ended the comparison early.
* `Module.runs_in_step` — the rounds of a search, with any solver that decides satisfiability.
-/

namespace Pathwise

/-- Two runs that do the same, where the values of the first stand for those of the second. -/
structure InStep (ρ : Valuation) (y : Yield) (out out' : Except Fault Value × State) : Prop where
  /-- The same statements and the same outcomes of conditions, in the same order. -/
  trace : out.2.trace = out'.2.trace
  /-- Corresponding variables at each of them. -/
  stores : List.Forall₂ (Scope.Counted ρ) out.2.stores out'.2.stores
  aligned : out.2.stores.length = out.2.trace.length
  output : out.2.output = out'.2.output
  /-- Corresponding results, or the same fault. -/
  ending : (∃ v w, out.1 = .ok v ∧ out'.1 = .ok w ∧ y.Related ρ v w) ∨
    ∃ f, out.1 = .error f ∧ out'.1 = .error f

theorem InStep.of_agree {d : Demand} {ρ : Valuation} {y : Yield}
    {out out' : Except Fault Value × State} (h : Eval.Agree d ρ (y.Related ρ) out out')
    (hno : .exchange ∉ out.2.trace) (hcut : out.1 ≠ .error .depthLimit) :
    InStep ρ y out out' := by
  cases h with
  | exchanged hx => exact absurd hx hno
  | cut hlimit _ => exact absurd hlimit hcut
  | ok ha hb hab halike =>
    exact ⟨halike.trace, halike.stores, halike.aligned, halike.output, .inl ⟨_, _, ha, hb, hab⟩⟩
  | fault hf hf' halike =>
    exact ⟨halike.trace, halike.stores, halike.aligned, halike.output, .inr ⟨_, hf, hf'⟩⟩

namespace Module

variable {solver : Solver} {m : Module} {index : Nat} {f : Function} {uses : Nat → Yield → Bool}
  {y : Yield}

/-- All solvers that decide satisfiability take a run to the same end. -/
theorem outcome_congr {solver' : Solver} (hS : solver.Decides) (hS' : solver'.Decides)
    (path : List Bool) : m.outcome solver index f path = m.outcome solver' index f path := by
  rw [outcome, outcome, Run.play_congr hS hS']

/--
**A round is a simulation.** Take a function of the fragment, a solver that decides satisfiability,
and a round of the search that does not exchange operands of a difference and is not cut off at the
depth limit. Whatever integers meet the conditions of the round, calling the function on them is in
step with the run of the round: it executes the same statements with the same outcomes of
conditions and corresponding variables, prints the same, and returns what the result of the round
stands for or fails with the same fault. The texts and the fault are those that the search has on
record for the round.
-/
theorem runs_in_step (hS : solver.Decides) (hm : m.Agrees uses) (huse : uses index y = true)
    {r : Round Memory} (hr : r ∈ m.rounds solver index f)
    (hno : .exchange ∉ (m.outcome solver index f r.path).2.trace)
    (hcut : (m.outcome solver index f r.path).1 ≠ .error .depthLimit)
    {ρ : Valuation} (hρ : ρ.meets r.trail.conditions = true) :
    InStep ρ y (m.outcome solver index f r.path) (m.result index (f.paramNames.map ρ.int)) ∧
    r.ending.output = (m.result index (f.paramNames.map ρ.int)).2.output.reverse ∧
    r.ending.fault = Fault.of? (m.result index (f.paramNames.map ρ.int)).1 := by
  have hserves := hm.serves none huse
  have hnames : ∀ ys ∈ (none : Option (List String)), ys = f.paramNames := fun _ hys => by cases hys
  have hideal := Solver.ideal_correct.decides
  -- the run is that of a solver whose models are right as well, of which the answers are true
  rw [trail_of_mem_rounds hserves hnames hr, Run.play_congr hS hideal] at hρ
  obtain ⟨houtput, hfault⟩ := ending_of_mem_rounds hserves hnames hr
  rw [outcome_congr hS hideal] at hno hcut houtput hfault ⊢
  have hstep := InStep.of_agree (hm.agree huse (Run.ends_play Solver.ideal_correct hρ)) hno hcut
  refine ⟨hstep, ?_, ?_⟩
  · rw [houtput, ← hstep.output]
    rfl
  · rw [hfault]
    obtain ⟨v, w, hv, hw, -⟩ | ⟨g, hg, hg'⟩ := hstep.ending
    · rw [outcome, hv, hw]
      rfl
    · rw [outcome, hg, hg']

end Module

/-! ## A sample -/

namespace Sample

theorem parity_agrees : parityModule.Agrees firstAlone := agrees_of_first rfl (by decide)

theorem decide_evenDifference :
    Trail.decide Solver.ideal (.term evenDifference) (.start []) =
      (.ok true, ⟨[true], [.term evenDifference]⟩) := by
  have hout : Trail.outlook Solver.ideal (.term evenDifference) [] = .either evenDifference :=
    Trail.outlook_of_possible Solver.ideal_correct rfl
      ⟨Valuation.assigning ["x", "y"] [0, 0], by decide⟩
      ⟨Valuation.assigning ["x", "y"] [1, 0], by decide⟩
  rw [Trail.decide_eq, Trail.start, hout]
  rfl

/-- The sample asks once, and if the answer is yes it returns the difference. -/
theorem parity_asks : ∃ k s,
    parityModule.invoke (.function 0) (["x", "y"].map .unknown) []
      (State.start parityModule.memory) = .ask (.term evenDifference) k ∧
    k (.ok true) = .done (.ok (.number (.term (.ring .sub (.var .int "x") (.var .int "y")))), s) ∧
    s.trace = [.line 4, .side true, .line 3, .line 2] :=
  ⟨_, _, rfl, rfl, rfl⟩

/-- The first round of the sample: the path and the conditions, and how it ends. -/
theorem parity_first_round : ∃ s,
    (parityModule.invoke (.function 0) (["x", "y"].map .unknown) []
      (State.start parityModule.memory)).play Solver.ideal (.start []) =
      ((.ok (.number (.term (.ring .sub (.var .int "x") (.var .int "y")))), s),
        ⟨[true], [.term evenDifference]⟩) ∧
    s.trace = [.line 4, .side true, .line 3, .line 2] := by
  obtain ⟨k, s, hask, hdone, htrace⟩ := parity_asks
  refine ⟨s, ?_, htrace⟩
  rw [hask, Run.play, decide_evenDifference, hdone]
  rfl

/-- Five and three are numbers that the first round of the sample stands for: their difference is
even. The call on them is in step with the round and returns two. -/
theorem parity_runs_in_step :
    ∃ f r, parityModule.function? 0 = some f ∧ r ∈ parityModule.rounds Solver.ideal 0 f ∧
      r.trail.conditions = [.term evenDifference] ∧
      InStep (.assigning ["x", "y"] [5, 3]) .nothing
        (parityModule.outcome Solver.ideal 0 f r.path) (parityModule.result 0 [5, 3]) ∧
      (parityModule.outcome Solver.ideal 0 f r.path).2.trace =
        [.line 4, .side true, .line 3, .line 2] ∧
      (parityModule.result 0 [5, 3]).1 = .ok (.int 2) := by
  obtain ⟨s, hplay, htrace⟩ := parity_first_round
  obtain ⟨f, hf, hnames⟩ : ∃ f, parityModule.function? 0 = some f ∧ f.paramNames = ["x", "y"] :=
    ⟨_, rfl, rfl⟩
  have houtcome : parityModule.outcome Solver.ideal 0 f [] =
      (.ok (.number (.term (.ring .sub (.var .int "x") (.var .int "y")))), s) := by
    rw [Module.outcome, hnames, hplay]
  -- the first round starts with no path; its trail is that of the run above
  obtain ⟨r, hr, hpath⟩ : ∃ r ∈ parityModule.rounds Solver.ideal 0 f, r.path = [] :=
    ⟨_, List.mem_cons_self, rfl⟩
  have huse : firstAlone 0 .nothing = true := rfl
  have htrail := Module.trail_of_mem_rounds (parity_agrees.serves none huse)
    (fun _ hys => by cases hys) hr
  rw [hpath, hnames, hplay] at htrail
  have hconditions : r.trail.conditions = [.term evenDifference] := by rw [htrail]
  have hmeets : (Valuation.assigning ["x", "y"] [5, 3]).meets [.term evenDifference] = true := by
    decide
  rw [← hconditions] at hmeets
  rw [← hpath] at houtcome
  have hno : .exchange ∉ (parityModule.outcome Solver.ideal 0 f r.path).2.trace := by
    rw [houtcome, htrace]
    decide
  have hcut : (parityModule.outcome Solver.ideal 0 f r.path).1 ≠ .error .depthLimit := by
    rw [houtcome]
    intro hlimit
    cases hlimit
  obtain ⟨hstep, -, -⟩ :=
    Module.runs_in_step Solver.ideal_correct.decides parity_agrees huse hr hno hcut hmeets
  rw [hnames] at hstep
  refine ⟨f, r, hf, hr, hconditions, hstep, ?_, rfl⟩
  rw [houtcome, htrace]

end Sample

end Pathwise
