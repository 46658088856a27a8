import Pathwise.Proofs.Loading
import Pathwise.Proofs.Reachable
import Pathwise.Sample.Programs

/-!
# The paths of a search divide the inputs

At every choice of a run one side is taken under the condition that the test holds and the other
under the condition that it fails. So the conditions at the leaves of a tree of tests divide the
valuations that meet the conditions at its root: each of them meets those of exactly one leaf.
Tests without choice, faults and the depth limit do not change that, and neither do wrong answers
of the solver.

* `Run.countP_remaining` — one leaf for every valuation, by induction on the tree.
* `explore_partition` — one round for every valuation, in a search of a steady target.
* `Module.outcome` — what the call in a round of exploring a function comes to.
* `paths_partition` — the same of exploring a function, and that no two tests agree.
-/

namespace Pathwise

/-- Every valuation that meets the conditions of a trail meets those of exactly one leaf that can
be reached from it. -/
theorem Run.countP_remaining {α : Type} (solver : Solver) (r : Run α) (t : Trail)
    (ρ : Valuation) :
    (r.remaining solver t []).countP (fun leaf => ρ.meets leaf.2.conditions) =
      if ρ.meets t.conditions then 1 else 0 := by
  induction r generalizing t with
  | done a => simp [remaining, List.countP_cons]
  | ask φ k ih =>
    rw [remaining]
    cases hout : Trail.outlook solver φ t.conditions with
    | fault f | forced side => exact ih _ t
    | either p =>
      by_cases hfull : depthLimit ≤ t.path.length
      · simpa only [if_pos hfull] using ih _ t
      · simp only [if_neg hfull, List.countP_append, ih, Trail.take,
          Trail.meets_record (Trail.toFormula_of_either hout)]
        -- the valuation takes one side, and the leaves below the other ask for the opposite
        cases ρ.meets t.conditions <;> cases p.eval ρ <;> rfl

section Search

variable {ω : Type} {solver : Solver} {params : List String} {target : Target ω} {w : ω}
  {tests : List Test}

/-- A search that returns tests has found one in every round. -/
theorem isSome_test_of_ok (hok : (explore solver params target w).result = .ok tests) :
    ∀ r ∈ rounds solver params target w,
      ((r.ending.leaf? solver params r.trail).bind Leaf.test).isSome := by
  intro r hr
  have hmem := List.mem_map_of_mem
    (f := fun r : Round ω => (r.ending.leaf? solver params r.trail).bind Leaf.test) hr
  rw [rounds, exploreFrom_tests hok] at hmem
  obtain ⟨test, -, htest⟩ := List.mem_map.mp hmem
  rw [← htest]
  rfl

/-- The leaves of a search that returns tests are the ends of its rounds, and hold the tests. -/
theorem leaves_of_ok (hok : (explore solver params target w).result = .ok tests) :
    (explore solver params target w).leaves.map Leaf.conditions =
        (rounds solver params target w).map (fun r => r.trail.conditions) ∧
      (explore solver params target w).leaves.map Leaf.test = tests.map some := by
  have hleaf : ∀ r ∈ rounds solver params target w,
      ∃ leaf, r.ending.leaf? solver params r.trail = some leaf := by
    intro r hr
    obtain ⟨test, htest⟩ := Option.isSome_iff_exists.mp (isSome_test_of_ok hok r hr)
    obtain ⟨leaf, hleaf, -⟩ := Option.bind_eq_some_iff.mp htest
    exact ⟨leaf, hleaf⟩
  rw [explore, exploreFrom_leaves, ← exploreFrom_tests hok]
  constructor
  · refine List.map_filterMap_of_forall fun r hr => ?_
    obtain ⟨leaf, hleaf⟩ := hleaf r hr
    exact ⟨leaf, hleaf, (Solver.leaf?_eq_some (Ending.leaf?_eq_some_iff.mp hleaf).2).2.1⟩
  · refine List.map_filterMap_of_forall fun r hr => ?_
    obtain ⟨leaf, hleaf⟩ := hleaf r hr
    exact ⟨leaf, hleaf, by rw [hleaf]; rfl⟩

/-- In a search of a steady target that returns tests, every valuation meets the conditions at the
end of exactly one round. -/
theorem explore_partition (hsteady : target.Steady w)
    (hok : (explore solver params target w).result = .ok tests) (ρ : Valuation) :
    (rounds solver params target w).countP (fun r => ρ.meets r.trail.conditions) = 1 := by
  have hleaves := rounds_eq_remaining hsteady (isSome_test_of_ok hok)
  have hcount := Run.countP_remaining solver (target w) (.start []) ρ
  rw [← hleaves, List.countP_map] at hcount
  exact hcount

/-- A list of which no two members satisfy the same predicate of a family, if each predicate holds
of at most one. -/
theorem pairwise_of_countP_le_one {α β : Type} {l : List α} {holds : β → α → Bool}
    (h : ∀ b, l.countP (holds b) ≤ 1) :
    l.Pairwise fun x y => ∀ b, ¬ (holds b x = true ∧ holds b y = true) := by
  induction l with
  | nil => exact .nil
  | cons x l ih =>
    refine List.pairwise_cons.mpr ⟨?_, ih fun b => ?_⟩
    · rintro y hy b ⟨hx, hb⟩
      have hpos : 0 < l.countP (holds b) := List.countP_pos_iff.mpr ⟨y, hy, hb⟩
      have := h b
      rw [List.countP_cons_of_pos hx] at this
      omega
    · have := h b
      rw [List.countP_cons] at this
      omega

end Search

/-- Conditions that are integral over some names are met alike by valuations that agree on them. -/
theorem Valuation.meets_congr {xs : List String} {hs : List Held} (hover : ∀ h ∈ hs, h.Over xs)
    {ρ σ : Valuation} (hint : ∀ x ∈ xs, σ.int x = ρ.int x) : σ.meets hs = ρ.meets hs := by
  have hholds : ∀ h ∈ hs, h.holds σ = h.holds ρ := by
    intro h hh
    unfold Held.holds
    cases hp : h.toFormula with
    | error f => rfl
    | ok p => exact ((hover h hh).toFormula hp).eval_congr hint
  rw [Bool.eq_iff_iff, Valuation.meets, Valuation.meets, List.all_eq_true, List.all_eq_true]
  exact forall₂_congr fun h hh => by rw [hholds h hh]

namespace Sample

/-- A module of functions with plain parameters, whose names are these. -/
def loaded (p : Program) (names : List String) : Module where
  functions := p.functions.map fun d =>
    ⟨d.name, d.params.map fun q => ⟨q.name, q.kind, none⟩, d.body⟩
  memory := ⟨names.zipIdx.map fun (x, i) => (x, .function i), 0⟩
  limits := .standard

abbrev parityModule : Module := loaded parity ["foo"]

end Sample

namespace Module

/-- The rounds of exploring a function with its parameters as unknowns. -/
def rounds (solver : Solver) (m : Module) (index : Nat) (f : Function) : List (Round Memory) :=
  Pathwise.rounds solver f.paramNames (m.target index (f.paramNames.map .unknown) []) m.memory

variable {solver : Solver} {m : Module} {index : Nat} {f : Function} {trail : Trail}
  {tests : List Test}

/-- Exploring a function whose parameters can be unknowns is a search. -/
theorem exploreFunction_eq (hf : m.function? index = some f)
    (henc : f.paramNames.forM encodable = .ok ()) :
    m.exploreFunction solver index trail =
      let e := explore solver f.paramNames (m.target index (f.paramNames.map .unknown) []) m.memory
      ⟨{ m with memory := e.world }, e.trail, e.output, some ⟨f.name, f.paramNames, e.leaves⟩,
        e.result⟩ := by
  rw [exploreFunction, hf]
  dsimp only
  rw [henc]
  simp only [testFunction, hf]

/-- If a round ends with a fault that ends the search, exploring the function fails with it. -/
theorem exploreFunction_escape (hf : m.function? index = some f)
    (henc : f.paramNames.forM encodable = .ok ()) {r : Round Memory}
    (hr : r ∈ m.rounds solver index f) {fault : Fault} (hfault : r.ending.escape? = some fault) :
    (m.exploreFunction solver index trail).result = .error fault := by
  rw [exploreFunction_eq hf henc]
  exact exploreFrom_escape hr hfault

theorem encodable_of_ok (hf : m.function? index = some f)
    (hok : (m.exploreFunction solver index trail).result = .ok tests) :
    f.paramNames.forM encodable = .ok () := by
  rw [exploreFunction, hf] at hok
  dsimp only at hok
  split at hok
  · cases hok
  · assumption

/-- What a run on unknowns along a path comes to. -/
def outcome (solver : Solver) (m : Module) (index : Nat) (f : Function) (path : List Bool) :
    Except Fault Value × State :=
  ((m.invoke (.function index) (f.paramNames.map .unknown) [] (State.start m.memory)).play solver
    (.start path)).1

/-- The trail of a round is that of the call it makes. -/
theorem trail_of_mem_rounds {d : Demand} (h : m.Serves index d)
    (hnames : ∀ ys ∈ d.names, ys = f.paramNames) {r : Round Memory}
    (hr : r ∈ m.rounds solver index f) :
    r.trail = ((m.invoke (.function index) (f.paramNames.map .unknown) []
      (State.start m.memory)).play solver (.start r.path)).2 := by
  have hstart := eq_start_of_mem_roundsFrom hr
  rw [world_of_mem_roundsFrom (h.steady hnames) hr] at hstart
  rw [hstart]
  exact congrArg Prod.snd (Run.play_bind solver _ _ _)

/-- What a round prints and the fault it ends with are those of the call it makes. -/
theorem ending_of_mem_rounds {d : Demand} (h : m.Serves index d)
    (hnames : ∀ ys ∈ d.names, ys = f.paramNames) {r : Round Memory}
    (hr : r ∈ m.rounds solver index f) :
    r.ending.output = (m.outcome solver index f r.path).2.output.reverse ∧
      r.ending.fault = Fault.of? (m.outcome solver index f r.path).1 := by
  have hstart := eq_start_of_mem_roundsFrom hr
  rw [world_of_mem_roundsFrom (h.steady hnames) hr] at hstart
  -- a target makes the call and then reads its ending off the last state
  have hending : r.ending = _ := (congrArg Round.ending hstart).trans
    (congrArg Prod.fst (Run.play_bind solver
      (m.invoke (.function index) (f.paramNames.map .unknown) [] (State.start m.memory)) _
      (.start r.path)))
  rw [hending]
  exact ⟨rfl, rfl⟩

/-- Whether a search goes on after a call that ends so. -/
def survived (out : Except Fault Value × State) : Bool := !(Fault.of? out.1).any Fault.escapes

/-- If all ends that a run can come to are good, the call in every round comes to one of them. -/
theorem outcome_of_checks (hS : solver.Correct) {refuted : Formula → Bool}
    {good : Except Fault Value × State → Bool}
    (h : (m.invoke (.function index) (f.paramNames.map .unknown) []
      (State.start m.memory)).checks refuted good depthLimit = true)
    (hrefuted : ∀ p, refuted p = true → ∀ ρ : Valuation, p.eval ρ = false)
    {r : Round Memory} (hr : r ∈ m.rounds solver index f) :
    good (m.outcome solver index f r.path) = true :=
  Run.good_play hS hrefuted h (sound_after_of_mem_rounds hS.decides hr [])
    (Nat.le_of_eq (Nat.zero_add _))

/-- A search goes on after a round if it goes on after the call. -/
theorem not_escapes_of_survived {d : Demand} (h : m.Serves index d)
    (hnames : ∀ ys ∈ d.names, ys = f.paramNames) {r : Round Memory}
    (hr : r ∈ m.rounds solver index f)
    (hout : survived (m.outcome solver index f r.path) = true) : r.ending.escapes = false := by
  rw [Ending.escapes, (ending_of_mem_rounds h hnames hr).2]
  simpa [survived] using hout

/-- The conditions at the end of each round are integral, if that is demanded. -/
theorem Serves.over_of_mem_rounds {d : Demand} (h : m.Serves index d)
    (hnames : d.names = some f.paramNames) {r : Round Memory}
    (hr : r ∈ m.rounds solver index f) : ∀ c ∈ r.trail.conditions, c.Over f.paramNames := by
  have hsteady := h.steady fun ys hys => (Option.some.inj (hnames.symm.trans hys)).symm
  have hstart := eq_start_of_mem_roundsFrom hr
  rw [world_of_mem_roundsFrom hsteady hr] at hstart
  rw [hstart]
  refine (h.integral hnames).conditions ?_ solver (by intro c hc; cases hc)
  intro φ p hφ hp
  exact Term.integral_not.mpr (hφ.toFormula hp)

/-- Exploring a function whose conditions are integral returns tests if no round ends the search,
given a solver whose models declare unknowns of the formulas only. -/
theorem Serves.exploreFunction_ok {d : Demand} (h : m.Serves index d)
    (hnames : d.names = some f.paramNames) (hS : solver.Correct) (hF : solver.Frugal)
    (hf : m.function? index = some f) (henc : f.paramNames.forM encodable = .ok ())
    (hstay : ∀ r ∈ m.rounds solver index f, r.ending.escapes = false) (trail : Trail) :
    ∃ tests, (m.exploreFunction solver index trail).result = .ok tests := by
  rw [exploreFunction_eq hf henc]
  refine exploreFrom_ok fun r hr => ?_
  have htrail : r.trail.conditions =
      ((m.target index (f.paramNames.map .unknown) [] r.world).play solver
        (.start r.path)).2.conditions := by
    rw [eq_start_of_mem_roundsFrom hr]
    rfl
  have hPos : Possible r.trail.conditions := by
    rw [htrail]
    exact Run.play_possible hS _ possible_nil
  obtain ⟨leaf, hleaf, -⟩ := hS.exists_leaf f.paramNames hPos
  obtain ⟨test, htest⟩ := hF.exists_test hleaf fun c hc p hp =>
    (h.over_of_mem_rounds hnames hr c hc).toFormula hp
  rw [Ending.leaf?_of_not_escapes (hstay r hr), hleaf, Option.bind_some, htest]
  rfl

/-- Different rounds of a search have different tests, if their conditions are integral. -/
theorem pairwise_tests {ω : Type} {params : List String} {target : Target ω} {w : ω}
    (hS : solver.Correct) (hok : (explore solver params target w).result = .ok tests)
    (hpartition : ∀ ρ : Valuation,
      (Pathwise.rounds solver params target w).countP (fun r => ρ.meets r.trail.conditions) = 1)
    (hover : ∀ r ∈ Pathwise.rounds solver params target w,
      ∀ c ∈ r.trail.conditions, c.Over params) :
    tests.Pairwise fun s t =>
      ∃ x ∈ params, (Test.valuation s).int x ≠ (Test.valuation t).int x := by
  have hapart := pairwise_of_countP_le_one fun ρ : Valuation => (hpartition ρ).le
  suffices h : ((Pathwise.rounds solver params target w).map fun r =>
      (r.ending.leaf? solver params r.trail).bind Leaf.test).Pairwise fun a b =>
        ∀ s ∈ a, ∀ t ∈ b,
          ∃ x ∈ params, (Test.valuation s).int x ≠ (Test.valuation t).int x by
    rw [Pathwise.rounds, exploreFrom_tests hok, List.pairwise_map] at h
    exact h.imp fun hst => hst _ rfl _ rfl
  rw [List.pairwise_map]
  refine hapart.imp_of_mem fun {r r'} hr hr' hnot s hs t ht => ?_
  rw [Ending.leaf?_of_not_escapes (Ending.not_escapes_of_test (isSome_test_of_ok hok r hr))] at hs
  rw [Ending.leaf?_of_not_escapes (Ending.not_escapes_of_test (isSome_test_of_ok hok r' hr'))] at ht
  by_contra hsame
  push Not at hsame
  -- the first test would meet the conditions of the second
  refine hnot (Test.valuation s) ⟨hS.meets_test hs, ?_⟩
  rw [Valuation.meets_congr (hover r' hr') hsame]
  exact hS.meets_test ht

/--
**The paths divide the inputs.** If exploring a function of a module without global declarations
returns tests, every valuation of its parameters, with any reading of what arithmetic leaves open,
meets the conditions at the end of exactly one round, and the leaves on record and the tests are
those of the rounds. If moreover nothing in the module is left open and the solver is correct, no
two tests give all parameters the same values.
-/
theorem paths_partition (hf : m.function? index = some f)
    (hglobal : m.globalFree = true)
    (hok : (m.exploreFunction solver index trail).result = .ok tests) :
    (∀ ρ : Valuation,
      (m.rounds solver index f).countP (fun r => ρ.meets r.trail.conditions) = 1) ∧
    (∃ leaves, (m.exploreFunction solver index trail).record =
        some ⟨f.name, f.paramNames, leaves⟩ ∧
      leaves.map Leaf.conditions = (m.rounds solver index f).map (fun r => r.trail.conditions) ∧
      leaves.map Leaf.test = tests.map some) ∧
    (m.Definite → solver.Correct → tests.Pairwise fun s t =>
      ∃ x ∈ f.paramNames, (Test.valuation s).int x ≠ (Test.valuation t).int x) := by
  have henc := encodable_of_ok hf hok
  rw [exploreFunction_eq hf henc] at hok ⊢
  dsimp only at hok ⊢
  have hserves : m.Serves index (m.demand none) := serves_demand hglobal (fun h => by cases h) index
  -- for the first two parts it is enough that runs start alike; terms may leave things open
  have hpartition := explore_partition (hserves.steady nofun) hok
  obtain ⟨hconditions, htests⟩ := leaves_of_ok hok
  refine ⟨hpartition, ⟨_, rfl, hconditions, htests⟩, ?_⟩
  intro hdef hS
  exact pairwise_tests hS hok hpartition fun r hr =>
    (serves_demand hglobal (fun _ => hdef) index).over_of_mem_rounds rfl hr

/-- Exploring a function returns tests if all ends that its call can come to leave the search
going. -/
theorem WellBehaved.exploreFunction_ok (h : m.WellBehaved) (hS : solver.Correct)
    (hF : solver.Frugal) (hf : m.function? index = some f)
    (henc : f.paramNames.forM encodable = .ok ())
    (hchecks : (m.invoke (.function index) (f.paramNames.map .unknown) []
      (State.start m.memory)).checks (fun _ => false) survived depthLimit = true)
    (trail : Trail) : ∃ tests, (m.exploreFunction solver index trail).result = .ok tests := by
  refine (h.serves (some f.paramNames) index).exploreFunction_ok rfl hS hF hf henc ?_ trail
  intro r hr
  exact not_escapes_of_survived (h.serves none index) nofun hr
    (outcome_of_checks hS hchecks (fun _ hp => by cases hp) hr)

/-- The sample that takes a remainder is explored path by path. -/
theorem parity_paths_partition :
    ∃ m f tests, load .standard Sample.parity = .ok m ∧ m.function? 0 = some f ∧
      (m.exploreFunction Solver.ideal 0 (.start [])).result = .ok tests ∧
      (∀ ρ : Valuation,
        (m.rounds Solver.ideal 0 f).countP (fun r => ρ.meets r.trail.conditions) = 1) ∧
      tests.Pairwise fun s t =>
        ∃ x ∈ f.paramNames, (Test.valuation s).int x ≠ (Test.valuation t).int x := by
  have hload : load .standard Sample.parity = .ok Sample.parityModule := rfl
  have hm : Sample.parityModule.WellBehaved := load_wellBehaved (by decide) (by decide) hload
  obtain ⟨f, hf, hnames⟩ :
      ∃ f, Sample.parityModule.function? 0 = some f ∧ f.paramNames = ["x", "y"] := ⟨_, rfl, rfl⟩
  obtain ⟨tests, hok⟩ := hm.exploreFunction_ok Solver.ideal_correct Solver.ideal_frugal hf
    (by rw [hnames]; rfl) (by rw [hnames]; decide +kernel) (.start [])
  obtain ⟨hpartition, -, hdistinct⟩ := paths_partition hf hm.globalFree hok
  exact ⟨_, f, tests, hload, hf, hok, hpartition, hdistinct hm.definite Solver.ideal_correct⟩

end Module

end Pathwise
