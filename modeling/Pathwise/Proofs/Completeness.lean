import Pathwise.Proofs.Agreement
import Pathwise.Proofs.Partition

/-!
# The tests of a search cover all inputs

For a function of the fragment every integer input takes the course of one of the tests that a
search returns: the same lines and sides of branches in the same order, the same printed texts and
the same way to end. Where a run of the search is cut off because its path is too long, this holds
up to the point where it was cut off. There are no tests only if a run ends the search.

* `Module.result` — what a call on integers comes to.
* `Module.Agrees.follows` — a call on integers follows the run whose conditions they meet.
* `inputs_covered` — every input meets the conditions of a run, and follows it with its test.
-/

namespace Pathwise

/-- The valuation under which names have given integers, in order. -/
def Valuation.assigning (xs : List String) (ns : List Int) : Valuation :=
  { int := fun x => ((xs.zip ns).lookup x).getD 0
    bool := fun _ => false
    real := fun _ => 0
    modZero := fun _ => 0
    openPower := fun _ _ => 0 }

theorem Valuation.map_assigning {xs : List String} {ns : List Int} (hnodup : xs.Nodup)
    (hlength : ns.length = xs.length) : xs.map (assigning xs ns).int = ns := by
  induction xs generalizing ns with
  | nil => exact (List.length_eq_zero_iff.mp hlength).symm
  | cons x xs ih =>
    cases ns with
    | nil => cases hlength
    | cons n ns =>
      obtain ⟨hx, hnodup⟩ := List.nodup_cons.mp hnodup
      have hrest : ∀ z ∈ xs, (assigning (x :: xs) (n :: ns)).int z = (assigning xs ns).int z := by
        intro z hz
        have hzx : (z == x) = false := by
          rw [beq_eq_false_iff_ne]
          rintro rfl
          exact hx hz
        simp [assigning, List.lookup_cons, hzx]
      rw [List.map_cons, List.map_congr_left hrest, ih hnodup (Nat.succ.inj hlength)]
      simp [assigning, List.lookup_cons]

/-- Unknowns stand for the integers that a valuation gives them. -/
theorem Value.counted_unknowns (ρ : Valuation) (xs : List String) :
    List.Forall₂ (Value.Counted ρ) (xs.map .unknown) ((xs.map ρ.int).map .int) := by
  induction xs with
  | nil => exact .nil
  | cons x xs ih => exact .cons ⟨ρ.int x, .term (.var .int x), rfl⟩ ih

/-- Two runs that take the same course: what they note, what they print and how they end. -/
structure SameCourse (out out' : Except Fault Value × State) : Prop where
  trace : out.2.trace = out'.2.trace
  output : out.2.output = out'.2.output
  ending : out.1.map (fun _ => ()) = out'.1.map (fun _ => ())

theorem SameCourse.symm {out out' : Except Fault Value × State} (h : SameCourse out out') :
    SameCourse out' out :=
  ⟨h.trace.symm, h.output.symm, h.ending.symm⟩

theorem SameCourse.trans {out out' out'' : Except Fault Value × State} (h : SameCourse out out')
    (h' : SameCourse out' out'') : SameCourse out out'' :=
  ⟨h.trace.trans h'.trace, h.output.trans h'.output, h.ending.trans h'.ending⟩

/-- A call does what a run on unknowns did, up to the end or until that was cut off. -/
structure Follows (out run : Except Fault Value × State) : Prop where
  leads : out.2.Leads run.2
  same : out.1 ≠ .error .depthLimit → SameCourse out run

namespace Module

variable {solver : Solver} {m : Module} {index : Nat} {f : Function} {uses : Nat → Yield → Bool}
  {y : Yield} {trail : Trail}

/-- What a call on integers comes to. -/
def result (m : Module) (index : Nat) (ns : List Int) : Except Fault Value × State :=
  (m.invoke (.function index) (ns.map .int) [] (State.start m.memory)).unanswered

theorem alike_start (m : Module) (uses : Nat → Yield → Bool) (ρ : Valuation) :
    (State.start m.memory).Alike (m.offer uses none) ρ (State.start m.memory) :=
  ⟨⟨rfl, Demand.scope_nil⟩, ⟨rfl, Demand.scope_nil⟩, fun _ => .none, rfl, rfl, .nil, rfl⟩

/-- A call on integers compares with whatever a run on unknowns can end with if its answers are
true of them. -/
theorem Agrees.agree (h : m.Agrees uses) (huse : uses index y = true) {xs : List String}
    {ρ : Valuation} {out : Except Fault Value × State}
    (hends : (m.invoke (.function index) (xs.map .unknown) [] (State.start m.memory)).Ends ρ out) :
    Eval.Agree (m.offer uses none) ρ (y.Related ρ) out (m.result index (xs.map ρ.int)) := by
  have hlock : Eval.Lockstep (m.offer uses none) ρ True (y.Related ρ)
      (m.invoke (.function index) (xs.map .unknown) [])
      (m.invoke (.function index) ((xs.map ρ.int).map .int) []) :=
    h.lockstep m.limits.calls huse fun _ => Value.counted_unknowns ρ xs
  exact hlock.agree trivial _ _ (m.alike_start uses ρ) _ hends

/-- **A call follows the run whose conditions it meets**, if no operands are exchanged there. -/
theorem Agrees.follows (h : m.Agrees uses) (huse : uses index y = true) (hS : solver.Correct)
    {path : List Bool} {ρ : Valuation}
    (hρ : ρ.meets ((m.invoke (.function index) (f.paramNames.map .unknown) []
      (State.start m.memory)).play solver (.start path)).2.conditions = true)
    (hno : .exchange ∉ (m.outcome solver index f path).2.trace) :
    Follows (m.outcome solver index f path) (m.result index (f.paramNames.map ρ.int)) := by
  -- the answers of the solver are true of `ρ`, so the two computations keep together
  cases h.agree huse (Run.ends_play hS hρ) with
  | exchanged hx => exact absurd hx hno
  | cut hcut hleads => exact ⟨hleads, fun hnot => absurd hcut hnot⟩
  | ok ha hb _ halike =>
    refine ⟨halike.leads, fun _ => ⟨halike.trace, halike.output, ?_⟩⟩
    rw [outcome, ha, hb]
    rfl
  | fault hf hf' halike =>
    refine ⟨halike.leads, fun _ => ⟨halike.trace, halike.output, ?_⟩⟩
    rw [outcome, hf, hf']

/-- A round of a search whose conditions an input meets, and the test that was found for it: the
input and the test take the same course, unless the round was cut off, and then both begin as the
round did. -/
structure Covers (solver : Solver) (m : Module) (index : Nat) (f : Function) (r : Round Memory)
    (test : Test) (ns : List Int) : Prop where
  meets : (Valuation.assigning f.paramNames ns).meets r.trail.conditions = true
  input : Follows (m.outcome solver index f r.path) (m.result index ns)
  sample : Follows (m.outcome solver index f r.path)
    (m.result index (f.paramNames.map (Test.valuation test).int))
  same : (m.outcome solver index f r.path).1 ≠ .error .depthLimit →
    SameCourse (m.result index ns) (m.result index (f.paramNames.map (Test.valuation test).int))

/-- A round covers all inputs that meet its conditions. -/
theorem Agrees.covers (h : m.Agrees uses) (huse : uses index y = true) (hS : solver.Correct)
    (hnodup : f.paramNames.Nodup) {r : Round Memory} (hr : r ∈ m.rounds solver index f)
    (hno : .exchange ∉ (m.outcome solver index f r.path).2.trace) {test : Test}
    (htest : (solver.leaf? f.paramNames r.trail).bind Leaf.test = some test) {ns : List Int}
    (hlength : ns.length = f.paramNames.length)
    (hmeets : (Valuation.assigning f.paramNames ns).meets r.trail.conditions = true) :
    Covers solver m index f r test ns := by
  have htrail := trail_of_mem_rounds (h.serves none huse) nofun hr
  have hsample := hS.meets_test htest
  have hinput := hmeets
  rw [htrail] at hsample hinput
  -- the input and the test follow the same run, and so each other
  have hfollows := h.follows huse hS hinput hno
  rw [Valuation.map_assigning hnodup hlength] at hfollows
  have hfollows' := h.follows huse hS hsample hno
  refine ⟨hmeets, hfollows, hfollows', fun hcut => ?_⟩
  exact (hfollows.same hcut).symm.trans (hfollows'.same hcut)

/--
**The tests cover all inputs.** Take a function of the fragment whose parameters can be unknowns,
and a correct solver whose models declare unknowns of the formulas only. If a run ends with a fault
that ends the search, the search fails with this fault. If none does and none exchanges the operands
of a difference, the search returns tests, and every tuple of integers meets the conditions of a
round. Unless this round is cut off at the depth limit, the function takes the same course on the
integers as on the test of the round; if it is cut off, both begin as it did.
-/
theorem inputs_covered (hS : solver.Correct) (hF : solver.Frugal) (hm : m.Agrees uses)
    (hf : m.function? index = some f) (huse : uses index y = true)
    (henc : f.paramNames.forM encodable = .ok ()) (trail : Trail) :
    (∀ r ∈ m.rounds solver index f, ∀ fault, r.ending.escape? = some fault →
      (m.exploreFunction solver index trail).result = .error fault) ∧
    ((∀ r ∈ m.rounds solver index f, r.ending.escapes = false ∧
        .exchange ∉ (m.outcome solver index f r.path).2.trace) →
      ∃ (tests : List Test) (leaves : List Leaf),
        (m.exploreFunction solver index trail).result = .ok tests ∧
        (m.exploreFunction solver index trail).record = some ⟨f.name, f.paramNames, leaves⟩ ∧
        ∀ ns : List Int, ns.length = f.paramNames.length →
          ∃ (i : Nat) (r : Round Memory) (leaf : Leaf) (test : Test),
            (m.rounds solver index f)[i]? = some r ∧ leaves[i]? = some leaf ∧
            tests[i]? = some test ∧ leaf.conditions = r.trail.conditions ∧
            leaf.test = some test ∧ Covers solver m index f r test ns) := by
  refine ⟨fun r hr fault hfault => exploreFunction_escape hf henc hr hfault, fun hno => ?_⟩
  have hserves := hm.serves (some f.paramNames) huse
  have hnames : ∀ ys ∈ (some f.paramNames), ys = f.paramNames := by
    rintro ys ⟨rfl⟩
    rfl
  obtain ⟨-, hnodup, -⟩ := Function.agrees_iff.mp (hm.agrees index y f huse hf)
  obtain ⟨tests, hok⟩ :=
    hserves.exploreFunction_ok rfl hS hF hf henc (fun r hr => (hno r hr).1) trail
  rw [exploreFunction_eq hf henc] at hok ⊢
  dsimp only at hok ⊢
  obtain ⟨hconditions, htests⟩ := leaves_of_ok hok
  refine ⟨tests, _, hok, rfl, fun ns hlength => ?_⟩
  -- the conditions of some round are met, since the rounds divide the inputs
  have hcount := explore_partition (hserves.steady hnames) hok
    (Valuation.assigning f.paramNames ns)
  obtain ⟨r, hr, hmeets⟩ := List.countP_pos_iff.mp (hcount ▸ Nat.one_pos)
  -- rounds, leaves and tests are three lists in the same order
  obtain ⟨i, hi⟩ := List.mem_iff_getElem?.mp hr
  obtain ⟨leaf, hleaf, hleafConditions⟩ := List.getElem?_of_map_eq hconditions.symm hi
  obtain ⟨test, htest, hleafTest⟩ := List.getElem?_of_map_eq htests hleaf
  obtain ⟨test', htest', hfound⟩ := List.getElem?_of_map_eq (exploreFrom_tests hok) hi
  obtain rfl : test = test' := Option.some.inj (htest.symm.trans htest')
  rw [Ending.leaf?_of_not_escapes (hno r hr).1] at hfound
  exact ⟨i, r, leaf, test, hi, hleaf, htest, hleafConditions, hleafTest.symm,
    hm.covers huse hS hnodup hr (hno r hr).2 hfound.symm hlength hmeets⟩

end Module

/-! ## Samples -/

namespace Sample

/-- A climb in a loop, by a function that doubles, and a condition on where it ends. -/
def doubling : Program := moduleOf [
  define 1 "double" ["n"] [(2, .result (some (.binary (.arith .add) (.name "n") (.name "n"))))],
  define 4 "climb" ["x", "y"] [
    (5, .range "i" (.ofList [num 2]) (.ofList [
      (6, .assign "x"
        (.binary (.arith .sub) (.call "double" (.ofList [.name "x"])) (.name "i")))])),
    (7, .branch (.compare (.order .lt) (.name "x") (.name "y"))
      (.ofList [(8, .print "below")])
      (.ofList [(10, .raise "ValueError" none)]))]]

abbrev doublingModule : Module := loaded doubling ["double", "climb"]

/-- The first function is used in arithmetic, the second is explored. -/
def doublingUses (i : Nat) (y : Yield) : Bool :=
  i == 0 && y == .number || i == 1 && y == .nothing

theorem double_returns : doublingModule.Returns 0 := by
  rintro (_ | depth) (_ | ⟨n, _ | ⟨n', ns⟩⟩) s hs h <;> cases h

theorem doubling_agrees : doublingModule.Agrees doublingUses where
  agrees := by
    intro i y f hi hf
    simp only [doublingUses, Bool.or_eq_true, Bool.and_eq_true, beq_iff_eq] at hi
    rcases hi with ⟨rfl, rfl⟩ | ⟨rfl, rfl⟩
    · obtain rfl := Option.some.inj hf
      decide
    · obtain rfl := Option.some.inj hf
      decide
  returns := by
    intro i hi
    obtain rfl : i = 0 := by simpa [doublingUses] using hi
    exact double_returns

/-- However the climb ends, the search goes on, and no operands are exchanged: numbers stand on the
left. -/
theorem climb_ends_well :
    (doublingModule.invoke (.function 1) (["x", "y"].map .unknown) []
      (State.start doublingModule.memory)).checks (fun _ => false)
      (fun out => Module.survived out && !out.2.trace.contains .exchange) depthLimit = true := by
  decide +kernel

/-- The climb is covered by its tests. -/
theorem climb_inputs_covered :
    Module.load .standard doubling = .ok doublingModule ∧
    ∃ f, doublingModule.function? 1 = some f ∧
      ∃ (tests : List Test) (leaves : List Leaf),
        (doublingModule.exploreFunction Solver.ideal 1 (.start [])).result = .ok tests ∧
        (doublingModule.exploreFunction Solver.ideal 1 (.start [])).record =
          some ⟨"climb", ["x", "y"], leaves⟩ ∧
        ∀ ns : List Int, ns.length = 2 →
          ∃ (i : Nat) (r : Round Memory) (leaf : Leaf) (test : Test),
            (doublingModule.rounds Solver.ideal 1 f)[i]? = some r ∧ leaves[i]? = some leaf ∧
            tests[i]? = some test ∧ leaf.conditions = r.trail.conditions ∧
            leaf.test = some test ∧ doublingModule.Covers Solver.ideal 1 f r test ns := by
  obtain ⟨f, hf, hname, hnames⟩ : ∃ f, doublingModule.function? 1 = some f ∧ f.name = "climb" ∧
      f.paramNames = ["x", "y"] := ⟨_, rfl, rfl, rfl⟩
  have huse : doublingUses 1 .nothing = true := by decide
  have hchecks := climb_ends_well
  rw [← hnames] at hchecks
  have hends : ∀ r ∈ doublingModule.rounds Solver.ideal 1 f, r.ending.escapes = false ∧
      .exchange ∉ (doublingModule.outcome Solver.ideal 1 f r.path).2.trace := by
    intro r hr
    have hend := Module.outcome_of_checks Solver.ideal_correct hchecks
      (fun _ hp => by cases hp) hr
    obtain ⟨hsurvived, hexchange⟩ := Bool.and_eq_true_iff.mp hend
    exact ⟨Module.not_escapes_of_survived (doubling_agrees.serves none huse) nofun hr hsurvived,
      by simpa using hexchange⟩
  have hcovered := (Module.inputs_covered Solver.ideal_correct Solver.ideal_frugal doubling_agrees
    hf huse (by rw [hnames]; rfl) (.start [])).2 hends
  rw [hname, hnames] at hcovered
  exact ⟨rfl, f, hf, hcovered⟩

/-- A function whose parameter cannot be the name of an unknown. -/
def wideName : Program := moduleOf [define 1 "f" ["λ"] [(2, .print "A")]]

/-- A function that leaves the program. -/
def leaving : Program := moduleOf [define 1 "f" ["x"] [(2, .raise "SystemExit" none)]]

abbrev wideNameModule : Module := loaded wideName ["f"]

abbrev leavingModule : Module := loaded leaving ["f"]

/-- The first function of a module is explored, and none is called. -/
def firstAlone (i : Nat) (y : Yield) : Bool := i == 0 && y == .nothing

theorem agrees_of_first {m : Module} {f : Function} (hf : m.function? 0 = some f)
    (h : f.agrees (m.yields firstAlone) .nothing = true) : m.Agrees firstAlone where
  agrees := by
    intro i y g hi hg
    simp only [firstAlone, Bool.and_eq_true, beq_iff_eq] at hi
    obtain ⟨rfl, rfl⟩ := hi
    obtain rfl : f = g := Option.some.inj (hf.symm.trans hg)
    exact h
  returns := by
    intro i hi
    simp [firstAlone] at hi

/-- Whatever the solver can do, no test is returned for a function of the fragment if a parameter of
it cannot be the name of an unknown, and none if the function leaves the program. -/
theorem inputs_uncovered :
    Solver.ideal.Correct ∧ Solver.ideal.Frugal ∧
    (Module.load .standard wideName = .ok wideNameModule ∧ wideNameModule.Agrees firstAlone ∧
      (∃ f, wideNameModule.function? 0 = some f ∧ f.paramNames = ["λ"] ∧
        ∀ path, .exchange ∉ (wideNameModule.outcome Solver.ideal 0 f path).2.trace) ∧
      (wideNameModule.exploreFunction Solver.ideal 0 (.start [])).record = none ∧
      ¬ ∃ tests, (wideNameModule.exploreFunction Solver.ideal 0 (.start [])).result = .ok tests) ∧
    (Module.load .standard leaving = .ok leavingModule ∧ leavingModule.Agrees firstAlone ∧
      (∃ f, leavingModule.function? 0 = some f ∧ f.paramNames = ["x"] ∧
        ∀ path, .exchange ∉ (leavingModule.outcome Solver.ideal 0 f path).2.trace) ∧
      (leavingModule.exploreFunction Solver.ideal 0 (.start [])).result =
        .error (.raised "SystemExit" none)) := by
  refine ⟨Solver.ideal_correct, Solver.ideal_frugal,
    ⟨rfl, agrees_of_first rfl (by decide), ⟨_, rfl, rfl, fun path => ?_⟩, rfl, ?_⟩,
    ⟨rfl, agrees_of_first rfl (by decide), ⟨_, rfl, rfl, fun path => ?_⟩, ?_⟩⟩
  · show .exchange ∉ [Event.line 2]
    decide
  · rintro ⟨tests, htests⟩
    cases htests
  · show .exchange ∉ [Event.line 2]
    decide
  · exact Module.exploreFunction_escape rfl rfl List.mem_cons_self rfl

end Sample

end Pathwise
