import Pathwise.Proofs.Independence
import Pathwise.Proofs.Neighbours

/-!
# Functions are explored independently

A survey explores one function after the other, and all of them share a trail. Yet nothing of one
search is left to the next: a search starts on a trail of its own, and in a module without global
declarations it leaves the module as it is. So every entry of a survey is what exploring the
function alone would give. Only a fault that ends all exploring cuts it short: then the survey fails
with the fault of the first function that comes to one.

What else stands in the module matters only as far as the function mentions it, directly or through
what it mentions. It is not enough to look at calls: a function that takes the value of a name runs
into a fault where the name stands for nothing.

* `exploreFrom_result_congr` — targets whose runs are alike have the same tests.
* `Module.exploreAll_tests`, `Module.exploreAll_escape` — a survey as a list of separate searches.
* `Module.exploreAll_ok_iff`, `Module.exploreAll_error_iff` — when a survey returns, and with which
  fault it fails.
* `Module.functions_explored_alone` — the entries of a survey.
-/

namespace Pathwise

/-! ## Searches that are alike -/

section Searches

variable {ω ω' : Type} {solver : Solver} {params : List String}

theorem proceed_result_congr {e : Ending ω} {e' : Ending ω'} (t : Trail)
    {resume : List Bool → Exploration ω} {resume' : List Bool → Exploration ω'}
    (hresume : ∀ next, (resume next).result = (resume' next).result) :
    (proceed solver params e t resume).result = (proceed solver params e' t resume').result := by
  unfold proceed
  -- the model, its description and the next path depend on the trail alone
  cases solver.solve t.conditions with
  | error f => rfl
  | ok found =>
    cases found with
    | none => rfl
    | some model =>
      dsimp only
      cases (model.describe params).1 with
      | error f => rfl
      | ok test =>
        dsimp only
        cases nextPath t.path with
        | none => rfl
        | some next => exact congrArg (Except.map (test :: ·)) (hresume next)

theorem conclude_result_congr {e : Ending ω} {e' : Ending ω'} (hfault : e.fault = e'.fault)
    (t : Trail) {resume : List Bool → Exploration ω} {resume' : List Bool → Exploration ω'}
    (hresume : ∀ next, (resume next).result = (resume' next).result) :
    (conclude solver params e t resume).result = (conclude solver params e' t resume').result := by
  rw [conclude, conclude, Ending.escape?, Ending.escape?, hfault]
  cases e'.fault.filter Fault.escapes with
  | some f => rfl
  | none => exact proceed_result_congr t hresume

/-- Targets whose runs are alike, end with the same faults and leave their worlds alone have the
same tests. -/
theorem exploreFrom_result_congr {target : Target ω} {target' : Target ω'} {w : ω} {w' : ω'}
    (h : Run.Like (fun e e' => e.world = w ∧ e'.world = w' ∧ e.fault = e'.fault) (target w)
      (target' w')) (n : Nat) (path : List Bool) :
    (exploreFrom solver params target n path w).result =
      (exploreFrom solver params target' n path w').result := by
  induction n generalizing path with
  | zero => rfl
  | succ n ih =>
    obtain ⟨⟨hworld, hworld', hfault⟩, htrail⟩ := h.play solver (.start path)
    unfold exploreFrom
    dsimp only
    -- both runs end on the same trail, and the next round finds the worlds as they were
    rw [hworld, hworld', ← htrail]
    exact conclude_result_congr hfault _ ih

end Searches

namespace Module

section Entries

variable {names : String → Prop} {pairs : Nat → Nat → Prop} {m m' : Module} {solver : Solver}
  {i j : Nat}

theorem Alike.target (h : Alike names pairs m m') (hij : pairs i j) {args args' : List Value}
    (hargs : List.Forall₂ (Value.Like pairs) args args') :
    Run.Like (fun e e' => e.world = m.memory ∧ e'.world = m'.memory ∧ e.fault = e'.fault)
      (m.target i args [] m.memory) (m'.target j args' [] m'.memory) := by
  refine (h.invoke (.function hij) hargs _ _ h.start).bind ?_
  rintro ⟨r, s⟩ ⟨r', s'⟩ ⟨hr, hs⟩
  refine .done ⟨hs.memory, hs.memory', ?_⟩
  cases hr <;> rfl

/-- Functions that stand for each other have the same tests, or their search fails alike. -/
theorem Alike.exploreFunction (h : Alike names pairs m m') (solver : Solver) (hij : pairs i j)
    (t t' : Trail) :
    (m.exploreFunction solver i t).result = (m'.exploreFunction solver j t').result := by
  obtain ⟨f, f', hf, hf', hlike⟩ := h.functions i j hij
  have hparams : f.paramNames = f'.paramNames := Parameter.Like.names hlike.params
  have hunknowns : List.Forall₂ (Value.Like pairs) (f.paramNames.map .unknown)
      (f.paramNames.map .unknown) := by
    refine List.forall₂_same.mpr fun v hv => ?_
    obtain ⟨x, -, rfl⟩ := List.mem_map.mp hv
    exact .number _
  have hfunction : m.function? i = some f := hf
  have hfunction' : m'.function? j = some f' := hf'
  unfold Module.exploreFunction
  rw [hfunction, hfunction']
  dsimp only
  -- names of parameters that no unknown can have end both searches before they start
  rw [← hparams]
  cases f.paramNames.forM encodable with
  | error cause => rfl
  | ok _ =>
    simp only [testFunction, hfunction, hfunction', ← hparams]
    exact exploreFrom_result_congr (h.target hij hunknowns) _ []

/-- A search starts on a trail of its own. -/
theorem exploreFunction_trail (m : Module) (t t' : Trail) :
    (m.exploreFunction solver i t).result = (m.exploreFunction solver i t').result := by
  unfold exploreFunction
  cases m.function? i with
  | none => rfl
  | some f =>
    dsimp only
    cases f.paramNames.forM encodable with
    | error cause => rfl
    | ok _ =>
      unfold testFunction
      cases m.function? i <;> rfl

end Entries

/-! ## Surveys -/

section Surveys

variable {m m' : Module} {solver : Solver} {trail : Trail}

/-- The tests of a function that is explored alone, unless its search fails. -/
def testsOf (solver : Solver) (m : Module) (index : Nat) : Option (List Test) :=
  (m.exploreFunction solver index (.start [])).result.toOption

theorem testsOf_eq_some {index : Nat} {tests : List Test} :
    m.testsOf solver index = some tests ↔
      (m.exploreFunction solver index (.start [])).result = .ok tests := by
  unfold testsOf
  cases (m.exploreFunction solver index (.start [])).result with
  | ok ts => exact ⟨fun h => congrArg _ (Option.some.inj h), fun h => congrArg _ (Except.ok.inj h)⟩
  | error f => exact ⟨fun h => (by cases h), fun h => (by cases h)⟩

/-- All tests that a search returns stand in its record. -/
theorem Visit.shown_of_ok {v : Visit} {tests : List Test}
    (h : (v.finding solver).result = .ok tests) : v.shown solver .exact = tests := by
  obtain ⟨cause, hfails⟩ | ⟨f, hf, henc⟩ := exploreFunction_cases v.module v.index v.trail
  · rw [Visit.finding, hfails] at h
    cases h
  · rw [Visit.finding, exploreFunction_eq hf henc] at h
    rw [Visit.shown, Visit.finding, exploreFunction_eq hf henc]
    obtain ⟨-, htests⟩ := leaves_of_ok h
    rw [Option.map_some, Option.getD_some, tests_exact, ← Function.id_comp Leaf.test,
      ← List.filterMap_map, htests, List.filterMap_map]
    exact List.filterMap_some

theorem Visit.tests_eq (v : Visit) :
    v.tests solver .exact = ((v.module.testsOf solver v.index).map (v.name, ·)).toList := by
  have htrail : (v.module.exploreFunction solver v.index (.start [])).result =
      (v.finding solver).result := exploreFunction_trail v.module (.start []) v.trail
  rw [Visit.tests, testsOf, htrail]
  cases h : (v.finding solver).result with
  | ok tests =>
    rw [Visit.shown_of_ok h]
    rfl
  | error f => rfl

/-- The fault with which the search of a function that is explored alone ends all exploring. -/
def escapeOf (solver : Solver) (m : Module) (index : Nat) : Option Fault :=
  (Fault.of? (m.exploreFunction solver index (.start [])).result).filter Fault.escapes

theorem escapeOf_eq_some {index : Nat} {fault : Fault} :
    m.escapeOf solver index = some fault ↔
      (m.exploreFunction solver index (.start [])).result = .error fault ∧
        fault.escapes = true := by
  rw [escapeOf, Option.filter_eq_some_iff]
  cases (m.exploreFunction solver index (.start [])).result with
  | ok tests => simp [Fault.of?]
  | error f => simp [Fault.of?]

theorem Visit.escape?_eq (v : Visit) : v.escape? solver = v.module.escapeOf solver v.index := by
  have htrail : (v.module.exploreFunction solver v.index (.start [])).result =
      (v.finding solver).result := exploreFunction_trail v.module (.start []) v.trail
  rw [Visit.escape?, escapeOf, htrail]

/-- A survey of a module without global declarations is cut short by the first function whose search
alone would end it. -/
theorem exploreAll_escape (hm : m.globalFree = true) :
    (m.exploreAll solver .exact trail).escape =
      m.visited.findSome? fun e => m.escapeOf solver e.2 := by
  rw [exploreAll_eq]
  show (visitsFrom solver m.visited m trail).findSome? _ = _
  -- by induction on the visits to come: each finds the module as it was, only the trail differs
  induction m.visited generalizing trail with
  | nil => rfl
  | cons e rest ih =>
    obtain ⟨name, index⟩ := e
    have hmodule : (Visit.finding solver ⟨name, index, m, trail⟩).module = m :=
      finding_module hm solver index trail
    rw [visitsFrom, List.findSome?_cons, List.findSome?_cons, Visit.escape?_eq, hmodule]
    dsimp only
    cases m.escapeOf solver index with
    | some fault => rfl
    | none => exact ih

/-- A survey of such a module that is not cut short explores every function as if alone. -/
theorem exploreAll_tests (hm : m.globalFree = true)
    (hend : (m.exploreAll solver .exact trail).escape = none) :
    (m.exploreAll solver .exact trail).tests =
      m.visited.filterMap fun e => (m.testsOf solver e.2).map (e.1, ·) := by
  rw [exploreAll_escape hm, List.findSome?_eq_none_iff] at hend
  rw [exploreAll_eq]
  show (visitsFrom solver m.visited m trail).flatMap _ = _
  generalize m.visited = rest at hend ⊢
  induction rest generalizing trail with
  | nil => rfl
  | cons e rest ih =>
    obtain ⟨name, index⟩ := e
    have hmodule : (Visit.finding solver ⟨name, index, m, trail⟩).module = m :=
      finding_module hm solver index trail
    have hgoes : m.escapeOf solver index = none := hend (name, index) List.mem_cons_self
    rw [visitsFrom, List.flatMap_cons, Visit.tests_eq, Visit.escape?_eq, hgoes, Option.isSome_none,
      if_neg Bool.false_ne_true, hmodule, ih fun e he => hend e (List.mem_cons_of_mem _ he),
      List.filterMap_cons]
    dsimp only
    cases m.testsOf solver index <;> rfl

theorem Survey.result_eq_ok_iff {s : Survey} {entries : List (String × List Test)} :
    s.result = .ok entries ↔ s.escape = none ∧ s.tests = entries := by
  rw [Survey.result]
  cases s.escape with
  | none => simp
  | some f => simp

theorem Survey.result_eq_error_iff {s : Survey} {fault : Fault} :
    s.result = .error fault ↔ s.escape = some fault := by
  rw [Survey.result]
  cases s.escape with
  | none => simp
  | some f => simp

theorem mem_members (hm : m.Distinct) {x : String} {i : Nat} :
    (x, i) ∈ m.members ↔ m.memory.globals.lookup x = some (.function i) := by
  rw [List.lookup_eq_some_iff_mem hm, members, List.mem_mergeSort, List.mem_filterMap]
  constructor
  · rintro ⟨⟨y, v⟩, hmem, hv⟩
    cases v <;> cases hv
    exact hmem
  · exact fun hmem => ⟨_, hmem, rfl⟩

theorem mem_visited (hm : m.Distinct) {x : String} {i : Nat} :
    (x, i) ∈ m.visited ↔
      x.startsWith "__" = false ∧ m.memory.globals.lookup x = some (.function i) := by
  rw [visited, List.mem_filter, mem_members hm, Bool.not_eq_true', and_comm]

/-- The search of the function of this name, made alone, would end all exploring. -/
def EndsSurvey (solver : Solver) (m : Module) (name : String) (fault : Fault) : Prop :=
  name.startsWith "__" = false ∧ ∃ index,
    m.memory.globals.lookup name = some (.function index) ∧
      (m.exploreFunction solver index (.start [])).result = .error fault ∧ fault.escapes = true

theorem endsSurvey_iff (hm : m.Distinct) {name : String} {fault : Fault} :
    m.EndsSurvey solver name fault ↔
      ∃ index, (name, index) ∈ m.visited ∧ m.escapeOf solver index = some fault := by
  simp only [EndsSurvey, mem_visited hm, escapeOf_eq_some, exists_and_left, and_assoc]

/-- A survey returns exactly if no search, made alone, would end it. -/
theorem exploreAll_ok_iff (hfree : m.globalFree = true) (hm : m.Distinct) :
    (∃ entries, (m.exploreAll solver .exact trail).result = .ok entries) ↔
      ∀ name fault, ¬ m.EndsSurvey solver name fault := by
  simp only [Survey.result_eq_ok_iff, exists_and_left, exists_eq', and_true,
    exploreAll_escape hfree, List.findSome?_eq_none_iff, endsSurvey_iff hm]
  constructor
  · rintro hnone name fault ⟨index, hvisited, hescape⟩
    rw [hnone (name, index) hvisited] at hescape
    cases hescape
  · rintro hno ⟨name, index⟩ hvisited
    rw [Option.eq_none_iff_forall_ne_some]
    intro fault hescape
    exact hno name fault ⟨index, hvisited, hescape⟩

/-- A survey returns if each function alone has tests. -/
theorem exploreAll_ok_of_tests (hfree : m.globalFree = true) (hm : m.Distinct)
    (h : ∀ index f, m.function? index = some f →
      ∃ tests, (m.exploreFunction solver index (.start [])).result = .ok tests) (trail : Trail) :
    ∃ entries, (m.exploreAll solver .exact trail).result = .ok entries := by
  refine (exploreAll_ok_iff hfree hm).mpr ?_
  rintro name fault ⟨-, index, -, herror, hescapes⟩
  cases hf : m.function? index with
  | none =>
    simp only [exploreFunction, hf] at herror
    obtain rfl := Except.error.inj herror
    cases hescapes
  | some f =>
    obtain ⟨tests, hok⟩ := h index f hf
    rw [hok] at herror
    cases herror

section Returned

variable {entries : List (String × List Test)}

/-- The entries of a survey: one for every function that is visited and has tests. -/
theorem mem_exploreAll_tests (hfree : m.globalFree = true) (hm : m.Distinct)
    (hok : (m.exploreAll solver .exact trail).result = .ok entries) {name : String}
    {tests : List Test} :
    (name, tests) ∈ entries ↔
      name.startsWith "__" = false ∧ ∃ index,
        m.memory.globals.lookup name = some (.function index) ∧
          (m.exploreFunction solver index (.start [])).result = .ok tests := by
  obtain ⟨hend, rfl⟩ := Survey.result_eq_ok_iff.mp hok
  rw [exploreAll_tests hfree hend, List.mem_filterMap]
  constructor
  · rintro ⟨⟨x, index⟩, hvisited, hentry⟩
    obtain ⟨ts, hts, heq⟩ := Option.map_eq_some_iff.mp hentry
    obtain ⟨rfl, rfl⟩ := Prod.mk.inj heq
    obtain ⟨hname, hlookup⟩ := (mem_visited hm).mp hvisited
    exact ⟨hname, index, hlookup, testsOf_eq_some.mp hts⟩
  · rintro ⟨hname, index, hlookup, hresult⟩
    refine ⟨(name, index), (mem_visited hm).mpr ⟨hname, hlookup⟩, ?_⟩
    exact Option.map_eq_some_iff.mpr ⟨tests, testsOf_eq_some.mpr hresult, rfl⟩

end Returned

/-- All ends that calls of the functions of a module can come to leave a search going. -/
def survives (m : Module) : Bool :=
  m.functions.zipIdx.all fun (f, index) => (f.paramNames.forM encodable).isOk &&
    (m.invoke (.function index) (f.paramNames.map .unknown) [] (State.start m.memory)).checks
      (fun _ => false) survived depthLimit

/-- Each function of such a module has tests. -/
theorem WellBehaved.tests_of_survives (h : m.WellBehaved) (hS : solver.Correct)
    (hF : solver.Frugal) (hsurvives : m.survives = true) {index : Nat} {f : Function}
    (hf : m.function? index = some f) :
    ∃ tests, (m.exploreFunction solver index (.start [])).result = .ok tests := by
  have hmem : (f, index) ∈ m.functions.zipIdx := List.mk_mem_zipIdx_iff_getElem?.mpr hf
  obtain ⟨henc, hchecks⟩ := Bool.and_eq_true_iff.mp (List.all_eq_true.mp hsurvives _ hmem)
  refine h.exploreFunction_ok hS hF hf ?_ hchecks (.start [])
  cases hforM : f.paramNames.forM encodable with
  | ok _ => rfl
  | error cause =>
    rw [hforM] at henc
    cases henc

theorem WellBehaved.exploreAll_ok (h : m.WellBehaved) (hm : m.Distinct) (hS : solver.Correct)
    (hF : solver.Frugal) (hsurvives : m.survives = true) (trail : Trail) :
    ∃ entries, (m.exploreAll solver .exact trail).result = .ok entries :=
  exploreAll_ok_of_tests h.globalFree hm (fun _ _ => h.tests_of_survives hS hF hsurvives) trail

end Surveys

end Module

/-! ## Samples -/

namespace Sample

/-- No survey of a module that leaves the program returns. -/
theorem leaving_result (solver : Solver) (trail : Trail) :
    (leavingModule.exploreAll solver .exact trail).result =
      .error (.raised "SystemExit" none) := by
  have hmembers : leavingModule.members = [("f", 0)] := List.mergeSort_singleton _
  have hvisited : leavingModule.visited = [("f", 0)] := by
    rw [Module.visited, hmembers]
    simp
  have hfault : (leavingModule.exploreFunction solver 0 (.start [])).result =
      .error (.raised "SystemExit" none) :=
    Module.exploreFunction_escape rfl rfl List.mem_cons_self rfl
  rw [Module.Survey.result_eq_error_iff, Module.exploreAll_escape rfl, hvisited,
    List.findSome?_cons, Module.escapeOf_eq_some.mpr ⟨hfault, rfl⟩]

end Sample

end Pathwise
