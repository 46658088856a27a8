import Pathwise.Proofs.Traversal

/-!
# What a survey does not depend on

Which model a solver finds is its own choice. Exploring all functions of a module comes to the same
with every choice: the same functions in the same order, for each of them the same rounds on the
same paths and under the same conditions, and the same texts printed. The tests of two surveys
stand at the same places and are for the same names. Only the values in them differ, and the order
in which a test lists its names.

The models must not speak of anything but parameters, since a search ends where they do. A function
may change the variables of its module from round to round; what it leaves is the same with every
solver, and so is what the next function finds. A fault that ends all exploring does so at the same
place of both surveys.

* `roundsFrom_congr` — the rounds of a search with either solver.
* `conclude_same`, `exploreFrom_same` — one round and a whole search, with what they report.
* `Visit` — a function's turn in a survey; `exploreAll_eq` reads a survey off its visits.
* `Module.survey_independent` — two surveys.
-/

namespace Pathwise

/-! ## Tests for the same names -/

/-- The names that a test gives values, in its order. -/
def Test.names (t : Test) : List String := t.map Entry.name

/-- A test is for all parameters. -/
theorem Test.names_describe {m : Model} {params : List String} {test : Test}
    (h : (m.describe params).1 = .ok test) : (Test.names test).Perm params := by
  obtain ⟨entries⟩ := m
  simp only [Model.describe] at h
  induction entries generalizing params test with
  | nil =>
    -- what no declaration has taken is padded, from the last parameter to the first
    obtain rfl := Except.ok.inj h
    rw [names, Model.padding, List.map_map]
    have hnames : (params.reverse.map (Entry.name ∘ fun x => ⟨x, .zero⟩)) = params.reverse :=
      List.map_id' params.reverse
    rw [hnames]
    exact List.reverse_perm params
  | cons e entries ih =>
    obtain ⟨x, v⟩ := e
    obtain ⟨hx, rest, hrest, rfl⟩ := Model.of_describeEntries_cons h
    -- the name of the declaration was taken out of the parameters
    have hperm : (x :: names rest).Perm (x :: params.erase x) := (ih hrest).cons x
    exact hperm.trans (List.perm_cons_erase hx).symm

/-- Tests that give values to the same names, in whatever order. -/
def Test.Same (t t' : Test) : Prop := (Test.names t).Perm (Test.names t')

/-- Leaves on the same path and under the same conditions, with tests for the same names. -/
structure Leaf.Same (a b : Leaf) : Prop where
  path : a.path = b.path
  conditions : a.conditions = b.conditions
  test : ∃ t t', a.test = some t ∧ b.test = some t' ∧ Test.Same t t'

/-! ## One search -/

/-- The trails through which a run goes, one for each test. -/
def Run.trails {α : Type} (solver : Solver) : Run α → Trail → List Trail
  | .done _, t => [t]
  | .ask φ k, t => t :: (k (t.decide solver φ).1).trails solver (t.decide solver φ).2

/-- The reports of two searches that differ only in the values of tests. -/
structure Exploration.Same {ω : Type} (e e' : Exploration ω) : Prop where
  trail : e.trail = e'.trail
  world : e.world = e'.world
  output : e.output = e'.output
  leaves : List.Forall₂ Leaf.Same e.leaves e'.leaves
  result : (∃ tests tests', e.result = .ok tests ∧ e'.result = .ok tests' ∧
      List.Forall₂ Test.Same tests tests') ∨
    ∃ f, e.result = .error f ∧ e'.result = .error f

/-- A round that does not end the search has a test. -/
def Round.Tested {ω : Type} (solver : Solver) (params : List String) (r : Round ω) : Prop :=
  r.ending.escapes = false → ((r.ending.leaf? solver params r.trail).bind Leaf.test).isSome

section Search

variable {ω : Type} {solver solver' : Solver} {params : List String} {target : Target ω}

theorem Run.trails_congr {α : Type} (hS : solver.Decides) (hS' : solver'.Decides) (r : Run α)
    (t : Trail) : r.trails solver t = r.trails solver' t := by
  induction r generalizing t with
  | done a => rfl
  | ask φ k ih =>
    rw [trails, trails, Trail.decide_congr hS hS', ih]

theorem Round.Tested.exists_test {r : Round ω} (h : r.Tested solver params)
    (hno : r.ending.escapes = false) :
    ∃ leaf test, r.ending.leaf? solver params r.trail = some leaf ∧ leaf.test = some test ∧
      leaf.path = r.trail.path ∧ leaf.conditions = r.trail.conditions ∧
      (Test.names test).Perm params := by
  obtain ⟨test, hbind⟩ := Option.isSome_iff_exists.mp (h hno)
  obtain ⟨leaf, hleaf, htest⟩ := Option.bind_eq_some_iff.mp hbind
  have hfound := (Ending.leaf?_eq_some_iff.mp hleaf).2
  obtain ⟨hpath, hconditions, -⟩ := Solver.leaf?_eq_some hfound
  exact ⟨leaf, test, hleaf, htest, hpath, hconditions,
    Test.names_describe (Solver.describe_of_leaf hfound htest)⟩

/-- Where to go on after such a round can be read off its ending and its path. -/
theorem Round.Tested.resume?_eq {r : Round ω} (h : r.Tested solver params) :
    r.ending.resume? solver params r.trail =
      if r.ending.escapes then none else nextPath r.trail.path := by
  cases hescapes : r.ending.escapes with
  | true =>
    rw [Ending.resume?, Ending.leaf?_of_escapes hescapes]
    rfl
  | false => exact Ending.resume?_of_test (h hescapes)

/-- Rounds that all have tests follow each other in the same way with both solvers. -/
theorem roundsFrom_congr (hS : solver.Decides) (hS' : solver'.Decides) {n : Nat}
    {path : List Bool} {w : ω}
    (h : ∀ r ∈ roundsFrom solver params target n path w, r.Tested solver params)
    (h' : ∀ r ∈ roundsFrom solver' params target n path w, r.Tested solver' params) :
    roundsFrom solver params target n path w = roundsFrom solver' params target n path w := by
  induction n generalizing path w with
  | zero => rfl
  | succ n ih =>
    rw [roundsFrom_succ] at h h' ⊢
    rw [roundsFrom_succ]
    rw [Round.start_congr hS' hS] at h' ⊢
    generalize Round.start solver target path w = r at h h' ⊢
    rw [(h r List.mem_cons_self).resume?_eq] at h ⊢
    rw [(h' r List.mem_cons_self).resume?_eq] at h' ⊢
    cases hpath : if r.ending.escapes then none else nextPath r.trail.path with
    | none => rfl
    | some next =>
      rw [hpath] at h h'
      dsimp only
      rw [ih (fun r hr => h r (List.mem_cons_of_mem _ hr))
        fun r hr => h' r (List.mem_cons_of_mem _ hr)]

/-- After a round that has a test a search is done or takes the next path. -/
theorem conclude_of_test {e : Ending ω} {t : Trail} {leaf : Leaf} {test : Test}
    (hleaf : e.leaf? solver params t = some leaf) (htest : leaf.test = some test)
    (resume : List Bool → Exploration ω) :
    conclude solver params e t resume =
      match nextPath t.path with
      | none => ⟨⟨[], t.conditions⟩, e.world, e.printed, [leaf], .ok [test]⟩
      | some next => (resume next).prepend e.printed leaf test := by
  obtain ⟨hl, -⟩ | ⟨leaf', hl, ht, -⟩ | ⟨leaf', test', hl, ht, hn, -, he⟩ |
    ⟨leaf', test', next, hl, ht, hn, -, he⟩ := conclude_cases solver params e t resume
  · rw [hleaf] at hl
    cases hl
  · obtain rfl := Option.some.inj (hleaf.symm.trans hl)
    rw [htest] at ht
    cases ht
  · obtain rfl := Option.some.inj (hleaf.symm.trans hl)
    obtain rfl := Option.some.inj (htest.symm.trans ht)
    rw [he, hn]
  · obtain rfl := Option.some.inj (hleaf.symm.trans hl)
    obtain rfl := Option.some.inj (htest.symm.trans ht)
    rw [he, hn]

/-- A search that goes on after a leaf, with either solver. -/
theorem Exploration.Same.prepend {e e' : Exploration ω} (h : e.Same e') (output : List String)
    {leaf leaf' : Leaf} (hleaf : leaf.Same leaf') {test test' : Test}
    (htest : Test.Same test test') :
    (e.prepend output leaf test).Same (e'.prepend output leaf' test') := by
  refine ⟨h.trail, h.world, congrArg (output ++ ·) h.output, .cons hleaf h.leaves, ?_⟩
  simp only [Exploration.prepend]
  obtain ⟨tests, tests', hok, hok', htests⟩ | ⟨f, hf, hf'⟩ := h.result
  · rw [hok, hok']
    exact .inl ⟨test :: tests, test' :: tests', rfl, rfl, .cons htest htests⟩
  · rw [hf, hf']
    exact .inr ⟨f, rfl, rfl⟩

/-- One round and what follows it, with either solver. -/
theorem conclude_same {r : Round ω} {resume resume' : List Bool → Exploration ω}
    (h : r.Tested solver params) (h' : r.Tested solver' params)
    (hresume : ∀ next, r.ending.escapes = false → nextPath r.trail.path = some next →
      (resume next).Same (resume' next)) :
    (conclude solver params r.ending r.trail resume).Same
      (conclude solver' params r.ending r.trail resume') := by
  cases hescape : r.ending.escape? with
  | some f =>
    -- the run ends the search before a solver is asked for a model
    rw [conclude_of_escape hescape, conclude_of_escape hescape]
    exact ⟨rfl, rfl, rfl, .nil, .inr ⟨f, rfl, rfl⟩⟩
  | none =>
    have hno := Ending.escape?_eq_none_iff.mp hescape
    obtain ⟨leaf, test, hleaf, htest, hpath, hconditions, hnames⟩ := h.exists_test hno
    obtain ⟨leaf', test', hleaf', htest', hpath', hconditions', hnames'⟩ := h'.exists_test hno
    have hsame : Test.Same test test' := hnames.trans hnames'.symm
    have hleaves : leaf.Same leaf' :=
      ⟨hpath.trans hpath'.symm, hconditions.trans hconditions'.symm, test, test', htest, htest',
        hsame⟩
    rw [conclude_of_test hleaf htest, conclude_of_test hleaf' htest']
    cases hnext : nextPath r.trail.path with
    | none =>
      exact ⟨rfl, rfl, rfl, .cons hleaves .nil,
        .inl ⟨[test], [test'], rfl, rfl, .cons hsame .nil⟩⟩
    | some next => exact (hresume next hno hnext).prepend r.ending.printed hleaves hsame

/-- A whole search, with either solver. -/
theorem exploreFrom_same (hS : solver.Decides) (hS' : solver'.Decides) {n : Nat}
    {path : List Bool} {w : ω}
    (h : ∀ r ∈ roundsFrom solver params target n path w, r.Tested solver params)
    (h' : ∀ r ∈ roundsFrom solver' params target n path w, r.Tested solver' params) :
    (exploreFrom solver params target n path w).Same
      (exploreFrom solver' params target n path w) := by
  induction n generalizing path w with
  | zero => exact ⟨rfl, rfl, rfl, .nil, .inl ⟨[], [], rfl, rfl, .nil⟩⟩
  | succ n ih =>
    rw [roundsFrom_succ] at h h'
    rw [exploreFrom_succ, exploreFrom_succ]
    rw [Round.start_congr hS' hS] at h' ⊢
    generalize Round.start solver target path w = r at h h' ⊢
    -- both have made the round `r`, and after it both go on or both are done
    have hfirst := h r List.mem_cons_self
    have hfirst' := h' r List.mem_cons_self
    refine conclude_same hfirst hfirst' ?_
    intro next hno hnext
    rw [hfirst.resume?_eq, hno, if_neg Bool.false_ne_true, hnext] at h
    rw [hfirst'.resume?_eq, hno, if_neg Bool.false_ne_true, hnext] at h'
    exact ih (fun r hr => h r (List.mem_cons_of_mem _ hr))
      fun r hr => h' r (List.mem_cons_of_mem _ hr)

/-- A search of a steady target leaves its world as it is. -/
theorem exploreFrom_world {w : ω} (hsteady : target.Steady w) {n : Nat} {path : List Bool} :
    (exploreFrom solver params target n path w).world = w := by
  induction n generalizing path with
  | zero => rfl
  | succ n ih =>
    have hworld : (Round.start solver target path w).ending.world = w :=
      Run.Ensures.play hsteady solver (.start path)
    rw [exploreFrom_succ]
    generalize Round.start solver target path w = r at hworld ⊢
    obtain ⟨-, -, f, -, he⟩ | ⟨leaf, -, -, -, f, he⟩ | ⟨leaf, test, -, -, -, -, he⟩ |
      ⟨leaf, test, next, -, -, -, -, he⟩ :=
      conclude_cases solver params r.ending r.trail fun next =>
        exploreFrom solver params target n next r.ending.world
    all_goals rw [he]
    · exact hworld
    · exact hworld
    · exact hworld
    · -- the next round finds the world that this one left, which is the first one again
      rw [hworld]
      exact ih

/-- All rounds have tests or end the search, if its models declare parameters only. -/
theorem tested_of_declared (hS : solver.Decides) {w : ω}
    (h : ∀ leaf ∈ (explore solver params target w).leaves, leaf.model.DeclaredIn params) :
    ∀ r ∈ rounds solver params target w, r.Tested solver params := by
  intro r hr hno
  -- the round has a model, so it has a leaf; `h` is about the model of that leaf
  obtain ⟨m, hm⟩ := exists_solve_of_mem_rounds hS hr
  have hleaf : r.ending.leaf? solver params r.trail =
      some ⟨r.trail.path, r.trail.conditions, m, (m.describe params).1.toOption⟩ := by
    rw [Ending.leaf?_of_not_escapes hno, Solver.leaf?, hm]
  have hmem := h _ (by
    rw [explore, exploreFrom_leaves]
    exact List.mem_filterMap.mpr ⟨r, hr, hleaf⟩)
  obtain ⟨test, htest⟩ := Test.exists_describe hmem.1 hmem.2
  rw [hleaf, Option.bind_some, htest]
  rfl

end Search

/-! ## One function -/

/-- Records of a function that differ only in the values of tests. -/
structure Record.Same (a b : Record) : Prop where
  function : a.function = b.function
  params : a.params = b.params
  leaves : List.Forall₂ Leaf.Same a.leaves b.leaves

namespace Module

/-- The outcomes of exploring a function that differ only in the values of tests. -/
structure Finding.Same (a b : Finding) : Prop where
  module : a.module = b.module
  trail : a.trail = b.trail
  output : a.output = b.output
  record : Option.Rel Record.Same a.record b.record
  result : (∃ tests tests', a.result = .ok tests ∧ b.result = .ok tests' ∧
      List.Forall₂ Test.Same tests tests') ∨
    ∃ f, a.result = .error f ∧ b.result = .error f

/-- All models in a record declare parameters only. -/
def Finding.Declared (a : Finding) : Prop :=
  ∀ r ∈ a.record, ∀ leaf ∈ r.leaves, leaf.model.DeclaredIn r.params

section Function

variable {solver solver' : Solver} {m : Module} {index : Nat} {f : Function} {trail : Trail}

/-- Exploring a function fails before a solver is asked, or it is a search. -/
theorem exploreFunction_cases (m : Module) (index : Nat) (trail : Trail) :
    (∃ cause, ∀ solver, m.exploreFunction solver index trail =
      ⟨m, trail, [], none, .error cause⟩) ∨
    ∃ f, m.function? index = some f ∧ f.paramNames.forM encodable = .ok () := by
  cases hf : m.function? index with
  | none =>
    refine .inl ⟨.notCallable "NoneType", ?_⟩
    intro solver
    simp only [exploreFunction, hf]
  | some f =>
    cases henc : f.paramNames.forM encodable with
    | error cause =>
      refine .inl ⟨cause, ?_⟩
      intro solver
      simp only [exploreFunction, hf, henc]
    | ok _ => exact .inr ⟨f, rfl, henc⟩

/-- The rounds of exploring a function, with either solver. -/
theorem rounds_congr (hS : solver.Decides) (hS' : solver'.Decides)
    (hf : m.function? index = some f) (henc : f.paramNames.forM encodable = .ok ())
    (h : (m.exploreFunction solver index trail).Declared)
    (h' : (m.exploreFunction solver' index trail).Declared) :
    m.rounds solver index f = m.rounds solver' index f := by
  rw [exploreFunction_eq hf henc] at h h'
  exact roundsFrom_congr hS hS' (tested_of_declared hS (h _ rfl))
    (tested_of_declared hS' (h' _ rfl))

/-- Exploring a function, with either solver. -/
theorem exploreFunction_same (hS : solver.Decides) (hS' : solver'.Decides)
    (h : (m.exploreFunction solver index trail).Declared)
    (h' : (m.exploreFunction solver' index trail).Declared) :
    (m.exploreFunction solver index trail).Same (m.exploreFunction solver' index trail) := by
  obtain ⟨cause, hfails⟩ | ⟨f, hf, henc⟩ := exploreFunction_cases m index trail
  · rw [hfails solver, hfails solver']
    exact ⟨rfl, rfl, rfl, .none, .inr ⟨cause, rfl, rfl⟩⟩
  · rw [exploreFunction_eq hf henc] at h h' ⊢
    rw [exploreFunction_eq hf henc]
    have hsame := exploreFrom_same hS hS' (tested_of_declared hS (h _ rfl))
      (tested_of_declared hS' (h' _ rfl))
    exact ⟨congrArg (fun world => { m with memory := world }) hsame.world, hsame.trail,
      hsame.output, .some ⟨rfl, rfl, hsame.leaves⟩, hsame.result⟩

end Function

/-! ## All functions -/

/-- A function's turn in a survey: its name and place, and the module and the trail that it
finds. -/
structure Visit where
  name : String
  index : Nat
  module : Module
  trail : Trail

namespace Visit

variable (solver : Solver) (view : View) (v : Visit)

/-- What comes of the visit. -/
def finding : Finding := v.module.exploreFunction solver v.index v.trail

/-- The tests of the visit, as they are shown. -/
def shown : List Test := ((v.finding solver).record.map fun r => r.tests view).getD []

/-- The fault with which the visit ends the survey, if it does. -/
def escape? : Option Fault := (Fault.of? (v.finding solver).result).filter Fault.escapes

/-- The last line that is printed for the visit, unless it ends the survey. -/
def lastLine : List String :=
  match (v.finding solver).result with
  | .ok _ => ["Tests for " ++ v.name ++ ": " ++ testsText (v.shown solver view)]
  | .error f => if f.escapes then [] else ["Error executing " ++ v.name ++ ": " ++ f.message]

/-- All lines that are printed for the visit. -/
def lines : List String :=
  ["Executing " ++ v.name] ++ (v.finding solver).output ++ v.lastLine solver view

/-- The tests of the visit under its name, if there are any. -/
def tests : List (String × List Test) :=
  match (v.finding solver).result with
  | .ok _ => [(v.name, v.shown solver view)]
  | .error _ => []

end Visit

/-- The visits of functions, one after the other, up to one that ends the survey. -/
def visitsFrom (solver : Solver) : List (String × Nat) → Module → Trail → List Visit
  | [], _, _ => []
  | (name, index) :: rest, m, t =>
    let v : Visit := ⟨name, index, m, t⟩
    v :: if (v.escape? solver).isSome then []
      else visitsFrom solver rest (v.finding solver).module (v.finding solver).trail

/-- The module and the trail after visits. -/
def afterVisits (solver : Solver) : List (String × Nat) → Module → Trail → Module × Trail
  | [], m, t => (m, t)
  | (name, index) :: rest, m, t =>
    let v : Visit := ⟨name, index, m, t⟩
    if (v.escape? solver).isSome then ((v.finding solver).module, (v.finding solver).trail)
    else afterVisits solver rest (v.finding solver).module (v.finding solver).trail

/-- The functions of a module that a survey visits. -/
def visited (m : Module) : List (String × Nat) :=
  m.members.filter fun (name, _) => !name.startsWith "__"

/-- The visits of a survey. -/
def visits (solver : Solver) (m : Module) (trail : Trail) : List Visit :=
  visitsFrom solver m.visited m trail

theorem surveyOne_eq (solver : Solver) (view : View) (s : Survey) (name : String) (index : Nat) :
    let v : Visit := ⟨name, index, s.module, s.trail⟩
    surveyOne solver view s name index =
      ⟨(v.finding solver).module, (v.finding solver).trail, s.output ++ v.lines solver view,
        s.records ++ (v.finding solver).record.toList, s.tests ++ v.tests solver view,
        v.escape? solver⟩ := by
  intro v
  have hfinding : s.module.exploreFunction solver index s.trail = v.finding solver := rfl
  simp only [surveyOne, hfinding, Visit.lines, Visit.lastLine, Visit.tests, Visit.shown,
    Visit.escape?]
  cases (v.finding solver).result with
  | ok tests => simp [Fault.of?, v]
  | error f => cases hf : f.escapes <;> simp [Fault.of?, Option.filter, hf, v]

/-- What a survey adds to a report on functions before. -/
theorem surveyFrom_eq (solver : Solver) (view : View) (rest : List (String × Nat)) (s : Survey)
    (hs : s.escape = none) :
    surveyFrom solver view rest s =
      ⟨(afterVisits solver rest s.module s.trail).1, (afterVisits solver rest s.module s.trail).2,
        s.output ++
          (visitsFrom solver rest s.module s.trail).flatMap (Visit.lines solver view),
        s.records ++ (visitsFrom solver rest s.module s.trail).flatMap
          (fun v => (v.finding solver).record.toList),
        s.tests ++ (visitsFrom solver rest s.module s.trail).flatMap (Visit.tests solver view),
        (visitsFrom solver rest s.module s.trail).findSome? (Visit.escape? solver)⟩ := by
  induction rest generalizing s with
  | nil => simp [surveyFrom, visitsFrom, afterVisits, ← hs]
  | cons e rest ih =>
    obtain ⟨name, index⟩ := e
    simp only [surveyFrom, surveyOne_eq, visitsFrom, afterVisits]
    cases hescape : Visit.escape? solver ⟨name, index, s.module, s.trail⟩ with
    | some f => simp [hescape]
    | none =>
      -- the report so far has no fault, so the rest adds to it
      rw [Option.isSome_none, if_neg Bool.false_ne_true, if_neg Bool.false_ne_true,
        if_neg Bool.false_ne_true, ih _ rfl]
      simp [hescape]

/-- A survey, read off its visits. -/
theorem exploreAll_eq (solver : Solver) (view : View) (m : Module) (trail : Trail) :
    m.exploreAll solver view trail =
      ⟨(afterVisits solver m.visited m trail).1, (afterVisits solver m.visited m trail).2,
        (m.visits solver trail).flatMap (Visit.lines solver view),
        (m.visits solver trail).flatMap (fun v => (v.finding solver).record.toList),
        (m.visits solver trail).flatMap (Visit.tests solver view),
        (m.visits solver trail).findSome? (Visit.escape? solver)⟩ :=
  surveyFrom_eq solver view m.visited ⟨m, trail, [], [], [], none⟩ rfl

/-- Lines of two surveys at the same place: equal, unless they list tests. -/
inductive SameLine : String → String → Prop where
  | equal (line : String) : SameLine line line
  | tests (name : String) {ts ts' : List Test} (h : List.Forall₂ Test.Same ts ts') :
    SameLine ("Tests for " ++ name ++ ": " ++ testsText ts)
      ("Tests for " ++ name ++ ": " ++ testsText ts')

/-- The reports of two surveys that differ only in the values of tests. -/
structure Survey.Same (a b : Survey) : Prop where
  module : a.module = b.module
  trail : a.trail = b.trail
  output : List.Forall₂ SameLine a.output b.output
  records : List.Forall₂ Record.Same a.records b.records
  tests : List.Forall₂ (fun e e' => e.1 = e'.1 ∧ List.Forall₂ Test.Same e.2 e'.2) a.tests b.tests
  escape : a.escape = b.escape

/-- A visit with either solver: what comes of it, the rounds of the search, if one is made, and the
trails through which each round goes. -/
structure Visit.Same (solver solver' : Solver) (v : Visit) : Prop where
  finding : (v.finding solver).Same (v.finding solver')
  rounds : ∀ f, v.module.function? v.index = some f → f.paramNames.forM encodable = .ok () →
    v.module.rounds solver v.index f = v.module.rounds solver' v.index f ∧
    ∀ r ∈ v.module.rounds solver v.index f,
      (v.module.target v.index (f.paramNames.map .unknown) [] r.world).trails solver
          (.start r.path) =
        (v.module.target v.index (f.paramNames.map .unknown) [] r.world).trails solver'
          (.start r.path)

/-- All models that are found in a survey declare parameters only. -/
def DeclaresParams (solver : Solver) (m : Module) (trail : Trail) : Prop :=
  ∀ r ∈ (m.exploreAll solver .exact trail).records, ∀ leaf ∈ r.leaves,
    leaf.model.DeclaredIn r.params

section Survey

variable {solver solver' : Solver} {m : Module} {trail : Trail} {v : Visit}

theorem Visit.same_of_declared (hS : solver.Decides) (hS' : solver'.Decides)
    (h : (v.finding solver).Declared) (h' : (v.finding solver').Declared) :
    v.Same solver solver' where
  finding := exploreFunction_same hS hS' h h'
  rounds _ hf henc :=
    ⟨rounds_congr hS hS' hf henc h h', fun _ _ => Run.trails_congr hS hS' _ _⟩

/-- A visit that ends a survey does so with either solver. -/
theorem Visit.Same.escape (h : v.Same solver solver') :
    v.escape? solver = v.escape? solver' := by
  rw [Visit.escape?, Visit.escape?]
  obtain ⟨ts, ts', hok, hok', -⟩ | ⟨f, hf, hf'⟩ := h.finding.result
  · rw [hok, hok']
    rfl
  · rw [hf, hf']

/-- Visits go the same way with both solvers as long as their models declare parameters only. -/
theorem visitsFrom_congr (hS : solver.Decides) (hS' : solver'.Decides) (rest : List (String × Nat))
    (m : Module) (t : Trail)
    (h : ∀ v ∈ visitsFrom solver rest m t, (v.finding solver).Declared)
    (h' : ∀ v ∈ visitsFrom solver' rest m t, (v.finding solver').Declared) :
    visitsFrom solver rest m t = visitsFrom solver' rest m t ∧
      afterVisits solver rest m t = afterVisits solver' rest m t := by
  induction rest generalizing m t with
  | nil => exact ⟨rfl, rfl⟩
  | cons e rest ih =>
    obtain ⟨name, index⟩ := e
    rw [visitsFrom] at h h' ⊢
    rw [visitsFrom, afterVisits, afterVisits]
    -- what the first function leaves is the same, and so the others start alike
    have hfirst := Visit.same_of_declared hS hS' (h _ List.mem_cons_self)
      (h' _ List.mem_cons_self)
    rw [← hfirst.finding.module, ← hfirst.finding.trail, ← hfirst.escape] at h' ⊢
    cases hescape : Visit.escape? solver ⟨name, index, m, t⟩ with
    | some f => simp only [Option.isSome_some, if_true, and_self]
    | none =>
      simp only [hescape, Option.isSome_none, Bool.false_eq_true, if_false] at h h' ⊢
      obtain ⟨hvisits, hafter⟩ := ih _ _ (fun v hv => h v (List.mem_cons_of_mem _ hv))
        fun v hv => h' v (List.mem_cons_of_mem _ hv)
      exact ⟨by rw [hvisits], hafter⟩

theorem declared_of_mem_visits (h : m.DeclaresParams solver trail)
    (hv : v ∈ m.visits solver trail) : (v.finding solver).Declared := by
  intro r hr
  refine h r ?_
  rw [exploreAll_eq]
  exact List.mem_flatMap.mpr ⟨v, hv, Option.mem_toList.mpr hr⟩

theorem forall₂_tests {ls ls' : List Leaf} (h : List.Forall₂ Leaf.Same ls ls') :
    List.Forall₂ Test.Same (ls.filterMap Leaf.test) (ls'.filterMap Leaf.test) := by
  induction h with
  | nil => exact .nil
  | cons hleaf _ ih =>
    obtain ⟨t, t', ht, ht', hsame⟩ := hleaf.test
    rw [List.filterMap_cons_some ht, List.filterMap_cons_some ht']
    exact .cons hsame ih

theorem tests_exact (r : Record) : r.tests .exact = r.leaves.filterMap Leaf.test := by
  rw [Record.tests]
  refine List.filterMap_congr fun leaf _ => ?_
  show leaf.test.map id = leaf.test
  exact Option.map_id_apply

theorem forall₂_shown {a b : Option Record} (h : Option.Rel Record.Same a b) :
    List.Forall₂ Test.Same ((a.map fun r => r.tests .exact).getD [])
      ((b.map fun r => r.tests .exact).getD []) := by
  cases h with
  | none => exact .nil
  | some hsame =>
    rw [Option.map_some, Option.map_some, Option.getD_some, Option.getD_some, tests_exact,
      tests_exact]
    exact forall₂_tests hsame.leaves

theorem sameLine_self (ls : List String) : List.Forall₂ SameLine ls ls :=
  List.forall₂_same.mpr fun line _ => .equal line

theorem Visit.Same.lastLine (h : v.Same solver solver') :
    List.Forall₂ SameLine (v.lastLine solver .exact) (v.lastLine solver' .exact) := by
  rw [Visit.lastLine, Visit.lastLine]
  obtain ⟨ts, ts', hok, hok', -⟩ | ⟨f, hf, hf'⟩ := h.finding.result
  · rw [hok, hok']
    exact .cons (.tests v.name (forall₂_shown h.finding.record)) .nil
  · rw [hf, hf']
    exact sameLine_self _

theorem Visit.Same.lines (h : v.Same solver solver') :
    List.Forall₂ SameLine (v.lines solver .exact) (v.lines solver' .exact) := by
  rw [Visit.lines, Visit.lines, ← h.finding.output]
  exact List.rel_append (sameLine_self _) h.lastLine

theorem Visit.Same.tests (h : v.Same solver solver') :
    List.Forall₂ (fun e e' => e.1 = e'.1 ∧ List.Forall₂ Test.Same e.2 e'.2)
      (v.tests solver .exact) (v.tests solver' .exact) := by
  rw [Visit.tests, Visit.tests]
  obtain ⟨ts, ts', hok, hok', -⟩ | ⟨f, hf, hf'⟩ := h.finding.result
  · rw [hok, hok']
    exact .cons ⟨rfl, forall₂_shown h.finding.record⟩ .nil
  · rw [hf, hf']
    exact .nil

/--
**A survey does not depend on the choice of models.** Take two solvers that decide satisfiability,
and any module. If all models that they find in exploring its functions declare parameters only,
the two surveys visit the same functions, each in the same state of the module. Every visit has the
same rounds on the same paths, with the same conditions and texts, and goes through the same trails
in each. The reports have the same lines, except for the values in tests, as many tests for every
function, and tests for the same names at the same places. If one ends early with a fault, so does
the other.
-/
theorem survey_independent (hS : solver.Decides) (hS' : solver'.Decides)
    (h : m.DeclaresParams solver trail) (h' : m.DeclaresParams solver' trail) :
    m.visits solver trail = m.visits solver' trail ∧
    (∀ v ∈ m.visits solver trail, v.Same solver solver') ∧
    (m.exploreAll solver .exact trail).Same (m.exploreAll solver' .exact trail) := by
  obtain ⟨hvisits, hafter⟩ := visitsFrom_congr hS hS' m.visited m trail
    (fun v hv => declared_of_mem_visits h hv) fun v hv => declared_of_mem_visits h' hv
  replace hvisits : m.visits solver trail = m.visits solver' trail := hvisits
  have hsame : ∀ v ∈ m.visits solver trail, v.Same solver solver' := by
    intro v hv
    have hv' := hv
    rw [hvisits] at hv'
    exact Visit.same_of_declared hS hS' (declared_of_mem_visits h hv)
      (declared_of_mem_visits h' hv')
  refine ⟨hvisits, hsame, ?_⟩
  -- the visits are the same, so what is read off them one by one is compared one by one
  have hescape : (m.visits solver trail).findSome? (Visit.escape? solver) =
      (m.visits solver trail).findSome? (Visit.escape? solver') := by
    rw [← List.head?_filterMap, ← List.head?_filterMap,
      List.filterMap_congr fun v hv => (hsame v hv).escape]
  rw [exploreAll_eq, exploreAll_eq, ← hvisits, ← hafter]
  exact ⟨rfl, rfl, List.forall₂_flatMap fun v hv => (hsame v hv).lines,
    List.forall₂_flatMap fun v hv => List.forall₂_toList (hsame v hv).finding.record,
    List.forall₂_flatMap fun v hv => (hsame v hv).tests, hescape⟩

end Survey

/-! ## Modules without global declarations -/

section GlobalFree

variable {solver : Solver} {m : Module} {trail : Trail}

/-- Exploring a function leaves a module without global declarations as it is. -/
theorem finding_module (hm : m.globalFree = true) (solver : Solver) (index : Nat)
    (trail : Trail) : (m.exploreFunction solver index trail).module = m := by
  obtain ⟨cause, hfails⟩ | ⟨f, hf, henc⟩ := exploreFunction_cases m index trail
  · rw [hfails]
  · have hsteady := steady_of_globalFree hm index (f.paramNames.map .unknown) []
    rw [exploreFunction_eq hf henc]
    dsimp only
    rw [explore, exploreFrom_world hsteady]

theorem visit_module (hm : m.globalFree = true) {rest : List (String × Nat)} {t : Trail}
    {v : Visit} (hv : v ∈ visitsFrom solver rest m t) : v.module = m := by
  induction rest generalizing t with
  | nil => cases hv
  | cons e rest ih =>
    obtain ⟨name, index⟩ := e
    have hmodule : (Visit.finding solver ⟨name, index, m, t⟩).module = m :=
      finding_module hm solver index t
    rw [visitsFrom, List.mem_cons, hmodule] at hv
    rcases hv with rfl | hv
    · rfl
    · split at hv
      · cases hv
      · exact ih hv

/-- All models that are found in a module that behaves declare parameters only, given a solver
whose models declare unknowns of the formulas. -/
theorem WellBehaved.declaresParams (hm : m.WellBehaved) (hF : solver.Frugal) (trail : Trail) :
    m.DeclaresParams solver trail := by
  intro r hr leaf hleaf
  rw [exploreAll_eq] at hr
  obtain ⟨v, hv, hr⟩ := List.mem_flatMap.mp hr
  rw [Option.mem_toList, Visit.finding, visit_module hm.globalFree hv] at hr
  obtain ⟨cause, hfails⟩ | ⟨f, hf, henc⟩ := exploreFunction_cases m v.index v.trail
  · rw [hfails] at hr
    cases hr
  · rw [exploreFunction_eq hf henc] at hr
    obtain rfl := Option.some.inj hr
    dsimp only at hleaf ⊢
    rw [explore, exploreFrom_leaves] at hleaf
    obtain ⟨r, hr, hleaf⟩ := List.mem_filterMap.mp hleaf
    -- the conditions of a round are about parameters, and the models are about the conditions
    have hover := (hm.serves (some f.paramNames) v.index).over_of_mem_rounds rfl hr
    exact hF.declaredIn (Ending.leaf?_eq_some_iff.mp hleaf).2 fun c hc p hp =>
      (hover c hc).toFormula hp

end GlobalFree

end Module

/-! ## A sample -/

namespace Solver

open Classical in
/-- The solver that takes a given valuation wherever it can, and else any other. -/
noncomputable def preferring (ρ : Valuation) : Solver := fun φs =>
  if ρ.HoldsAll φs then some (.ofValuation ρ φs) else ideal φs

theorem preferring_eq_some {ρ : Valuation} {φs : List Formula} {m : Model}
    (h : preferring ρ φs = some m) :
    ∃ σ : Valuation, σ.HoldsAll φs ∧ m = .ofValuation σ φs := by
  unfold preferring at h
  split at h
  · rename_i hρ
    exact ⟨ρ, hρ, (Option.some.inj h).symm⟩
  · exact ideal_eq_some h

theorem preferring_of_holds {ρ : Valuation} {φs : List Formula} (h : ρ.HoldsAll φs) :
    preferring ρ φs = some (.ofValuation ρ φs) :=
  if_pos h

theorem preferring_correct (ρ : Valuation) : (preferring ρ).Correct := by
  refine correct_of_ofValuation ?_ fun _ _ => preferring_eq_some
  intro φs hsat
  unfold preferring
  split
  · rfl
  · exact ideal_correct.complete φs hsat

theorem preferring_frugal (ρ : Valuation) : (preferring ρ).Frugal :=
  frugal_of_ofValuation fun _ _ => preferring_eq_some

end Solver

namespace Sample

abbrev unreachableModule : Module := loaded unreachable ["foo", "bar"]

theorem unreachable_visited : unreachableModule.visited = [("bar", 1), ("foo", 0)] := by
  have hmembers : unreachableModule.members = [("bar", 1), ("foo", 0)] := by
    show List.mergeSort [("foo", 0), ("bar", 1)] _ = _
    simp [List.mergeSort]
  rw [Module.visited, hmembers]
  simp

/-- Two solvers that find different models of the same formula report the same of the sample in
which one function calls the other. -/
theorem unreachable_survey_independent :
    let one := Solver.preferring (Positive.valued 1)
    let seven := Solver.preferring (Positive.valued 7)
    one [Positive.above 0] ≠ seven [Positive.above 0] ∧
    Module.load .standard unreachable = .ok unreachableModule ∧
    unreachableModule.visited = [("bar", 1), ("foo", 0)] ∧
    unreachableModule.DeclaresParams one (.start []) ∧
    unreachableModule.DeclaresParams seven (.start []) ∧
    unreachableModule.visits one (.start []) = unreachableModule.visits seven (.start []) ∧
    (unreachableModule.exploreAll one .exact (.start [])).Same
      (unreachableModule.exploreAll seven .exact (.start [])) := by
  intro one seven
  constructor
  · have hone : one [Positive.above 0] = some (.ofValuation (Positive.valued 1) _) :=
      Solver.preferring_of_holds (by rintro φ (_ | ⟨_, ⟨⟩⟩); rfl)
    have hseven : seven [Positive.above 0] = some (.ofValuation (Positive.valued 7) _) :=
      Solver.preferring_of_holds (by rintro φ (_ | ⟨_, ⟨⟩⟩); rfl)
    rw [hone, hseven]
    intro heq
    have hx := congrArg (Model.int? · "x") (Option.some.inj heq)
    cases hx
  · have hload : Module.load .standard unreachable = .ok unreachableModule := rfl
    have hm : unreachableModule.WellBehaved :=
      Module.load_wellBehaved (by decide) (by decide) hload
    have hdecl := hm.declaresParams (Solver.preferring_frugal (Positive.valued 1)) (.start [])
    have hdecl' := hm.declaresParams (Solver.preferring_frugal (Positive.valued 7)) (.start [])
    obtain ⟨hvisits, -, hsame⟩ := Module.survey_independent
      (Solver.preferring_correct (Positive.valued 1)).decides
      (Solver.preferring_correct (Positive.valued 7)).decides hdecl hdecl'
    exact ⟨hload, unreachable_visited, hdecl, hdecl', hvisits, hsame⟩

end Sample

end Pathwise
