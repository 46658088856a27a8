import Pathwise.Proofs.Completeness
import Pathwise.Proofs.Reachable

/-!
# A search is a traversal

A search starts its target again for every leaf, and all that it keeps between two starts is a
path. `Run.traverse` is what one would write without that detour: walk the tree of tests once, and
at a choice take the true side and then the false one. For a target that starts alike every time
the two list the same conditions, one leaf after the other.

There are two differences. A search makes a test of every model that it finds, and it ends where
this fails: at a model that declares something that is no parameter. It also ends before it solves
anything where a run ends with a fault that ends the search. The traversal knows of no tests and of
no handlers, and goes on. So a search lists the conditions of the traversal before the first run
that ends it and up to the first that have no test, and all of them exactly if it returns.

* `Run.remaining_eq_traverse` — the leaves of a tree, as a solver sees them, are those of the
  traversal; by induction on the tree.
* `rounds_eq_traverse`, `leaves_eq_traverse` — the rounds and the leaves of a search of any steady
  target.
* `explore_ok_iff` — when such a search returns.
* `search_refines_traversal` — the same of exploring a call.
-/

namespace Pathwise

/-! ## The traversal -/

open Classical in
/-- The ends of a run with the conditions there, from left to right: a test follows the only outcome
that can be met and leaves no trace; if both can, it takes first the true and then the false one,
unless fifteen conditions are on record. -/
noncomputable def Run.traverse {α : Type} : Run α → List Held → List (α × List Held)
  | .done a, cs => [(a, cs)]
  | .ask φ k, cs =>
    match φ.toFormula with
    | .error f => (k (.error f)).traverse cs
    | .ok p =>
      if ¬ Possible (cs ++ [.term (.not p)]) then (k (.ok true)).traverse cs
      else if ¬ Possible (cs ++ [φ]) then (k (.ok false)).traverse cs
      else if cs.length < 15 then
        (k (.ok true)).traverse (cs ++ [φ]) ++ (k (.ok false)).traverse (cs ++ [.term (.not p)])
      else (k (.error .depthLimit)).traverse cs

section Traverse

variable {α : Type} {solver : Solver} {φ : Held} {k : Except Fault Bool → Run α} {p : Formula}
  {cs : List Held}

theorem Run.traverse_of_error {f : Fault} (hf : φ.toFormula = .error f) :
    (Run.ask φ k).traverse cs = (k (.error f)).traverse cs := by
  rw [traverse, hf]

theorem Run.traverse_of_forced (hp : φ.toFormula = .ok p) {side : Bool}
    (hpos : Possible (cs ++ [φ.outcome p side])) (hno : ¬ Possible (cs ++ [φ.outcome p !side])) :
    (Run.ask φ k).traverse cs = (k (.ok side)).traverse cs := by
  rw [traverse, hp]
  cases side with
  | true =>
    have hFalse : ¬ Possible (cs ++ [.term (.not p)]) := hno
    simp only [hFalse, not_false_eq_true, if_true]
  | false =>
    have hFalse : Possible (cs ++ [.term (.not p)]) := hpos
    have hTrue : ¬ Possible (cs ++ [φ]) := hno
    simp only [hFalse, hTrue, not_true_eq_false, not_false_eq_true, if_true, if_false]

theorem Run.traverse_of_either (hp : φ.toFormula = .ok p)
    (hpos : ∀ side, Possible (cs ++ [φ.outcome p side])) :
    (Run.ask φ k).traverse cs =
      if cs.length < 15 then
        (k (.ok true)).traverse (cs ++ [φ]) ++ (k (.ok false)).traverse (cs ++ [.term (.not p)])
      else (k (.error .depthLimit)).traverse cs := by
  have hTrue : Possible (cs ++ [φ]) := hpos true
  have hFalse : Possible (cs ++ [.term (.not p)]) := hpos false
  rw [traverse, hp]
  simp only [hTrue, hFalse, not_true_eq_false, if_false]

/-- The leaves that a solver finds are those of the traversal. -/
theorem Run.remaining_eq_traverse (hS : solver.Decides) (r : Run α) {t : Trail}
    (ht : t.Replayed) (hPos : Possible t.conditions) :
    (r.remaining solver t []).map (fun leaf => (leaf.1, leaf.2.conditions)) =
      r.traverse t.conditions := by
  -- induction on the run, for every trail: the two sides of a choice go on from longer ones
  induction r generalizing t with
  | done a => rfl
  | ask φ k ih =>
    obtain ⟨f, hf, hout⟩ | ⟨p, side, hp, hpos, hno, hout⟩ | ⟨p, hp, hpos, hout⟩ :=
      Trail.outlook_verdict hS hPos φ
    all_goals simp only [remaining, hout]
    · rw [traverse_of_error hf]
      exact ih _ ht hPos
    · rw [traverse_of_forced hp hpos hno]
      exact ih _ ht hPos
    · rw [traverse_of_either hp hpos]
      -- the path is as long as the conditions, so the limit on the one is that on the other
      have hlimit : depthLimit ≤ t.path.length ↔ ¬ t.conditions.length < 15 := by
        rw [ht, Nat.not_lt]
        rfl
      by_cases hfull : depthLimit ≤ t.path.length
      · rw [if_pos hfull, if_neg (hlimit.mp hfull)]
        exact ih _ ht hPos
      · have hTrue := ih (.ok true) (ht.take φ p true) (hpos true)
        have hFalse := ih (.ok false) (ht.take φ p false) (hpos false)
        rw [if_neg hfull, if_pos (not_not.mp (mt hlimit.mpr hfull)), List.map_append, hTrue, hFalse]
        rfl

end Traverse

/-! ## The leaves of a search -/

/-- The test for conditions, if there is one. -/
def Solver.test? (solver : Solver) (params : List String) (cs : List Held) : Option Test :=
  match solver.solve cs with
  | .ok (some m) => (m.describe params).1.toOption
  | _ => none

theorem Solver.bind_leaf? (solver : Solver) (params : List String) (t : Trail) :
    (solver.leaf? params t).bind Leaf.test = solver.test? params t.conditions := by
  rw [leaf?, test?]
  cases solver.solve t.conditions with
  | error f => rfl
  | ok found => cases found <;> rfl

/-- A search stops after a run that ends it, and where it finds no test. -/
theorem Ending.stops_eq {ω : Type} (solver : Solver) (params : List String) (e : Ending ω)
    (t : Trail) :
    e.stops solver params t = (e.escapes || (solver.test? params t.conditions).isNone) := by
  rw [stops]
  cases h : e.escapes with
  | true => rw [leaf?_of_escapes h, Option.bind_none, Option.isNone_none, Bool.true_or]
  | false => rw [leaf?_of_not_escapes h, Solver.bind_leaf?, Bool.false_or]

theorem map_upTo {α β : Type} (f : α → β) (stop : β → Bool) (l : List α) :
    (upTo (fun a => stop (f a)) l).map f = upTo stop (l.map f) := by
  induction l with
  | nil => rfl
  | cons a l ih =>
    rw [List.map_cons, upTo, upTo]
    split
    · rfl
    · rw [List.map_cons, ih]

theorem upTo_subset {α : Type} (stop : α → Bool) (l : List α) : upTo stop l ⊆ l := by
  induction l with
  | nil => exact List.Subset.refl []
  | cons a l ih =>
    rw [upTo]
    split
    · exact List.cons_subset_cons a (List.nil_subset l)
    · exact List.cons_subset_cons a ih

theorem upTo_of_forall {α : Type} {stop : α → Bool} {l : List α} (h : ∀ a ∈ l, stop a = false) :
    upTo stop l = l :=
  upTo_eq_self fun a ha => h a (upTo_subset stop l ha)

/-- Of what is left up to the first at which to stop or to go no further, the latter is not kept. -/
theorem filter_upTo {α : Type} (out stop : α → Bool) (l : List α) :
    (upTo (fun a => out a || stop a) l).filter (fun a => !out a) =
      upTo stop (l.takeWhile fun a => !out a) := by
  induction l with
  | nil => rfl
  | cons a l ih => cases hout : out a <;> cases hstop : stop a <;> simp [upTo, hout, hstop, ih]

theorem mem_upTo_append {α : Type} {stop : α → Bool} {before after : List α} {a : α}
    (h : ∀ b ∈ before, stop b = false) : a ∈ upTo stop (before ++ a :: after) := by
  induction before with
  | nil =>
    rw [List.nil_append, upTo]
    split <;> exact List.mem_cons_self
  | cons b before ih =>
    rw [List.cons_append, upTo, h b List.mem_cons_self]
    exact List.mem_cons_of_mem b (ih fun c hc => h c (List.mem_cons_of_mem b hc))

section Search

variable {ω : Type} {solver : Solver} {params : List String} {target : Target ω} {w : ω}

/-- Every round that does not end the search has a leaf, given a solver that decides
satisfiability. -/
theorem leaves_eq_filter (hS : solver.Decides) :
    (explore solver params target w).leaves.map Leaf.conditions =
      ((rounds solver params target w).filter fun r => !r.ending.escapes).map
        fun r => r.trail.conditions := by
  have hleaf : (fun r : Round ω => r.ending.leaf? solver params r.trail) = fun r =>
      if !r.ending.escapes then solver.leaf? params r.trail else none := by
    funext r
    rw [Ending.leaf?]
    cases r.ending.escapes <;> rfl
  rw [explore, exploreFrom_leaves, hleaf, ← List.filterMap_filter]
  refine List.map_filterMap_of_forall fun r hr => ?_
  obtain ⟨m, hm⟩ := exists_solve_of_mem_rounds hS (List.mem_of_mem_filter hr)
  exact ⟨_, by rw [Solver.leaf?, hm], rfl⟩

/-- The rounds of a steady target end as the traversal lists it, up to the first that ends the
search or has no test. -/
theorem rounds_eq_traverse (hS : solver.Decides) (hsteady : target.Steady w) :
    (rounds solver params target w).map (fun r => (r.ending, r.trail.conditions)) =
      upTo (fun e => e.1.escapes || (solver.test? params e.2).isNone)
        ((target w).traverse []) := by
  have hwalk := Run.remaining_eq_traverse hS (target w) Trail.replayed_start possible_nil
  have hrounds : (rounds solver params target w).map (fun r => (r.ending, r.trail)) = _ :=
    rounds_eq_upTo hsteady
  simp only [Ending.stops_eq] at hrounds
  -- where to stop can be read off the conditions, so both lists may be cut down to them first
  have hcut := map_upTo (fun leaf : Ending ω × Trail => (leaf.1, leaf.2.conditions))
    (fun e => e.1.escapes || (solver.test? params e.2).isNone)
    ((target w).remaining solver (.start []) [])
  rw [← hrounds, List.map_map, hwalk] at hcut
  exact hcut

/-- The leaves of a search of a steady target, read off the traversal. -/
theorem leaves_eq_traverse (hS : solver.Decides) (hsteady : target.Steady w) :
    (explore solver params target w).leaves.map Leaf.conditions =
      (upTo (fun e => (solver.test? params e.2).isNone)
        (((target w).traverse []).takeWhile fun e => !e.1.escapes)).map Prod.snd := by
  have hrounds : (rounds solver params target w).map
      (fun r => (r.ending, r.trail.conditions)) = _ := rounds_eq_traverse hS hsteady
  have hfilter := filter_upTo (fun e : Ending ω × List Held => e.1.escapes)
    (fun e => (solver.test? params e.2).isNone) ((target w).traverse [])
  rw [← hfilter, ← hrounds, List.filter_map, List.map_map, leaves_eq_filter hS]
  rfl

/-- Nothing is cut off where every run leaves the search going and has a test. -/
theorem upTo_traverse {ends : List (Ending ω × List Held)}
    (h : ∀ e ∈ ends, e.1.escapes = false ∧ (solver.test? params e.2).isSome) :
    upTo (fun e => e.1.escapes || (solver.test? params e.2).isNone) ends = ends :=
  upTo_of_forall fun e he => by
    rw [(h e he).1, Bool.false_or]
    exact Option.isNone_eq_false_iff.mpr (h e he).2

/-- A search of a steady target returns exactly if no run of the traversal ends it and all of them
have tests. -/
theorem explore_ok_iff (hS : solver.Decides) (hsteady : target.Steady w) :
    (∃ tests, (explore solver params target w).result = .ok tests) ↔
      ∀ e ∈ (target w).traverse [], e.1.escapes = false ∧ (solver.test? params e.2).isSome := by
  have hrounds : (rounds solver params target w).map
      (fun r => (r.ending, r.trail.conditions)) = _ := rounds_eq_traverse hS hsteady
  constructor
  · rintro ⟨tests, hok⟩
    -- all rounds have tests, so the list was not cut off
    have hall : ∀ e ∈ upTo (fun e => e.1.escapes || (solver.test? params e.2).isNone)
        ((target w).traverse []), e.1.escapes = false ∧ (solver.test? params e.2).isSome := by
      rw [← hrounds]
      intro e he
      obtain ⟨r, hr, rfl⟩ := List.mem_map.mp he
      have htest := isSome_test_of_ok hok r hr
      have hno := Ending.not_escapes_of_test htest
      rw [Ending.leaf?_of_not_escapes hno, Solver.bind_leaf?] at htest
      exact ⟨hno, htest⟩
    rwa [upTo_eq_self fun e he => by simpa using hall e he] at hall
  · -- nothing is cut off, so each round ends as a run of the traversal
    intro hall
    refine exploreFrom_ok fun r hr => ?_
    rw [upTo_traverse hall] at hrounds
    have hmem := List.mem_map_of_mem (f := fun r : Round ω => (r.ending, r.trail.conditions)) hr
    obtain ⟨hno, htest⟩ := hall _ (hrounds ▸ hmem)
    rw [Ending.leaf?_of_not_escapes hno, Solver.bind_leaf?]
    exact htest

/-- A search of a steady target that returns has a leaf for each end of the traversal. -/
theorem leaves_eq_ends {tests : List Test} (hS : solver.Decides) (hsteady : target.Steady w)
    (hok : (explore solver params target w).result = .ok tests) :
    (explore solver params target w).leaves.map Leaf.conditions =
      ((target w).traverse []).map Prod.snd := by
  have hrounds : (rounds solver params target w).map
      (fun r => (r.ending, r.trail.conditions)) = _ := rounds_eq_traverse hS hsteady
  rw [upTo_traverse ((explore_ok_iff hS hsteady).mp ⟨tests, hok⟩)] at hrounds
  rw [(leaves_of_ok hok).1, ← hrounds, List.map_map]
  rfl

/-- If a run that ends the search comes before all that have no test, the search fails with its
fault. -/
theorem explore_escape (hS : solver.Decides) (hsteady : target.Steady w)
    {before after : List (Ending ω × List Held)} {e : Ending ω × List Held} {fault : Fault}
    (hends : (target w).traverse [] = before ++ e :: after)
    (hbefore : ∀ b ∈ before, b.1.escapes = false ∧ (solver.test? params b.2).isSome)
    (hfault : e.1.escape? = some fault) :
    (explore solver params target w).result = .error fault := by
  have hmem : e ∈ (rounds solver params target w).map
      (fun r => (r.ending, r.trail.conditions)) := by
    rw [rounds_eq_traverse hS hsteady, hends]
    exact mem_upTo_append fun b hb => by simpa using hbefore b hb
  obtain ⟨r, hr, rfl⟩ := List.mem_map.mp hmem
  exact exploreFrom_escape hr hfault

end Search

namespace Module

variable {solver : Solver} {m : Module} {index : Nat} {f : Function}

theorem steady_of_globalFree (hglobal : m.globalFree = true) (index : Nat) (args : List Value)
    (keywords : List (String × Value)) : (m.target index args keywords).Steady m.memory := by
  have hserves : m.Serves index (m.demand none) := serves_demand hglobal (fun h => by cases h) index
  exact (hserves.target (fun v _ xs hxs => by cases hxs) fun e _ xs hxs => by cases hxs).mono
    (fun _ _ => trivial) fun _ he => he

/-- The ends of all runs of a call, with the conditions there, as the traversal lists them. -/
noncomputable def ends (m : Module) (index : Nat) (args : List Value)
    (keywords : List (String × Value)) : List (Ending Memory × List Held) :=
  (m.target index args keywords m.memory).traverse []

/--
**A search is a traversal.** A call in a module without global declarations leaves the memory of
the module alone. Exploring a call that does so, with a solver that decides satisfiability, solves
the conditions that the traversal lists, in the same order, before the first run that ends the
search and up to the first for which no test can be made. It returns tests exactly if there is no
such run and all have tests, and then it solves them all. If a run that ends the search comes first,
the search fails with the fault of this run.
-/
theorem search_refines_traversal (hS : solver.Decides) (hf : m.function? index = some f)
    (args : List Value) (keywords : List (String × Value)) (trail : Trail) :
    (m.globalFree = true → (m.target index args keywords).Steady m.memory) ∧
    ((m.target index args keywords).Steady m.memory →
      ∃ leaves, (m.testFunction solver index args keywords trail).record =
          some ⟨f.name, f.paramNames, leaves⟩ ∧
        leaves.map Leaf.conditions =
          (upTo (fun e => (solver.test? f.paramNames e.2).isNone)
            ((m.ends index args keywords).takeWhile fun e => !e.1.escapes)).map Prod.snd ∧
        ((∃ tests, (m.testFunction solver index args keywords trail).result = .ok tests) ↔
          ∀ e ∈ m.ends index args keywords,
            e.1.escapes = false ∧ (solver.test? f.paramNames e.2).isSome) ∧
        (∀ tests, (m.testFunction solver index args keywords trail).result = .ok tests →
          leaves.map Leaf.conditions = (m.ends index args keywords).map Prod.snd) ∧
        ∀ before e after fault, m.ends index args keywords = before ++ e :: after →
          (∀ b ∈ before, b.1.escapes = false ∧ (solver.test? f.paramNames b.2).isSome) →
          e.1.escape? = some fault →
          (m.testFunction solver index args keywords trail).result = .error fault) := by
  refine ⟨fun hglobal => steady_of_globalFree hglobal index args keywords, ?_⟩
  intro hsteady
  simp only [testFunction, hf]
  have hleaves : (explore solver f.paramNames _ _).leaves.map _ = _ :=
    leaves_eq_traverse hS hsteady
  have hok : (∃ tests, (explore solver f.paramNames _ _).result = .ok tests) ↔ _ :=
    explore_ok_iff hS hsteady
  exact ⟨_, rfl, hleaves, hok, fun tests => leaves_eq_ends hS hsteady,
    fun before e after fault => explore_escape hS hsteady⟩

end Module

/-! ## Samples -/

/-- The traversal of a test with nothing after it lists its two ends, if both can be met. -/
theorem Run.traverse_ask_done {α : Type} {φ : Held} {p : Formula} {k : Except Fault Bool → Run α}
    {cs : List Held} (hp : φ.toFormula = .ok p)
    (hpos : ∀ side, Possible (cs ++ [φ.outcome p side])) (hlt : cs.length < 15)
    {a b : α} (ha : k (.ok true) = .done a) (hb : k (.ok false) = .done b) :
    (Run.ask φ k).traverse cs = [(a, cs ++ [φ]), (b, cs ++ [.term (.not p)])] := by
  rw [traverse_of_either hp hpos, if_pos hlt, ha, hb]
  rfl

namespace Sample

/-- The only condition of the sample: a difference is even. -/
def evenDifference : Formula :=
  .eq (.mod (.ring .sub (.var .int "x") (.var .int "y")) (.int 2)) (.int 0)

theorem parity_ends : parityModule.ends 0 (["x", "y"].map .unknown) [] =
    [(⟨parityModule.memory, [], none⟩, [.term evenDifference]),
      (⟨parityModule.memory, [], none⟩, [.term (.not evenDifference)])] := by
  refine Run.traverse_ask_done (φ := .term evenDifference) rfl ?_ (by decide) rfl rfl
  rintro (_ | _)
  · exact ⟨Valuation.assigning ["x", "y"] [1, 0], by decide⟩
  · exact ⟨Valuation.assigning ["x", "y"] [0, 0], by decide⟩

/-- The sample is searched as it is traversed, and both its ends are found. -/
theorem parity_search_refines_traversal :
    Module.load .standard parity = .ok parityModule ∧ parityModule.globalFree = true ∧
    Solver.ideal.Decides ∧
    ∃ leaves tests,
      (parityModule.testFunction Solver.ideal 0 (["x", "y"].map .unknown) [] (.start [])).record =
        some ⟨"foo", ["x", "y"], leaves⟩ ∧
      (parityModule.testFunction Solver.ideal 0 (["x", "y"].map .unknown) [] (.start [])).result =
        .ok tests ∧
      leaves.map Leaf.conditions = [[.term evenDifference], [.term (.not evenDifference)]] := by
  have hS : Solver.ideal.Decides := Solver.ideal_correct.decides
  have hload : Module.load .standard parity = .ok parityModule := rfl
  have hm : parityModule.WellBehaved := Module.load_wellBehaved (by decide) (by decide) hload
  obtain ⟨f, hf, hname, hnames⟩ : ∃ f, parityModule.function? 0 = some f ∧ f.name = "foo" ∧
      f.paramNames = ["x", "y"] := ⟨_, rfl, rfl, rfl⟩
  obtain ⟨hsteady, hrefines⟩ :=
    Module.search_refines_traversal hS hf (["x", "y"].map .unknown) [] (.start [])
  obtain ⟨leaves, hrecord, -, -, hall, -⟩ := hrefines (hsteady hm.globalFree)
  have henc : f.paramNames.forM encodable = .ok () := by
    rw [hnames]
    rfl
  obtain ⟨tests, hok⟩ := hm.exploreFunction_ok Solver.ideal_correct Solver.ideal_frugal hf
    henc (by rw [hnames]; decide +kernel) (.start [])
  simp only [Module.exploreFunction, hf, henc] at hok
  rw [hnames] at hok
  rw [hname, hnames] at hrecord
  exact ⟨hload, hm.globalFree, hS, leaves, tests, hrecord, hok,
    (hall tests hok).trans (congrArg (List.map Prod.snd) parity_ends)⟩

/-- A remainder by an unknown, on the second of two levels. -/
def openRemainder : Program := moduleOf [
  define 1 "f" ["x", "y"] [
    (2, .branch (.compare (.order .gt) (.name "x") (num 0))
      (.ofList [(3, .print "B")])
      (.ofList [(5, .branch
        (.compare .eq (.binary (.arith .mod) (.name "x") (.name "y")) (num 1))
        (.ofList [(6, .print "A")])
        .done)]))]]

abbrev openRemainderModule : Module := loaded openRemainder ["f"]

/-- The first condition of the sample. -/
def positive : Formula := .order .gt (.var .int "x") (.int 0)

/-- The second condition of the sample. -/
def leavesOne : Formula := .eq (.mod (.var .int "x") (.var .int "y")) (.int 1)

theorem possible_positive (side : Bool) :
    Possible ([] ++ [Held.outcome (.term positive) positive side]) := by
  cases side with
  | true => exact ⟨Valuation.assigning ["x", "y"] [1, 0], by decide⟩
  | false => exact ⟨Valuation.assigning ["x", "y"] [0, 0], by decide⟩

theorem possible_leavesOne (side : Bool) :
    Possible ([.term (.not positive)] ++ [Held.outcome (.term leavesOne) leavesOne side]) := by
  cases side with
  | true => exact ⟨Valuation.assigning ["x", "y"] [-1, 2], by decide⟩
  | false => exact ⟨Valuation.assigning ["x", "y"] [0, 2], by decide⟩

/-- There are three ends, two of them with a condition on the remainder. -/
theorem openRemainder_ends :
    openRemainderModule.ends 0 (["x", "y"].map .unknown) [] =
      [(⟨openRemainderModule.memory, ["B"], none⟩, [.term positive]),
        (⟨openRemainderModule.memory, ["A"], none⟩, [.term (.not positive), .term leavesOne]),
        (⟨openRemainderModule.memory, [], none⟩,
          [.term (.not positive), .term (.not leavesOne)])] := by
  refine (Run.traverse_of_either (φ := .term positive) rfl possible_positive).trans ?_
  rw [if_pos (by decide)]
  refine congrArg (List.cons
    ((⟨openRemainderModule.memory, ["B"], none⟩, [.term positive]) : Ending Memory × List Held)) ?_
  exact Run.traverse_ask_done (φ := .term leavesOne) rfl possible_leavesOne (by decide) rfl rfl

theorem test?_positive : (Solver.ideal.test? ["x", "y"] [.term positive]).isSome = true := by
  obtain ⟨m, hm⟩ := Solver.ideal_correct.decides.exists_solve (possible_positive true)
  have hideal : Solver.ideal [positive] = some m := Except.ok.inj hm
  obtain ⟨ρ, -, rfl⟩ := Solver.ideal_eq_some hideal
  rw [Solver.test?, show Solver.ideal.solve [.term positive] = _ from hm]
  rfl

/-- A model of the remainder also speaks of remainders by zero, and those are no parameter. -/
theorem test?_leavesOne :
    Solver.ideal.test? ["x", "y"] [.term (.not positive), .term leavesOne] = none := by
  obtain ⟨m, hm⟩ := Solver.ideal_correct.decides.exists_solve (possible_leavesOne true)
  have hideal : Solver.ideal [.not positive, leavesOne] = some m := Except.ok.inj hm
  obtain ⟨ρ, -, rfl⟩ := Solver.ideal_eq_some hideal
  rw [Solver.test?, show Solver.ideal.solve [.term (.not positive), .term leavesOne] = _ from hm]
  rfl

/-- Two searches that end before the traversal does. One finds no test for the second of three
conditions and solves only two. The other comes to a fault that ends it and solves none. -/
theorem searches_unfinished :
    Solver.ideal.Decides ∧
    Module.load .standard openRemainder = .ok openRemainderModule ∧
    openRemainderModule.globalFree = true ∧
    (openRemainderModule.ends 0 (["x", "y"].map .unknown) []).map Prod.snd =
      [[.term positive], [.term (.not positive), .term leavesOne],
        [.term (.not positive), .term (.not leavesOne)]] ∧
    (∃ leaves,
      (openRemainderModule.exploreFunction Solver.ideal 0 (.start [])).record =
        some ⟨"f", ["x", "y"], leaves⟩ ∧
      leaves.map Leaf.conditions =
        [[.term positive], [.term (.not positive), .term leavesOne]]) ∧
    Module.load .standard leaving = .ok leavingModule ∧ leavingModule.globalFree = true ∧
    (leavingModule.ends 0 (["x"].map .unknown) []).map Prod.snd = [[]] ∧
    (leavingModule.exploreFunction Solver.ideal 0 (.start [])).record =
      some ⟨"f", ["x"], []⟩ := by
  have hS : Solver.ideal.Decides := Solver.ideal_correct.decides
  refine ⟨hS, rfl, rfl, congrArg (List.map Prod.snd) openRemainder_ends, ?_, rfl, rfl, rfl, ?_⟩
  · have hsteady := Module.steady_of_globalFree (m := openRemainderModule) rfl 0
      (["x", "y"].map .unknown) []
    rw [Module.exploreFunction_eq rfl rfl]
    refine ⟨_, rfl, (leaves_eq_traverse hS hsteady).trans ?_⟩
    -- no run ends this search; it is the second end that has no test
    have hstay : (openRemainderModule.ends 0 (["x", "y"].map .unknown) []).takeWhile
        (fun e => !e.1.escapes) = openRemainderModule.ends 0 (["x", "y"].map .unknown) [] := by
      rw [openRemainder_ends]
      rfl
    show (upTo (fun e => (Solver.ideal.test? ["x", "y"] e.2).isNone)
      ((openRemainderModule.ends 0 (["x", "y"].map .unknown) []).takeWhile _)).map Prod.snd = _
    rw [hstay, openRemainder_ends, upTo, upTo, ← Option.not_isSome, test?_positive,
      test?_leavesOne]
    rfl
  · have hsteady := Module.steady_of_globalFree (m := leavingModule) rfl 0 (["x"].map .unknown) []
    have hleaves : (explore Solver.ideal ["x"] _ _).leaves.map Leaf.conditions = [] :=
      leaves_eq_traverse hS hsteady
    rw [Module.exploreFunction_eq rfl rfl]
    exact congrArg (fun leaves => some (Record.mk "f" ["x"] leaves))
      (List.map_eq_nil_iff.mp hleaves)

end Sample

end Pathwise
