import Mathlib.Data.List.Basic
import Pathwise.Proofs.Decision
import Pathwise.Search.Exploration

/-!
# The rounds of a search

A search runs its target round after round. `explore` keeps only what it reports; a `Round` is all
there is to say of one run of the target: the path and the world it starts with, how it ends, and
the trail it ends on. `rounds` lists the rounds of a search in order.

A round can end with a fault that ends the search as well. It is the last one then, and has no leaf.

* `exploreFrom_leaves`, `exploreFrom_output` — what a search reports, read off its rounds.
* `exploreFrom_tests` — a search that returns tests has found one in every round.
* `exploreFrom_escape` — a search that is ended by a fault of its target fails with this fault.
* `Trail.decide_cases` — all that one test can do to the trail of a round.
-/

namespace Pathwise

namespace Trail

/-! ## One test -/

/-- All that a test can do to a trail: leave it alone, follow its path, or make it longer. -/
theorem decide_cases (solver : Solver) (φ : Held) (t : Trail) :
    (∃ f, t.decide solver φ = (.error f, t)) ∨
    (∃ side, outlook solver φ t.conditions = .forced side ∧ t.decide solver φ = (.ok side, t)) ∨
    (∃ p side, outlook solver φ t.conditions = .either p ∧
      t.path[t.conditions.length]? = some side ∧
      t.decide solver φ = (.ok side, ⟨t.path, t.record φ p side⟩)) ∨
    (∃ p, outlook solver φ t.conditions = .either p ∧ t.path[t.conditions.length]? = none ∧
      t.path.length < depthLimit ∧
      t.decide solver φ = (.ok true, ⟨t.path ++ [true], t.record φ p true⟩)) := by
  rw [decide_eq]
  cases outlook solver φ t.conditions with
  | fault f => exact .inl ⟨f, rfl⟩
  | forced side => exact .inr (.inl ⟨side, rfl, rfl⟩)
  | either p =>
    simp only [branch]
    cases t.path[t.conditions.length]? with
    | some side => exact .inr (.inr (.inl ⟨p, side, rfl, rfl, rfl⟩))
    | none =>
      by_cases hd : depthLimit ≤ t.path.length
      · exact .inl ⟨.depthLimit, by simp [hd]⟩
      · exact .inr (.inr (.inr ⟨p, rfl, rfl, by omega, by simp [hd]⟩))

end Trail

/-! ## The rounds -/

/-- One run of a target in a search. -/
structure Round (ω : Type) where
  /-- The path that the run starts with. -/
  path : List Bool
  /-- The world that the run starts in. -/
  world : ω
  ending : Ending ω
  /-- The trail that the run ends on. -/
  trail : Trail

/-- What a solver finds for the end of a run: nothing if it finds no model. -/
def Solver.leaf? (solver : Solver) (params : List String) (t : Trail) : Option Leaf :=
  match solver.solve t.conditions with
  | .ok (some m) => some ⟨t.path, t.conditions, m, (m.describe params).1.toOption⟩
  | _ => none

/-- A leaf holds the end of the trail, the model that was found for it and the test it describes. -/
theorem Solver.leaf?_eq_some {solver : Solver} {params : List String} {t : Trail} {leaf : Leaf}
    (h : solver.leaf? params t = some leaf) :
    leaf.path = t.path ∧ leaf.conditions = t.conditions ∧
      leaf.test = (leaf.model.describe params).1.toOption ∧
      ∃ φs, Held.toFormulas t.conditions = .ok φs ∧ solver φs = some leaf.model := by
  unfold Solver.leaf? Solver.solve at h
  cases hφs : Held.toFormulas t.conditions with
  | error f => simp [hφs, Except.map] at h
  | ok φs =>
    cases hm : solver φs with
    | none => simp [hφs, hm, Except.map] at h
    | some m =>
      obtain rfl : _ = leaf := by simpa only [hφs, hm, Except.map, Option.some.injEq] using h
      exact ⟨rfl, rfl, rfl, φs, rfl, hm⟩

namespace Ending

variable {ω : Type}

/-- What a search finds at the end of a run: nothing if the run ends the search. -/
def leaf? (solver : Solver) (params : List String) (e : Ending ω) (t : Trail) : Option Leaf :=
  if e.escapes then none else solver.leaf? params t

/-- The path with which a search goes on after a run, if it does. -/
def resume? (solver : Solver) (params : List String) (e : Ending ω) (t : Trail) :
    Option (List Bool) :=
  ((e.leaf? solver params t).bind Leaf.test).bind fun _ => nextPath t.path

variable {solver : Solver} {params : List String} {e : Ending ω} {t : Trail}

theorem escape?_eq_none_iff : e.escape? = none ↔ e.escapes = false := by
  cases h : e.fault with
  | none => simp [escape?, escapes, h]
  | some f => cases hf : f.escapes <;> simp [escape?, escapes, h, hf]

theorem escape?_eq_some_iff {f : Fault} :
    e.escape? = some f ↔ e.fault = some f ∧ f.escapes = true := Option.filter_eq_some_iff

theorem escapes_of_escape? {f : Fault} (h : e.escape? = some f) : e.escapes = true := by
  obtain ⟨hfault, hf⟩ := escape?_eq_some_iff.mp h
  rw [escapes, hfault, Option.any_some, hf]

theorem leaf?_of_not_escapes (h : e.escapes = false) :
    e.leaf? solver params t = solver.leaf? params t := by
  rw [leaf?, h]
  rfl

theorem leaf?_of_escapes (h : e.escapes = true) : e.leaf? solver params t = none := by
  rw [leaf?, h]
  rfl

theorem leaf?_eq_some_iff {leaf : Leaf} :
    e.leaf? solver params t = some leaf ↔
      e.escapes = false ∧ solver.leaf? params t = some leaf := by
  cases h : e.escapes with
  | false => simp [leaf?_of_not_escapes h]
  | true => simp [leaf?_of_escapes h]

/-- A run that has a test does not end the search. -/
theorem not_escapes_of_test (h : ((e.leaf? solver params t).bind Leaf.test).isSome) :
    e.escapes = false := by
  obtain ⟨test, htest⟩ := Option.isSome_iff_exists.mp h
  obtain ⟨leaf, hleaf, -⟩ := Option.bind_eq_some_iff.mp htest
  exact (leaf?_eq_some_iff.mp hleaf).1

/-- A run that has a test is followed along the next path. -/
theorem resume?_of_test (h : ((e.leaf? solver params t).bind Leaf.test).isSome) :
    e.resume? solver params t = nextPath t.path := by
  obtain ⟨test, htest⟩ := Option.isSome_iff_exists.mp h
  rw [resume?, htest]
  rfl

end Ending

section Search

variable {ω : Type} (solver : Solver) (params : List String) (target : Target ω)

/-- The round that starts with a path in a world. -/
def Round.start (path : List Bool) (w : ω) : Round ω :=
  let out := (target w).play solver (.start path)
  ⟨path, w, out.1, out.2⟩

/-- The rounds of a search from a path on, at most the given number. -/
def roundsFrom : Nat → List Bool → ω → List (Round ω)
  | 0, _, _ => []
  | n + 1, path, w =>
    let r := Round.start solver target path w
    r :: match r.ending.resume? solver params r.trail with
      | some next => roundsFrom n next r.ending.world
      | none => []

/-- The rounds of a whole search. -/
def rounds (w : ω) : List (Round ω) := roundsFrom solver params target (Nat.pow 2 depthLimit) [] w

variable {solver params target}

theorem conclude_of_escape {e : Ending ω} {f : Fault} (h : e.escape? = some f) (t : Trail)
    (resume : List Bool → Exploration ω) :
    conclude solver params e t resume = ⟨t, e.world, e.printed, [], .error f⟩ := by
  rw [conclude, h]

theorem conclude_of_not_escapes {e : Ending ω} (h : e.escapes = false) (t : Trail)
    (resume : List Bool → Exploration ω) :
    conclude solver params e t resume = proceed solver params e t resume := by
  rw [conclude, Ending.escape?_eq_none_iff.mpr h]

/-- How a search goes on after a run: it fails without a leaf, and if the run ends with a fault that
ends the search, with this one; it fails at a leaf that has no test; it is done, or it takes the
next path. -/
theorem conclude_cases (solver : Solver) (params : List String) (e : Ending ω) (t : Trail)
    (resume : List Bool → Exploration ω) :
    (e.leaf? solver params t = none ∧ e.resume? solver params t = none ∧
      ∃ f, (∀ g, e.escape? = some g → f = g) ∧
        conclude solver params e t resume = ⟨t, e.world, e.printed, [], .error f⟩) ∨
    (∃ leaf, e.leaf? solver params t = some leaf ∧ leaf.test = none ∧
      e.resume? solver params t = none ∧
      ∃ f, conclude solver params e t resume = ⟨t, e.world, e.printed, [leaf], .error f⟩) ∨
    (∃ leaf test, e.leaf? solver params t = some leaf ∧ leaf.test = some test ∧
      nextPath t.path = none ∧ e.resume? solver params t = none ∧
      conclude solver params e t resume =
        ⟨⟨[], t.conditions⟩, e.world, e.printed, [leaf], .ok [test]⟩) ∨
    (∃ leaf test next, e.leaf? solver params t = some leaf ∧ leaf.test = some test ∧
      nextPath t.path = some next ∧ e.resume? solver params t = some next ∧
      conclude solver params e t resume = (resume next).prepend e.printed leaf test) := by
  cases hescape : e.escape? with
  | some g =>
    have hl : e.leaf? solver params t = none :=
      Ending.leaf?_of_escapes (Ending.escapes_of_escape? hescape)
    refine .inl ⟨hl, by simp [Ending.resume?, hl], g, ?_, conclude_of_escape hescape t resume⟩
    rintro g' ⟨rfl⟩
    rfl
  | none =>
    have hno := Ending.escape?_eq_none_iff.mp hescape
    simp only [Ending.resume?, Ending.leaf?_of_not_escapes hno, conclude_of_not_escapes hno,
      reduceCtorEq, false_implies, implies_true, true_and]
    -- the cases of `proceed`: no model, no test for the model, no next path, and another round
    cases hs : solver.solve t.conditions with
    | error f =>
      have hl : solver.leaf? params t = none := by simp [Solver.leaf?, hs]
      exact .inl ⟨hl, by simp [hl], f, by simp [proceed, hs]⟩
    | ok found =>
      cases found with
      | none =>
        have hl : solver.leaf? params t = none := by simp [Solver.leaf?, hs]
        exact .inl ⟨hl, by simp [hl], .noModel, by simp [proceed, hs]⟩
      | some m =>
        cases hd : (m.describe params).1 with
        | error f =>
          have hl : solver.leaf? params t = some ⟨t.path, t.conditions, m, none⟩ := by
            simp [Solver.leaf?, hs, hd, Except.toOption]
          exact .inr (.inl ⟨_, hl, rfl, by simp [hl], f, by simp [proceed, hs, hd]⟩)
        | ok test =>
          have hl : solver.leaf? params t = some ⟨t.path, t.conditions, m, some test⟩ := by
            simp [Solver.leaf?, hs, hd, Except.toOption]
          cases hn : nextPath t.path with
          | none =>
            exact .inr (.inr (.inl ⟨_, test, hl, rfl, rfl, by simp [hl],
              by simp [proceed, hs, hd, hn]⟩))
          | some next =>
            exact .inr (.inr (.inr ⟨_, test, next, hl, rfl, rfl, by simp [hl],
              by simp [proceed, hs, hd, hn]⟩))

theorem exploreFrom_succ (n : Nat) (path : List Bool) (w : ω) :
    exploreFrom solver params target (n + 1) path w =
      conclude solver params (Round.start solver target path w).ending
        (Round.start solver target path w).trail fun next =>
          exploreFrom solver params target n next
            (Round.start solver target path w).ending.world := rfl

theorem roundsFrom_succ (n : Nat) (path : List Bool) (w : ω) :
    roundsFrom solver params target (n + 1) path w =
      Round.start solver target path w ::
        match (Round.start solver target path w).ending.resume? solver params
            (Round.start solver target path w).trail with
        | some next =>
          roundsFrom solver params target n next (Round.start solver target path w).ending.world
        | none => [] := rfl

theorem exploreFrom_leaves (n : Nat) (path : List Bool) (w : ω) :
    (exploreFrom solver params target n path w).leaves =
      (roundsFrom solver params target n path w).filterMap
        fun r => r.ending.leaf? solver params r.trail := by
  induction n generalizing path w with
  | zero => rfl
  | succ n ih =>
    rw [exploreFrom_succ, roundsFrom_succ]
    generalize Round.start solver target path w = r
    obtain ⟨hl, hr, f, -, he⟩ | ⟨leaf, hl, -, hr, f, he⟩ | ⟨leaf, test, hl, -, -, hr, he⟩ |
      ⟨leaf, test, next, hl, -, -, hr, he⟩ :=
      conclude_cases solver params r.ending r.trail fun next =>
        exploreFrom solver params target n next r.ending.world
    all_goals rw [he, hr]
    all_goals simp [hl, ih, Exploration.prepend]

theorem exploreFrom_output (n : Nat) (path : List Bool) (w : ω) :
    (exploreFrom solver params target n path w).output =
      (roundsFrom solver params target n path w).flatMap fun r => r.ending.printed := by
  induction n generalizing path w with
  | zero => rfl
  | succ n ih =>
    rw [exploreFrom_succ, roundsFrom_succ]
    generalize Round.start solver target path w = r
    obtain ⟨-, hr, f, -, he⟩ | ⟨leaf, -, -, hr, f, he⟩ | ⟨leaf, test, -, -, -, hr, he⟩ |
      ⟨leaf, test, next, -, -, -, hr, he⟩ :=
      conclude_cases solver params r.ending r.trail fun next =>
        exploreFrom solver params target n next r.ending.world
    all_goals rw [he, hr]
    all_goals simp [ih, Exploration.prepend]

/-- A search that returns tests has found one in every round. -/
theorem exploreFrom_tests {n : Nat} {path : List Bool} {w : ω} {tests : List Test}
    (h : (exploreFrom solver params target n path w).result = .ok tests) :
    (roundsFrom solver params target n path w).map
        (fun r => (r.ending.leaf? solver params r.trail).bind Leaf.test) = tests.map some := by
  induction n generalizing path w tests with
  | zero =>
    obtain rfl : [] = tests := Except.ok.inj h
    rfl
  | succ n ih =>
    rw [exploreFrom_succ] at h
    rw [roundsFrom_succ]
    generalize Round.start solver target path w = r at h ⊢
    obtain ⟨-, -, f, -, he⟩ | ⟨leaf, -, -, -, f, he⟩ | ⟨leaf, test, hl, ht, -, hr, he⟩ |
      ⟨leaf, test, next, hl, ht, -, hr, he⟩ :=
      conclude_cases solver params r.ending r.trail fun next =>
        exploreFrom solver params target n next r.ending.world
    · rw [he] at h
      cases h
    · rw [he] at h
      cases h
    · rw [he] at h
      obtain rfl : [test] = tests := Except.ok.inj h
      rw [hr]
      simp [hl, ht]
    · rw [he, Exploration.prepend] at h
      dsimp only at h
      cases hrest : (exploreFrom solver params target n next r.ending.world).result with
      | error f =>
        rw [hrest] at h
        cases h
      | ok rest =>
        rw [hrest] at h
        obtain rfl : test :: rest = tests := Except.ok.inj h
        rw [hr]
        simp [hl, ht, ih hrest]

/-- A search that finds a test in every round returns them. -/
theorem exploreFrom_ok {n : Nat} {path : List Bool} {w : ω}
    (h : ∀ r ∈ roundsFrom solver params target n path w,
      ((r.ending.leaf? solver params r.trail).bind Leaf.test).isSome) :
    ∃ tests, (exploreFrom solver params target n path w).result = .ok tests := by
  induction n generalizing path w with
  | zero => exact ⟨[], rfl⟩
  | succ n ih =>
    rw [roundsFrom_succ] at h
    rw [exploreFrom_succ]
    generalize Round.start solver target path w = r at h ⊢
    -- a test of the first round leaves the cases where the search is done or goes on
    have hfirst := h r List.mem_cons_self
    obtain ⟨hl, -, f, -, he⟩ | ⟨leaf, hl, ht, -, f, he⟩ | ⟨leaf, test, -, -, -, hr, he⟩ |
      ⟨leaf, test, next, -, -, -, hr, he⟩ :=
      conclude_cases solver params r.ending r.trail fun next =>
        exploreFrom solver params target n next r.ending.world
    · simp [hl] at hfirst
    · simp [hl, ht] at hfirst
    · exact ⟨[test], by rw [he]⟩
    · rw [hr] at h
      obtain ⟨tests, htests⟩ := ih fun r hr => h r (List.mem_cons_of_mem _ hr)
      exact ⟨test :: tests, by rw [he, Exploration.prepend, htests]; rfl⟩

/-- If a round ends with a fault that ends the search, the search fails with this fault. -/
theorem exploreFrom_escape {n : Nat} {path : List Bool} {w : ω} {r : Round ω} {f : Fault}
    (hr : r ∈ roundsFrom solver params target n path w) (hf : r.ending.escape? = some f) :
    (exploreFrom solver params target n path w).result = .error f := by
  induction n generalizing path w with
  | zero => cases hr
  | succ n ih =>
    rw [roundsFrom_succ, List.mem_cons] at hr
    rw [exploreFrom_succ]
    rcases hr with rfl | hr
    · rw [conclude_of_escape hf]
    · -- there is a later round only if the search went on along the next path
      generalize Round.start solver target path w = first at hr ⊢
      obtain ⟨-, hr', -⟩ | ⟨leaf, -, -, hr', -⟩ | ⟨leaf, test, -, -, -, hr', -⟩ |
        ⟨leaf, test, next, -, -, -, hr', he⟩ :=
        conclude_cases solver params first.ending first.trail fun next =>
          exploreFrom solver params target n next first.ending.world
      all_goals rw [hr'] at hr
      · cases hr
      · cases hr
      · cases hr
      · rw [he, Exploration.prepend, ih hr]
        rfl

end Search

end Pathwise
