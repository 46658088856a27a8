import Mathlib.Algebra.Group.Nat.Defs
import Mathlib.Data.List.Lex
import Mathlib.Logic.Relation
import Pathwise.Proofs.Rounds

/-!
# The order of paths

A search takes its paths in order: read from the left, with true before false, each path comes
after the one before. Nothing about the target or the solver is needed for this. A target may
behave differently in every round, and a solver may answer the same question differently every
time: a test can only follow the path or add a true side to its end, and the next path turns the
last true side into a false one.

Read as a number of fifteen binary digits (`rank`), the path grows with every round, and so there
are at most `2 ^ 15` rounds.

* `Run.Plays` is a run in which every test may be answered by a solver of its own.
* `Calls` is a sequence of such runs in the order of a search.
* `Calls.length_le`, `Calls.pairwise_before` — how many they are, and in which order.
* `exploreFrom_add` — the bound on the rounds of a search never ends it.
-/

namespace Pathwise

/-! ## One run -/

namespace Trail

/-- One trail comes from another by a test, whatever a solver says. -/
def Step (t t' : Trail) : Prop := ∃ solver φ, (t.decide solver φ).2 = t'

/-- One trail comes from another by tests. -/
def Reaches : Trail → Trail → Prop := Relation.ReflTransGen Step

/-- A test leaves the path as it is or adds a true side, below the limit. -/
theorem Step.path_eq {t t' : Trail} (h : Step t t') :
    t'.path = t.path ∨ t'.path = t.path ++ [true] ∧ t.path.length < depthLimit := by
  obtain ⟨solver, φ, rfl⟩ := h
  obtain ⟨f, hd⟩ | ⟨side, -, hd⟩ | ⟨p, side, -, -, hd⟩ | ⟨p, -, -, hlt, hd⟩ :=
    decide_cases solver φ t
  · exact .inl (by rw [hd])
  · exact .inl (by rw [hd])
  · exact .inl (by rw [hd])
  · exact .inr ⟨by rw [hd], hlt⟩

/-- Tests add only true sides to a path. -/
theorem Reaches.path_eq {t t' : Trail} (h : t.Reaches t') :
    ∃ k, t'.path = t.path ++ List.replicate k true := by
  induction h with
  | refl => exact ⟨0, by simp⟩
  | tail _ hStep ih =>
    obtain ⟨k, hk⟩ := ih
    obtain heq | ⟨heq, -⟩ := hStep.path_eq
    · exact ⟨k, heq.trans hk⟩
    · exact ⟨k + 1, by rw [heq, hk, List.replicate_succ', List.append_assoc]⟩

/-- Tests never make a path longer than the limit. -/
theorem Reaches.length_le {t t' : Trail} (h : t.Reaches t') (hle : t.path.length ≤ depthLimit) :
    t'.path.length ≤ depthLimit := by
  induction h with
  | refl => exact hle
  | tail _ hStep ih =>
    obtain heq | ⟨heq, hlt⟩ := hStep.path_eq
    · rw [heq]
      exact ih
    · rw [heq, List.length_append, List.length_singleton]
      omega

end Trail

namespace Run

/-- A run in which every test may be answered by a solver of its own. -/
inductive Plays {α : Type} : Run α → Trail → α → Trail → Prop where
  | done (a : α) (t : Trail) : Plays (.done a) t a t
  | ask (solver : Solver) {φ : Held} {k : Except Fault Bool → Run α} {t t' : Trail} {a : α}
      (rest : Plays (k (t.decide solver φ).1) (t.decide solver φ).2 a t') :
      Plays (.ask φ k) t a t'

variable {α : Type}

theorem plays_play (solver : Solver) (r : Run α) (t : Trail) :
    r.Plays t (r.play solver t).1 (r.play solver t).2 := by
  induction r generalizing t with
  | done a => exact .done a t
  | ask φ k ih => exact .ask solver (ih _ _)

theorem Plays.reaches {r : Run α} {t t' : Trail} {a : α} (h : r.Plays t a t') :
    t.Reaches t' := by
  induction h with
  | done a t => exact .refl
  | ask solver _ ih => exact .head ⟨solver, _, rfl⟩ ih

end Run

/-! ## From one path to the next -/

/-- A path comes before another one: where they first differ it takes the true side, or it ends
first. -/
def Before : List Bool → List Bool → Prop := List.Lex fun a b => a = true ∧ b = false

theorem Before.trans {p q r : List Bool} (hpq : Before p q) (hqr : Before q r) : Before p r := by
  refine List.lex_trans ?_ hpq hqr
  rintro x y z ⟨hx, -⟩ ⟨-, hz⟩
  exact ⟨hx, hz⟩

/-- The next path turns the last true side into a false one and drops what follows. -/
theorem nextPath_eq_some {p q : List Bool} (h : nextPath p = some q) :
    ∃ c rest, p = c ++ true :: rest ∧ q = c ++ [false] := by
  induction p generalizing q with
  | nil => cases h
  | cons side p ih =>
    rw [nextPath] at h
    cases hp : nextPath p with
    | some next =>
      rw [hp] at h
      obtain rfl := Option.some.inj h
      obtain ⟨c, rest, rfl, rfl⟩ := ih hp
      exact ⟨side :: c, rest, rfl, rfl⟩
    | none =>
      rw [hp] at h
      cases side with
      | false => cases h
      | true =>
        obtain rfl := Option.some.inj h
        exact ⟨[], p, rfl, rfl⟩

theorem nextPath_length_le {p q : List Bool} (h : nextPath p = some q) :
    q.length ≤ p.length := by
  obtain ⟨c, rest, rfl, rfl⟩ := nextPath_eq_some h
  simp

/-- A path comes before every path that a run along its successor can reach. -/
theorem before_of_nextPath {p q : List Bool} (h : nextPath p = some q) (rest : List Bool) :
    Before p (q ++ rest) := by
  obtain ⟨c, dropped, rfl, rfl⟩ := nextPath_eq_some h
  rw [List.append_assoc]
  exact List.Lex.append_left _ (.rel ⟨rfl, rfl⟩) c

/-! ## Paths as numbers -/

/-- A path as a binary number of so many digits: a false side is a one. -/
def rank : Nat → List Bool → Nat
  | digits + 1, side :: rest => (if side then 0 else 2 ^ digits) + rank digits rest
  | _, _ => 0

theorem rank_lt (digits : Nat) (p : List Bool) : rank digits p < 2 ^ digits := by
  induction digits generalizing p with
  | zero => simp [rank]
  | succ digits ih =>
    cases p with
    | nil => exact Nat.two_pow_pos (digits + 1)
    | cons side rest =>
      have := ih rest
      rw [rank, Nat.pow_succ]
      split <;> omega

theorem rank_append_true (digits k : Nat) (p : List Bool) :
    rank digits (p ++ List.replicate k true) = rank digits p := by
  induction digits generalizing p k with
  | zero => simp [rank]
  | succ digits ih =>
    cases p with
    | nil =>
      cases k with
      | zero => rfl
      | succ k =>
        have := ih k []
        simp_all [rank, List.replicate_succ]
    | cons side rest => simp [rank, ih]

/-- The next path is a greater number. -/
theorem rank_lt_of_nextPath {digits : Nat} {p q : List Bool} (h : nextPath p = some q)
    (hle : p.length ≤ digits) : rank digits p < rank digits q := by
  induction p generalizing digits q with
  | nil => cases h
  | cons side p ih =>
    obtain ⟨digits, rfl⟩ : ∃ d, digits = d + 1 := ⟨digits - 1, by simp at hle; omega⟩
    have hle' : p.length ≤ digits := by simpa using hle
    rw [nextPath] at h
    -- the digit that changes is in the rest, or it is this one and all the rest is dropped
    cases hp : nextPath p with
    | some next =>
      rw [hp] at h
      obtain rfl := Option.some.inj h
      have := ih hp hle'
      simp only [rank]
      omega
    | none =>
      rw [hp] at h
      cases side with
      | false => cases h
      | true =>
        obtain rfl := Option.some.inj h
        have := rank_lt digits p
        simpa [rank] using this

/-! ## Sequences of runs -/

/-- Runs of a target one after the other, each but the first along the path that comes next after
the run before and in the world that it left. The sequence may stop after any of them. -/
inductive Calls {ω : Type} (target : Target ω) : List Bool → ω → List (Round ω) → Prop where
  | last {path : List Bool} {w : ω} {e : Ending ω} {t : Trail}
      (run : (target w).Plays (.start path) e t) : Calls target path w [⟨path, w, e, t⟩]
  | next {path next : List Bool} {w : ω} {e : Ending ω} {t : Trail} {rs : List (Round ω)}
      (run : (target w).Plays (.start path) e t) (hnext : nextPath t.path = some next)
      (rest : Calls target next e.world rs) : Calls target path w (⟨path, w, e, t⟩ :: rs)

section Calls

variable {ω : Type} {target : Target ω} {path : List Bool} {w : ω} {rs : List (Round ω)}

/-- A run along a path ends on a longer path with the same number. -/
theorem Run.Plays.path_spec {α : Type} {r : Run α} {path : List Bool} {a : α} {t : Trail}
    (run : r.Plays (.start path) a t) (hle : path.length ≤ depthLimit) :
    (∃ rest, t.path = path ++ rest) ∧ t.path.length ≤ depthLimit ∧
      rank depthLimit t.path = rank depthLimit path := by
  obtain ⟨k, hk⟩ := run.reaches.path_eq
  refine ⟨⟨_, hk⟩, run.reaches.length_le hle, ?_⟩
  rw [hk]
  exact rank_append_true _ _ _

/-- There are no more runs than numbers from the first path on. -/
theorem Calls.length_le (h : Calls target path w rs) (hle : path.length ≤ depthLimit) :
    rs.length + rank depthLimit path ≤ 2 ^ depthLimit := by
  induction h with
  | last run =>
    have := rank_lt depthLimit
    simp only [List.length_singleton]
    have := this ‹List Bool›
    omega
  | next run hnext _ ih =>
    obtain ⟨-, hlen, hrank⟩ := run.path_spec hle
    have hlt := rank_lt_of_nextPath hnext hlen
    -- the run keeps the number of its path, and the next path has a greater one
    have := ih ((nextPath_length_le hnext).trans hlen)
    simp only [List.length_cons]
    omega

/-- The first run of a sequence ends on a path that goes on from the one it started with. -/
theorem Calls.head_path (h : Calls target path w rs) :
    ∃ r rest later, rs = r :: later ∧ r.trail.path = path ++ rest := by
  cases h with
  | last run =>
    obtain ⟨k, hk⟩ := run.reaches.path_eq
    exact ⟨_, _, [], rfl, hk⟩
  | next run _ _ =>
    obtain ⟨k, hk⟩ := run.reaches.path_eq
    exact ⟨_, _, _, rfl, hk⟩

/-- Each path of the sequence comes before all later ones. -/
theorem Calls.pairwise_before (h : Calls target path w rs) :
    (rs.map fun r => r.trail.path).Pairwise Before := by
  -- the order is transitive, so it is enough to compare neighbours
  suffices hch : (rs.map fun r => r.trail.path).IsChain Before by
    have : IsTrans (List Bool) Before := ⟨fun _ _ _ => Before.trans⟩
    exact List.isChain_iff_pairwise.mp hch
  induction h with
  | last run => simp
  | next run hnext rest ih =>
    obtain ⟨r, added, later, rfl, hr⟩ := rest.head_path
    rw [List.map_cons, List.map_cons, List.isChain_cons_cons]
    refine ⟨?_, ih⟩
    rw [hr]
    exact before_of_nextPath hnext added

/-- No path of the sequence is longer than the limit. -/
theorem Calls.path_length_le (h : Calls target path w rs) (hle : path.length ≤ depthLimit) :
    ∀ r ∈ rs, r.path.length ≤ depthLimit := by
  induction h with
  | last run => simpa using hle
  | next run hnext _ ih =>
    obtain ⟨-, hlen, -⟩ := run.path_spec hle
    simp only [List.mem_cons, forall_eq_or_imp]
    exact ⟨hle, ih ((nextPath_length_le hnext).trans hlen)⟩

end Calls

/-! ## The rounds of a search -/

section Search

variable {ω : Type} {solver : Solver} {params : List String} {target : Target ω}

theorem nextPath_of_resume? {e : Ending ω} {t : Trail} {next : List Bool}
    (h : e.resume? solver params t = some next) : nextPath t.path = some next := by
  obtain ⟨test, -, hnext⟩ := Option.bind_eq_some_iff.mp h
  exact hnext

theorem Round.start_plays (solver : Solver) (target : Target ω) (path : List Bool) (w : ω) :
    (target w).Plays (.start path) (Round.start solver target path w).ending
      (Round.start solver target path w).trail :=
  Run.plays_play solver (target w) (.start path)

/-- The rounds of a search are runs in the order of a search. -/
theorem roundsFrom_calls (n : Nat) (path : List Bool) (w : ω) :
    Calls target path w (roundsFrom solver params target (n + 1) path w) := by
  induction n generalizing path w with
  | zero =>
    rw [roundsFrom_succ]
    split
    · exact .last (Round.start_plays solver target path w)
    · exact .last (Round.start_plays solver target path w)
  | succ n ih =>
    rw [roundsFrom_succ]
    split
    · rename_i next hnext
      exact .next (Round.start_plays solver target path w) (nextPath_of_resume? hnext) (ih next _)
    · exact .last (Round.start_plays solver target path w)

/-- A bound that leaves room for all greater paths does not change a search. -/
theorem exploreFrom_add {n : Nat} (k : Nat) {path : List Bool} {w : ω}
    (hle : path.length ≤ depthLimit) (hn : 2 ^ depthLimit ≤ n + rank depthLimit path) :
    exploreFrom solver params target (n + k) path w =
      exploreFrom solver params target n path w := by
  induction n generalizing path w with
  | zero =>
    have := rank_lt depthLimit path
    omega
  | succ n ih =>
    obtain ⟨-, hlen, hrank⟩ :=
      (Round.start_plays solver target path w).path_spec hle
    rw [Nat.succ_add, exploreFrom_succ, exploreFrom_succ]
    -- the two searches can only differ after the next path, and that has a greater number
    simp only [conclude, proceed]
    split
    · rfl
    · split
      · rfl
      · rfl
      · split
        · rfl
        · split
          · rfl
          · rename_i next hnext
            have hlt := rank_lt_of_nextPath hnext hlen
            rw [ih ((nextPath_length_le hnext).trans hlen) (by omega)]

theorem Before.irrefl (p : List Bool) : ¬ Before p p :=
  List.lex_irrefl (by simp) p

/--
**Every search ends.** However the target behaves from call to call and whatever is answered at
each test, a search makes at most `2 ^ 15` calls, the paths on which they end come one after the
other in the order of paths, and at no time is a path longer than 15. So the bound on the rounds
of `explore` never ends a search.
-/
theorem search_ends (target : Target ω) (w : ω) :
    (∀ rs, Calls target [] w rs →
      rs.length ≤ 2 ^ 15 ∧
      (rs.map fun r => r.trail.path).Pairwise Before ∧
      (rs.map fun r => r.trail.path).Nodup ∧
      ∀ r ∈ rs, ∀ t, (Trail.start r.path).Reaches t → t.path.length ≤ 15) ∧
    ∀ (solver : Solver) (params : List String) (n : Nat),
      Calls target [] w (roundsFrom solver params target (n + 1) [] w) ∧
      (2 ^ 15 ≤ n →
        exploreFrom solver params target n [] w = explore solver params target w) := by
  constructor
  · intro rs h
    have hlen := h.length_le (Nat.zero_le depthLimit)
    refine ⟨(Nat.le_add_right _ _).trans hlen, h.pairwise_before, ?_, ?_⟩
    · refine h.pairwise_before.imp ?_
      rintro p q hpq rfl
      exact Before.irrefl p hpq
    · intro r hr t ht
      exact ht.length_le (h.path_length_le (Nat.zero_le depthLimit) r hr)
  · intro solver params n
    refine ⟨roundsFrom_calls n [] w, ?_⟩
    intro hn
    obtain ⟨k, rfl⟩ := Nat.exists_eq_add_of_le hn
    exact exploreFrom_add k (Nat.zero_le depthLimit) (Nat.le_add_right _ _)

end Search

/-- A target that compares its unknown with another number at every call. -/
def restless : Target Nat := fun n =>
  .ask (.term (.order .gt (.var .int "x") (.int n))) fun _ => .done ⟨n + 1, [], none⟩

/-- A solver that finds a model of anything. -/
def gullible : Solver := fun _ => some ⟨[]⟩

theorem restless_search_ends :
    Calls restless [] 0 (roundsFrom gullible ["x"] restless 3 [] 0) ∧
    (roundsFrom gullible ["x"] restless 3 [] 0).map (fun r => (r.world, r.trail.path)) =
      [(0, [true]), (1, [false])] ∧
    [[true], [false]].Pairwise Before ∧
    exploreFrom gullible ["x"] restless (2 ^ 15 + 1) [] 0 = explore gullible ["x"] restless 0 := by
  obtain ⟨hcalls, hbound⟩ := search_ends restless 0
  obtain ⟨hrun, -⟩ := hbound gullible ["x"] 2
  obtain ⟨-, hsorted, -, -⟩ := hcalls _ hrun
  exact ⟨hrun, rfl, hsorted, (hbound gullible ["x"] _).2 (Nat.le_succ _)⟩

end Pathwise
