import Mathlib.Data.List.Basic
import Mathlib.Data.List.Nodup
import Pathwise.Solver.Basic

/-!
# Models that fix what formulas look at

The value of a term hangs on finitely many things: the unknowns in it, the remainders by zero and
the open powers that come up while it is evaluated. A model that lists these fixes the value under
every completion (`holdsAll_ofValuation`). So whatever can be true has a model in the sense of
`Solver.Correct`, and the assumptions that a search makes about its solver can be met:
`Solver.ideal` meets them.

* `Term.definite` — nothing in the term is left open.
* `Solver.Frugal` — models of definite formulas declare the unknowns in them, each at most once,
  and nothing else.
-/

namespace Pathwise

namespace Term

/-- Whether nothing in a term is left open: remainders are by numerals other than zero, and there
are no powers. -/
def definite : {k : Kind} → Term k → Bool
  | _, .var .. | _, .bool _ | _, .int _ | _, .real _ => true
  | _, .neg a | _, .toReal a | _, .not a => a.definite
  | _, .mod a b => b.isNonzeroNumeral && a.definite
  | _, .pow _ _ => false
  | _, .ring _ a b | _, .eq a b | _, .distinct a b | _, .order _ a b | _, .and a b
  | _, .or a b => a.definite && b.definite
  | _, .ite c a b => c.definite && a.definite && b.definite

/-! ## What evaluation looks at -/

/-- Integers whose remainder by zero may come up in evaluating a term. -/
def dividends (ρ : Valuation) : {k : Kind} → Term k → List Int
  | _, .var .. | _, .bool _ | _, .int _ | _, .real _ => []
  | _, .neg a | _, .toReal a | _, .not a => a.dividends ρ
  | _, .mod a b => a.eval ρ :: (a.dividends ρ ++ b.dividends ρ)
  | _, .ring _ a b | _, .pow a b | _, .eq a b | _, .distinct a b | _, .order _ a b
  | _, .and a b | _, .or a b => a.dividends ρ ++ b.dividends ρ
  | _, .ite c a b => c.dividends ρ ++ (a.dividends ρ ++ b.dividends ρ)

/-- Bases and exponents whose power comes up in evaluating a term. -/
def powers (ρ : Valuation) : {k : Kind} → Term k → List (Rat × Rat)
  | _, .var .. | _, .bool _ | _, .int _ | _, .real _ => []
  | _, .neg a | _, .toReal a | _, .not a => a.powers ρ
  | _, .pow (n := n) a b =>
    (n.toRat (a.eval ρ), n.toRat (b.eval ρ)) :: (a.powers ρ ++ b.powers ρ)
  | _, .ring _ a b | _, .mod a b | _, .eq a b | _, .distinct a b | _, .order _ a b
  | _, .and a b | _, .or a b => a.powers ρ ++ b.powers ρ
  | _, .ite c a b => c.powers ρ ++ (a.powers ρ ++ b.powers ρ)

/-- Terms are evaluated alike under valuations that agree on their unknowns, on the remainders by
zero and on the open powers that come up. -/
theorem eval_congr {ρ σ : Valuation} {k : Kind} (t : Term k)
    (hu : ∀ u ∈ t.unknowns, σ.read u.kind u.name = ρ.read u.kind u.name)
    (hm : ∀ a ∈ t.dividends ρ, σ.modZero a = ρ.modZero a)
    (hp : ∀ ab ∈ t.powers ρ, σ.openPower ab.1 ab.2 = ρ.openPower ab.1 ab.2) :
    t.eval σ = t.eval ρ := by
  induction t with
  | var k x => exact hu ⟨k, x⟩ (by simp [unknowns])
  | bool b => rfl
  | int n => rfl
  | real q => rfl
  | neg a iha | toReal a iha | not a iha =>
    simp only [eval, iha hu hm hp]
  | mod a b iha ihb =>
    simp only [unknowns, dividends, powers, List.mem_cons, List.mem_append, or_imp, forall_and,
      forall_eq] at hu hm hp
    simp only [eval, iha hu.1 hm.2.1 hp.1, ihb hu.2 hm.2.2 hp.2, Valuation.mod, hm.1]
  | pow a b iha ihb =>
    simp only [unknowns, dividends, powers, List.mem_cons, List.mem_append, or_imp, forall_and,
      forall_eq] at hu hm hp
    simp only [eval, iha hu.1 hm.1 hp.2.1, ihb hu.2 hm.2 hp.2.2, Valuation.power, hp.1]
  | ring op a b iha ihb | eq a b iha ihb | distinct a b iha ihb | order op a b iha ihb
  | and a b iha ihb | or a b iha ihb =>
    simp only [unknowns, dividends, powers, List.mem_append, or_imp, forall_and] at hu hm hp
    simp only [eval, iha hu.1 hm.1 hp.1, ihb hu.2 hm.2 hp.2]
  | ite c a b ihc iha ihb =>
    simp only [unknowns, dividends, powers, List.mem_append, or_imp, forall_and] at hu hm hp
    simp only [eval, ihc hu.1.1 hm.1 hp.1, iha hu.1.2 hm.2.1 hp.2.1, ihb hu.2 hm.2.2 hp.2.2]

/-- Definite terms are evaluated alike under valuations that agree on their unknowns. -/
theorem eval_congr_of_definite {ρ σ : Valuation} {k : Kind} (t : Term k)
    (hd : t.definite = true)
    (hu : ∀ u ∈ t.unknowns, σ.read u.kind u.name = ρ.read u.kind u.name) :
    t.eval σ = t.eval ρ := by
  induction t with
  | var k x => exact hu ⟨k, x⟩ (by simp [unknowns])
  | bool b => rfl
  | int n => rfl
  | real q => rfl
  | neg a iha | toReal a iha | not a iha =>
    simp only [eval, iha hd hu]
  | mod a b iha ihb =>
    simp only [definite, Bool.and_eq_true] at hd
    simp only [unknowns, List.mem_append, or_imp, forall_and] at hu
    -- the divisor is a numeral other than zero
    cases b with
    | int n =>
      have hn : n ≠ 0 := by simpa [isNonzeroNumeral] using hd.1
      simp [eval, iha hd.2 hu.1, Valuation.mod, hn]
    | _ => simp [isNonzeroNumeral] at hd
  | pow a b iha ihb => simp [definite] at hd
  | ring op a b iha ihb | eq a b iha ihb | distinct a b iha ihb | order op a b iha ihb
  | and a b iha ihb | or a b iha ihb =>
    simp only [definite, Bool.and_eq_true] at hd
    simp only [unknowns, List.mem_append, or_imp, forall_and] at hu
    simp only [eval, iha hd.1 hu.1, ihb hd.2 hu.2]
  | ite c a b ihc iha ihb =>
    simp only [definite, Bool.and_eq_true] at hd
    simp only [unknowns, List.mem_append, or_imp, forall_and] at hu
    simp only [eval, ihc hd.1.1 hu.1.1, iha hd.1.2 hu.1.2, ihb hd.2 hu.2]

/-- A term in which nothing is left open and all unknowns are integers with the given names. -/
structure Integral (xs : List String) {k : Kind} (t : Term k) : Prop where
  definite : t.definite = true
  unknowns : ∀ u ∈ t.unknowns, u.kind = .int ∧ u.name ∈ xs

theorem Integral.eval_congr {xs : List String} {k : Kind} {t : Term k} (h : t.Integral xs)
    {ρ σ : Valuation} (hint : ∀ x ∈ xs, σ.int x = ρ.int x) : t.eval σ = t.eval ρ := by
  refine t.eval_congr_of_definite h.definite ?_
  rintro ⟨k, x⟩ hu
  obtain ⟨rfl, hx⟩ := h.unknowns _ hu
  exact hint x hx

end Term

/-! ## The model of a valuation -/

/-- What a valuation reads for an unknown. -/
def Valuation.reading (ρ : Valuation) (u : Unknown) : Reading :=
  match u.kind with
  | .bool => .bool (ρ.bool u.name)
  | .num .int => .int (ρ.int u.name)
  | .num .real => .real (ρ.real u.name)

/-- The sort of unknowns that a reading is for. -/
def Reading.kind? : Reading → Option Kind
  | .int _ => some .int
  | .bool _ => some .bool
  | .real _ => some .real
  | .modZero _ | .power _ => none

@[simp] theorem Valuation.kind?_reading (ρ : Valuation) (u : Unknown) :
    (ρ.reading u).kind? = some u.kind := by
  obtain ⟨k, x⟩ := u
  rcases k with _ | (_ | _) <;> rfl

namespace Model

/-- What a valuation says of formulas that are left open in part. -/
def openEntries (ρ : Valuation) (φs : List Formula) : List (String × Reading) :=
  [("mod0", .modZero ((φs.flatMap (Term.dividends ρ)).map fun a => (a, ρ.modZero a))),
    ("power0", .power ((φs.flatMap (Term.powers ρ)).map fun ab => (ab, ρ.openPower ab.1 ab.2)))]

/-- What a valuation says of formulas. -/
def ofValuation (ρ : Valuation) (φs : List Formula) : Model :=
  ⟨((Formula.unknownsOf φs).map fun u => (u.name, ρ.reading u)) ++
    if φs.all Term.definite then [] else openEntries ρ φs⟩

theorem mem_unknownsOf {φs : List Formula} {u : Unknown} :
    u ∈ Formula.unknownsOf φs ↔ ∃ φ ∈ φs, u ∈ φ.unknowns := by
  simp [Formula.unknownsOf, List.mem_eraseDups]

theorem lookup_map_self {α β : Type} [BEq α] [LawfulBEq α] (f : α → β) {l : List α} {a : α}
    (h : a ∈ l) : (l.map fun x => (x, f x)).lookup a = some (f a) := by
  induction l with
  | nil => cases h
  | cons x l ih =>
    by_cases hx : a = x
    · subst hx
      simp
    · have hne : (a == x) = false := by simpa using hx
      rw [List.map_cons, List.lookup_cons, hne]
      exact ih ((List.mem_cons.mp h).resolve_left hx)

section Agrees

variable {ρ σ : Valuation} {φs : List Formula}

/-- A search through entries that finds only one value, and has something to find, finds it. -/
theorem findSome?_eq_of_forall {α β : Type} {l : List α} {f : α → Option β} {b : β}
    (hsome : ∃ a ∈ l, f a = some b) (hall : ∀ a ∈ l, ∀ c, f a = some c → c = b) :
    l.findSome? f = some b := by
  obtain ⟨a, ha, hf⟩ := hsome
  have hex : (l.findSome? f).isSome = true := by
    rw [List.findSome?_isSome_iff]
    exact ⟨a, ha, by rw [hf]; rfl⟩
  obtain ⟨c, hc⟩ := Option.isSome_iff_exists.mp hex
  obtain ⟨a', ha', hf'⟩ := List.exists_of_findSome?_eq_some hc
  rw [hc, hall a' ha' c hf']

/-- Where the entry for an unknown stands, and what stands under its name and sort. -/
theorem mem_ofValuation {u : Unknown} (hu : u ∈ Formula.unknownsOf φs) :
    (u.name, ρ.reading u) ∈ (ofValuation ρ φs).entries := by
  simp only [ofValuation, List.mem_append, List.mem_map]
  exact .inl ⟨u, hu, rfl⟩

theorem eq_of_mem_ofValuation {x : String} {r : Reading} {k : Kind}
    (h : (x, r) ∈ (ofValuation ρ φs).entries) (hk : r.kind? = some k) :
    r = ρ.reading ⟨k, x⟩ := by
  simp only [ofValuation, List.mem_append, List.mem_map, Prod.mk.injEq] at h
  rcases h with ⟨u, -, hx, hr⟩ | h
  · rw [← hr, Valuation.kind?_reading] at hk
    obtain rfl := Option.some.inj hk
    subst hx
    exact hr.symm
  · split at h
    · cases h
    · simp only [openEntries, List.mem_cons, Prod.mk.injEq, List.not_mem_nil, or_false] at h
      rcases h with ⟨-, rfl⟩ | ⟨-, rfl⟩ <;> cases hk

/-- A look-up that accepts only readings of an unknown finds what the valuation reads for it. -/
theorem findSome?_ofValuation {β : Type} {f : String × Reading → Option β} {u : Unknown} {b : β}
    (hu : u ∈ Formula.unknownsOf φs)
    (hf : ∀ e c, f e = some c → e.1 = u.name ∧ e.2.kind? = some u.kind)
    (hb : f (u.name, ρ.reading u) = some b) :
    (ofValuation ρ φs).entries.findSome? f = some b := by
  refine findSome?_eq_of_forall ⟨_, mem_ofValuation hu, hb⟩ ?_
  rintro ⟨x, r⟩ hmem c hc
  obtain ⟨rfl, hk⟩ := hf _ c hc
  -- an unknown may be listed more than once, but always with the same reading
  rw [eq_of_mem_ofValuation hmem hk] at hc
  exact Option.some.inj (hc.symm.trans hb)

/-- A valuation that agrees with the model of another one reads the unknowns as that one does. -/
theorem read_of_agrees (h : (ofValuation ρ φs).Agrees σ) {u : Unknown}
    (hu : u ∈ Formula.unknownsOf φs) : σ.read u.kind u.name = ρ.read u.kind u.name := by
  obtain ⟨k, x⟩ := u
  rcases k with _ | (_ | _)
  · refine h.bool x _ (findSome?_ofValuation hu ?_ (by simp [Valuation.reading, Valuation.read]))
    rintro ⟨y, r⟩ c hc
    cases r <;> simp at hc
    exact ⟨hc.1, rfl⟩
  · refine h.int x _ (findSome?_ofValuation hu ?_ (by simp [Valuation.reading, Valuation.read]))
    rintro ⟨y, r⟩ c hc
    cases r <;> simp at hc
    exact ⟨hc.1, rfl⟩
  · refine h.real x _ (findSome?_ofValuation hu ?_ (by simp [Valuation.reading, Valuation.read]))
    rintro ⟨y, r⟩ c hc
    cases r <;> simp at hc
    exact ⟨hc.1, rfl⟩

/-- Entries that list no unknown come only from what is left open. -/
theorem mem_openEntries {e : String × Reading} (h : e ∈ (ofValuation ρ φs).entries)
    (hk : e.2.kind? = none) : e ∈ openEntries ρ φs := by
  simp only [ofValuation, List.mem_append, List.mem_map] at h
  rcases h with ⟨u, -, rfl⟩ | h
  · simp at hk
  · split at h
    · cases h
    · exact h

theorem openEntries_subset (hopen : φs.all Term.definite = false) {e : String × Reading}
    (h : e ∈ openEntries ρ φs) : e ∈ (ofValuation ρ φs).entries := by
  simp only [ofValuation, hopen, List.mem_append]
  exact .inr h

theorem modZero_of_agrees (h : (ofValuation ρ φs).Agrees σ)
    (hopen : φs.all Term.definite = false) {a : Int} (ha : a ∈ φs.flatMap (Term.dividends ρ)) :
    σ.modZero a = ρ.modZero a := by
  have hmem := openEntries_subset (ρ := ρ) hopen (List.mem_cons_self ..)
  refine h.modZero a _ (findSome?_eq_of_forall ⟨_, hmem, lookup_map_self _ ha⟩ ?_)
  rintro ⟨y, r⟩ hyr c hc
  cases r with
  | modZero table =>
    have := mem_openEntries hyr rfl
    simp only [openEntries, List.mem_cons, Prod.mk.injEq, Reading.modZero.injEq, reduceCtorEq,
      and_false, List.not_mem_nil, or_false] at this
    rw [this.2] at hc
    exact Option.some.inj (hc.symm.trans (lookup_map_self _ ha))
  | _ => cases hc

theorem openPower_of_agrees (h : (ofValuation ρ φs).Agrees σ)
    (hopen : φs.all Term.definite = false) {ab : Rat × Rat}
    (hab : ab ∈ φs.flatMap (Term.powers ρ)) :
    σ.openPower ab.1 ab.2 = ρ.openPower ab.1 ab.2 := by
  have hmem := openEntries_subset (ρ := ρ) hopen
    (List.mem_cons_of_mem _ (List.mem_cons_self ..))
  refine h.openPower ab.1 ab.2 _ (findSome?_eq_of_forall ⟨_, hmem, lookup_map_self _ hab⟩ ?_)
  rintro ⟨y, r⟩ hyr c hc
  cases r with
  | power table =>
    have := mem_openEntries hyr rfl
    simp only [openEntries, List.mem_cons, Prod.mk.injEq, Reading.power.injEq, reduceCtorEq,
      and_false, List.not_mem_nil, or_false, false_or] at this
    rw [this.2] at hc
    exact Option.some.inj (hc.symm.trans (lookup_map_self _ hab))
  | _ => cases hc

/-- What a valuation makes true is true under every completion of its model. -/
theorem holdsAll_ofValuation (hρ : ρ.HoldsAll φs) (h : (ofValuation ρ φs).Agrees σ) :
    σ.HoldsAll φs := by
  intro φ hφ
  have hu : ∀ u ∈ φ.unknowns, σ.read u.kind u.name = ρ.read u.kind u.name := fun u hu =>
    read_of_agrees h (mem_unknownsOf.mpr ⟨φ, hφ, hu⟩)
  have heval : φ.eval σ = φ.eval ρ := by
    cases hopen : φs.all Term.definite with
    | true => exact φ.eval_congr_of_definite (List.all_eq_true.mp hopen φ hφ) hu
    | false =>
      refine φ.eval_congr hu (fun a ha => ?_) (fun ab hab => ?_)
      · exact modZero_of_agrees h hopen (List.mem_flatMap.mpr ⟨φ, hφ, ha⟩)
      · exact openPower_of_agrees h hopen (List.mem_flatMap.mpr ⟨φ, hφ, hab⟩)
  exact heval.trans (hρ φ hφ)

end Agrees

end Model

/-! ## Solvers -/

namespace Solver

/-- A solver whose models of definite formulas declare unknowns of the formulas, each at most
once, and nothing else. -/
structure Frugal (s : Solver) : Prop where
  declares : ∀ φs m, s φs = some m → φs.all Term.definite = true →
    ∀ e ∈ m.entries, ∃ u ∈ Formula.unknownsOf φs, u.name = e.1 ∧ e.2.kind? = some u.kind
  nodup : ∀ φs m, s φs = some m → φs.all Term.definite = true →
    (m.entries.map fun e => (e.1, e.2.kind?)).Nodup

theorem nodup_eraseDups {α : Type} [BEq α] [LawfulBEq α] (l : List α) : l.eraseDups.Nodup := by
  induction hn : l.length using Nat.strongRecOn generalizing l with
  | ind n ih =>
    cases l with
    | nil => simp
    | cons a l =>
      rw [List.eraseDups_cons, List.nodup_cons]
      refine ⟨by simp [List.mem_eraseDups], ih _ ?_ _ rfl⟩
      have := List.length_filter_le (fun b => !b == a) l
      rw [List.length_cons] at hn
      omega

section OfValuation

variable {s : Solver}

/-- A solver whose models are those of valuations that make the formulas true is correct, if it
finds one whenever there is one. -/
theorem correct_of_ofValuation (hcomplete : ∀ φs, Satisfiable φs → (s φs).isSome)
    (h : ∀ φs m, s φs = some m → ∃ ρ : Valuation, ρ.HoldsAll φs ∧ m = .ofValuation ρ φs) :
    s.Correct where
  complete := hcomplete
  sound φs m hm ρ hρ := by
    obtain ⟨σ, hσ, rfl⟩ := h φs m hm
    exact Model.holdsAll_ofValuation hσ hρ

theorem frugal_of_ofValuation
    (h : ∀ φs m, s φs = some m → ∃ ρ : Valuation, ρ.HoldsAll φs ∧ m = .ofValuation ρ φs) :
    s.Frugal where
  declares φs m hm hdef e he := by
    obtain ⟨ρ, -, rfl⟩ := h φs m hm
    simp only [Model.ofValuation, hdef, if_true, List.append_nil, List.mem_map] at he
    obtain ⟨u, hu, rfl⟩ := he
    exact ⟨u, hu, rfl, Valuation.kind?_reading ρ u⟩
  nodup φs m hm hdef := by
    obtain ⟨ρ, -, rfl⟩ := h φs m hm
    simp only [Model.ofValuation, hdef, if_true, List.append_nil, List.map_map]
    refine (nodup_eraseDups _).map ?_
    intro u v huv
    simp only [Function.comp_apply, Valuation.kind?_reading, Prod.mk.injEq,
      Option.some.injEq] at huv
    obtain ⟨k, x⟩ := u
    obtain ⟨k', x'⟩ := v
    simp only at huv
    obtain ⟨rfl, rfl⟩ := huv
    rfl

end OfValuation

open Classical in
/-- The solver that finds a model whenever there is one. It cannot be run. -/
noncomputable def ideal : Solver := fun φs =>
  if h : Satisfiable φs then some (.ofValuation h.choose φs) else none

theorem ideal_eq_some {φs : List Formula} {m : Model} (h : ideal φs = some m) :
    ∃ ρ : Valuation, ρ.HoldsAll φs ∧ m = .ofValuation ρ φs := by
  unfold ideal at h
  split at h
  · rename_i hsat
    exact ⟨hsat.choose, hsat.choose_spec, (Option.some.inj h).symm⟩
  · cases h

theorem ideal_correct : ideal.Correct :=
  correct_of_ofValuation (fun φs h => by simp [ideal, h]) fun _ _ => ideal_eq_some

theorem ideal_frugal : ideal.Frugal := frugal_of_ofValuation fun _ _ => ideal_eq_some

end Solver

end Pathwise
