import Mathlib.Data.List.Forall2

/-!
# Lists and results

Facts about results that may be faults, and about lists, that have nothing to do with programs:
what a computation over a list does at each member, lists that correspond member by member, and
lists of pairs as tables.
-/

namespace Pathwise

/-! ## Results -/

namespace Except

variable {ε α β : Type}

theorem exists_of_map {x : Except ε α} {f : α → β} {b : β} (h : x.map f = .ok b) :
    ∃ a, x = .ok a ∧ f a = b := by
  cases x with
  | error e => cases h
  | ok a => exact ⟨a, rfl, Except.ok.inj h⟩

theorem exists_of_bind {x : Except ε α} {f : α → Except ε β} {b : β} (h : x >>= f = .ok b) :
    ∃ a, x = .ok a ∧ f a = .ok b := by
  cases x with
  | error e => cases h
  | ok a => exact ⟨a, rfl, h⟩

theorem eq_ok_of_toOption {x : Except ε α} {a : α} (h : x.toOption = some a) : x = .ok a := by
  cases x with
  | error e => cases h
  | ok b => rw [Option.some.inj h]

end Except

namespace List

variable {ε α β γ : Type}

/-! ## Computations over a list -/

/-- What every step of a fold keeps holds in the end. -/
theorem foldlM_keeps {P : β → Prop} {l : List α} {f : β → α → Except ε β}
    (hstep : ∀ a ∈ l, ∀ b b', P b → f b a = .ok b' → P b') {b b' : β} (hb : P b)
    (h : l.foldlM f b = .ok b') : P b' := by
  induction l generalizing b with
  | nil =>
    obtain rfl := Except.ok.inj h
    exact hb
  | cons a l ih =>
    rw [List.foldlM_cons] at h
    obtain ⟨c, hc, h⟩ := Except.exists_of_bind h
    exact ih (fun a ha => hstep a (List.mem_cons_of_mem _ ha))
      (hstep a List.mem_cons_self b c hb hc) h

theorem exists_of_mem_mapM {f : α → Except ε β} {l : List α} {out : List β}
    (h : l.mapM f = .ok out) : ∀ b ∈ out, ∃ a ∈ l, f a = .ok b := by
  induction l generalizing out with
  | nil =>
    obtain rfl := Except.ok.inj h
    intro b hb
    cases hb
  | cons a l ih =>
    rw [List.mapM_cons] at h
    obtain ⟨c, hc, h⟩ := Except.exists_of_bind h
    obtain ⟨cs, hcs, h⟩ := Except.exists_of_bind h
    obtain rfl := Except.ok.inj h
    intro b hb
    rcases List.mem_cons.mp hb with rfl | hb
    · exact ⟨a, List.mem_cons_self, hc⟩
    · obtain ⟨a', ha', hf⟩ := ih hcs b hb
      exact ⟨a', List.mem_cons_of_mem _ ha', hf⟩

theorem map_filterMap_of_forall {l : List α} {f : α → Option β} {g : β → γ} {h : α → γ}
    (hall : ∀ a ∈ l, ∃ b, f a = some b ∧ g b = h a) : (l.filterMap f).map g = l.map h := by
  induction l with
  | nil => rfl
  | cons a l ih =>
    obtain ⟨b, hb, hg⟩ := hall a List.mem_cons_self
    rw [List.filterMap_cons_some hb, List.map_cons, List.map_cons, hg,
      ih fun a ha => hall a (List.mem_cons_of_mem _ ha)]

/-- Lists whose images are equal have members with equal images at the same places. -/
theorem getElem?_of_map_eq {l : List α} {l' : List β} {f : α → γ} {g : β → γ}
    (h : l.map f = l'.map g) {i : Nat} {a : α} (hi : l[i]? = some a) :
    ∃ b, l'[i]? = some b ∧ g b = f a := by
  have hget : (l'.map g)[i]? = some (f a) := by rw [← h, List.getElem?_map, hi, Option.map_some]
  rw [List.getElem?_map] at hget
  exact Option.map_eq_some_iff.mp hget

/-- A list is sorted by a relation that is transitive and total on its members. -/
theorem pairwise_mergeSort_of_mem {le : α → α → Bool} {xs : List α}
    (htrans : ∀ a ∈ xs, ∀ b ∈ xs, ∀ c ∈ xs, le a b = true → le b c = true → le a c = true)
    (htotal : ∀ a ∈ xs, ∀ b ∈ xs, (le a b || le b a) = true) :
    (xs.mergeSort le).Pairwise fun a b => le a b = true := by
  -- among the members alone the relation is transitive and total
  have hattach : (xs.attach.mergeSort fun a b => le a.1 b.1).Pairwise
      fun a b => le a.1 b.1 = true := by
    refine List.pairwise_mergeSort ?_ ?_ xs.attach
    · intro a b c
      exact htrans a.1 a.2 b.1 b.2 c.1 c.2
    · intro a b
      exact htotal a.1 a.2 b.1 b.2
  have hmap : (xs.attach.mergeSort fun a b => le a.1 b.1).map Subtype.val = xs.mergeSort le := by
    rw [List.map_mergeSort (s := le) fun _ _ _ _ => rfl, List.attach_map_subtype_val]
  rw [← hmap, List.pairwise_map]
  exact hattach

/-! ## Lists that correspond -/

theorem forall₂_of_mapM {R : β → β → Prop} {l : List α} {f g : α → Except ε β}
    (h : ∀ a ∈ l, ∀ b c, f a = .ok b → g a = .ok c → R b c) {out out' : List β}
    (hf : l.mapM f = .ok out) (hg : l.mapM g = .ok out') : List.Forall₂ R out out' := by
  induction l generalizing out out' with
  | nil =>
    obtain rfl := Except.ok.inj hf
    obtain rfl := Except.ok.inj hg
    exact .nil
  | cons a l ih =>
    rw [List.mapM_cons] at hf hg
    obtain ⟨b, hb, hf⟩ := Except.exists_of_bind hf
    obtain ⟨bs, hbs, hf⟩ := Except.exists_of_bind hf
    obtain ⟨c, hc, hg⟩ := Except.exists_of_bind hg
    obtain ⟨cs, hcs, hg⟩ := Except.exists_of_bind hg
    obtain rfl := Except.ok.inj hf
    obtain rfl := Except.ok.inj hg
    exact .cons (h a List.mem_cons_self b c hb hc)
      (ih (fun a ha => h a (List.mem_cons_of_mem _ ha)) hbs hcs)

theorem forall₂_flatMap {R : β → γ → Prop} {l : List α} {f : α → List β} {g : α → List γ}
    (h : ∀ a ∈ l, List.Forall₂ R (f a) (g a)) : List.Forall₂ R (l.flatMap f) (l.flatMap g) := by
  refine List.rel_flatMap (R := fun a b => a = b ∧ a ∈ l)
    (List.forall₂_same.mpr fun a ha => ⟨rfl, ha⟩) ?_
  rintro a _ ⟨rfl, ha⟩
  exact h a ha

theorem forall₂_toList {R : α → α → Prop} {a b : Option α} (h : Option.Rel R a b) :
    List.Forall₂ R a.toList b.toList := by
  cases h with
  | none => exact .nil
  | some hab => exact .cons hab .nil

/-! ## Tables -/

theorem isSome_lookup_iff_mem_map_fst {l : List (String × α)} {x : String} :
    (l.lookup x).isSome ↔ x ∈ l.map Prod.fst := by
  induction l with
  | nil => simp
  | cons e rest ih =>
    obtain ⟨y, a⟩ := e
    rw [List.lookup_cons, List.map_cons, List.mem_cons]
    by_cases hxy : x = y
    · simp [hxy]
    · have hbeq : (x == y) = false := by simpa using hxy
      simp [hbeq, hxy, ih]

/-- In a table in which no name occurs twice, looking up finds every entry. -/
theorem lookup_eq_some_iff_mem {l : List (String × α)} (h : (l.map Prod.fst).Nodup)
    {x : String} {a : α} : l.lookup x = some a ↔ (x, a) ∈ l := by
  induction l with
  | nil => simp
  | cons e rest ih =>
    obtain ⟨y, b⟩ := e
    obtain ⟨hy, hrest⟩ := List.nodup_cons.mp h
    rw [List.lookup_cons, List.mem_cons]
    by_cases hxy : x = y
    · subst hxy
      have hnot : (x, a) ∉ rest := fun hmem => hy (List.mem_map.mpr ⟨(x, a), hmem, rfl⟩)
      simp [hnot, eq_comm]
    · have hbeq : (x == y) = false := by simpa using hxy
      rw [hbeq]
      simp [hxy, ih hrest]

theorem lookup_zip_map (xs : List String) (g : String → α) (x : String) :
    (xs.zip (xs.map g)).lookup x = if x ∈ xs then some (g x) else none := by
  induction xs with
  | nil => rfl
  | cons y xs ih =>
    rw [List.map_cons, List.zip_cons_cons, List.lookup_cons, ih]
    by_cases hxy : x = y
    · simp [hxy]
    · have hbeq : (x == y) = false := by simpa using hxy
      simp [hbeq, hxy]

end List

end Pathwise
