import Mathlib.Data.Prod.Lex
import Mathlib.Data.Rat.Cast.Order
import Pathwise.Coverage
import Pathwise.Proofs.Lists
import Pathwise.Sample.Reference

/-!
# Coverage is compared as sets of lines

Two lists of executed lines may be in any order and may repeat themselves. `Coverage.compare` tells
whether they have the same lines, and which lines only one of them has. This module says what that
means without the way in which the comparison goes about it, and proves it of the comparison.

Lines are values, and equal values are one line, as 1 and 1.0 are. So a list has a line if some
member equals it (`Coverage.Has`). Between integers that is membership.

What has to be known of equality and order is read off where a value stands among those that it can
be compared with (`Plain.standing?`). A NaN stands nowhere.

* `Plain.equal_iff`, `Plain.below_iff` — values are equal if they stand at the same place, and one
  is below the other if it stands below it.
* `Coverage.distinct_spec`, `Coverage.has_missingFrom` — what stays of a list, and what is left of
  it without another.
* `Coverage.Comparable.sorted_eq`, `Coverage.Comparable.arrange_pairwise` — lines in order.
* `Coverage.line_sets_compared` — the comparison, for all data in which every file lists its lines.
-/

namespace Pathwise

/-! ## Where values stand -/

namespace Number

/-- Where a number stands: the side of the finite numbers that it lies on, and its value if it is
one of them. -/
def key? (a : Number) : Option (Int ×ₗ ℚ) :=
  (compare?.rank a).map fun side => toLex (side, a.rational?.getD 0)

/-- A number is finite, a NaN or infinite. -/
theorem rank_cases (a : Number) :
    (∃ q, a.rational? = some q ∧ compare?.rank a = some 0) ∨
    (a.rational? = none ∧ compare?.rank a = none) ∨
    (∃ side, side ≠ 0 ∧ a.rational? = none ∧ compare?.rank a = some side) := by
  cases a with
  | int n => exact .inl ⟨n, rfl, rfl⟩
  | float x =>
    simp only [rational?, Double.rational?, compare?.rank]
    cases Double.form x with
    | nan => exact .inr (.inl ⟨rfl, rfl⟩)
    | infinite negative => exact .inr (.inr ⟨_, by cases negative <;> decide, rfl, rfl⟩)
    | finite negative m q => exact .inl ⟨_, rfl, rfl⟩

/-- Numbers compare as they stand. -/
theorem compare?_eq (a b : Number) :
    a.compare? b = a.key?.bind fun x => b.key?.map fun y =>
      if x < y then .lt else if x = y then .eq else .gt := by
  have hsides : ∀ i j : Int, compare i j = if i < j then .lt else if i = j then .eq else .gt :=
    fun _ _ => rfl
  obtain ⟨p, hp, ha⟩ | ⟨hp, ha⟩ | ⟨i, hi, hp, ha⟩ := rank_cases a <;>
    obtain ⟨q, hq, hb⟩ | ⟨hq, hb⟩ | ⟨j, hj, hq, hb⟩ := rank_cases b <;>
    simp [compare?, key?, hp, hq, ha, hb, hsides, Prod.Lex.toLex_lt_toLex]
  -- a finite and an infinite number: the sides differ, so the values do not matter
  · simp [hj.symm]
  · simp [hi]

variable {a b : Number}

theorem compare?_lt_iff :
    a.compare? b = some .lt ↔ ∃ x y, a.key? = some x ∧ b.key? = some y ∧ x < y := by
  rw [compare?_eq]
  cases a.key? with
  | none => simp
  | some x =>
    cases b.key? with
    | none => simp
    | some y =>
      by_cases hlt : x < y
      · simp [hlt]
      · by_cases heq : x = y <;> simp [hlt, heq]

theorem compare?_eq_iff :
    a.compare? b = some .eq ↔ ∃ x, a.key? = some x ∧ b.key? = some x := by
  rw [compare?_eq]
  cases a.key? with
  | none => simp
  | some x =>
    cases b.key? with
    | none => simp
    | some y =>
      by_cases hlt : x < y
      · simp [hlt, hlt.ne']
      · by_cases heq : x = y <;> simp [hlt, heq, eq_comm]

end Number

namespace Plain

/-- Where a value stands among the values that it can be compared with. -/
inductive Standing where
  | nothing
  | number (key : Int ×ₗ ℚ)
  | text (s : String)

namespace Standing

/-- One standing is below another. Only numbers and only texts have an order. -/
def Below : Standing → Standing → Prop
  | .number x, .number y => x < y
  | .text s, .text t => s < t
  | _, _ => False

theorem Below.irrefl (p : Standing) : ¬ p.Below p := by
  cases p with
  | nothing => exact id
  | number x => exact lt_irrefl x
  | text s => exact String.lt_irrefl s

theorem Below.trans {p q r : Standing} (hpq : p.Below q) (hqr : q.Below r) : p.Below r := by
  cases p <;> cases q <;> first | exact hpq.elim | skip
  · cases r <;> first | exact hqr.elim | exact lt_trans hpq hqr
  · cases r <;> first | exact hqr.elim | exact String.lt_trans hpq hqr

end Standing

/-- Where a value stands. Truth values stand among the numbers, and a NaN stands nowhere. -/
def standing? : Plain → Option Standing
  | .none => some .nothing
  | .bool b => (Number.int (ofBool b)).key?.map .number
  | .int n => (Number.int n).key?.map .number
  | .float x => (Number.float x).key?.map .number
  | .str s => some (.text s)

/-- One value is below another. -/
def Below (a b : Plain) : Prop := Plain.compare (.order .lt) a b = .ok true

variable {a b c : Plain}

theorem equal_iff : a.equal b = true ↔ ∃ p, a.standing? = some p ∧ b.standing? = some p := by
  cases a <;> cases b <;>
    simp only [equal, standing?, number?, beq_iff_eq, Number.compare?_eq_iff]
  all_goals simp
  -- what is left is two texts
  exact eq_comm

theorem below_of_numbers {m n : Number} (ha : a.number? = some m) (hb : b.number? = some n) :
    a.Below b ↔ m.compare? n = some .lt := by
  have hcompare : Plain.compare (.order .lt) a b = .ok ((m.compare? n).any (ordered .lt)) := by
    cases a <;> cases b <;> simp only [number?, reduceCtorEq, Option.some.injEq] at ha hb <;>
      subst ha hb <;> simp only [compare, number?] <;> cases Number.compare? _ _ <;> rfl
  rw [Below, hcompare, Except.ok.injEq]
  cases m.compare? n with
  | none => simp
  | some r => cases r <;> simp [ordered]

theorem below_of_texts {s t : String} : (Plain.str s).Below (.str t) ↔ s < t := by
  simp only [Below, compare, Except.ok.injEq]
  by_cases hlt : s < t
  · simp [hlt, ordered]
  · by_cases heq : s = t <;> simp [hlt, heq, ordered]

theorem below_iff : a.Below b ↔ ∃ p q, a.standing? = some p ∧ b.standing? = some q ∧ p.Below q := by
  have hnumbers : ∀ x y : Option (Int ×ₗ ℚ), (∃ u v, x = some u ∧ y = some v ∧ u < v) ↔
      ∃ p q, x.map Standing.number = some p ∧ y.map Standing.number = some q ∧ p.Below q := by
    intro x y
    cases x <;> cases y <;> simp [Standing.Below]
  -- two numbers, two texts, or two values that have no order
  cases a <;> cases b <;> first
    | exact (below_of_numbers rfl rfl).trans (Number.compare?_lt_iff.trans (hnumbers _ _))
    | exact below_of_texts.trans (by simp [standing?, Standing.Below])
    | simp [Below, compare, standing?, number?, Standing.Below]

/-! ### Equality and order of values -/

theorem equal_comm (a b : Plain) : a.equal b = b.equal a := by
  rw [Bool.eq_iff_iff, equal_iff, equal_iff]
  simp only [and_comm]

theorem equal_trans (hab : a.equal b = true) (hbc : b.equal c = true) : a.equal c = true := by
  rw [equal_iff] at *
  obtain ⟨p, ha, hb⟩ := hab
  obtain ⟨q, hb', hc⟩ := hbc
  obtain rfl : p = q := Option.some.inj (hb.symm.trans hb')
  exact ⟨p, ha, hc⟩

theorem Below.trans (hab : a.Below b) (hbc : b.Below c) : a.Below c := by
  rw [below_iff] at *
  obtain ⟨p, q, ha, hb, hpq⟩ := hab
  obtain ⟨q', r, hb', hc, hqr⟩ := hbc
  obtain rfl : q = q' := Option.some.inj (hb.symm.trans hb')
  exact ⟨p, r, ha, hc, hpq.trans hqr⟩

theorem Below.asymm (hab : a.Below b) : ¬ b.Below a := by
  intro hba
  obtain ⟨p, q, ha, ha', hpq⟩ := below_iff.mp (hab.trans hba)
  obtain rfl : p = q := Option.some.inj (ha.symm.trans ha')
  exact Standing.Below.irrefl p hpq

/-- A value that is below another one can be compared with it in turn. -/
theorem Below.compare_swap (hab : a.Below b) : ∃ below, compare (.order .lt) b a = .ok below := by
  unfold Below at hab
  cases a <;> cases b <;> first | exact ⟨_, rfl⟩ | cases hab

theorem Below.of_equal (hab : a.Below b) (hbc : b.equal c = true) : a.Below c := by
  rw [below_iff] at *
  obtain ⟨p, q, ha, hb, hpq⟩ := hab
  obtain ⟨q', hb', hc⟩ := equal_iff.mp hbc
  obtain rfl : q = q' := Option.some.inj (hb.symm.trans hb')
  exact ⟨p, q, ha, hc, hpq⟩

end Plain

namespace Coverage

/-! ## Lines of a list -/

/-- The list has the line: some member equals it. -/
def Has (ls : List Plain) (l : Plain) : Prop := ∃ k ∈ ls, k.equal l = true

variable {ls own other : List Plain} {k l : Plain}

theorem contains_iff : contains ls l = true ↔ Has ls l := by
  rw [contains, List.any_eq_true, Has]

theorem has_nil : ¬ Has [] l := by simp [Has]

theorem has_cons : Has (k :: ls) l ↔ k.equal l = true ∨ Has ls l := by simp [Has]

theorem has_append {ks : List Plain} : Has (ks ++ ls) l ↔ Has ks l ∨ Has ls l := by
  simp [Has, or_and_right, exists_or]

/-- A list that has a line has all that are equal to it. -/
theorem Has.of_equal (hk : Has ls k) (hkl : k.equal l = true) : Has ls l := by
  obtain ⟨j, hj, hjk⟩ := hk
  exact ⟨j, hj, Plain.equal_trans hjk hkl⟩

/-- What comes of going through lines and keeping those that are not kept yet. -/
theorem foldl_distinct (ls : List Plain) {kept : List Plain}
    (hkept : kept.Pairwise fun a b => a.equal b = false) :
    let all := ls.foldl (fun kept l => if contains kept l then kept else kept ++ [l]) kept
    all.Pairwise (fun a b => a.equal b = false) ∧
    (∀ l, Has all l ↔ Has kept l ∨ Has ls l) ∧ all ⊆ kept ++ ls := by
  -- induction on the lines that are left, for all that may have been kept of the earlier ones
  induction ls generalizing kept with
  | nil => simpa [has_nil] using hkept
  | cons k ls ih =>
    rw [List.foldl_cons]
    by_cases hk : contains kept k = true
    · -- the line is there already, and so is all that equals it
      obtain ⟨hpair, hall, hsub⟩ := ih hkept
      rw [if_pos hk]
      refine ⟨hpair, fun l => ?_, fun l hl => ?_⟩
      · have hequal : k.equal l = true → Has kept l := (contains_iff.mp hk).of_equal
        rw [hall, has_cons]
        tauto
      · have := hsub hl
        simp only [List.mem_append, List.mem_cons] at this ⊢
        tauto
    · -- the line is new, so none of those kept equals it
      have hnew : (kept ++ [k]).Pairwise fun a b => a.equal b = false := by
        refine List.pairwise_append.mpr ⟨hkept, List.pairwise_singleton _ _, ?_⟩
        intro j hj x hx
        obtain rfl := List.mem_singleton.mp hx
        by_contra hjx
        exact hk (contains_iff.mpr ⟨j, hj, by simpa using hjx⟩)
      obtain ⟨hpair, hall, hsub⟩ := ih hnew
      rw [if_neg hk]
      refine ⟨hpair, fun l => ?_, fun l hl => ?_⟩
      · rw [hall, has_append, has_cons, has_cons]
        simp only [has_nil, or_false, or_assoc]
      · have := hsub hl
        simp only [List.mem_append, List.mem_cons, List.not_mem_nil, or_false] at this ⊢
        tauto

/-- The lines of a list without repetitions are those of the list. -/
theorem distinct_spec (ls : List Plain) :
    (distinct ls).Pairwise (fun a b => a.equal b = false) ∧
    (∀ l, Has (distinct ls) l ↔ Has ls l) ∧ distinct ls ⊆ ls := by
  obtain ⟨hpair, hall, hsub⟩ := foldl_distinct ls List.Pairwise.nil
  refine ⟨hpair, fun l => ?_, hsub⟩
  rw [distinct, hall]
  simp only [has_nil, false_or]

/-- What is left of a list without another one. -/
theorem has_missingFrom : Has (missingFrom own other) l ↔ Has own l ∧ ¬ Has other l := by
  have hmem : ∀ k, k ∈ missingFrom own other ↔ k ∈ own ∧ ¬ Has other k := by
    intro k
    rw [missingFrom, List.mem_filter, Bool.not_eq_true', ← contains_iff, Bool.not_eq_true]
  constructor
  · rintro ⟨k, hk, hkl⟩
    obtain ⟨hown, hother⟩ := (hmem k).mp hk
    refine ⟨⟨k, hown, hkl⟩, ?_⟩
    intro hl
    exact hother (hl.of_equal (by rw [Plain.equal_comm, hkl]))
  · rintro ⟨⟨k, hown, hkl⟩, hother⟩
    refine ⟨k, (hmem k).mpr ⟨hown, ?_⟩, hkl⟩
    intro hk
    exact hother (hk.of_equal hkl)

/-! ## Lines in order -/

/-- Any two of the lines are equal, or one is below the other. -/
def Comparable (ls : List Plain) : Prop :=
  ∀ a ∈ ls, ∀ b ∈ ls, a.equal b = true ∨ a.Below b ∨ b.Below a

/-- Numbers are comparable, a NaN apart. -/
theorem comparable_of_numbers (h : ∀ l ∈ ls, ∃ x, l.standing? = some (.number x)) :
    Comparable ls := by
  intro a ha b hb
  obtain ⟨x, hx⟩ := h a ha
  obtain ⟨y, hy⟩ := h b hb
  rcases lt_trichotomy x y with hlt | rfl | hlt
  · exact .inr (.inl (Plain.below_iff.mpr ⟨_, _, hx, hy, hlt⟩))
  · exact .inl (Plain.equal_iff.mpr ⟨_, hx, hy⟩)
  · exact .inr (.inr (Plain.below_iff.mpr ⟨_, _, hy, hx, hlt⟩))

theorem Comparable.subset {ks : List Plain} (h : Comparable ls) (hsub : ks ⊆ ls) :
    Comparable ks :=
  fun a ha b hb => h a (hsub ha) b (hsub hb)

theorem Comparable.equal_self (h : Comparable ls) (hl : l ∈ ls) : l.equal l = true := by
  obtain heq | hlt | hlt := h l hl l hl
  · exact heq
  · exact absurd hlt hlt.asymm
  · exact absurd hlt hlt.asymm

theorem arrange_perm (ls : List Plain) : (arrange ls).Perm ls := List.mergeSort_perm _ _

theorem has_arrange : Has (arrange ls) l ↔ Has ls l := by
  simp only [Has, (arrange_perm ls).mem_iff]

/-- Comparable lines without repetitions have an order. -/
theorem Comparable.checkOrder_eq (h : Comparable ls)
    (hdistinct : ls.Pairwise fun a b => a.equal b = false) : checkOrder ls = .ok () := by
  induction ls with
  | nil => rfl
  | cons a ls ih =>
    cases ls with
    | nil => rfl
    | cons b rest =>
      obtain ⟨hfirst, hrest⟩ := List.pairwise_cons.mp hdistinct
      -- the first two lines differ, so one of them is below the other
      have hcompare : ∃ below, Plain.compare (.order .lt) b a = .ok below := by
        obtain heq | hlt | hlt := h a List.mem_cons_self b (by simp)
        · rw [hfirst b List.mem_cons_self] at heq
          cases heq
        · exact hlt.compare_swap
        · exact ⟨true, hlt⟩
      obtain ⟨below, hbelow⟩ := hcompare
      rw [checkOrder, hbelow]
      exact ih (h.subset (List.subset_cons_self a _)) hrest

/-- Comparable lines without repetitions can be sorted. -/
theorem Comparable.sorted_eq (h : Comparable ls)
    (hdistinct : ls.Pairwise fun a b => a.equal b = false) : sorted ls = .ok (arrange ls) := by
  rw [sorted, h.checkOrder_eq hdistinct]
  rfl

/-- Comparable lines without repetitions are sorted in ascending order. -/
theorem Comparable.arrange_pairwise (h : Comparable ls)
    (hdistinct : ls.Pairwise fun a b => a.equal b = false) :
    (arrange ls).Pairwise Plain.Below := by
  -- lines are put in an order in which none is below an earlier one
  obtain ⟨le, hle, harrange⟩ : ∃ le : Plain → Plain → Bool,
      (∀ a b, le a b = true ↔ ¬ b.Below a) ∧ arrange ls = ls.mergeSort le := by
    refine ⟨_, ?_, rfl⟩
    intro a b
    unfold Plain.Below
    cases Plain.compare (.order .lt) b a with
    | error f => simp
    | ok below => cases below <;> simp
  have hpair : (arrange ls).Pairwise fun a b => le a b = true := by
    rw [harrange]
    apply List.pairwise_mergeSort_of_mem
    · intro a ha b hb c hc hab hbc
      rw [hle] at hab hbc ⊢
      intro hca
      obtain heq | hlt | hlt := h a ha b hb
      · exact hbc (hca.of_equal heq)
      · exact hbc (hca.trans hlt)
      · exact hab hlt
    · intro a _ b _
      rw [Bool.or_eq_true, hle, hle]
      by_contra hboth
      rw [not_or, not_not, not_not] at hboth
      exact hboth.1.asymm hboth.2
  have hdiffer : (arrange ls).Pairwise fun a b => a.equal b = false := by
    refine (arrange_perm ls).symm.pairwise hdistinct ?_
    intro a b hab
    rw [Plain.equal_comm, hab]
  -- of two different lines the earlier one is below the later one, as the converse is excluded
  refine (hpair.and hdiffer).imp_of_mem ?_
  rintro a b ha hb ⟨hab, hne⟩
  obtain heq | hlt | hlt := h a ((arrange_perm ls).subset ha) b ((arrange_perm ls).subset hb)
  · rw [heq] at hne
    cases hne
  · exact hlt
  · exact absurd hlt ((hle a b).mp hab)

/-! ## The lines that only one list has -/

/-- The lines that only the first list has, as the comparison finds them. -/
def only (own other : List Plain) : List Plain :=
  arrange (missingFrom (distinct own) (distinct other))

theorem has_only : Has (only own other) l ↔ Has own l ∧ ¬ Has other l := by
  rw [only, has_arrange, has_missingFrom, (distinct_spec own).2.1, (distinct_spec other).2.1]

theorem only_subset (own other : List Plain) : only own other ⊆ own := by
  intro l hl
  have hmissing := (arrange_perm _).subset hl
  exact (distinct_spec own).2.2 (List.mem_filter.mp hmissing).1

/-- Of comparable lines those that another list does not have can be sorted. -/
theorem Comparable.sorted_missingFrom (h : Comparable own) (other : List Plain) :
    sorted (missingFrom (distinct own) (distinct other)) = .ok (only own other) ∧
      (only own other).Pairwise Plain.Below := by
  obtain ⟨hpair, -, hsub⟩ := distinct_spec own
  have hfilter : missingFrom (distinct own) (distinct other) ⊆ distinct own :=
    List.filter_sublist.subset
  have hcomparable := (h.subset hsub).subset hfilter
  exact ⟨hcomparable.sorted_eq (hpair.filter _), hcomparable.arrange_pairwise (hpair.filter _)⟩

/-- There is a line that only the first list has, unless the second has all of its lines. -/
theorem Comparable.only_eq_nil_iff (h : Comparable own) :
    only own other = [] ↔ ∀ l, Has own l → Has other l := by
  constructor
  · intro hnil l hl
    by_contra hother
    have honly : Has (only own other) l := has_only.mpr ⟨hl, hother⟩
    rw [hnil] at honly
    exact has_nil honly
  · intro hall
    rw [List.eq_nil_iff_forall_not_mem]
    intro l hl
    -- a line of the list is equal to itself, so the list has it
    have honly : Has (only own other) l := ⟨l, hl, h.equal_self (only_subset own other hl)⟩
    obtain ⟨hown, hother⟩ := has_only.mp honly
    exact hother (hall l hown)

/-- What two lists have to be like to tell `own` and `other` apart. -/
structure Differences (own other onlyOwn onlyOther : List Plain) : Prop where
  increasing : onlyOwn.Pairwise Plain.Below ∧ onlyOther.Pairwise Plain.Below
  disjoint : ∀ a ∈ onlyOwn, ∀ b ∈ onlyOther, a.equal b = false
  subset : onlyOwn ⊆ own ∧ onlyOther ⊆ other
  only_own : ∀ l, Has onlyOwn l ↔ Has own l ∧ ¬ Has other l
  only_other : ∀ l, Has onlyOther l ↔ Has other l ∧ ¬ Has own l
  /-- The first list has the lines of the second, without some and with others. -/
  recovered : ∀ l, Has own l ↔ (Has other l ∧ ¬ Has onlyOther l) ∨ Has onlyOwn l

theorem differences_only (hown : Comparable own) (hother : Comparable other) :
    Differences own other (only own other) (only other own) where
  increasing := ⟨(hown.sorted_missingFrom other).2, (hother.sorted_missingFrom own).2⟩
  disjoint := by
    intro a ha b hb
    by_contra hab
    -- a common line would be one of the second list and not one of it
    have hb' := hother.equal_self (only_subset other own hb)
    have hleft : Has (only own other) b := ⟨a, ha, by simpa using hab⟩
    have hright : Has (only other own) b := ⟨b, hb, hb'⟩
    exact (has_only.mp hleft).2 (has_only.mp hright).1
  subset := ⟨only_subset own other, only_subset other own⟩
  only_own _ := has_only
  only_other _ := has_only
  recovered := by
    intro l
    rw [has_only, has_only]
    tauto

/-- What a finding says of two lists, and what is printed for it. -/
structure Finding.Tells (target : String) (own other : List Plain) (found : Finding) : Prop where
  agrees_iff : found.agrees = true ↔ ∀ l, Has own l ↔ Has other l
  silent : found.agrees = true → found.report target = []
  /-- Where the lists differ, the lines that only one of them has are printed, for each list that
  has some. -/
  differs : found.agrees = false → ∃ onlyOwn onlyOther,
    Differences own other onlyOwn onlyOther ∧
    found.report target = ("Differences in " ++ target ++ ":") ::
      (listing "current" onlyOwn ++ listing "reference" onlyOther)

theorem tells_only (target : String) (hown : Comparable own) (hother : Comparable other) :
    (Finding.compared (only own other) (only other own)).Tells target own other where
  agrees_iff := by
    rw [Finding.agrees, Bool.and_eq_true, List.isEmpty_iff, List.isEmpty_iff,
      hown.only_eq_nil_iff, hother.only_eq_nil_iff]
    constructor
    · rintro ⟨hsub, hsub'⟩ l
      exact ⟨hsub l, hsub' l⟩
    · intro hsame
      exact ⟨fun l => (hsame l).mp, fun l => (hsame l).mpr⟩
  silent := by
    intro hagrees
    rw [Finding.agrees, Bool.and_eq_true] at hagrees
    simp [Finding.report, Finding.listing, hagrees.1, hagrees.2]
  differs := by
    intro hdiffers
    refine ⟨_, _, differences_only hown hother, ?_⟩
    -- one of the lists is not empty, so there is something to print
    rw [Finding.agrees] at hdiffers
    cases hleft : (only own other).isEmpty <;> cases hright : (only other own).isEmpty <;>
      simp_all [Finding.report, Finding.listing, Finding.heading]

/-! ## Coverage data -/

/-- The data has an entry for the file. -/
def Names (data : Json) (target : String) : Prop :=
  ∃ files entry, data.field? "files" = some files ∧ files.field? target = some entry

/-- The data lists the executed lines of the file, in this order and with these repetitions. -/
def Lists (data : Json) (target : String) (ls : List Plain) : Prop :=
  ∃ files entry items, data.field? "files" = some files ∧ files.field? target = some entry ∧
    entry.field? "executed_lines" = some (.list items) ∧ items.mapM line = .ok ls

/-- Coverage data: every file it has an entry for lists its lines, and these are comparable. -/
structure IsReport (data : Json) : Prop where
  files : ∃ fields, data.field? "files" = some (.object fields)
  lists : ∀ target, Names data target → ∃ ls, Lists data target ls ∧ Comparable ls

variable {current reference data : Json} {target : String}

theorem part_of_field {key : String} {j : Json} (h : data.field? key = some j) :
    part key data = .ok j := by
  cases data with
  | object fields => simp only [part, h]
  | null | bool | int | float | str | list => cases h

theorem part_of_no_field {key : String} {fields : List (String × Json)}
    (h : (Json.object fields).field? key = none) :
    part key (.object fields) = .error (.missingKey key) := by
  simp only [part, h]

theorem Lists.executedLines_eq (h : Lists data target ls) :
    executedLines data target = .ok (distinct ls) := by
  obtain ⟨files, entry, items, hfiles, hentry, hitems, hls⟩ := h
  simp [executedLines, part_of_field hfiles, part_of_field hentry, part_of_field hitems, lines, hls,
    bind, Except.bind, pure, Except.pure]

theorem Lists.names (h : Lists data target ls) : Names data target := by
  obtain ⟨files, entry, -, hfiles, hentry, -⟩ := h
  exact ⟨files, entry, hfiles, hentry⟩

/-- An object has a field exactly if it lists one of that name. -/
theorem field?_object_eq_none_iff {fields : List (String × Json)} :
    (Json.object fields).field? target = none ↔ ∀ e ∈ fields, e.1 ≠ target := by
  rw [Json.field?, List.lookup_eq_none_iff]
  constructor
  · intro h e he hname
    have := h e (List.mem_reverse.mpr he)
    simp [hname] at this
  · intro h e he
    exact bne_iff_ne.mpr (h e (List.mem_reverse.mp he)).symm

theorem field?_of_not_names {files : Json} (hfiles : data.field? "files" = some files)
    (hno : ¬ Names data target) : files.field? target = none := by
  rw [Option.eq_none_iff_forall_not_mem]
  intro entry hentry
  exact hno ⟨files, entry, hfiles, hentry⟩

/-- A report knows the files that it has an entry for, and no others. -/
theorem IsReport.exists_knows (h : IsReport data) (target : String) :
    ∃ files, part "files" data = .ok files ∧
      (Names data target → knows files target = .ok true) ∧
      (¬ Names data target → knows files target = .ok false) := by
  obtain ⟨fields, hfields⟩ := h.files
  refine ⟨_, part_of_field hfields, ?_, ?_⟩
  · rintro ⟨files, entry, hfiles, hentry⟩
    obtain rfl : Json.object fields = files := Option.some.inj (hfields.symm.trans hfiles)
    have hsome : ¬ (Json.object fields).field? target = none := by
      rw [hentry]
      exact Option.some_ne_none entry
    rw [field?_object_eq_none_iff] at hsome
    push Not at hsome
    obtain ⟨e, he, hname⟩ := hsome
    exact congrArg Except.ok (List.any_eq_true.mpr ⟨e, he, beq_iff_eq.mpr hname⟩)
  · intro hno
    have hnone := field?_object_eq_none_iff.mp (field?_of_not_names hfields hno)
    exact congrArg Except.ok (List.any_eq_false.mpr fun e he => by simpa using hnone e he)

theorem IsReport.executedLines_of_not_names (h : IsReport data) (hno : ¬ Names data target) :
    executedLines data target = .error (.missingKey target) := by
  obtain ⟨fields, hfields⟩ := h.files
  have hnone := field?_of_not_names hfields hno
  simp [executedLines, part_of_field hfields, part_of_no_field hnone, bind, Except.bind]

/-! ## The comparison -/

theorem IsReport.compare_of_not_names (hr : IsReport reference)
    (hno : ¬ Names reference target) (current : Json) :
    compare current reference target = .ok .unknownFile := by
  obtain ⟨files, hfiles, -, hknows⟩ := hr.exists_knows target
  simp [compare, hfiles, hknows hno, bind, Except.bind, pure, Except.pure]

theorem IsReport.compare_of_names (hr : IsReport reference) (hyes : Names reference target)
    (hc : IsReport current) (hno : ¬ Names current target) :
    compare current reference target = .error (.missingKey target) := by
  obtain ⟨files, hfiles, hknows, -⟩ := hr.exists_knows target
  simp [compare, hfiles, hknows hyes, hc.executedLines_of_not_names hno, bind, Except.bind]

theorem IsReport.compare_of_lists (hr : IsReport reference) (hown : Lists current target own)
    (hcomparable : Comparable own) (hother : Lists reference target other)
    (hcomparable' : Comparable other) :
    compare current reference target = .ok (.compared (only own other) (only other own)) := by
  obtain ⟨files, hfiles, hknows, -⟩ := hr.exists_knows target
  obtain ⟨hsorted, -⟩ := hcomparable.sorted_missingFrom other
  obtain ⟨hsorted', -⟩ := hcomparable'.sorted_missingFrom own
  simp [compare, hfiles, hknows hother.names, hown.executedLines_eq, hother.executedLines_eq,
    hsorted, hsorted', Except.mapError, bind, Except.bind, pure, Except.pure]

/--
**Coverage is compared as sets of lines.** Take coverage data and a reference, each with a list of
comparable lines for every file it has an entry for, and any file. If the reference has no entry for
it, the answer is no. If only the reference has one, the comparison fails for want of the key. If
both have one, the answer is yes exactly if the two lists have the same lines, whatever their order
and repetitions, and it is the same when the two are exchanged. Nothing is printed for a yes. For a
no, two lists are printed, an empty one left out: strictly increasing, without a common line, the
lines that only the data has and those that only the reference has, so that the lines of the data
are those of the reference without the latter and with the former.
-/
theorem line_sets_compared (hc : IsReport current) (hr : IsReport reference) (target : String) :
    (¬ Names reference target →
      (compare current reference target).map Finding.agrees = .ok false) ∧
    (Names reference target → ¬ Names current target →
      ∃ f, compare current reference target = .error f ∧ f.className = "KeyError" ∧
        f.message = Text.quoted target) ∧
    (Names reference target → Names current target →
      ∃ own other found, Lists current target own ∧ Lists reference target other ∧
        compare current reference target = .ok found ∧ found.Tells target own other ∧
        (compare reference current target).map Finding.agrees = .ok found.agrees) := by
  refine ⟨?_, ?_, ?_⟩
  · intro hno
    rw [hr.compare_of_not_names hno current]
    rfl
  · intro hyes hno
    exact ⟨_, hr.compare_of_names hyes hc hno, rfl, rfl⟩
  · intro hyes hyes'
    obtain ⟨other, hother, hcomparable'⟩ := hr.lists target hyes
    obtain ⟨own, hown, hcomparable⟩ := hc.lists target hyes'
    refine ⟨own, other, _, hown, hother,
      hr.compare_of_lists hown hcomparable hother hcomparable',
      tells_only target hcomparable hcomparable', ?_⟩
    rw [hc.compare_of_lists hother hcomparable' hown hcomparable]
    exact congrArg Except.ok (Bool.and_comm _ _)

/-! ## A sample -/

/-- Coverage data with line numbers for files. -/
def ofLines (files : List (String × List Int)) : Json :=
  .object [("files", .object (files.map fun e =>
    (e.1, .object [("executed_lines", .list (e.2.map .int))])))]

theorem mapM_line_ints (ns : List Int) :
    (ns.map Json.int).mapM line = .ok (ns.map .int) := by
  induction ns with
  | nil => rfl
  | cons n ns ih => simp [List.mapM_cons, line, ih, bind, Except.bind, pure, Except.pure]

theorem comparable_ints (ns : List Int) : Comparable (ns.map .int) := by
  refine comparable_of_numbers fun l hl => ?_
  obtain ⟨n, -, rfl⟩ := List.mem_map.mp hl
  exact ⟨toLex (0, n), rfl⟩

theorem isReport_ofLines (files : List (String × List Int)) : IsReport (ofLines files) where
  files := ⟨_, rfl⟩
  lists := by
    rintro target ⟨fields, entry, hfields, hentry⟩
    obtain rfl := Option.some.inj hfields
    obtain ⟨before, after, heq, -⟩ := List.lookup_eq_some_iff.mp hentry
    have hmem : (target, entry) ∈ files.map fun e =>
        (e.1, Json.object [("executed_lines", .list (e.2.map .int))]) := by
      rw [← List.mem_reverse, heq]
      simp
    obtain ⟨e, -, he⟩ := List.mem_map.mp hmem
    obtain ⟨-, rfl⟩ := Prod.mk.inj he
    exact ⟨e.2.map .int, ⟨_, _, _, rfl, hentry, rfl, mapM_line_ints e.2⟩, comparable_ints e.2⟩

end Coverage

namespace Sample

open Coverage

theorem reference_eq :
    reference = ofLines (executedLines.map fun e => (e.1, e.2.map fun n : Nat => (n : Int))) := by
  rfl

/-- The lines of one sample in no order, one of them twice: line 11 is missing, and line 3 is one
that no test reaches. -/
def strayCoverage : Json := ofLines [("example4.py", [13, 2, 1, 1, 5, 7, 3, 10, 8])]

/-- The lines listed there. -/
def strayLines : List Plain := [13, 2, 1, 1, 5, 7, 3, 10, 8].map .int

/-- The lines that the reference lists. -/
def expectedLines : List Plain := [1, 2, 5, 7, 8, 10, 11, 13].map .int

theorem stray_lists : Lists strayCoverage "example4.py" strayLines :=
  ⟨_, _, _, rfl, rfl, rfl, rfl⟩

theorem reference_lists : Lists reference "example4.py" expectedLines :=
  ⟨_, _, _, rfl, rfl, rfl, rfl⟩

/-- Stray coverage against the reference: a file that neither knows, one that only the reference
knows, and one that both know. -/
theorem stray_lines_compared :
    IsReport strayCoverage ∧ IsReport reference ∧
    (compare strayCoverage reference "example7.py").map Finding.agrees = .ok false ∧
    (∃ f, compare strayCoverage reference "example1.py" = .error f ∧ f.className = "KeyError" ∧
      f.message = Text.quoted "example1.py") ∧
    ∃ own other found, Lists strayCoverage "example4.py" own ∧
      Lists reference "example4.py" other ∧
      compare strayCoverage reference "example4.py" = .ok found ∧
      found.Tells "example4.py" own other ∧
      found.report "example4.py" =
        ["Differences in example4.py:", "  Only in current: [3]", "  Only in reference: [11]"] := by
  have hc : IsReport strayCoverage := isReport_ofLines _
  have hr : IsReport reference := reference_eq ▸ isReport_ofLines _
  obtain ⟨hunknown, -, -⟩ := line_sets_compared hc hr "example7.py"
  obtain ⟨-, hmissing, -⟩ := line_sets_compared hc hr "example1.py"
  obtain ⟨-, -, hboth⟩ := line_sets_compared hc hr "example4.py"
  obtain ⟨own, other, found, hown, hother, hcompare, htells, -⟩ :=
    hboth ⟨_, _, rfl, rfl⟩ ⟨_, _, rfl, rfl⟩
  refine ⟨hc, hr, hunknown ?_, hmissing ⟨_, _, rfl, rfl⟩ ?_, own, other, found, hown, hother,
    hcompare, htells, ?_⟩
  · rintro ⟨files, entry, hfiles, hentry⟩
    obtain rfl := Option.some.inj hfiles
    cases hentry
  · rintro ⟨files, entry, hfiles, hentry⟩
    obtain rfl := Option.some.inj hfiles
    cases hentry
  · have hfound := hr.compare_of_lists stray_lists (comparable_ints _) reference_lists
      (comparable_ints _)
    obtain rfl := Except.ok.inj (hcompare.symm.trans hfound)
    -- one line is left on each side, so there is nothing to sort
    have honly : only strayLines expectedLines = [.int 3] := List.mergeSort_singleton _
    have honly' : only expectedLines strayLines = [.int 11] := List.mergeSort_singleton _
    rw [honly, honly']
    rfl

end Sample

end Pathwise
