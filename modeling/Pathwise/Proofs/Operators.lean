import Pathwise.Proofs.Rationals

/-!
# What symbolic operators mean

A symbolic number stands for the integer that its term has under a valuation, a condition for the
truth of its formula; plain integers and truth values stand for themselves. The operators of the
language respect this, whichever of the operands is symbolic. The exception is an operator that
does not commute with a symbolic number on its right only: there the operands are exchanged. All
this is the case of integer terms in what holds of terms of both sorts.

* `Value.Counts`, `Value.Raw.Tells` — what a value stands for.
* `Value.ring_counts`, `Value.mod_counts`, `Value.neg_counts` — arithmetic.
* `Value.compare_tells` — comparisons.
-/

namespace Pathwise

/-! ## Plain integers -/

theorem Number.compare?_int (a b : Int) :
    (Number.int a).compare? (.int b) =
      some (if a < b then .lt else if a = b then .eq else .gt) := by
  simp only [compare?, rational?]
  norm_cast

theorem Plain.compare_int (op : Comparison) (a b : Int) :
    (Plain.int a).compare op (.int b) = .ok (op.onInt a b) := by
  -- the three outcomes of comparing two numbers, each with all that it says of their order
  have hordered : ∀ o : Order,
      ordered o (if a < b then .lt else if a = b then .eq else .gt) = o.onInt a b := by
    intro o
    rcases Int.lt_trichotomy a b with h | rfl | h
    · rw [if_pos h]
      have hle : a ≤ b := Int.le_of_lt h
      have hgt : ¬ b < a := Int.not_lt.mpr hle
      have hge : ¬ b ≤ a := Int.not_le.mpr h
      cases o <;> simp only [Order.onInt, h, hle, hgt, hge, decide_true, decide_false] <;> rfl
    · cases o <;> simp only [Order.onInt, Int.lt_irrefl, Int.le_refl, decide_true, decide_false,
        if_true, if_false] <;> rfl
    · have hge : b ≤ a := Int.le_of_lt h
      have hlt : ¬ a < b := Int.not_lt.mpr hge
      have hle : ¬ a ≤ b := Int.not_le.mpr h
      rw [if_neg hlt, if_neg (Int.ne_of_gt h)]
      cases o <;> simp only [Order.onInt, h, hge, hlt, hle, decide_true, decide_false] <;> rfl
  cases op with
  | order o => simp [compare, number?, Number.compare?_int, hordered, Comparison.onInt]
  | eq | ne =>
    simp only [compare, equal, number?, Number.compare?_int, Comparison.onInt]
    by_cases h : a = b
    · simp [h]
    · by_cases hlt : a < b <;> simp [h, hlt]

namespace Value

/-- The value stands for an integer. -/
inductive Counts (ρ : Valuation) : Value → Int → Prop where
  | int (n : Int) : Counts ρ (.int n) n
  | term (t : Term .int) : Counts ρ (.number (.term t)) (t.eval ρ)

/-- What an operator yields stands for a truth value. -/
inductive Raw.Tells (ρ : Valuation) : Raw → Bool → Prop where
  | bool (b : Bool) : Raw.Tells ρ (.value (.bool b)) b
  | condition (p : Formula) : Raw.Tells ρ (.condition (.term p)) (p.eval ρ)

variable {ρ : Valuation} {u v : Value} {a b : Int}

/-- What counts amounts to the integer, and is no rational term. -/
theorem Counts.exists_amounts (h : u.Counts ρ a) :
    ∃ n, n ≠ some Numeric.real ∧ u.Amounts ρ n a := by
  cases h with
  | int => exact ⟨Option.none, by simp, .int a⟩
  | term t => exact ⟨some .int, by simp, .term rfl⟩

theorem Amounts.counts {n : Option Numeric} (h : u.Amounts ρ n a) (hn : n ≠ some .real) :
    u.Counts ρ a := by
  cases h with
  | int => exact .int a
  | @term k t _ ht =>
    cases k with
    | real => exact absurd rfl hn
    | int =>
      obtain rfl : t.eval ρ = a := Int.cast_injective (α := Rat) ht
      exact .term t

/-- A difference exchanges its operands if the symbolic one stands on the right only. -/
theorem exchanges_of_amounts {k : Numeric} (hu : u.Amounts ρ Option.none a)
    (hv : v.Amounts ρ (some k) b) : exchanges (.arith (.ring .sub)) u v = true := by
  cases hu
  cases hv
  rfl

/-! ## Arithmetic -/

theorem ring_counts (title : String) (op : Ring) (hu : u.Counts ρ a) (hv : v.Counts ρ b)
    (hno : exchanges (.arith (.ring op)) u v = false) :
    ∃ w, binary title (.arith (.ring op)) u v = .ok (.value w) ∧ w.Counts ρ (op.onInt a b) := by
  obtain ⟨m, hm, hu⟩ := hu.exists_amounts
  obtain ⟨n, hn, hv⟩ := hv.exists_amounts
  have hkept : op ≠ .sub ∨ m ≠ Option.none ∨ n = Option.none := by
    by_contra h
    obtain ⟨rfl, rfl, hsome⟩ : op = .sub ∧ m = Option.none ∧ n ≠ Option.none := by
      simpa only [not_or, not_not] using h
    obtain ⟨k, rfl⟩ := Option.ne_none_iff_exists'.mp hsome
    rw [exchanges_of_amounts hu hv] at hno
    cases hno
  obtain ⟨w, hw, -, hamounts⟩ := ring_amounts title op hu hv hkept
  refine ⟨w, hw, hamounts.counts fun hreal => ?_⟩
  exact (Numeric.wider_eq_real.mp hreal).elim hm hn

theorem mod_counts (title : String) (hu : u.Counts ρ a) {n : Int} (hn : 0 < n) :
    ∃ w, binary title (.arith .mod) u (.int n) = .ok (.value w) ∧ w.Counts ρ (a.fmod n) := by
  obtain ⟨m, hm, hu⟩ := hu.exists_amounts
  obtain ⟨w, hw, hamounts⟩ := mod_amounts title hu hm hn
  exact ⟨w, hw, hamounts.counts hm⟩

theorem neg_counts (hu : u.Counts ρ a) : ∃ w, unary .neg u = .ok w ∧ w.Counts ρ (-a) := by
  obtain ⟨m, hm, hu⟩ := hu.exists_amounts
  obtain ⟨w, hw, hamounts⟩ := neg_amounts hu
  exact ⟨w, hw, hamounts.counts hm⟩

/-! ## Comparisons -/

theorem compare_tells (op : Comparison) (hu : u.Counts ρ a) (hv : v.Counts ρ b) :
    ∃ r, compare op u v = .ok r ∧ r.Tells ρ (op.onInt a b) := by
  obtain ⟨m, -, hu⟩ := hu.exists_amounts
  obtain ⟨n, -, hv⟩ := hv.exists_amounts
  by_cases hsome : m ≠ Option.none ∨ n ≠ Option.none
  · obtain ⟨p, hp, heval⟩ := compare_amounts op hu hv hsome
    exact ⟨.condition (.term p), hp, heval ▸ .condition p⟩
  · -- two integers are compared as they are
    obtain ⟨rfl, rfl⟩ : m = Option.none ∧ n = Option.none := by
      simpa only [not_or, not_not] using hsome
    obtain rfl := hu.eq_int
    obtain rfl := hv.eq_int
    refine ⟨.value (.bool (op.onInt a b)), ?_, .bool _⟩
    simp [compare, compareUnwrapped, Plain.compare_int, Except.map]

end Value

end Pathwise
