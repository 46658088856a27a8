import Mathlib.Algebra.Order.Field.Power
import Mathlib.Algebra.Order.Ring.Nat
import Mathlib.Tactic.NormNum
import Pathwise.Proofs.Rationals
import Pathwise.Proofs.Remainders

/-!
# Operators with an integer on the left

Where an integer stands on the left of a symbolic number, the symbolic number does the arithmetic,
and it does it with the operands exchanged. Sums and products do not notice.

* `emod_swap_iff`, `pow_swap_iff` — when an exchange goes unnoticed by chance.
* `Arith.value?` — the value of the operation that was written.
* `Value.reflected_right_iff` — when the term has that value.
-/

namespace Pathwise

/-! ## Exchanged remainders -/

section Remainders

variable {n v : Int}

/-- The remainder of the language by a negative divisor is not positive. -/
theorem fmod_nonpos (hv : v < 0) : n.fmod v ≤ 0 := by
  by_cases hdvd : v ∣ n
  · rw [Int.fmod_eq_zero_of_dvd hdvd]
  · have hadd := fmod_eq_emod_add hv hdvd
    have hlt := Int.emod_lt_of_neg n hv
    omega

theorem emod_swap_of_neg (hv : v < 0) (hn : n ≠ 0) : v % n = n.fmod v ↔ v = n ∨ v = -n := by
  constructor
  · intro heq
    -- one side is not negative and the other not positive, so both are zero
    have hnonneg : 0 ≤ v % n := Int.emod_nonneg v hn
    have hnonpos : n.fmod v ≤ 0 := fmod_nonpos hv
    have hnv : n ∣ v := Int.dvd_of_emod_eq_zero (by omega)
    have hvn : v ∣ n := Int.dvd_of_fmod_eq_zero (by omega)
    exact Int.natAbs_eq_natAbs_iff.mp
      (Nat.dvd_antisymm (Int.natAbs_dvd_natAbs.mpr hvn) (Int.natAbs_dvd_natAbs.mpr hnv))
  · intro h
    have hnv : n ∣ v := by rcases h with rfl | rfl <;> simp
    have hvn : v ∣ n := by rcases h with rfl | rfl <;> simp
    rw [Int.emod_eq_zero_of_dvd hnv, Int.fmod_eq_zero_of_dvd hvn]

theorem emod_swap_of_pos (hv : 0 < v) (hn : 0 < n) : v % n = n.fmod v ↔ v = n := by
  rw [Int.fmod_eq_emod_of_nonneg n (Int.le_of_lt hv)]
  have hvn := Int.emod_lt_of_pos v hn
  have hnv := Int.emod_lt_of_pos n hv
  -- the smaller number is its own remainder by the larger one
  rcases Int.lt_trichotomy v n with hlt | rfl | hgt
  · rw [Int.emod_eq_of_lt (Int.le_of_lt hv) hlt]
    omega
  · simp
  · rw [Int.emod_eq_of_lt (Int.le_of_lt hn) hgt]
    omega

theorem emod_swap_of_pos_neg (hv : 0 < v) (hn : n < 0) :
    v % n = n.fmod v ↔ -n ≤ v ∧ v < -(2 * n) := by
  rw [Int.fmod_eq_emod_of_nonneg n (Int.le_of_lt hv), ← Int.emod_neg]
  have hlt := Int.emod_lt_of_pos v (b := -n) (by omega)
  have hnonneg := Int.emod_nonneg v (b := -n) (by omega)
  by_cases hsmall : v < -n
  · -- the dividend is its own remainder, which is too large for the other side
    have hother := Int.emod_lt_of_pos n hv
    rw [Int.emod_eq_of_lt (Int.le_of_lt hv) hsmall]
    omega
  · -- the other side is `v + n`, and so is this one if the quotient is one
    have hother : n % v = v + n := by
      rw [← Int.add_emod_right n v, Int.emod_eq_of_lt (by omega) (by omega)]
      omega
    rw [hother]
    constructor
    · intro heq
      omega
    · rintro ⟨-, hupper⟩
      rw [← Int.sub_emod_right, Int.emod_eq_of_lt (by omega) (by omega)]
      omega

/-- Exchanging the operands of a remainder does not change it. -/
theorem emod_swap_iff (hn : n ≠ 0) (hv : v ≠ 0) :
    v % n = n.fmod v ↔ v = n ∨ (v = -n ∧ v < 0) ∨ (-n ≤ v ∧ v < -(2 * n)) := by
  rcases Int.lt_or_gt_of_ne hv with hneg | hpos
  · rw [emod_swap_of_neg hneg hn]
    omega
  · rcases Int.lt_or_gt_of_ne hn with hneg' | hpos'
    · rw [emod_swap_of_pos_neg hpos hneg']
      omega
    · rw [emod_swap_of_pos hpos hpos']
      omega

end Remainders

/-! ## Exchanged powers -/

section Powers

/-- A power of two exceeds its exponent by more than one, from the second on. -/
theorem add_one_lt_two_pow {j : Nat} (hj : 2 ≤ j) : j + 1 < 2 ^ j := by
  obtain ⟨i, rfl⟩ : ∃ i, j = i + 1 := ⟨j - 1, by omega⟩
  have hlt : i < 2 ^ i := Nat.lt_two_pow_self
  rw [Nat.pow_succ]
  omega

/-- The base divides the exponent, and the quotient has to be two. -/
theorem pow_swap_of_lt {a b : Nat} (ha : 0 < a) (hab : a < b) (h : a ^ b = b ^ a) :
    a = 2 ∧ b = 4 := by
  have hdvd : a ∣ b := (Nat.pow_dvd_pow_iff ha.ne').mp (h ▸ Nat.pow_dvd_pow a hab.le)
  obtain ⟨k, rfl⟩ := hdvd
  obtain ⟨j, rfl⟩ := Nat.exists_eq_succ_of_ne_zero (n := k) (by rintro rfl; simp at hab)
  have hroot : a ^ (j + 1) = a * (j + 1) := by
    refine Nat.pow_left_injective ha.ne' ?_
    show (a ^ (j + 1)) ^ a = (a * (j + 1)) ^ a
    rw [← h, ← Nat.pow_mul, Nat.mul_comm]
  have hpow : a ^ j = j + 1 := by
    rw [Nat.pow_succ, Nat.mul_comm] at hroot
    exact Nat.eq_of_mul_eq_mul_left ha hroot
  have hone : j ≠ 0 := by
    rintro rfl
    simp at hab
  have htwo : 2 ≤ a := by
    by_contra hnot
    obtain rfl : a = 1 := by omega
    rw [Nat.one_pow] at hpow
    omega
  have hsmall : j < 2 := by
    by_contra hnot
    have hlt := add_one_lt_two_pow (j := j) (by omega)
    have hle : 2 ^ j ≤ a ^ j := Nat.pow_le_pow_left htwo j
    omega
  obtain rfl : j = 1 := by omega
  obtain rfl : a = 2 := by rw [← Nat.pow_one a, hpow]
  exact ⟨rfl, rfl⟩

theorem pow_swap_iff {a b : Nat} (ha : 0 < a) (hb : 0 < b) :
    a ^ b = b ^ a ↔ a = b ∨ (a = 2 ∧ b = 4) ∨ (a = 4 ∧ b = 2) := by
  constructor
  · intro h
    rcases Nat.lt_trichotomy a b with hlt | heq | hgt
    · exact .inr (.inl (pow_swap_of_lt ha hlt h))
    · exact .inl heq
    · exact .inr (.inr (pow_swap_of_lt hb hgt h.symm).symm)
  · rintro (rfl | ⟨rfl, rfl⟩ | ⟨rfl, rfl⟩) <;> rfl

/-- Powers of integers whose operands have different signs cannot be exchanged. -/
theorem zpow_swap_ne {a b : Nat} (ha : 0 < a) (hb : 0 < b) :
    (a : ℚ) ^ (-b : ℤ) ≠ (-b : ℚ) ^ (a : ℤ) := by
  intro h
  have hone : ((-b : ℤ) ^ a * a ^ b : ℤ) = 1 := by
    have ha' : (a : ℚ) ≠ 0 := by exact_mod_cast ha.ne'
    rw [zpow_neg, zpow_natCast, zpow_natCast] at h
    have : ((-b : ℚ) ^ a * a ^ b : ℚ) = 1 := by
      rw [← h, inv_mul_cancel₀ (pow_ne_zero b ha')]
    exact_mod_cast this
  have habs : b ^ a * a ^ b = 1 := by
    have := congrArg Int.natAbs hone
    simpa [Int.natAbs_mul, Int.natAbs_pow] using this
  obtain rfl : b = 1 :=
    (Nat.pow_eq_one.mp (Nat.eq_one_of_mul_eq_one_right habs)).resolve_right ha.ne'
  obtain rfl : a = 1 :=
    (Nat.pow_eq_one.mp (Nat.eq_one_of_mul_eq_one_left habs)).resolve_right one_ne_zero
  norm_num at hone

/-- For two negative operands only the sizes count. -/
theorem zpow_swap_of_neg {a b : Nat} (ha : 0 < a) (hb : 0 < b) :
    (-b : ℚ) ^ (-a : ℤ) = (-a : ℚ) ^ (-b : ℤ) ↔ b ^ a = a ^ b := by
  have hcast : (-b : ℚ) ^ (-a : ℤ) = (-a : ℚ) ^ (-b : ℤ) ↔ (-b : ℤ) ^ a = (-a : ℤ) ^ b := by
    rw [zpow_neg, zpow_neg, inv_inj, zpow_natCast, zpow_natCast]
    exact_mod_cast Iff.rfl
  rw [hcast]
  constructor
  · intro h
    simpa [Int.natAbs_pow] using congrArg Int.natAbs h
  · intro h
    rcases (pow_swap_iff hb ha).mp h with rfl | ⟨rfl, rfl⟩ | ⟨rfl, rfl⟩ <;> rfl

/-- Exchanging the operands of a power does not change it. -/
theorem zpow_swap_iff {n v : Int} (hn : n ≠ 0) (hv : v ≠ 0) :
    (v : ℚ) ^ n = (n : ℚ) ^ v ↔
      v = n ∨ (n, v) ∈ [(2, 4), (4, 2), (-2, -4), (-4, -2)] := by
  obtain ⟨a, rfl | rfl⟩ := Int.eq_nat_or_neg n <;> obtain ⟨b, rfl | rfl⟩ := Int.eq_nat_or_neg v
  · -- two positive operands are natural numbers
    have hcast : ((b : ℤ) : ℚ) ^ (a : ℤ) = ((a : ℤ) : ℚ) ^ (b : ℤ) ↔ b ^ a = a ^ b := by
      rw [zpow_natCast, zpow_natCast]
      exact_mod_cast Iff.rfl
    rw [hcast, pow_swap_iff (by omega) (by omega)]
    simp
    omega
  · have hne := zpow_swap_ne (a := a) (b := b) (by omega) (by omega)
    rw [Int.cast_neg, Int.cast_natCast, Int.cast_natCast, iff_false_left hne.symm]
    simp
    omega
  · have hne := zpow_swap_ne (a := b) (b := a) (by omega) (by omega)
    rw [Int.cast_neg, Int.cast_natCast, Int.cast_natCast, iff_false_left hne]
    simp
    omega
  · have hsizes := zpow_swap_of_neg (a := a) (b := b) (by omega) (by omega)
    rw [Int.cast_neg, Int.cast_neg, Int.cast_natCast, Int.cast_natCast, hsizes,
      pow_swap_iff (by omega) (by omega)]
    simp
    omega

end Powers

/-! ## What was written -/

/-- The exact value of an operation on integers, where the language defines it. -/
def Arith.value? : Arith → Int → Int → Option Rat
  | .ring op, a, b => some (op.onInt a b)
  | .mod, a, b => if b = 0 then none else some (a.fmod b)
  | .pow, a, b => if a = 0 ∧ b < 0 then none else some ((a : Rat) ^ b)

/-- A negative exponent leads to a fault or to a floating point number. -/
theorem Whole.pow_ne_int {a b i : Int} (hb : b < 0) : Whole.pow a b ≠ .ok (.int i) := by
  intro h
  rw [Whole.pow, if_neg (by omega)] at h
  split at h
  · cases h
  · generalize Double.ofInt a = base, Double.ofInt b = exponent at h
    -- each of the three steps can fail
    rcases base with f | x
    · cases h
    rcases exponent with f | y
    · cases h
    change (Double.pow x y >>= fun z => pure (Number.float z)) = _ at h
    generalize Double.pow x y = power at h
    cases power <;> cases h

/-- Where the language gives an integer, this is the exact value. -/
theorem Arith.value?_of_int {op : Arith} {a b i : Int}
    (h : Whole.binary (.arith op) a b = .ok (.int i)) : op.value? a b = some (i : Rat) := by
  cases op with
  | ring r =>
    cases h
    rfl
  | mod =>
    rw [Whole.binary] at h
    split at h
    · cases h
    · rename_i hb
      cases h
      exact if_neg hb
  | pow =>
    rw [Whole.binary] at h
    by_cases hb : 0 ≤ b
    · rw [Whole.pow_of_nonneg hb] at h
      cases h
      rw [value?, if_neg (by omega), Int.cast_pow, ← zpow_natCast, Int.toNat_of_nonneg hb]
    · exact absurd h (Whole.pow_ne_int (by omega))

/-- Where there is no exact value, the language divides by zero. -/
theorem Arith.zeroDivision_of_value? {op : Arith} {a b : Int} (h : op.value? a b = none) :
    ∃ d, Whole.binary (.arith op) a b = .error (.zeroDivision d) := by
  cases op with
  | ring r => cases h
  | mod =>
    by_cases hb : b = 0
    · exact ⟨.remainder, if_pos hb⟩
    · simp [value?, hb] at h
  | pow =>
    by_cases hb : a = 0 ∧ b < 0
    · refine ⟨.power, ?_⟩
      rw [Whole.binary, Whole.pow, if_neg (by omega), if_pos hb.1]
      rfl
    · simp [value?, hb] at h

/-- The exact value against the language: they agree where it gives an integer, and there is none
only if it divides by zero. -/
theorem Value.arith_value? (title : String) (op : Arith) (a b : Int) :
    (∀ i, binary title (.arith op) (.int a) (.int b) = .ok (.value (.int i)) →
      op.value? a b = some (i : Rat)) ∧
    (op.value? a b = Option.none →
      ∃ d, binary title (.arith op) (.int a) (.int b) = .error (.zeroDivision d)) := by
  rw [binary_int]
  constructor
  · intro i h
    refine Arith.value?_of_int ?_
    cases hr : Whole.binary (.arith op) a b with
    | error f =>
      rw [hr] at h
      cases h
    | ok r =>
      rw [hr] at h
      cases r with
      | float x => cases h
      | int j =>
        cases h
        rfl
  · intro h
    obtain ⟨d, hd⟩ := Arith.zeroDivision_of_value? h
    exact ⟨d, by rw [hd]; rfl⟩

namespace Valuation

variable (ρ : Valuation)

/-- A power of integers is determined unless it is a power of zero below the first. -/
theorem power_int {q : Rat} {n : Int} (h : 0 < n ∨ q ≠ 0) : ρ.power q n = q ^ n := by
  rcases Int.lt_or_le 0 n with hpos | hle
  · rw [power_of_pos ρ q hpos, ← zpow_natCast, Int.toNat_of_nonneg hpos.le]
  · have hq : q ≠ 0 := h.resolve_left (by omega)
    have hexp : n = -((-n).toNat : Int) := by omega
    simp only [power, Rat.den_intCast, Rat.num_intCast, ne_eq, not_true_eq_false, if_false,
      Int.not_lt.mpr hle, hq]
    conv_rhs => rw [hexp]
    rw [zpow_neg, zpow_natCast, inv_pow]

theorem power_zero {n : Int} (hn : n ≤ 0) : ρ.power 0 n = ρ.openPower 0 n := by
  simp [power, Int.not_lt.mpr hn]

end Valuation

/-! ## What was done instead -/

/-- The value of `n op v` does not change if its operands are exchanged. What arithmetic leaves open
is as the valuation says. -/
def Arith.Survives (ρ : Valuation) : Arith → Int → Int → Prop
  | .ring .add, _, _ | .ring .mul, _, _ => True
  | .ring .sub, n, v => v = n
  | .mod, n, v =>
    if n = 0 then ρ.modZero v = 0
    else v = n ∨ (v = -n ∧ v < 0) ∨ (-n ≤ v ∧ v < -(2 * n))
  | .pow, n, v =>
    (v = 0 ∧ n ≤ 0 ∧ ρ.openPower 0 n = 1) ∨
      (n ≠ 0 ∧ (v = n ∨ (n, v) ∈ [(2, 4), (4, 2), (-2, -4), (-4, -2)]))

section Survives

variable (ρ : Valuation) {n v : Int}

theorem Ring.survives_iff (op : Ring) :
    op.onInt v n = op.onInt n v ↔ (Arith.ring op).Survives ρ n v := by
  cases op with
  | add => simp [onInt, Arith.Survives, Int.add_comm]
  | mul => simp [onInt, Arith.Survives, Int.mul_comm]
  | sub =>
    simp only [onInt, Arith.Survives]
    omega

theorem Valuation.mod_survives_iff (hv : v ≠ 0) :
    ρ.mod v n = n.fmod v ↔ Arith.mod.Survives ρ n v := by
  by_cases hn : n = 0
  · simp [Valuation.mod, Arith.Survives, hn]
  · rw [Valuation.mod, if_neg hn, Arith.Survives, if_neg hn]
    exact emod_swap_iff hn hv

theorem Valuation.power_survives_iff (hdefined : ¬ (n = 0 ∧ v < 0)) :
    ρ.power v n = (n : Rat) ^ v ↔ Arith.pow.Survives ρ n v := by
  rw [Arith.Survives]
  by_cases hv : v = 0
  · -- the language takes a zeroth power, which is one
    subst hv
    rcases Int.lt_or_le 0 n with hpos | hle
    · have hzero : ρ.power ((0 : Int) : Rat) n = 0 := by
        rw [ρ.power_int (.inl hpos), Int.cast_zero, zero_zpow n (by omega)]
      rw [hzero]
      simp
      omega
    · rw [Int.cast_zero, ρ.power_zero hle, zpow_zero]
      simp [hle]
      omega
  · have hpower : ρ.power v n = (v : Rat) ^ n := ρ.power_int (.inr (by exact_mod_cast hv))
    rw [hpower]
    by_cases hn : n = 0
    · -- the language takes a power of zero, and the term a zeroth power
      subst hn
      rw [Int.cast_zero, zero_zpow v hv]
      simp [hv]
    · rw [zpow_swap_iff hn hv]
      simp [hv, hn]

end Survives

/--
**When reflected operators are right.** An integer on the left of a symbolic number gives the same
term as the integer on its right. Where the language defines what was written, the term has its
value

* always for sums and products;
* for a difference, only if both operands are equal;
* for a remainder, only if the operands are equal, or opposite with a negative divisor, or if the
  dividend is negative and its size goes into the divisor once but not twice; for a dividend zero,
  as the valuation fills in remainders by zero;
* for a power, only if the operands are equal and not zero, or are two and four or minus two and
  minus four; for the zeroth power of a number that is not positive, as the valuation fills in
  powers of zero.
-/
theorem Value.reflected_right_iff (title : String) (op : Arith) (n : Int) (t : Term .int) :
    ∃ (k : Numeric) (r : Term (.num k)),
      binary title (.arith op) (.int n) (.number (.term t)) = .ok (.value (.number (.term r))) ∧
      binary title (.arith op) (.number (.term t)) (.int n) = .ok (.value (.number (.term r))) ∧
      ∀ (ρ : Valuation) (v : Int), t.eval ρ = v →
        (∀ i, binary title (.arith op) (.int n) (.int v) = .ok (.value (.int i)) →
          op.value? n v = some (i : Rat)) ∧
        (op.value? n v = Option.none →
          ∃ d, binary title (.arith op) (.int n) (.int v) = .error (.zeroDivision d)) ∧
        ∀ q, op.value? n v = some q → (r.rational ρ = q ↔ op.Survives ρ n v) := by
  have hlanguage := arith_value? title op n
  cases op with
  | ring r =>
    refine ⟨.int, .ring r t (.int n), by cases r <;> rfl, by cases r <;> rfl, ?_⟩
    rintro ρ v rfl
    refine ⟨(hlanguage _).1, (hlanguage _).2, fun q hq => ?_⟩
    obtain rfl : ((r.onInt n (t.eval ρ) : Int) : Rat) = q := Option.some.inj hq
    rw [← r.survives_iff ρ, ← Int.cast_inj (α := Rat)]
    exact Iff.rfl
  | mod =>
    refine ⟨.int, .mod t (.int n), rfl, rfl, ?_⟩
    rintro ρ v rfl
    refine ⟨(hlanguage _).1, (hlanguage _).2, fun q hq => ?_⟩
    rw [Arith.value?] at hq
    split at hq
    · cases hq
    · rename_i hv
      obtain rfl := Option.some.inj hq
      rw [← ρ.mod_survives_iff hv, ← Int.cast_inj (α := Rat)]
      exact Iff.rfl
  | pow =>
    refine ⟨.real, .pow t (.int n), rfl, rfl, ?_⟩
    rintro ρ v rfl
    refine ⟨(hlanguage _).1, (hlanguage _).2, fun q hq => ?_⟩
    rw [Arith.value?] at hq
    split at hq
    · cases hq
    · rename_i hdefined
      obtain rfl := Option.some.inj hq
      exact ρ.power_survives_iff hdefined

namespace Sample

open Pathwise.Positive (valued)

/-- Minus three by an unknown five is right by chance; three less an unknown one is not right. -/
theorem reflected_at_five_and_one :
    Arith.mod.value? (-3) 5 = some 2 ∧ Arith.sub.value? 3 1 = some 2 ∧
    (∃ (k : Numeric) (r : Term (.num k)),
      Value.binary "%" (.arith .mod) (.int (-3)) (.unknown "x") =
        .ok (.value (.number (.term r))) ∧
      r.rational (valued 5) = 2) ∧
    ∃ (k : Numeric) (r : Term (.num k)),
      Value.binary "-" (.arith .sub) (.int 3) (.unknown "x") = .ok (.value (.number (.term r))) ∧
      r.rational (valued 1) ≠ 2 := by
  have hmod : Arith.mod.value? (-3) 5 = some 2 := rfl
  have hsub : Arith.sub.value? 3 1 = some 2 := rfl
  refine ⟨hmod, hsub, ?_, ?_⟩
  · obtain ⟨k, r, hr, -, hvalue⟩ := Value.reflected_right_iff "%" .mod (-3) (.var .int "x")
    obtain ⟨-, -, hright⟩ := hvalue (valued 5) 5 rfl
    refine ⟨k, r, hr, (hright 2 hmod).mpr ?_⟩
    rw [Arith.Survives, if_neg (by decide)]
    decide
  · obtain ⟨k, r, hr, -, hvalue⟩ := Value.reflected_right_iff "-" .sub 3 (.var .int "x")
    obtain ⟨-, -, hright⟩ := hvalue (valued 1) 1 rfl
    refine ⟨k, r, hr, fun hwrong => ?_⟩
    have hequal : (1 : Int) = 3 := (hright 2 hsub).mp hwrong
    exact absurd hequal (by decide)

/-- **Not every reflected operator computes what was written.** With an unknown on the right,
`3 - x` at one, `7 % x` at four and `2 ** x` at three are not the values of the language. -/
theorem reflected_operators_exchange :
    (Value.binary "-" (.arith .sub) (.int 3) (.unknown "x") =
        .ok (.value (.number (.term (.ring .sub (.var .int "x") (.int 3))))) ∧
      (Term.ring .sub (.var .int "x") (.int 3)).rational (valued 1) = -2 ∧
      Value.binary "-" (.arith .sub) (.int 3) (.int 1) = .ok (.value (.int 2))) ∧
    (Value.binary "%" (.arith .mod) (.int 7) (.unknown "x") =
        .ok (.value (.number (.term (.mod (.var .int "x") (.int 7))))) ∧
      (Term.mod (.var .int "x") (.int 7)).rational (valued 4) = 4 ∧
      Value.binary "%" (.arith .mod) (.int 7) (.int 4) = .ok (.value (.int 3))) ∧
    (Value.binary "** or pow()" (.arith .pow) (.int 2) (.unknown "x") =
        .ok (.value (.number (.term (.pow (.var .int "x") (.int 2))))) ∧
      (Term.pow (.var .int "x") (.int 2)).rational (valued 3) = 9 ∧
      Value.binary "** or pow()" (.arith .pow) (.int 2) (.int 3) = .ok (.value (.int 8))) :=
  ⟨⟨rfl, rfl, rfl⟩, ⟨rfl, rfl, rfl⟩, rfl, rfl, rfl⟩

end Sample

end Pathwise
