import Pathwise.Proofs.Answers
import Pathwise.Proofs.Operators

/-!
# Remainders

The remainder of terms is never negative. The language rounds quotients down, so that its remainder
has the sign of the divisor. The two are the same for a positive divisor. For a negative one they
differ by the divisor, unless the division leaves nothing over.

* `Value.Wraps` — the integer term that an operand counts as.
* `emod_eq_fmod_iff` — when the two remainders are the same.
* `Value.mod_agrees_iff` — what this means for symbolic numbers.
-/

namespace Pathwise

/-! ## Two remainders of integers -/

section Remainders

variable {a b : Int}

/-- Where a negative divisor leaves something over, rounding down takes one divisor more. -/
theorem fmod_eq_emod_add (hb : b < 0) (h : ¬ b ∣ a) : a.fmod b = a % b + b := by
  rw [Int.fmod_eq_emod, if_neg]
  rintro (hb' | hdvd)
  · omega
  · exact h hdvd

theorem emod_eq_fmod_iff (hb : b ≠ 0) : a % b = a.fmod b ↔ 0 < b ∨ b ∣ a := by
  constructor
  · intro heq
    by_contra hnot
    obtain ⟨hneg, hdvd⟩ := not_or.mp hnot
    have hadd := fmod_eq_emod_add (by omega) hdvd
    omega
  · rintro (hpos | hdvd)
    · exact (Int.fmod_eq_emod_of_nonneg a (Int.le_of_lt hpos)).symm
    · rw [Int.emod_eq_zero_of_dvd hdvd, Int.fmod_eq_zero_of_dvd hdvd]

end Remainders

/-! ## Remainders of symbolic numbers -/

namespace Value

/-- Beside a symbolic number the value counts as an integer term: an integer as its numeral, another
symbolic number as what it holds. -/
inductive Wraps : Value → Term .int → Prop where
  | int (n : Int) : Wraps (.int n) (.int n)
  | term (t : Term .int) : Wraps (.number (.term t)) t

/--
**When remainders agree.** The remainder of a symbolic number by another one, or by an integer, is a
symbolic number. Under every valuation at which the divisor is not zero it stands for the remainder
that is not negative. This is the remainder of the language exactly if the divisor is positive or
divides evenly; otherwise it is larger by the size of the divisor.
-/
theorem mod_agrees_iff (title : String) (s : Term .int) {w : Value} {d : Term .int}
    (hw : w.Wraps d) :
    ∃ r : Term .int,
      binary title (.arith .mod) (.number (.term s)) w = .ok (.value (.number (.term r))) ∧
      ∀ (ρ : Valuation) (a b c : Int), s.eval ρ = a → d.eval ρ = b → r.eval ρ = c → b ≠ 0 →
        binary title (.arith .mod) (.int a) (.int b) = .ok (.value (.int (a.fmod b))) ∧
        (0 ≤ c ∧ c < |b| ∧ b ∣ a - c) ∧
        (c = a.fmod b ↔ 0 < b ∨ b ∣ a) ∧
        (¬ (0 < b ∨ b ∣ a) → c = a.fmod b + |b|) := by
  have hbuilt : binary title (.arith .mod) (.number (.term s)) w =
      .ok (.value (.number (.term (.mod s d)))) := by
    cases hw <;> rfl
  refine ⟨.mod s d, hbuilt, fun ρ a b c ha hb hc hzero => ?_⟩
  have hvalue : c = a % b := by
    rw [← hc, Term.eval, ha, hb, Valuation.mod, if_neg hzero]
  have hbounds : 0 ≤ c ∧ c < |b| ∧ b ∣ a - c := by
    rw [hvalue]
    exact ⟨Int.emod_nonneg a hzero, Int.emod_lt_abs a hzero, Int.dvd_self_sub_emod⟩
  have hagree : c = a.fmod b ↔ 0 < b ∨ b ∣ a := by
    rw [hvalue]
    exact emod_eq_fmod_iff hzero
  refine ⟨mod_int title a hzero, hbounds, hagree, fun hnot => ?_⟩
  obtain ⟨hpos, hdvd⟩ := not_or.mp hnot
  have hneg : b < 0 := by omega
  have hadd := fmod_eq_emod_add hneg hdvd
  rw [abs_of_neg hneg]
  omega

end Value

namespace Sample

open Pathwise.Positive (valued)

/-- Minus seven by minus three: the language leaves minus one, the symbolic remainder is two. By
three both leave two. -/
theorem remainders_of_minus_seven :
    (Value.int (-3)).Wraps (.int (-3)) ∧ (Value.int 3).Wraps (.int 3) ∧
    (∃ r : Term .int,
      Value.binary "%" (.arith .mod) (.unknown "x") (.int (-3)) =
        .ok (.value (.number (.term r))) ∧
      Value.binary "%" (.arith .mod) (.int (-7)) (.int (-3)) = .ok (.value (.int (-1))) ∧
      r.eval (valued (-7)) = (2 : Int)) ∧
    ∃ r : Term .int,
      Value.binary "%" (.arith .mod) (.unknown "x") (.int 3) = .ok (.value (.number (.term r))) ∧
      Value.binary "%" (.arith .mod) (.int (-7)) (.int 3) = .ok (.value (.int 2)) ∧
      r.eval (valued (-7)) = (2 : Int) := by
  refine ⟨.int _, .int _, ?_, ?_⟩
  · obtain ⟨r, hr, hvalues⟩ := Value.mod_agrees_iff "%" (.var .int "x") (.int (-3))
    obtain ⟨hplain, -, -, hother⟩ := hvalues (valued (-7)) (-7) (-3) _ rfl rfl rfl (by decide)
    exact ⟨r, hr, hplain, hother (by decide)⟩
  · obtain ⟨r, hr, hvalues⟩ := Value.mod_agrees_iff "%" (.var .int "x") (.int 3)
    obtain ⟨hplain, -, hagree, -⟩ := hvalues (valued (-7)) (-7) 3 _ rfl rfl rfl (by decide)
    exact ⟨r, hr, hplain, hagree.mpr (.inl (by decide))⟩

/-- The condition `x % -3 == -1`. -/
def leavesMinusOne : Formula := .eq (.mod (.var .int "x") (.int (-3))) (.int (-1))

/-- **Not every remainder agrees.** By minus three the integer two leaves minus one in the language.
The symbolic remainder stands for two there, and a test for minus one can never succeed. -/
theorem negative_divisor_disagrees :
    Value.binary "%" (.arith .mod) (.int 2) (.int (-3)) = .ok (.value (.int (-1))) ∧
    Value.binary "%" (.arith .mod) (.unknown "x") (.int (-3)) =
      .ok (.value (.number (.term (.mod (.var .int "x") (.int (-3)))))) ∧
    (Term.mod (.var .int "x") (.int (-3))).eval (valued 2) = (2 : Int) ∧
    Value.compare .eq (.number (.term (.mod (.var .int "x") (.int (-3))))) (.int (-1)) =
      .ok (.condition (.term leavesMinusOne)) ∧
    ¬ Satisfiable [leavesMinusOne] := by
  refine ⟨rfl, rfl, rfl, rfl, ?_⟩
  rintro ⟨ρ, hρ⟩
  have heq : ρ.int "x" % (-3) = -1 := by
    simpa [leavesMinusOne, Valuation.Holds, Term.eval, Valuation.mod, Valuation.read, Kind.same_iff]
      using hρ leavesMinusOne List.mem_cons_self
  have hnonneg : 0 ≤ ρ.int "x" % (-3) := Int.emod_nonneg _ (by decide)
  rw [heq] at hnonneg
  exact absurd hnonneg (by decide)

end Sample

end Pathwise
