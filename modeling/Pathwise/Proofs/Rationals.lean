import Mathlib.Data.Rat.Cast.Order
import Pathwise.Value.Operator

/-!
# Arithmetic over both sorts of numbers

Powers are rational terms, and whatever a rational term takes part in becomes one, too. Each term of
either sort stands for a rational number, and bringing an operand to the other sort does not change
which one. So an operator need not be followed through the sorts of its operands: there is one
equation for each, and one statement for each operator of the language.

* `Term.rational` — the number behind a term of either sort.
* `Value.Amounts` — the integer behind an operand, with the operand's sort.
* `Value.ring_amounts`, `Value.mod_amounts`, `Value.pow_amounts`, `Value.neg_amounts`,
  `Value.compare_amounts` — the operators.
-/

namespace Pathwise

/-! ## The number behind a term -/

namespace Term

variable {m n : Numeric}

/-- The rational number that a term of either sort stands for. -/
def rational (ρ : Valuation) (t : Term (.num n)) : Rat := n.toRat (t.eval ρ)

variable (ρ : Valuation)

@[simp] theorem rational_numeral (n : Numeric) (i : Int) : (numeral n i).rational ρ = i := by
  cases n <;> rfl

@[simp] theorem rational_neg (t : Term (.num n)) : (neg t).rational ρ = -t.rational ρ := by
  cases n with
  | int => exact Int.cast_neg (R := Rat) (Term.eval ρ t)
  | real => rfl

@[simp] theorem rational_ring (op : Ring) (a b : Term (.num n)) :
    (ring op a b).rational ρ = op.onRat (a.rational ρ) (b.rational ρ) := by
  cases n with
  | int =>
    cases op with
    | add => exact Int.cast_add (R := Rat) (Term.eval ρ a) (Term.eval ρ b)
    | sub => exact Int.cast_sub (R := Rat) (Term.eval ρ a) (Term.eval ρ b)
    | mul => exact Int.cast_mul (α := Rat) (Term.eval ρ a) (Term.eval ρ b)
  | real => rfl

@[simp] theorem rational_widen (n : Numeric) (t : Term (.num m)) :
    (t.widen n).rational ρ = t.rational ρ := by
  cases m <;> cases n <;> rfl

@[simp] theorem rational_widenRight (m : Numeric) (t : Term (.num n)) :
    (t.widenRight m).rational ρ = t.rational ρ := by
  cases m <;> cases n <;> rfl

end Term

/-- Whether a comparison holds between two integers. -/
def Comparison.onInt : Comparison → Int → Int → Bool
  | .order o, a, b => o.onInt a b
  | .eq, a, b => decide (a = b)
  | .ne, a, b => !decide (a = b)

theorem Comparison.onInt_converse (op : Comparison) (a b : Int) :
    op.converse.onInt a b = op.onInt b a := by
  cases op with
  | order o => cases o <;> rfl
  | eq => simp [converse, onInt, eq_comm]
  | ne => simp [converse, onInt, eq_comm]

/-- Whether a comparison holds between two rationals. -/
def Comparison.onRat : Comparison → Rat → Rat → Bool
  | .order o, a, b => o.onRat a b
  | .eq, a, b => decide (a = b)
  | .ne, a, b => !decide (a = b)

theorem Comparison.onRat_cast (op : Comparison) (a b : Int) : op.onRat a b = op.onInt a b := by
  cases op with
  | order o => cases o <;> simp [onRat, onInt, Order.onRat, Order.onInt]
  | eq | ne => simp [onRat, onInt]

theorem NumericPair.eval_compare (ρ : Valuation) (op : Comparison) (p : NumericPair) :
    (p.compare op).eval ρ = op.onRat (p.left.rational ρ) (p.right.rational ρ) := by
  obtain ⟨a, b⟩ := p
  rename_i n
  cases n with
  | int =>
    -- integers compare as the rationals that they are
    have hcast := Comparison.onRat_cast op (a.eval ρ) (b.eval ρ)
    cases op <;> exact hcast.symm
  | real => cases op <;> rfl

/-- A whole exponent from one on leaves nothing open. -/
theorem Valuation.power_of_pos (ρ : Valuation) (q : Rat) {i : Int} (hi : 0 < i) :
    ρ.power q i = q ^ i.toNat := by
  simp [power, hi]

/-- An exponent that is not negative leaves the integers an integer. -/
theorem Whole.pow_of_nonneg {a b : Int} (hb : 0 ≤ b) :
    Whole.pow a b = .ok (.int (a ^ b.toNat)) := by
  rw [pow, if_pos hb, power_eq]
  rfl

/-! ## Operands -/

/-- The wider of the sorts of two operands; an integer has none and follows the other operand. -/
def Numeric.wider : Option Numeric → Option Numeric → Option Numeric
  | none, n => n
  | m, none => m
  | some m, some n => some (m.join n)

theorem Numeric.wider_eq_none {m n : Option Numeric} :
    wider m n = none ↔ m = none ∧ n = none := by
  cases m <;> cases n <;> simp [wider]

theorem Numeric.wider_eq_real {m n : Option Numeric} :
    wider m n = some .real ↔ m = some .real ∨ n = some .real := by
  rcases m with _ | m
  · simp [wider]
  · rcases n with _ | n
    · simp [wider]
    · cases m <;> cases n <;> simp [wider, join]

/-- An operand of arithmetic amounts to an integer: it is the integer, or a symbolic number over a
term of some sort that stands for it. -/
inductive Value.Amounts (ρ : Valuation) : Option Numeric → Value → Int → Prop where
  | int (k : Int) : Amounts ρ Option.none (.int k) k
  | term {n : Numeric} {t : Term (.num n)} {k : Int} (h : t.rational ρ = k) :
    Amounts ρ (some n) (.number (.term t)) k

/-- An operand of arithmetic: an integer, which has no sort, or a symbolic number over a term. -/
inductive Value.Sorted : Option Numeric → Value → Prop where
  | int (k : Int) : Sorted Option.none (.int k)
  | term {n : Numeric} (t : Term (.num n)) : Sorted (some n) (.number (.term t))

section Operators

variable {ρ : Valuation} {u v : Value} {m n : Option Numeric} {a b : Int}

theorem Value.amounts_unknown (ρ : Valuation) (x : String) :
    Amounts ρ (some .int) (.unknown x) (ρ.int x) :=
  .term rfl

/-- What has no sort is the integer itself. -/
theorem Value.Amounts.eq_int (h : v.Amounts ρ Option.none b) : v = .int b := by
  cases h
  rfl

theorem Value.Amounts.sorted (h : v.Amounts ρ n b) : v.Sorted n := by
  cases h with
  | int => exact .int b
  | term _ => exact .term _

/-- What a symbolic number and its partner are combined as: two terms of one sort, which stand for
what the operands stand for. -/
theorem Held.numericPair_of_sorted {m : Numeric} (t : Term (.num m)) (hv : v.Sorted n) :
    ∃ (g : Held) (p : NumericPair), v.partner = .ok g ∧
      (∀ op, Held.arith op (.term t) g = p.arith op) ∧
      (∀ op, Held.compare op (.term t) g = .ok (.term (p.compare op))) ∧
      Numeric.wider (some m) n = some p.n ∧
      ∀ ρ, p.left.rational ρ = t.rational ρ ∧ ∀ b, v.Amounts ρ n b → p.right.rational ρ = b := by
  cases hv with
  | int b =>
    refine ⟨.plain (.int b), ⟨t, .numeral m b⟩, rfl, fun op => ?_, fun op => ?_, rfl,
      fun ρ => ⟨rfl, fun c hc => ?_⟩⟩
    · cases m <;> cases op with
      | ring r => cases r <;> rfl
      | mod | pow => rfl
    · cases m <;> cases op <;> rfl
    · cases hc
      exact Term.rational_numeral ρ m b
  | @term k s =>
    refine ⟨.term s, .ofTerms t s, rfl, fun op => ?_, fun op => ?_, rfl,
      fun ρ => ⟨Term.rational_widen ρ k t, fun c hc => ?_⟩⟩
    · cases op with
      | ring r => cases r <;> rfl
      | mod | pow => rfl
    · cases op <;> rfl
    · cases hc with
      | term h => exact (Term.rational_widenRight ρ m s).trans h

theorem Held.exists_numericPair {m : Numeric} (t : Term (.num m)) (hv : v.Amounts ρ n b) :
    ∃ (g : Held) (p : NumericPair), v.partner = .ok g ∧
      (∀ op, Held.arith op (.term t) g = p.arith op) ∧
      (∀ op, Held.compare op (.term t) g = .ok (.term (p.compare op))) ∧
      Numeric.wider (some m) n = some p.n ∧
      p.left.rational ρ = t.rational ρ ∧ p.right.rational ρ = b := by
  obtain ⟨g, p, hg, harith, hcompare, hsort, hrational⟩ := numericPair_of_sorted t hv.sorted
  obtain ⟨hleft, hright⟩ := hrational ρ
  exact ⟨g, p, hg, harith, hcompare, hsort, hleft, hright b hv⟩

/-! ## Operators -/

theorem Ring.onRat_cast (op : Ring) (a b : Int) :
    op.onRat (a : Rat) (b : Rat) = (op.onInt a b : Int) := by
  cases op <;> simp [Ring.onRat, Ring.onInt]

namespace Value

/-- Integers are combined as integers. -/
theorem binary_int (title : String) (op : Arith) (a b : Int) :
    binary title (.arith op) (.int a) (.int b) =
      (Whole.binary (.arith op) a b).map fun r => .value (.held (.plain r.toPlain)) := by
  show (((Whole.binary (.arith op) a b).map Number.toPlain).map fun r => held (.plain r)).map _ = _
  cases Whole.binary (.arith op) a b <;> rfl

theorem mod_int (title : String) (m : Int) {n : Int} (hn : n ≠ 0) :
    binary title (.arith .mod) (.int m) (.int n) = .ok (.value (.int (m.fmod n))) := by
  simp [binary, binaryUnwrapped, Plain.binary, Plain.number?, Number.binary?, Whole.binary, hn,
    Except.map, Number.toPlain]

theorem binary_of_partner (title : String) (op : Arith) {h g r : Held} (hg : v.partner = .ok g)
    (hr : Held.arith op h g = .ok r) :
    binary title (.arith op) (.number h) v = .ok (.value (.number r)) := by
  simp only [binary, hg, hr, bind, Except.bind, pure, Except.pure]

/-- Beside an integer on the right no operands change places. -/
theorem exchanges_int (op : Arith) (u : Value) (i : Int) :
    exchanges (.arith op) u (.int i) = false := by
  cases u <;> rfl

/-- A symbolic number on the left of a sum, difference or product. -/
theorem ring_amounts_term (op : Ring) {k : Numeric} {t : Term (.num k)} (ht : t.rational ρ = a)
    (hv : v.Amounts ρ n b) :
    ∃ g r, v.partner = .ok g ∧ Held.arith (.ring op) (.term t) g = .ok r ∧
      (Value.number r).Amounts ρ (Numeric.wider (some k) n) (op.onInt a b) := by
  obtain ⟨g, p, hg, harith, -, hsort, hleft, hright⟩ := Held.exists_numericPair t hv
  refine ⟨g, .term (.ring op p.left p.right), hg, harith _, ?_⟩
  rw [hsort]
  refine .term ?_
  rw [Term.rational_ring, hleft, hright, ht, Ring.onRat_cast]

/-- Sums, differences and products, unless a difference has its symbolic operand on the right
only. -/
theorem ring_amounts (title : String) (op : Ring) (hu : u.Amounts ρ m a) (hv : v.Amounts ρ n b)
    (hno : op ≠ .sub ∨ m ≠ Option.none ∨ n = Option.none) :
    ∃ w, binary title (.arith (.ring op)) u v = .ok (.value w) ∧
      exchanges (.arith (.ring op)) u v = false ∧
      w.Amounts ρ (Numeric.wider m n) (op.onInt a b) := by
  cases hu with
  | @term k t _ ht =>
    obtain ⟨g, r, hg, harith, hr⟩ := ring_amounts_term op ht hv
    exact ⟨.number r, binary_of_partner title _ hg harith, rfl, hr⟩
  | int =>
    cases hv with
    | int => exact ⟨.int (op.onInt a b), rfl, rfl, .int _⟩
    | @term k t _ ht =>
      -- the operands change places, which only a difference can tell
      have hcommutes : (Arith.ring op).commutes = true ∧ op.onInt b a = op.onInt a b := by
        cases op with
        | add => exact ⟨rfl, Int.add_comm b a⟩
        | mul => exact ⟨rfl, Int.mul_comm b a⟩
        | sub => simp at hno
      obtain ⟨g, r, hg, harith, hr⟩ := ring_amounts_term op ht (.int (ρ := ρ) a)
      obtain rfl : Held.plain (.int a) = g := Except.ok.inj hg
      refine ⟨.number r, ?_, ?_, hcommutes.2 ▸ hr⟩
      · show (Held.arith (.ring op) (.term t) (.plain (.int a)) >>= _) = _
        rw [harith]
        rfl
      · show (!(Arith.ring op).commutes) = false
        rw [hcommutes.1]
        rfl

theorem neg_amounts (hu : u.Amounts ρ m a) :
    ∃ w, unary .neg u = .ok w ∧ w.Amounts ρ m (-a) := by
  cases hu with
  | int => exact ⟨.int (-a), rfl, .int _⟩
  | @term k t _ ht =>
    refine ⟨.number (.term (.neg t)), rfl, .term ?_⟩
    rw [Term.rational_neg, ht, Int.cast_neg]

/-- Remainders by positive numerals, unless the dividend is a rational term. -/
theorem mod_amounts (title : String) (hu : u.Amounts ρ m a) (hm : m ≠ some .real) {i : Int}
    (hi : 0 < i) :
    ∃ w, binary title (.arith .mod) u (.int i) = .ok (.value w) ∧ w.Amounts ρ m (a.fmod i) := by
  cases hu with
  | int => exact ⟨.int (a.fmod i), mod_int title a (Int.ne_of_gt hi), .int _⟩
  | @term k t _ ht =>
    cases k with
    | real => exact absurd rfl hm
    | int =>
      have hvalue : Term.eval ρ t = a := Int.cast_injective (α := Rat) ht
      refine ⟨.number (.term (.mod t (.int i))), rfl, .term ?_⟩
      show ((ρ.mod (Term.eval ρ t) i : Int) : Rat) = _
      rw [hvalue, Valuation.mod, if_neg (Int.ne_of_gt hi),
        Int.fmod_eq_emod_of_nonneg a (Int.le_of_lt hi)]

/-- Powers with a whole exponent from one on. The power of a term is rational. -/
theorem pow_amounts (title : String) (hu : u.Amounts ρ m a) {i : Int} (hi : 0 < i) :
    ∃ w, binary title (.arith .pow) u (.int i) = .ok (.value w) ∧
      w.Amounts ρ (m.map fun _ => .real) (a ^ i.toNat) := by
  cases hu with
  | int =>
    refine ⟨.int (a ^ i.toNat), ?_, .int _⟩
    rw [binary_int, Whole.binary, Whole.pow_of_nonneg (Int.le_of_lt hi)]
    rfl
  | @term k t _ ht =>
    obtain ⟨g, p, hg, harith, -, -, hleft, hright⟩ :=
      Held.exists_numericPair t (.int (ρ := ρ) i)
    refine ⟨_, binary_of_partner title .pow hg (harith .pow), .term ?_⟩
    show ρ.power (p.left.rational ρ) (p.right.rational ρ) = _
    rw [hleft, hright, Valuation.power_of_pos ρ _ hi, ht, Int.cast_pow]

/-- Comparisons in which a symbolic number takes part. -/
theorem compare_amounts (op : Comparison) (hu : u.Amounts ρ m a) (hv : v.Amounts ρ n b)
    (hsome : m ≠ Option.none ∨ n ≠ Option.none) :
    ∃ p : Formula, compare op u v = .ok (.condition (.term p)) ∧ p.eval ρ = op.onInt a b := by
  cases hu with
  | @term k t _ ht =>
    obtain ⟨g, p, hg, -, hcompare, -, hleft, hright⟩ := Held.exists_numericPair t hv
    refine ⟨p.compare op, ?_, ?_⟩
    · simp only [compare, hg, hcompare, bind, Except.bind, pure, Except.pure]
    · rw [NumericPair.eval_compare, hleft, hright, ht, Comparison.onRat_cast]
  | int =>
    cases hv with
    | int => simp at hsome
    | @term k t _ ht =>
      -- read from the right, by the converse
      obtain ⟨g, p, hg, -, hcompare, -, hleft, hright⟩ :=
        Held.exists_numericPair t (.int (ρ := ρ) a)
      obtain rfl : Held.plain (.int a) = g := Except.ok.inj hg
      refine ⟨p.compare op.converse, ?_, ?_⟩
      · simp only [compare, partner, hcompare, bind, Except.bind, pure, Except.pure]
      · rw [NumericPair.eval_compare, hleft, hright, ht, Comparison.onRat_cast,
          Comparison.onInt_converse]

end Value

end Operators

end Pathwise
