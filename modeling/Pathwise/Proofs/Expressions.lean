import Pathwise.Proofs.Completeness
import Pathwise.Proofs.Rationals

/-!
# What arithmetic expressions mean

Arithmetic over names is evaluated twice: on unknowns, where it builds a term, and on integers. The
term stands for the integer, however sums, products, remainders and powers are nested, and a
comparison of two such terms is true exactly when it is true of the integers.

Both evaluations are instances of one statement, `Expr.Arithmetic.eval_amounts`, in which names have
values that amount to integers. The sort of what comes out is read off the expression: numerals
alone stay integers, a name brings in integer terms and a power rational ones.

* `Expr.Arithmetic` — the expressions.
* `Expr.amount` — the integer that an expression amounts to.
* `Expr.sort?` — the sort of its term.
* `Expr.arithmetic_means` — evaluation on unknowns against evaluation on integers.
-/

namespace Pathwise

/-! ## Arithmetic over names -/

namespace Expr

/-- Whether a name occurs in an expression that is made of operators. -/
def hasName : Expr → Bool
  | .name _ => true
  | .unary _ a => a.hasName
  | .binary _ a b => a.hasName || b.hasName
  | _ => false

/-- Whether a power occurs in an expression that is made of operators. -/
def hasPower : Expr → Bool
  | .unary _ a => a.hasPower
  | .binary (.arith .pow) _ _ => true
  | .binary _ a b => a.hasPower || b.hasPower
  | _ => false

/-- Arithmetic over names. A difference has no names on its right only, a remainder is by a positive
numeral and of something without powers, and a power has a numeral from one on as its exponent. -/
inductive Arithmetic (names : List String) : Expr → Prop where
  | numeral (n : Int) : Arithmetic names (.literal (.int n))
  | name {x : String} (hx : x ∈ names) : Arithmetic names (.name x)
  | neg {a : Expr} (ha : Arithmetic names a) : Arithmetic names (.unary .neg a)
  | ring {op : Ring} {a b : Expr} (hno : op = .sub → a.hasName = true ∨ b.hasName = false)
    (ha : Arithmetic names a) (hb : Arithmetic names b) :
    Arithmetic names (.binary (.arith (.ring op)) a b)
  | mod {a : Expr} {n : Int} (hn : 0 < n) (hpower : a.hasPower = false)
    (ha : Arithmetic names a) : Arithmetic names (.binary (.arith .mod) a (.literal (.int n)))
  | pow {a : Expr} {n : Int} (hn : 1 ≤ n) (ha : Arithmetic names a) :
    Arithmetic names (.binary (.arith .pow) a (.literal (.int n)))

/-- The integer that arithmetic amounts to, given the integers behind names. -/
def amount (ν : String → Int) : Expr → Int
  | .literal (.int n) => n
  | .name x => ν x
  | .unary .neg a => -a.amount ν
  | .binary (.arith (.ring op)) a b => op.onInt (a.amount ν) (b.amount ν)
  | .binary (.arith .mod) a b => (a.amount ν).fmod (b.amount ν)
  | .binary (.arith .pow) a b => a.amount ν ^ (b.amount ν).toNat
  | _ => 0

/-- The sort of the term that arithmetic is evaluated to, given the sort of its names. There is none
if the value is an integer. -/
def sort? (k : Option Numeric) : Expr → Option Numeric
  | .name _ => k
  | .unary _ a => a.sort? k
  | .binary (.arith (.ring _)) a b => Numeric.wider (a.sort? k) (b.sort? k)
  | .binary (.arith .mod) a _ => a.sort? k
  | .binary (.arith .pow) a _ => (a.sort? k).map fun _ => .real
  | _ => none

end Expr

namespace Expr.Arithmetic

variable {names : List String} {k : Option Numeric} {e : Expr}

/-- The value is an integer if the names are integers or there are none. -/
theorem sort?_eq_none (he : e.Arithmetic names) :
    e.sort? k = none ↔ k = none ∨ e.hasName = false := by
  induction he with
  | numeral n => simp [sort?, hasName]
  | name hx => simp [sort?, hasName]
  | neg ha iha => exact iha
  | ring hno ha hb iha ihb =>
    simp only [sort?, hasName, Numeric.wider_eq_none, iha, ihb, Bool.or_eq_false_iff]
    exact or_and_left.symm
  | mod hn hpower ha iha => simpa [sort?, hasName] using iha
  | pow hn ha iha => simpa [sort?, hasName] using iha

/-- Without powers there are no rational terms. -/
theorem sort?_ne_real (he : e.Arithmetic names) (hk : k ≠ some .real)
    (hpower : e.hasPower = false) : e.sort? k ≠ some .real := by
  induction he with
  | numeral n => simp [sort?]
  | name hx => exact hk
  | neg ha iha => exact iha hpower
  | ring hno ha hb iha ihb =>
    obtain ⟨hpa, hpb⟩ := Bool.or_eq_false_iff.mp hpower
    intro hreal
    rcases Numeric.wider_eq_real.mp hreal with h | h
    · exact iha hpa h
    · exact ihb hpb h
  | mod hn hpa ha iha => exact iha hpa
  | pow hn ha iha => cases hpower

end Expr.Arithmetic

/-! ## Evaluation -/

/-- In a state the names have the values that a function gives them. -/
def Env.Binds (env : Env) (s : State) (names : List String) (f : String → Value) : Prop :=
  ∀ x ∈ names, env.read x s = .done (.ok (f x), s)

namespace Expr

variable {env : Env} {s : State} {a b : Expr} {u v w : Value}

theorem eval_unary {op : Unary} (ha : a.eval env s = .done (.ok u, s))
    (hw : Value.unary op u = .ok w) : (Expr.unary op a).eval env s = .done (.ok w, s) := by
  show Run.bind (a.eval env s) _ = _
  rw [ha]
  show Eval.ofExcept (Value.unary op u) s = _
  rw [hw]
  rfl

theorem eval_binary {op : Binary} (ha : a.eval env s = .done (.ok u, s))
    (hb : b.eval env s = .done (.ok v, s)) (hno : Value.exchanges op u v = false)
    (hw : Value.binary op.title op u v = .ok (.value w)) :
    (Expr.binary op a b).eval env s = .done (.ok w, s) := by
  show Run.bind (a.eval env s) _ = _
  rw [ha]
  show Run.bind (b.eval env s) _ = _
  rw [hb]
  show Eval.binary op.title op u v s = _
  rw [Eval.binary, hno, hw]
  rfl

theorem eval_compare {op : Comparison} (ha : a.eval env s = .done (.ok u, s))
    (hb : b.eval env s = .done (.ok v, s)) :
    (Expr.compare op a b).eval env s = Eval.compare op u v s := by
  show Run.bind (a.eval env s) _ = _
  rw [ha]
  show Run.bind (b.eval env s) _ = _
  rw [hb]
  rfl

variable {ρ : Valuation} {names : List String} {ν : String → Int} {k : Option Numeric} {e : Expr}

/-- Arithmetic over names with values that amount to integers is evaluated without a fault and
leaves the state alone; what comes out amounts to the integer of the whole. -/
theorem Arithmetic.eval_amounts (he : e.Arithmetic names) {f : String → Value}
    (hs : env.Binds s names f) (hf : ∀ x, (f x).Amounts ρ k (ν x)) (hk : k ≠ some .real) :
    ∃ v, e.eval env s = .done (.ok v, s) ∧ v.Amounts ρ (e.sort? k) (e.amount ν) := by
  induction he with
  | numeral n => exact ⟨.int n, rfl, .int n⟩
  | @name x hx => exact ⟨f x, hs x hx, hf x⟩
  | neg ha iha =>
    obtain ⟨u, hu, hamount⟩ := iha
    obtain ⟨w, hw, hneg⟩ := Value.neg_amounts hamount
    exact ⟨w, eval_unary hu hw, hneg⟩
  | @ring op a b hno ha hb iha ihb =>
    obtain ⟨u, hu, hleft⟩ := iha
    obtain ⟨v, hv, hright⟩ := ihb
    -- a difference with a term on the right has one on the left
    have hsorts : op ≠ .sub ∨ a.sort? k ≠ none ∨ b.sort? k = none := by
      by_cases hop : op = .sub
      · simp only [ne_eq, ha.sort?_eq_none, hb.sort?_eq_none]
        rcases hno hop with h | h
        · by_cases hnone : k = none <;> simp [h, hnone]
        · simp [h]
      · exact .inl hop
    obtain ⟨w, hw, hexchanges, hamount⟩ := Value.ring_amounts _ op hleft hright hsorts
    exact ⟨w, eval_binary hu hv hexchanges hw, hamount⟩
  | @mod a n hn hpower ha iha =>
    obtain ⟨u, hu, hleft⟩ := iha
    obtain ⟨w, hw, hamount⟩ := Value.mod_amounts _ hleft (ha.sort?_ne_real hk hpower) hn
    exact ⟨w, eval_binary hu rfl (Value.exchanges_int _ u n) hw, hamount⟩
  | @pow a n hn ha iha =>
    obtain ⟨u, hu, hleft⟩ := iha
    obtain ⟨w, hw, hamount⟩ := Value.pow_amounts _ hleft hn
    exact ⟨w, eval_binary hu rfl (Value.exchanges_int _ u n) hw, hamount⟩

/-- On integers the value is the integer itself. -/
theorem Arithmetic.eval_int (he : e.Arithmetic names)
    (hs : env.Binds s names fun x => .int (ν x)) :
    e.eval env s = .done (.ok (.int (e.amount ν)), s) := by
  -- the valuation is of no consequence, since there are no terms
  obtain ⟨v, hv, hamount⟩ := he.eval_amounts hs
    (ρ := .assigning [] []) (fun x => .int (ν x)) (by simp)
  rw [he.sort?_eq_none.mpr (.inl rfl)] at hamount
  rw [hv, hamount.eq_int]

/--
**Arithmetic means what it says.** Let two expressions of arithmetic over names be evaluated in a
state in which the names are unknowns, and in one in which they are the integers that a valuation
gives these unknowns.

* The first evaluation succeeds and gives an integer if there are no names in the expression, and
  otherwise a symbolic number over a term of either sort. It amounts to the integer that the second
  evaluation gives.
* If there is a name in at least one of them, every comparison of the two is a condition on unknowns
  and a truth value on integers, and the formula of the condition is true exactly if this truth
  value is.
-/
theorem arithmetic_means (ha : a.Arithmetic names) (hb : b.Arithmetic names) (ρ : Valuation)
    {s' : State} (hs : env.Binds s names .unknown)
    (hs' : env.Binds s' names fun x => .int (ρ.int x)) :
    (∃ v sort, a.eval env s = .done (.ok v, s) ∧ v.Amounts ρ sort (a.amount ρ.int) ∧
      (sort = none ↔ a.hasName = false) ∧
      a.eval env s' = .done (.ok (.int (a.amount ρ.int)), s')) ∧
    (a.hasName = true ∨ b.hasName = true → ∀ op : Comparison, ∃ p : Formula,
      (Expr.compare op a b).eval env s =
        .done (.ok (.condition s.stamp (.term p)), { s with stamp := s.stamp + 1 }) ∧
      (Expr.compare op a b).eval env s' = .done (.ok (.bool (p.eval ρ)), s') ∧
      p.eval ρ = op.onInt (a.amount ρ.int) (b.amount ρ.int)) := by
  obtain ⟨u, hu, hua⟩ := ha.eval_amounts hs (Value.amounts_unknown ρ) (by simp)
  obtain ⟨v, hv, hvb⟩ := hb.eval_amounts hs (Value.amounts_unknown ρ) (by simp)
  have hu' := ha.eval_int hs'
  have hv' := hb.eval_int hs'
  refine ⟨⟨u, _, hu, hua, by simp [ha.sort?_eq_none], hu'⟩, fun hname op => ?_⟩
  have hterm : a.sort? (some .int) ≠ none ∨ b.sort? (some .int) ≠ none := by
    rcases hname with h | h
    · exact .inl (by simp [ha.sort?_eq_none, h])
    · exact .inr (by simp [hb.sort?_eq_none, h])
  obtain ⟨p, hp, heval⟩ := Value.compare_amounts op hua hvb hterm
  refine ⟨p, ?_, ?_, heval⟩
  · rw [eval_compare hu hv, Eval.compare, hp]
    rfl
  · rw [eval_compare hu' hv', Eval.compare_int, heval]
    rfl

end Expr

namespace Sample

/-- The expression `(x - 3 * y) ** 2 - (x + -7) % 3`: a rational term less an integer term. -/
def mixed : Expr :=
  .binary (.arith .sub)
    (.binary (.arith .pow)
      (.binary (.arith .sub) (.name "x") (.binary (.arith .mul) (.literal (.int 3)) (.name "y")))
      (.literal (.int 2)))
    (.binary (.arith .mod) (.binary (.arith .add) (.name "x") (.literal (.int (-7))))
      (.literal (.int 3)))

theorem mixed_arithmetic : mixed.Arithmetic ["x", "y"] := by
  have hx : (Expr.name "x").Arithmetic ["x", "y"] := .name (by simp)
  have hy : (Expr.name "y").Arithmetic ["x", "y"] := .name (by simp)
  refine .ring (fun _ => .inl rfl) (.pow (by decide) ?_) (.mod (by decide) rfl ?_)
  · exact .ring (fun _ => .inl rfl) hx (.ring (by simp) (.numeral 3) hy)
  · exact .ring (by simp) hx (.numeral (-7))

/-- A call that owns two names. -/
def twoNames : Env := ⟨.call ["x", "y"], 0, fun _ _ => throw .endless⟩

/-- A state with values for the two names. -/
def valuesOf (x y : Value) : State := ⟨⟨[], 0⟩, [("x", x), ("y", y)], 0, [], [], []⟩

theorem binds_valuesOf (f : String → Value) :
    twoNames.Binds (valuesOf (f "x") (f "y")) ["x", "y"] f := by
  intro x hx
  rcases List.mem_pair.mp hx with rfl | rfl <;> rfl

/-- The expression at the integers two and minus one, and compared with a numeral on its left. -/
theorem mixed_means :
    let ρ := Valuation.assigning ["x", "y"] [2, -1]
    let unknowns := valuesOf (.unknown "x") (.unknown "y")
    let integers := valuesOf (.int 2) (.int (-1))
    mixed.Arithmetic ["x", "y"] ∧ mixed.hasName = true ∧
    (∃ v sort, mixed.eval twoNames unknowns = .done (.ok v, unknowns) ∧ v.Amounts ρ sort 24 ∧
      sort ≠ none ∧ mixed.eval twoNames integers = .done (.ok (.int 24), integers)) ∧
    ∃ p : Formula,
      (Expr.compare (.order .lt) (.literal (.int 7)) mixed).eval twoNames unknowns =
        .done (.ok (.condition 0 (.term p)), { unknowns with stamp := 1 }) ∧
      (Expr.compare (.order .lt) (.literal (.int 7)) mixed).eval twoNames integers =
        .done (.ok (.bool true), integers) ∧
      p.eval ρ = true := by
  intro ρ unknowns integers
  have hunknowns : twoNames.Binds unknowns ["x", "y"] .unknown := binds_valuesOf .unknown
  have hintegers : twoNames.Binds integers ["x", "y"] fun x => .int (ρ.int x) :=
    binds_valuesOf fun x => .int (ρ.int x)
  obtain ⟨⟨v, sort, hv, hamounts, hsort, hint⟩, -⟩ :=
    Expr.arithmetic_means mixed_arithmetic (.numeral 7) ρ hunknowns hintegers
  obtain ⟨-, hcompare⟩ :=
    Expr.arithmetic_means (.numeral 7) mixed_arithmetic ρ hunknowns hintegers
  obtain ⟨p, hp, hplain, heval⟩ := hcompare (.inr rfl) (.order .lt)
  have htrue : p.eval ρ = true := heval
  rw [htrue] at hplain
  refine ⟨mixed_arithmetic, rfl, ⟨v, sort, hv, hamounts, ?_, hint⟩, p, hp, hplain, htrue⟩
  rw [ne_eq, hsort]
  decide

end Sample

end Pathwise
