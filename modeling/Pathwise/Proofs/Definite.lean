import Pathwise.Proofs.Completion
import Pathwise.Proofs.Lists
import Pathwise.Value.Operator

/-!
# Terms that leave nothing open

Powers, and remainders by anything but a numeral other than zero, leave something open that only
a solver can fix. No other operator does. So as long as a program uses neither, every term it
builds from unknown integers is integral over their names.

* `Held.Over`, `Value.Over` — all terms in a value are integral over the given names.
* `Value.binary_over`, `Value.compare_over`, `Value.unary_over` — operators keep values so.
-/

namespace Pathwise

namespace Term

variable {xs : List String} {n : Numeric} {k : Kind}

theorem integral_iff {t : Term k} :
    t.Integral xs ↔ t.definite = true ∧ ∀ u ∈ t.unknowns, u.kind = .int ∧ u.name ∈ xs :=
  ⟨fun h => ⟨h.1, h.2⟩, fun h => ⟨h.1, h.2⟩⟩

@[simp] theorem integral_var {x : String} : (Term.var .int x).Integral xs ↔ x ∈ xs := by
  simp [integral_iff, definite, unknowns]

@[simp] theorem integral_bool (b : Bool) : (Term.bool b).Integral xs := by
  simp [integral_iff, definite, unknowns]

@[simp] theorem integral_int (i : Int) : (Term.int i).Integral xs := by
  simp [integral_iff, definite, unknowns]

@[simp] theorem integral_real (q : Rat) : (Term.real q).Integral xs := by
  simp [integral_iff, definite, unknowns]

@[simp] theorem integral_neg {a : Term (.num n)} : (Term.neg a).Integral xs ↔ a.Integral xs := by
  simp [integral_iff, definite, unknowns]

@[simp] theorem integral_toReal {a : Term .int} : (Term.toReal a).Integral xs ↔ a.Integral xs := by
  simp [integral_iff, definite, unknowns]

@[simp] theorem integral_not {a : Formula} : (Term.not a).Integral xs ↔ a.Integral xs := by
  simp [integral_iff, definite, unknowns]

/-- A term that leaves nothing open of its own and has no unknowns of its own is integral if its
two parts are. -/
theorem integral_both {l m : Kind} {t : Term k} {a : Term l} {b : Term m}
    (hdef : t.definite = (a.definite && b.definite)) (hunk : t.unknowns = a.unknowns ++ b.unknowns) :
    t.Integral xs ↔ a.Integral xs ∧ b.Integral xs := by
  simp only [integral_iff, hdef, hunk, Bool.and_eq_true, List.mem_append, or_imp, forall_and]
  tauto

@[simp] theorem integral_ring {op : Ring} {a b : Term (.num n)} :
    (Term.ring op a b).Integral xs ↔ a.Integral xs ∧ b.Integral xs := integral_both rfl rfl

@[simp] theorem integral_order {op : Order} {a b : Term (.num n)} :
    (Term.order op a b).Integral xs ↔ a.Integral xs ∧ b.Integral xs := integral_both rfl rfl

@[simp] theorem integral_eq {a b : Term k} :
    (Term.eq a b).Integral xs ↔ a.Integral xs ∧ b.Integral xs := integral_both rfl rfl

@[simp] theorem integral_distinct {a b : Term k} :
    (Term.distinct a b).Integral xs ↔ a.Integral xs ∧ b.Integral xs := integral_both rfl rfl

@[simp] theorem integral_and {a b : Formula} :
    (Term.and a b).Integral xs ↔ a.Integral xs ∧ b.Integral xs := integral_both rfl rfl

@[simp] theorem integral_or {a b : Formula} :
    (Term.or a b).Integral xs ↔ a.Integral xs ∧ b.Integral xs := integral_both rfl rfl

@[simp] theorem integral_ite {c : Formula} {a b : Term (.num n)} :
    (Term.ite c a b).Integral xs ↔ c.Integral xs ∧ a.Integral xs ∧ b.Integral xs := by
  simp [integral_iff, definite, unknowns, or_imp, forall_and]
  tauto

/-- A remainder by a numeral other than zero leaves nothing open. -/
theorem integral_mod {a : Term .int} {i : Int} (ha : a.Integral xs) (hi : i ≠ 0) :
    (Term.mod a (.int i)).Integral xs := by
  refine ⟨by simp [definite, isNonzeroNumeral, hi, ha.definite], ?_⟩
  simpa [unknowns] using ha.unknowns

@[simp] theorem integral_numeral (n : Numeric) (i : Int) :
    (Term.numeral n i).Integral xs := by
  cases n <;> simp [numeral]

@[simp] theorem integral_ofFormula {p : Formula} : (ofFormula p).Integral xs ↔ p.Integral xs := by
  simp [ofFormula]

@[simp] theorem integral_widen {m : Numeric} {a : Term (.num m)} :
    (a.widen n).Integral xs ↔ a.Integral xs := by
  cases m with
  | int =>
    cases n with
    | int => exact Iff.rfl
    | real => exact integral_toReal
  | real => cases n <;> exact Iff.rfl

@[simp] theorem integral_widenRight {m : Numeric} {a : Term (.num n)} :
    (a.widenRight m).Integral xs ↔ a.Integral xs := by
  cases m with
  | int => cases n <;> exact Iff.rfl
  | real =>
    cases n with
    | int => exact integral_toReal
    | real => exact Iff.rfl

theorem Integral.mono {ys : List String} {t : Term k} (h : t.Integral xs) (hsub : xs ⊆ ys) :
    t.Integral ys :=
  ⟨h.definite, fun u hu => ⟨(h.unknowns u hu).1, hsub (h.unknowns u hu).2⟩⟩

end Term

/-! ## Held values -/

namespace Held

/-- A plain value, or a term that is integral over the given names. -/
def Over (xs : List String) : Held → Prop
  | .plain _ => True
  | .term t => t.Integral xs

variable {xs : List String} {a b h : Held}

@[simp] theorem over_plain (v : Plain) : (Held.plain v).Over xs := trivial

@[simp] theorem over_term {k : Kind} {t : Term k} : (Held.term t).Over xs ↔ t.Integral xs := Iff.rfl

theorem Over.toFormula (ha : a.Over xs) {p : Formula} (hp : a.toFormula = .ok p) :
    p.Integral xs := by
  cases a with
  | plain v =>
    cases v with
    | bool b =>
      obtain rfl := Except.ok.inj hp
      exact Term.integral_bool b
    | _ => cases hp
  | @term k t =>
    cases k with
    | bool =>
      obtain rfl := Except.ok.inj hp
      exact ha
    | num n => cases hp

theorem integral_toNumeral {n : Numeric} {v : Plain} {t : Term (.num n)}
    (h : v.toNumeral n = .ok t) : t.Integral xs := by
  cases n with
  | int =>
    obtain ⟨i, -, rfl⟩ := Except.exists_of_map h
    exact Term.integral_int i
  | real =>
    obtain ⟨q, -, rfl⟩ := Except.exists_of_map h
    exact Term.integral_real q

theorem integral_numericPair? (ha : a.Over xs) (hb : b.Over xs) {p : NumericPair}
    (h : numericPair? a b = some (.ok p)) : p.left.Integral xs ∧ p.right.Integral xs := by
  unfold numericPair? at h
  split at h
  · obtain rfl := Except.ok.inj (Option.some.inj h)
    simpa [NumericPair.ofTerms] using ⟨ha, hb⟩
  · obtain rfl := Except.ok.inj (Option.some.inj h)
    simpa [NumericPair.ofTerms] using ⟨ha, hb⟩
  · obtain rfl := Except.ok.inj (Option.some.inj h)
    simpa [NumericPair.ofTerms] using ⟨ha, hb⟩
  · obtain ⟨t, ht, rfl⟩ := Except.exists_of_map (Option.some.inj h)
    exact ⟨ha, integral_toNumeral ht⟩
  · obtain ⟨t, ht, rfl⟩ := Except.exists_of_map (Option.some.inj h)
    exact ⟨integral_toNumeral ht, hb⟩
  · cases h

theorem over_choosePlain {p : Formula} (hp : p.Integral xs) {v : Plain}
    (h : choosePlain p v = .ok b) : b.Over xs := by
  unfold choosePlain at h
  split at h
  · obtain rfl := Except.ok.inj h
    exact hp
  · split at h
    · obtain rfl := Except.ok.inj h
      exact over_plain _
    · split at h
      · obtain rfl := Except.ok.inj h
        simpa [choose] using hp
      · obtain ⟨q, -, rfl⟩ := Except.exists_of_map h
        simpa using hp
      · cases h
      · cases h

theorem over_product? (ha : a.Over xs) (hb : b.Over xs) (h' : product? a b = some (.ok h)) :
    h.Over xs := by
  unfold product? at h'
  split at h'
  · obtain rfl := Except.ok.inj (Option.some.inj h')
    simpa [choose] using ⟨ha, hb⟩
  · obtain rfl := Except.ok.inj (Option.some.inj h')
    simpa [choose] using ⟨hb, ha⟩
  · exact over_choosePlain ha (Option.some.inj h')
  · exact over_choosePlain hb (Option.some.inj h')
  · cases Option.some.inj h'
  · cases h'

theorem over_arith {op : Arith} (hmod : op ≠ .mod) (hpow : op ≠ .pow) (ha : a.Over xs)
    (hb : b.Over xs) (hr : arith op a b = .ok h) : h.Over xs := by
  -- two operands that are numbers are brought to one sort and then combined
  have hpair : ∀ {r : Ring} {p}, numericPair? a b = some p →
      p >>= NumericPair.arith (.ring r) = .ok h → h.Over xs := by
    intro r p hp hr
    obtain ⟨pair, rfl, harith⟩ := Except.exists_of_bind hr
    obtain ⟨hleft, hright⟩ := integral_numericPair? ha hb hp
    obtain rfl := Except.ok.inj harith
    simpa using ⟨hleft, hright⟩
  cases op with
  | mod => exact absurd rfl hmod
  | pow => exact absurd rfl hpow
  | ring r =>
    unfold arith at hr
    split at hr
    · obtain ⟨v, -, rfl⟩ := Except.exists_of_map hr
      exact over_plain v
    · dsimp only at hr
      split at hr
      · -- a product may have a truth value for a factor, which is a choice and not a number
        cases hp : product? a b with
        | none =>
          rw [hp, Option.getD_none] at hr
          split at hr
          · rename_i p hp
            exact hpair hp hr
          · cases hr
        | some x =>
          rw [hp] at hr
          obtain rfl : x = .ok h := hr
          exact over_product? ha hb hp
      · split at hr
        · rename_i p hp
          exact hpair hp hr
        · cases hr

/-- A remainder by a number other than zero. -/
theorem over_mod {i : Int} (hi : i ≠ 0) (ha : a.Over xs)
    (hr : arith .mod a (.plain (.int i)) = .ok h) : h.Over xs := by
  cases a with
  | plain v =>
    obtain ⟨r, -, rfl⟩ := Except.exists_of_map hr
    exact over_plain r
  | @term k t =>
    cases k with
    | bool => cases hr
    | num n =>
      cases n with
      | int =>
        obtain rfl := Except.ok.inj hr
        exact Term.integral_mod ha hi
      | real => cases hr

theorem over_neg (ha : a.Over xs) (hr : neg a = .ok h) : h.Over xs := by
  unfold neg at hr
  split at hr
  · obtain ⟨r, -, rfl⟩ := Except.exists_of_map hr
    exact over_plain r
  · obtain rfl := Except.ok.inj hr
    simpa using ha
  · cases hr

theorem integral_compare {p : NumericPair} (op : Comparison) (hleft : p.left.Integral xs)
    (hright : p.right.Integral xs) : (p.compare op).Integral xs := by
  cases op <;> simpa [NumericPair.compare] using ⟨hleft, hright⟩

theorem over_equality {positive : Bool} (ha : a.Over xs) (hb : b.Over xs)
    (hr : equality positive a b = .ok h) : h.Over xs := by
  have honFormulas : ∀ {p q : Formula}, p.Integral xs → q.Integral xs →
      (Held.term (if positive then .eq p q else .distinct p q)).Over xs := by
    intro p q hp hq
    cases positive <;> simpa using ⟨hp, hq⟩
  unfold equality at hr
  dsimp only at hr
  split at hr
  -- two plain values, and what is never equal to a symbolic one
  · obtain ⟨r, -, rfl⟩ := Except.exists_of_map hr
    exact over_plain _
  · obtain rfl := Except.ok.inj hr
    exact over_plain _
  · obtain rfl := Except.ok.inj hr
    exact over_plain _
  -- two formulas, one of which may be a plain truth value
  · obtain rfl := Except.ok.inj hr
    exact honFormulas ha hb
  · obtain ⟨q, hq, rfl⟩ := Except.exists_of_map hr
    exact honFormulas ha (Over.toFormula (over_plain _) hq)
  · obtain ⟨q, hq, rfl⟩ := Except.exists_of_map hr
    exact honFormulas hb (Over.toFormula (over_plain _) hq)
  -- two numbers
  · obtain ⟨s, hs, rfl⟩ := Except.exists_of_map hr
    exact integral_compare _ hb (integral_toNumeral hs)
  · split at hr
    · rename_i x hp
      obtain ⟨p, rfl, rfl⟩ := Except.exists_of_map hr
      obtain ⟨hleft, hright⟩ := integral_numericPair? ha hb hp
      exact integral_compare _ hleft hright
    · cases hr

theorem over_order {o : Order} (ha : a.Over xs) (hb : b.Over xs) (hr : order o a b = .ok h) :
    h.Over xs := by
  unfold order at hr
  split at hr
  · obtain ⟨r, -, rfl⟩ := Except.exists_of_map hr
    exact over_plain _
  · obtain ⟨s, hs, rfl⟩ := Except.exists_of_map hr
    simpa using ⟨hb, integral_toNumeral hs⟩
  · obtain rfl := Except.ok.inj hr
    simpa [NumericPair.ofTerms] using ⟨hb, ha⟩
  · split at hr
    · rename_i x hp
      obtain ⟨p, rfl, rfl⟩ := Except.exists_of_map hr
      simpa using integral_numericPair? ha hb hp
    · cases hr

theorem over_compare {op : Comparison} (ha : a.Over xs) (hb : b.Over xs)
    (hr : compare op a b = .ok h) : h.Over xs := by
  cases op with
  | eq => exact over_equality ha hb hr
  | ne => exact over_equality ha hb hr
  | order o => exact over_order ha hb hr

theorem over_junction {op : Junction} (ha : a.Over xs) (hb : b.Over xs)
    (hr : junction op a b = .ok h) : h.Over xs := by
  unfold junction at hr
  split at hr
  · obtain ⟨p, hp, hr⟩ := Except.exists_of_bind hr
    obtain ⟨q, hq, hr⟩ := Except.exists_of_bind hr
    obtain rfl := Except.ok.inj hr
    cases op <;> simpa using ⟨ha.toFormula hp, hb.toFormula hq⟩
  · split at hr <;> cases hr

theorem Over.mono {ys : List String} (ha : a.Over xs) (hsub : xs ⊆ ys) : a.Over ys := by
  cases a with
  | plain v => trivial
  | term t => exact Term.Integral.mono ha hsub

end Held

/-! ## Values -/

namespace Value

/-- All terms in a value are integral over the given names. -/
inductive Over (xs : List String) : Value → Prop where
  | held {h : Held} : h.Over xs → Over xs (.held h)
  | number {h : Held} : h.Over xs → Over xs (.number h)
  | condition {stamp : Nat} {h : Held} : h.Over xs → Over xs (.condition stamp h)
  | tuple {items : List Value} : (∀ v ∈ items, Over xs v) → Over xs (.tuple items)
  | table {entries : List (String × Value)} : (∀ e ∈ entries, Over xs e.2) → Over xs (.table entries)
  | function (index : Nat) : Over xs (.function index)
  | builtin (b : Builtin) : Over xs (.builtin b)
  | class (name : String) : Over xs (.class name)
  | object (stamp : Nat) (className : String) : Over xs (.object stamp className)

variable {xs : List String} {a b v : Value}

theorem over_plain (v : Plain) : (Value.held (.plain v)).Over xs := .held (Held.over_plain v)

theorem over_unknown {x : String} (hx : x ∈ xs) : (Value.unknown x).Over xs :=
  .number (Term.integral_var.mpr hx)

theorem Over.mono {ys : List String} (ha : a.Over xs) (hsub : xs ⊆ ys) : a.Over ys := by
  induction ha with
  | held h => exact .held (h.mono hsub)
  | number h => exact .number (h.mono hsub)
  | condition h => exact .condition (h.mono hsub)
  | tuple _ ih => exact .tuple ih
  | table _ ih => exact .table ih
  | function i => exact .function i
  | builtin b => exact .builtin b
  | «class» c => exact .class c
  | object s c => exact .object s c

theorem over_partner (ha : a.Over xs) {h : Held} (hr : partner a = .ok h) : h.Over xs := by
  unfold partner at hr
  split at hr
  · obtain rfl := Except.ok.inj hr
    exact Held.over_plain _
  · obtain rfl := Except.ok.inj hr
    cases ha
    assumption
  · cases hr

/-- All terms in what an operator yields are integral over the given names. -/
def Raw.Over (xs : List String) : Raw → Prop
  | .value v => v.Over xs
  | .condition h => h.Over xs

theorem over_repeated {items : List Value} (hitems : ∀ v ∈ items, v.Over xs)
    (hr : onSequences.repeated items b = .ok v) : v.Over xs := by
  unfold onSequences.repeated at hr
  split at hr
  · split at hr
    · obtain rfl := Except.ok.inj hr
      refine .tuple ?_
      intro v hv
      obtain ⟨l, hl, hvl⟩ := List.mem_flatten.mp hv
      rw [List.eq_of_mem_replicate hl] at hvl
      exact hitems v hvl
    · cases hr
  · cases hr

theorem Over.items {items : List Value} (h : (Value.tuple items).Over xs) :
    ∀ v ∈ items, v.Over xs := by
  cases h
  assumption

theorem Over.holds {h : Held} (ha : (Value.held h).Over xs) : h.Over xs := by
  cases ha
  assumption

theorem over_onSequences {title : String} {op : Binary} (ha : a.Over xs) (hb : b.Over xs)
    (hr : onSequences title op a b = .ok v) : v.Over xs := by
  unfold onSequences at hr
  split at hr
  · obtain rfl := Except.ok.inj hr
    refine .tuple ?_
    intro v hv
    rcases List.mem_append.mp hv with hv | hv
    · exact ha.items v hv
    · exact hb.items v hv
  · cases hr
  · cases hr
  · exact over_repeated ha.items hr
  · exact over_repeated hb.items hr
  · cases hr
  · cases hr
  · cases hr
  · cases hr

end Value

/-- Operators that leave nothing open, whatever their operands. -/
def Binary.definite : Binary → Bool
  | .arith .mod | .arith .pow => false
  | _ => true

theorem Binary.arith_of_definite {o : Arith} (h : (Binary.arith o).definite = true) :
    o ≠ .mod ∧ o ≠ .pow := by
  cases o <;> simp [Binary.definite] at h ⊢

namespace Value

variable {xs : List String} {a b v : Value} {title : String} {op : Binary} {r : Raw}

theorem over_binaryUnwrapped (hop : op.definite = true) (ha : a.Over xs) (hb : b.Over xs)
    (hr : binaryUnwrapped title op a b = .ok v) : v.Over xs := by
  unfold binaryUnwrapped at hr
  split at hr
  · obtain ⟨v, -, rfl⟩ := Except.exists_of_map hr
    exact over_plain v
  · split at hr
    · obtain ⟨h, hh, rfl⟩ := Except.exists_of_map hr
      obtain ⟨hmod, hpow⟩ := Binary.arith_of_definite hop
      exact .held (Held.over_arith hmod hpow ha.holds hb.holds hh)
    · cases hr
  · exact over_onSequences ha hb hr

theorem binary_over (hop : op.definite = true) (ha : a.Over xs) (hb : b.Over xs)
    (hr : binary title op a b = .ok r) : r.Over xs := by
  unfold binary at hr
  split at hr
  · -- a symbolic number on the left
    obtain ⟨g, hg, hr⟩ := Except.exists_of_bind hr
    obtain ⟨h, hh, hr⟩ := Except.exists_of_bind hr
    obtain rfl := Except.ok.inj hr
    obtain ⟨hmod, hpow⟩ := Binary.arith_of_definite hop
    cases ha with
    | number ha => exact .number (Held.over_arith hmod hpow ha (over_partner hb hg) hh)
  · cases hr
  · -- a symbolic number on the right only
    obtain ⟨g, hg, hr⟩ := Except.exists_of_bind hr
    obtain ⟨h, hh, hr⟩ := Except.exists_of_bind hr
    obtain rfl := Except.ok.inj hr
    obtain ⟨hmod, hpow⟩ := Binary.arith_of_definite hop
    cases hb with
    | number hb => exact .number (Held.over_arith hmod hpow hb (over_partner ha hg) hh)
  · obtain ⟨g, hg, hr⟩ := Except.exists_of_bind hr
    obtain ⟨h, hh, hr⟩ := Except.exists_of_bind hr
    obtain rfl := Except.ok.inj hr
    cases ha with
    | number ha => exact Held.over_junction ha (over_partner hb hg) hh
  · cases hr
  · cases hr
  · obtain ⟨v, hv, rfl⟩ := Except.exists_of_map hr
    exact over_binaryUnwrapped hop ha hb hv

/-- A remainder by a number other than zero. -/
theorem mod_over {i : Int} (hi : i ≠ 0) (ha : a.Over xs)
    (hr : binary title (.arith .mod) a (.int i) = .ok r) : r.Over xs := by
  cases ha with
  | number ha =>
    obtain ⟨g, hg, hr⟩ := Except.exists_of_bind hr
    obtain ⟨h, hh, hr⟩ := Except.exists_of_bind hr
    obtain rfl := Except.ok.inj hr
    obtain rfl := Except.ok.inj hg
    exact .number (Held.over_mod hi ha hh)
  | @held g ha =>
    cases g with
    | plain u =>
      have hplain : binary title (.arith .mod) (.held (.plain u)) (.int i) =
          (binaryUnwrapped title (.arith .mod) (.held (.plain u)) (.int i)).map .value := by
        cases u <;> rfl
      obtain ⟨v, hv, rfl⟩ := Except.exists_of_map (hplain ▸ hr)
      obtain ⟨v, -, rfl⟩ := Except.exists_of_map hv
      exact over_plain v
    | term t =>
      obtain ⟨v, hv, rfl⟩ := Except.exists_of_map hr
      obtain ⟨h, hh, rfl⟩ := Except.exists_of_map hv
      exact .held (Held.over_mod hi ha hh)
  | _ => cases hr

theorem compare_over {op : Comparison} (ha : a.Over xs) (hb : b.Over xs)
    (hr : compare op a b = .ok r) : r.Over xs := by
  unfold compare at hr
  split at hr
  · obtain ⟨g, hg, hr⟩ := Except.exists_of_bind hr
    obtain ⟨h, hh, hr⟩ := Except.exists_of_bind hr
    obtain rfl := Except.ok.inj hr
    cases ha with
    | number ha => exact Held.over_compare ha (over_partner hb hg) hh
  · obtain ⟨g, hg, hr⟩ := Except.exists_of_bind hr
    obtain ⟨h, hh, hr⟩ := Except.exists_of_bind hr
    obtain rfl := Except.ok.inj hr
    cases hb with
    | number hb => exact Held.over_compare hb (over_partner ha hg) hh
  · unfold compareUnwrapped at hr
    split at hr
    · obtain ⟨v, -, rfl⟩ := Except.exists_of_map hr
      exact over_plain _
    · obtain ⟨h, hh, rfl⟩ := Except.exists_of_map hr
      exact .held (Held.over_compare ha.holds hb.holds hh)
    · split at hr
      · obtain rfl := Except.ok.inj hr
        exact over_plain _
      · obtain rfl := Except.ok.inj hr
        exact over_plain _
      · cases hr

theorem unary_over {op : Unary} (ha : a.Over xs) (hr : unary op a = .ok v) : v.Over xs := by
  unfold unary at hr
  split at hr
  · obtain ⟨h, hh, rfl⟩ := Except.exists_of_map hr
    cases ha with
    | number ha => exact .number (Held.over_neg ha hh)
  · obtain ⟨u, -, rfl⟩ := Except.exists_of_map hr
    exact over_plain u
  · obtain ⟨h, hh, rfl⟩ := Except.exists_of_map hr
    exact .held (Held.over_neg ha.holds hh)
  · cases hr

end Value

end Pathwise
