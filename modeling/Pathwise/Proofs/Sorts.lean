import Pathwise.Proofs.Expressions

/-!
# Which arithmetic fails

A power of symbolic numbers is a rational term, whatever a rational term takes part in is rational,
and a remainder needs integers. So arithmetic on unknowns can fail in one way only: where a power
stands somewhere below a remainder. Nothing else matters, neither the order of the operands nor
which of them are numerals, and no comparison fails.

Operands have sorts as in `Value.Sorted`. What an operator makes of them is said once, in
`Value.binary_sorted`; the rest is an induction over the expression, in which the sort of each value
is read off the expression.

* `Expr.Symbolic` — arithmetic in which every operator has a name below it.
* `Expr.hasPowerInRemainder` — a power stands below a remainder.
* `Expr.Symbolic.eval_sorted` — evaluation, by induction over the expression.
* `Expr.faults_iff_power_in_remainder` — when evaluation fails, and what it gives if it does not.
-/

namespace Pathwise

/-! ## Operators on sorted operands -/

/-- The sort of what an operator makes of two terms of one sort. Rational terms have no
remainder. -/
def Arith.sort? : Arith → Numeric → Option Numeric
  | .ring _, n => some n
  | .mod, .int => some .int
  | .mod, .real => none
  | .pow, _ => some .real

theorem NumericPair.arith_sort (op : Arith) (p : NumericPair) :
    (op.sort? p.n = none ∧ p.arith op = .error .integerExpected) ∨
      ∃ k, op.sort? p.n = some k ∧ ∃ t : Term (.num k), p.arith op = .ok (.term t) := by
  obtain ⟨a, b⟩ := p
  rename_i n
  cases op with
  | ring r => exact .inr ⟨n, rfl, .ring r a b, rfl⟩
  | pow => exact .inr ⟨.real, rfl, .pow a b, rfl⟩
  | mod =>
    cases n with
    | int => exact .inr ⟨.int, rfl, .mod a b, rfl⟩
    | real => exact .inl ⟨rfl, rfl⟩

namespace Value

variable {u v : Value} {m n : Option Numeric} {k : Numeric}

/-- What an operator makes of a symbolic number and its partner, in whichever order they stand. -/
theorem binary_sorted_term (title : String) (op : Arith) (t : Term (.num k)) (hv : v.Sorted n) :
    ∃ j, Numeric.wider (some k) n = some j ∧
      ((op.sort? j = Option.none ∧
          binary title (.arith op) (.number (.term t)) v = .error .integerExpected ∧
          (n = Option.none →
            binary title (.arith op) v (.number (.term t)) = .error .integerExpected)) ∨
        ∃ i w, op.sort? j = some i ∧ w.Sorted (some i) ∧
          binary title (.arith op) (.number (.term t)) v = .ok (.value w) ∧
          (n = Option.none → binary title (.arith op) v (.number (.term t)) = .ok (.value w))) := by
  obtain ⟨g, p, hg, harith, -, hsort, -⟩ := Held.numericPair_of_sorted t hv
  have hleft : binary title (.arith op) (.number (.term t)) v =
      (p.arith op).map fun r => .value (.number r) := by
    rw [← harith]
    simp only [binary, hg, bind, Except.bind]
    cases Held.arith op (.term t) g <;> rfl
  -- an integer on the left leaves the operator to the symbolic number on its right
  have hright : n = Option.none → binary title (.arith op) v (.number (.term t)) =
      binary title (.arith op) (.number (.term t)) v := by
    rintro rfl
    cases hv
    cases op <;> rfl
  refine ⟨p.n, hsort, ?_⟩
  obtain ⟨hnone, herror⟩ | ⟨i, hsome, s, hok⟩ := p.arith_sort op
  · rw [herror] at hleft
    exact .inl ⟨hnone, hleft, fun hn => (hright hn).trans hleft⟩
  · rw [hok] at hleft
    exact .inr ⟨i, .number (.term s), hsome, .term s, hleft, fun hn => (hright hn).trans hleft⟩

/-- An operator of which at least one operand is a symbolic number. -/
theorem binary_sorted (title : String) (op : Arith) (hu : u.Sorted m) (hv : v.Sorted n)
    (hk : Numeric.wider m n = some k) :
    (op.sort? k = Option.none ∧ binary title (.arith op) u v = .error .integerExpected) ∨
      ∃ j w, op.sort? k = some j ∧ w.Sorted (some j) ∧
        binary title (.arith op) u v = .ok (.value w) := by
  cases hu with
  | term t =>
    obtain ⟨j, hj, hcases⟩ := binary_sorted_term title op t hv
    obtain rfl : k = j := Option.some.inj (hk.symm.trans hj)
    obtain ⟨hnone, herror, -⟩ | ⟨i, w, hsome, hw, hok, -⟩ := hcases
    · exact .inl ⟨hnone, herror⟩
    · exact .inr ⟨i, w, hsome, hw, hok⟩
  | int a =>
    cases hv with
    | int b => cases hk
    | term t =>
      obtain ⟨j, hj, hcases⟩ := binary_sorted_term title op t (.int a)
      obtain rfl : k = j := Option.some.inj (hk.symm.trans hj)
      obtain ⟨hnone, -, herror⟩ | ⟨i, w, hsome, hw, -, hok⟩ := hcases
      · exact .inl ⟨hnone, herror rfl⟩
      · exact .inr ⟨i, w, hsome, hw, hok rfl⟩

theorem neg_sorted (hu : u.Sorted m) : ∃ w, unary .neg u = .ok w ∧ w.Sorted m := by
  cases hu with
  | int a => exact ⟨.int (-a), rfl, .int _⟩
  | term t => exact ⟨.number (.term (.neg t)), rfl, .term _⟩

/-- Symbolic numbers can be compared, whatever their sorts. -/
theorem compare_sorted (op : Comparison) (hu : u.Sorted (some k)) (hv : v.Sorted n) :
    ∃ p : Formula, compare op u v = .ok (.condition (.term p)) := by
  cases hu with
  | term t =>
    obtain ⟨g, p, hg, -, hcompare, -⟩ := Held.numericPair_of_sorted t hv
    refine ⟨p.compare op, ?_⟩
    simp only [compare, hg, hcompare, bind, Except.bind, pure, Except.pure]

end Value

/-! ## Evaluation that notes exchanges -/

/-- The state after so many more exchanges of operands. -/
def State.exchanged (s : State) (n : Nat) : State :=
  { s with
    trace := List.replicate n .exchange ++ s.trace
    stores := List.replicate n s.locals ++ s.stores }

@[simp] theorem State.exchanged_locals (s : State) (n : Nat) : (s.exchanged n).locals = s.locals :=
  rfl

@[simp] theorem State.exchanged_memory (s : State) (n : Nat) : (s.exchanged n).memory = s.memory :=
  rfl

theorem State.exchanged_exchanged (s : State) (m n : Nat) :
    (s.exchanged m).exchanged n = s.exchanged (n + m) := by
  simp only [exchanged, ← List.append_assoc, List.replicate_append_replicate]

theorem Env.always_apply (x : String) : ∃ r, ∀ s, Env.always x s = .done (r, s) := by
  unfold Env.always
  cases Builtin.ofName? x with
  | some b => exact ⟨_, fun s => rfl⟩
  | none =>
    dsimp only
    split
    · exact ⟨_, fun s => rfl⟩
    · exact ⟨_, fun s => rfl⟩

/-- Reading a name does not look at what was noted. -/
theorem Env.read_exchanged (env : Env) (x : String) (s : State) :
    ∃ r, ∀ n, env.read x (s.exchanged n) = .done (r, s.exchanged n) := by
  obtain ⟨r, halways⟩ := always_apply x
  cases hframe : env.frame with
  | call owned =>
    simp only [Env.read_apply hframe, State.exchanged_locals, State.exchanged_memory]
    split
    · cases s.locals.lookup x with
      | some v => exact ⟨_, fun n => rfl⟩
      | none => exact ⟨_, fun n => rfl⟩
    · cases s.memory.globals.lookup x with
      | some v => exact ⟨_, fun n => rfl⟩
      | none => exact ⟨r, fun n => halways _⟩
  | outside names =>
    unfold Env.read
    rw [hframe]
    dsimp only
    cases names.lookup x with
    | some v => exact ⟨_, fun n => rfl⟩
    | none => exact ⟨r, fun n => halways _⟩

theorem Env.Binds.exchanged {env : Env} {s : State} {names : List String} {f : String → Value}
    (hs : env.Binds s names f) (n : Nat) : env.Binds (s.exchanged n) names f := by
  intro x hx
  obtain ⟨r, hr⟩ := env.read_exchanged x s
  have hread : env.read x s = .done (r, s) := hr 0
  rw [hs x hx] at hread
  cases hread
  exact hr n

namespace Eval

variable {title : String} {op : Binary} {u v : Value}

theorem binary_apply (title : String) (op : Binary) (u v : Value) (s : State) :
    binary title op u v s =
      (ofExcept (Value.binary title op u v) >>= box)
        (s.exchanged (Value.exchanges op u v).toNat) := by
  unfold binary
  cases Value.exchanges op u v <;> rfl

theorem binary_of_value {w : Value} (hw : Value.binary title op u v = .ok (.value w)) (s : State) :
    binary title op u v s = .done (.ok w, s.exchanged (Value.exchanges op u v).toNat) := by
  rw [binary_apply, hw]
  rfl

theorem binary_of_error {f : Fault} (hf : Value.binary title op u v = .error f) (s : State) :
    binary title op u v s = .done (.error f, s.exchanged (Value.exchanges op u v).toNat) := by
  rw [binary_apply, hf]
  rfl

end Eval

namespace Expr

/-! ## Symbolic arithmetic -/

variable {env : Env} {s t : State} {a b : Expr} {u : Value} {f : Fault}

theorem eval_unary_error {op : Unary} (ha : a.eval env s = .done (.error f, t)) :
    (Expr.unary op a).eval env s = .done (.error f, t) := by
  show Run.bind (a.eval env s) _ = _
  rw [ha]
  rfl

theorem eval_binary_error {op : Binary} (ha : a.eval env s = .done (.error f, t)) :
    (Expr.binary op a b).eval env s = .done (.error f, t) := by
  show Run.bind (a.eval env s) _ = _
  rw [ha]
  rfl

theorem eval_binary_error_right {op : Binary} {t' : State}
    (ha : a.eval env s = .done (.ok u, t)) (hb : b.eval env t = .done (.error f, t')) :
    (Expr.binary op a b).eval env s = .done (.error f, t') := by
  show Run.bind (a.eval env s) _ = _
  rw [ha]
  show Run.bind (b.eval env t) _ = _
  rw [hb]
  rfl

theorem eval_binary_ok {op : Binary} {v : Value} {t' : State}
    (ha : a.eval env s = .done (.ok u, t)) (hb : b.eval env t = .done (.ok v, t')) :
    (Expr.binary op a b).eval env s = Eval.binary op.title op u v t' := by
  show Run.bind (a.eval env s) _ = _
  rw [ha]
  show Run.bind (b.eval env t) _ = _
  rw [hb]
  rfl

/-- Arithmetic in which every operator has a name below it. -/
inductive Symbolic (names : List String) : Expr → Prop where
  | numeral (n : Int) : Symbolic names (.literal (.int n))
  | name {x : String} (hx : x ∈ names) : Symbolic names (.name x)
  | neg {a : Expr} (ha : Symbolic names a) (hname : a.hasName = true) :
    Symbolic names (.unary .neg a)
  | arith {op : Arith} {a b : Expr} (ha : Symbolic names a) (hb : Symbolic names b)
    (hname : a.hasName = true ∨ b.hasName = true) : Symbolic names (.binary (.arith op) a b)

/-- Whether a power stands somewhere below a remainder. -/
def hasPowerInRemainder : Expr → Bool
  | .unary _ a => a.hasPowerInRemainder
  | .binary op a b =>
    (op = .arith .mod && (a.hasPower || b.hasPower)) || a.hasPowerInRemainder ||
      b.hasPowerInRemainder
  | _ => false

/-- The sort of the term that symbolic arithmetic is evaluated to; a numeral has none. -/
def termSort? (e : Expr) : Option Numeric :=
  if e.hasName then some (if e.hasPower then .real else .int) else none

namespace Symbolic

variable {names : List String} {e : Expr}

/-- A power is an operator, so there is a name below it. -/
theorem hasName_of_hasPower (he : e.Symbolic names) (hpower : e.hasPower = true) :
    e.hasName = true := by
  cases he with
  | numeral n => cases hpower
  | name hx => rfl
  | neg ha hname => exact hname
  | arith ha hb hname => exact Bool.or_eq_true_iff.mpr hname

theorem wider_termSort? (ha : a.Symbolic names) (hb : b.Symbolic names)
    (hname : a.hasName = true ∨ b.hasName = true) :
    Numeric.wider a.termSort? b.termSort? =
      some (if a.hasPower || b.hasPower then .real else .int) := by
  -- an operand without names is a numeral, so it has no power in it and follows the other one
  have hnumeral : ∀ {e : Expr}, e.Symbolic names → ¬ e.hasName = true → e.hasPower = false :=
    fun he hno => Bool.eq_false_iff.mpr (mt he.hasName_of_hasPower hno)
  unfold termSort?
  by_cases hna : a.hasName = true
  · by_cases hnb : b.hasName = true
    · rw [if_pos hna, if_pos hnb]
      cases a.hasPower <;> cases b.hasPower <;> rfl
    · rw [if_pos hna, if_neg hnb, hnumeral hb hnb, Bool.or_false]
      rfl
  · rw [if_neg hna, if_pos (hname.resolve_left hna), hnumeral ha hna, Bool.false_or]
    rfl

/-- The sort of the term that an operator makes, if it makes one. -/
theorem termSort?_arith {op : Arith} {i : Numeric} (hname : a.hasName = true ∨ b.hasName = true)
    (hsort : op.sort? (if a.hasPower || b.hasPower then .real else .int) = some i) :
    (Expr.binary (.arith op) a b).termSort? = some i := by
  have hname' : (Expr.binary (.arith op) a b).hasName = true := Bool.or_eq_true_iff.mpr hname
  rw [termSort?, if_pos hname', ← hsort]
  cases op with
  | ring r => rfl
  | pow => rfl
  | mod =>
    show some (if a.hasPower || b.hasPower then Numeric.real else .int) = _
    cases hpower : a.hasPower || b.hasPower with
    | false => rfl
    | true =>
      rw [hpower] at hsort
      cases hsort

/-- An operator fails exactly at a remainder of which an operand has a power in it. -/
theorem sort?_eq_none_iff {op : Arith} :
    op.sort? (if a.hasPower || b.hasPower then .real else .int) = none ↔
      op = .mod ∧ (a.hasPower || b.hasPower) = true := by
  cases hpower : a.hasPower || b.hasPower <;> cases op <;> simp [Arith.sort?]

/-- Evaluation of symbolic arithmetic on unknowns asks nothing and changes nothing but that it notes
exchanges of operands. It fails if a power stands below a remainder; otherwise it gives a value of
the sort that is read off the expression. -/
theorem eval_sorted (he : e.Symbolic names) {s : State} (hs : env.Binds s names .unknown) :
    ∃ n,
      (e.hasPowerInRemainder = true ∧
        e.eval env s = .done (.error .integerExpected, s.exchanged n)) ∨
      (e.hasPowerInRemainder = false ∧
        ∃ v, e.eval env s = .done (.ok v, s.exchanged n) ∧ v.Sorted e.termSort?) := by
  induction he generalizing s with
  | numeral n => exact ⟨0, .inr ⟨rfl, .int n, rfl, .int n⟩⟩
  | @name x hx => exact ⟨0, .inr ⟨rfl, .unknown x, hs x hx, .term _⟩⟩
  | neg ha hname iha =>
    obtain ⟨n, ⟨hbad, herror⟩ | ⟨hgood, u, hu, hsorted⟩⟩ := iha hs
    · exact ⟨n, .inl ⟨hbad, eval_unary_error herror⟩⟩
    · obtain ⟨w, hw, hneg⟩ := Value.neg_sorted hsorted
      refine ⟨n, .inr ⟨hgood, w, ?_, hneg⟩⟩
      show Run.bind (Expr.eval env _ s) _ = _
      rw [hu]
      show Eval.ofExcept (Value.unary .neg u) _ = _
      rw [hw]
      rfl
  | @arith op a b ha hb hname iha ihb =>
    have hbelow : (Expr.binary (.arith op) a b).hasPowerInRemainder =
        ((Binary.arith op = .arith .mod && (a.hasPower || b.hasPower)) || a.hasPowerInRemainder ||
          b.hasPowerInRemainder) := rfl
    obtain ⟨m, ⟨hbad, herror⟩ | ⟨hgood, u, hu, hsu⟩⟩ := iha hs
    · exact ⟨m, .inl ⟨by simp [hbelow, hbad], eval_binary_error herror⟩⟩
    obtain ⟨n, ⟨hbad', herror⟩ | ⟨hgood', v, hv, hsv⟩⟩ := ihb (hs.exchanged m)
    · rw [State.exchanged_exchanged] at herror
      exact ⟨n + m, .inl ⟨by simp [hbelow, hbad'], eval_binary_error_right hu herror⟩⟩
    -- both operands have values, and only the operator itself can fail now
    rw [State.exchanged_exchanged] at hv
    obtain ⟨hnone, herror⟩ | ⟨i, w, hsome, hw, hok⟩ :=
      Value.binary_sorted (Binary.arith op).title op hsu hsv (wider_termSort? ha hb hname)
    · obtain ⟨rfl, hpower⟩ := sort?_eq_none_iff.mp hnone
      have heval := (eval_binary_ok hu hv).trans (Eval.binary_of_error herror _)
      rw [State.exchanged_exchanged] at heval
      exact ⟨_, .inl ⟨by simp [hbelow, hpower], heval⟩⟩
    · have hfine : ¬ (op = .mod ∧ (a.hasPower || b.hasPower) = true) := by
        rw [← sort?_eq_none_iff, hsome]
        simp
      have heval := (eval_binary_ok hu hv).trans (Eval.binary_of_value hok _)
      rw [State.exchanged_exchanged] at heval
      refine ⟨_, .inr ⟨?_, w, heval, ?_⟩⟩
      · rw [hbelow, hgood, hgood']
        simpa using hfine
      · rwa [termSort?_arith hname hsome]

/-- Arithmetic with a name in it and without a power below a remainder gives a symbolic number. -/
theorem eval_ok (he : e.Symbolic names) (hname : e.hasName = true)
    (hfine : e.hasPowerInRemainder = false) {s : State} (hs : env.Binds s names .unknown) :
    ∃ n, ∃ t : Term (.num (if e.hasPower then .real else .int)),
      e.eval env s = .done (.ok (.number (.term t)), s.exchanged n) := by
  obtain ⟨n, ⟨hbad, -⟩ | ⟨-, v, hv, hsorted⟩⟩ := he.eval_sorted hs
  · rw [hfine] at hbad
    cases hbad
  · rw [termSort?, if_pos hname] at hsorted
    cases hsorted with
    | term t => exact ⟨n, t, hv⟩

end Symbolic

/--
**Which arithmetic fails.** Let arithmetic with a name in it, in which every operator has a name
below it, be evaluated in a state in which the names are unknowns.

* Evaluation fails exactly if a power stands somewhere below a remainder, and the fault is then that
  an integer was expected.
* Otherwise it gives a symbolic number, over a rational term if there is a power in the expression
  and over an integer term if there is none.
* Every comparison of two such expressions that do not fail gives a condition.

Nothing is asked on the way, and nothing in the state changes but that exchanges of operands are
noted.
-/
theorem faults_iff_power_in_remainder {names : List String} (ha : a.Symbolic names)
    (hname : a.hasName = true) (hs : env.Binds s names .unknown) :
    ((∃ f t, a.eval env s = .done (.error f, t)) ↔ a.hasPowerInRemainder = true) ∧
    (a.hasPowerInRemainder = true →
      ∃ n, a.eval env s = .done (.error .integerExpected, s.exchanged n)) ∧
    Fault.integerExpected.className = "Z3Exception" ∧
    Fault.integerExpected.message = "Z3 integer expression expected" ∧
    (a.hasPowerInRemainder = false →
      ∃ n, ∃ t : Term (.num (if a.hasPower then .real else .int)),
        a.eval env s = .done (.ok (.number (.term t)), s.exchanged n)) ∧
    ∀ b : Expr, b.Symbolic names → b.hasName = true → a.hasPowerInRemainder = false →
      b.hasPowerInRemainder = false → ∀ op : Comparison, ∃ n, ∃ p : Formula,
        (Expr.compare op a b).eval env s =
          .done (.ok (.condition s.stamp (.term p)),
            { s.exchanged n with stamp := s.stamp + 1 }) := by
  have hfails : a.hasPowerInRemainder = true →
      ∃ n, a.eval env s = .done (.error .integerExpected, s.exchanged n) := by
    intro hbad
    obtain ⟨n, ⟨-, herror⟩ | ⟨hfine, -⟩⟩ := ha.eval_sorted hs
    · exact ⟨n, herror⟩
    · rw [hbad] at hfine
      cases hfine
  refine ⟨⟨?_, ?_⟩, hfails, rfl, rfl, fun hfine => ha.eval_ok hname hfine hs, ?_⟩
  · rintro ⟨f, t, herror⟩
    by_contra hfine
    obtain ⟨n, u, hu⟩ := ha.eval_ok hname (Bool.eq_false_iff.mpr hfine) hs
    rw [hu] at herror
    cases herror
  · intro hbad
    obtain ⟨n, herror⟩ := hfails hbad
    exact ⟨_, _, herror⟩
  · intro b hb hname' hfine hfine' op
    obtain ⟨m, u, hu⟩ := ha.eval_ok hname hfine hs
    obtain ⟨n, v, hv⟩ := hb.eval_ok hname' hfine' (hs.exchanged m)
    obtain ⟨p, hp⟩ := Value.compare_sorted op (.term u) (.term v)
    rw [State.exchanged_exchanged] at hv
    refine ⟨n + m, p, ?_⟩
    show Run.bind (a.eval env s) _ = _
    rw [hu]
    show Run.bind (b.eval env (s.exchanged m)) _ = _
    rw [hv]
    show (Eval.ofExcept (Value.compare op _ _) >>= Eval.box) _ = _
    rw [hp]
    rfl

end Expr

namespace Sample

/-- The expression `7 % (x + 2 ** y)`: two of its operators have a numeral on the left. -/
def remainderOfPower : Expr :=
  .binary (.arith .mod) (.literal (.int 7))
    (.binary (.arith .add) (.name "x")
      (.binary (.arith .pow) (.literal (.int 2)) (.name "y")))

/-- The expression `3 - -(x % 5) ** 2 * y`: the remainder stands below the power. -/
def powerOfRemainder : Expr :=
  .binary (.arith .sub) (.literal (.int 3))
    (.binary (.arith .mul)
      (.unary .neg
        (.binary (.arith .pow)
          (.binary (.arith .mod) (.name "x") (.literal (.int 5))) (.literal (.int 2))))
      (.name "y"))

theorem remainderOfPower_symbolic : remainderOfPower.Symbolic ["x", "y"] := by
  have hx : (Expr.name "x").Symbolic ["x", "y"] := .name (by simp)
  have hy : (Expr.name "y").Symbolic ["x", "y"] := .name (by simp)
  exact .arith (.numeral 7) (.arith hx (.arith (.numeral 2) hy (.inr rfl)) (.inl rfl)) (.inr rfl)

theorem powerOfRemainder_symbolic : powerOfRemainder.Symbolic ["x", "y"] := by
  have hx : (Expr.name "x").Symbolic ["x", "y"] := .name (by simp)
  have hy : (Expr.name "y").Symbolic ["x", "y"] := .name (by simp)
  have hremainder : (Expr.binary (.arith .mod) (.name "x") (.literal (.int 5))).Symbolic
      ["x", "y"] := .arith hx (.numeral 5) (.inl rfl)
  have hpower : (Expr.binary (.arith .pow) (.binary (.arith .mod) (.name "x")
      (.literal (.int 5))) (.literal (.int 2))).Symbolic ["x", "y"] :=
    .arith hremainder (.numeral 2) (.inl rfl)
  exact .arith (.numeral 3) (.arith (.neg hpower rfl) hy (.inl rfl)) (.inr rfl)

/-- A remainder of a power fails; a power of a remainder is a rational term, and it can be compared
with an integer. -/
theorem power_and_remainder_sorts :
    let unknowns := valuesOf (.unknown "x") (.unknown "y")
    remainderOfPower.hasPowerInRemainder = true ∧
    (∃ n, remainderOfPower.eval twoNames unknowns =
      .done (.error .integerExpected, unknowns.exchanged n)) ∧
    powerOfRemainder.hasPowerInRemainder = false ∧
    (∃ n, ∃ t : Term .real, powerOfRemainder.eval twoNames unknowns =
      .done (.ok (.number (.term t)), unknowns.exchanged n)) ∧
    ∃ n, ∃ p : Formula, (Expr.compare .eq powerOfRemainder (.name "y")).eval twoNames unknowns =
      .done (.ok (.condition 0 (.term p)), { unknowns.exchanged n with stamp := 1 }) := by
  intro unknowns
  have hunknowns : twoNames.Binds unknowns ["x", "y"] .unknown := binds_valuesOf .unknown
  obtain ⟨-, hfails, -⟩ :=
    Expr.faults_iff_power_in_remainder remainderOfPower_symbolic rfl hunknowns
  obtain ⟨-, -, -, -, hgives, hcompare⟩ :=
    Expr.faults_iff_power_in_remainder powerOfRemainder_symbolic rfl hunknowns
  exact ⟨rfl, hfails rfl, rfl, hgives rfl,
    hcompare (.name "y") (.name (by simp)) rfl rfl rfl .eq⟩

end Sample

end Pathwise
