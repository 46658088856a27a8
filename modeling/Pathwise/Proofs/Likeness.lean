import Pathwise.Proofs.Agreement

/-!
# Values that are alike in two modules

The same code can run in two modules, in which its functions may have different places in the table.
No operator shows the difference: of a function it sees only the type, and whether two of them are
the same.

* `Run.Like` — runs that ask the same and end alike, whatever they are answered.
* `Value.Like` — values that differ only in the places of functions.
* `Value.binary_like`, `Value.compare_like`, `Value.unary_like` — operators make values that are
  alike out of values that are alike, or the same fault.
-/

namespace Pathwise

/-! ## Results and runs -/

/-- Two results that are related, or the same fault. -/
inductive Except.Like {ε α β : Type} (R : α → β → Prop) : Except ε α → Except ε β → Prop where
  | ok {a : α} {b : β} (h : R a b) : Like R (.ok a) (.ok b)
  | error (e : ε) : Like R (.error e) (.error e)

namespace Except.Like

variable {ε α β γ δ : Type} {R : α → β → Prop} {S : γ → δ → Prop}

/-- A result is like itself if it is related to itself. -/
theorem refl {R : α → α → Prop} {x : Except ε α} (h : ∀ a, x = .ok a → R a a) : Like R x x := by
  cases x with
  | ok a => exact .ok (h a rfl)
  | error e => exact .error e

theorem map {x : Except ε α} {y : Except ε β} (h : Like R x y) {f : α → γ} {g : β → δ}
    (hfg : ∀ a b, R a b → S (f a) (g b)) : Like S (x.map f) (y.map g) := by
  cases h with
  | ok h => exact .ok (hfg _ _ h)
  | error e => exact .error e

/-- Results that are alike end in the same way. -/
theorem ending {x : Except ε α} {y : Except ε β} (h : Like R x y) :
    x.map (fun _ => ()) = y.map fun _ => () := by
  cases h <;> rfl

end Except.Like

namespace Run

/-- Two runs that ask the same and, if they are answered alike, end with related results. -/
inductive Like {α β : Type} (R : α → β → Prop) : Run α → Run β → Prop where
  | done {a : α} {b : β} (h : R a b) : Like R (.done a) (.done b)
  | ask (φ : Held) {k : Except Fault Bool → Run α} {k' : Except Fault Bool → Run β}
    (h : ∀ answer, Like R (k answer) (k' answer)) : Like R (.ask φ k) (.ask φ k')

variable {α β γ δ : Type} {R : α → β → Prop} {S : γ → δ → Prop} {r : Run α} {r' : Run β}

theorem Like.bind (h : Like R r r') {f : α → Run γ} {g : β → Run δ}
    (hfg : ∀ a b, R a b → Like S (f a) (g b)) : Like S (r.bind f) (r'.bind g) := by
  induction h with
  | done h => exact hfg _ _ h
  | ask φ _ ih => exact .ask φ ih

/-- Runs that are alike leave the same trail. -/
theorem Like.play (h : Like R r r') (solver : Solver) (t : Trail) :
    R (r.play solver t).1 (r'.play solver t).1 ∧ (r.play solver t).2 = (r'.play solver t).2 := by
  induction h generalizing t with
  | done h => exact ⟨h, rfl⟩
  | ask φ _ ih => exact ih _ _

theorem Like.unanswered (h : Like R r r') : R r.unanswered r'.unanswered := by
  induction h with
  | done h => exact h
  | ask φ _ ih => exact ih _

end Run

/-! ## Values -/

namespace Value

/-- Values that differ only in the places of functions. Of a table only the names can be seen. -/
inductive Like (pairs : Nat → Nat → Prop) : Value → Value → Prop where
  | held (h : Held) : Like pairs (.held h) (.held h)
  | number (h : Held) : Like pairs (.number h) (.number h)
  | condition (stamp : Nat) (h : Held) : Like pairs (.condition stamp h) (.condition stamp h)
  | tuple {vs ws : List Value} (hlength : vs.length = ws.length)
    (hitems : ∀ e ∈ vs.zip ws, Like pairs e.1 e.2) : Like pairs (.tuple vs) (.tuple ws)
  | table {es fs : List (String × Value)} (hnames : es.map Prod.fst = fs.map Prod.fst) :
    Like pairs (.table es) (.table fs)
  | function {i j : Nat} (h : pairs i j) : Like pairs (.function i) (.function j)
  | builtin (b : Builtin) : Like pairs (.builtin b) (.builtin b)
  | class (name : String) : Like pairs (.class name) (.class name)
  | object (stamp : Nat) (className : String) :
    Like pairs (.object stamp className) (.object stamp className)

variable {pairs : Nat → Nat → Prop} {u u' v v' : Value} {vs ws : List Value}

theorem Like.mono {pairs' : Nat → Nat → Prop} (hsub : ∀ i j, pairs i j → pairs' i j)
    (h : v.Like pairs v') : v.Like pairs' v' := by
  induction h with
  | held h => exact .held h
  | number h => exact .number h
  | condition stamp h => exact .condition stamp h
  | tuple hlength _ ih => exact .tuple hlength ih
  | table hnames => exact .table hnames
  | function h => exact .function (hsub _ _ h)
  | builtin b => exact .builtin b
  | «class» c => exact .class c
  | object stamp c => exact .object stamp c

/-- More functions may stand for each other. -/
theorem rel_mono {pairs' : Nat → Nat → Prop} (hsub : ∀ i j, pairs i j → pairs' i j)
    {a b : Option Value} (h : Option.Rel (Like pairs) a b) : Option.Rel (Like pairs') a b := by
  cases h with
  | none => exact .none
  | some h => exact .some (h.mono hsub)

theorem like_tuple (h : List.Forall₂ (Like pairs) vs ws) : Like pairs (.tuple vs) (.tuple ws) := by
  obtain ⟨hlength, hitems⟩ := List.forall₂_iff_zip.mp h
  exact .tuple hlength fun e he => hitems he

theorem Like.tupleItems (h : Like pairs (.tuple vs) (.tuple ws)) :
    List.Forall₂ (Like pairs) vs ws := by
  cases h with
  | tuple hlength hitems => exact List.forall₂_iff_zip.mpr ⟨hlength, fun he => hitems _ he⟩

/-! ### What can be seen of one value -/

theorem Like.eq_number (h : v.Like pairs v') {g : Held} : v = .number g ↔ v' = .number g := by
  cases h <;> simp

theorem Like.typeName (h : v.Like pairs v') : v.typeName = v'.typeName := by
  cases h <;> rfl

theorem Like.partner (h : v.Like pairs v') : v.partner = v'.partner := by
  cases h <;> rfl

theorem Like.toIndex (h : v.Like pairs v') : v.toIndex = v'.toIndex := by
  cases h <;> rfl

theorem Like.toInt (h : v.Like pairs v') : Builtin.toInt v = Builtin.toInt v' := by
  cases h <;> rfl

theorem Like.absolute (h : v.Like pairs v') :
    Except.Like (Like pairs) (Builtin.absolute v) (Builtin.absolute v') := by
  cases h with
  | held h =>
    cases h with
    | plain p =>
      simp only [Builtin.absolute]
      rcases p.number? with _ | _ | _
      · exact .error _
      · exact .ok (.held _)
      · exact .ok (.held _)
    | term t => exact .error _
  | _ => exact .error _

theorem Like.formulaOf (h : v.Like pairs v') : v.formulaOf = v'.formulaOf := by
  cases h <;> rfl

theorem Like.holdable (h : v.Like pairs v') : v.holdable = v'.holdable := by
  cases h <;> rfl

theorem Like.raising (h : v.Like pairs v') (text : Option String) :
    v.raising text = v'.raising text := by
  cases h <;> rfl

theorem Like.termOf (h : v.Like pairs v') :
    Except.Like (Like pairs) v.termOf v'.termOf := by
  cases h with
  | number h => exact .ok (.held h)
  | _ => exact .error _

theorem Like.items (h : v.Like pairs v') :
    Except.Like (List.Forall₂ (Like pairs)) v.items v'.items := by
  have hplain : ∀ {α : Type} (l : List α) (f : α → String), List.Forall₂ (Like pairs)
      (l.map fun a => .str (f a)) (l.map fun a => .str (f a)) := by
    intro α l f
    exact List.forall₂_same.mpr fun w hw => by
      obtain ⟨a, -, rfl⟩ := List.mem_map.mp hw
      exact .held _
  cases h with
  | tuple hlength hitems => exact .ok (Like.tuple hlength hitems).tupleItems
  | @table es fs hnames =>
    -- a table is gone through by its names
    have hes : es.map (fun e => Value.str e.1) = (es.map Prod.fst).map .str := by
      rw [List.map_map]
      rfl
    have hfs : fs.map (fun e => Value.str e.1) = (es.map Prod.fst).map .str := by
      rw [hnames, List.map_map]
      rfl
    show Except.Like _ (.ok (es.map fun e => Value.str e.1)) (.ok (fs.map fun e => Value.str e.1))
    rw [hes, hfs]
    exact .ok (hplain _ id)
  | held h =>
    rcases h with (_ | _ | _ | _ | s) | _
    case plain.str => exact .ok (hplain s.toList String.singleton)
    all_goals exact .error _
  | _ => exact .error _

/-! ### Operators -/

/-- What operators yield on values that are alike. -/
inductive Raw.Like (pairs : Nat → Nat → Prop) : Raw → Raw → Prop where
  | value {v v' : Value} (h : v.Like pairs v') : Raw.Like pairs (.value v) (.value v')
  | condition (h : Held) : Raw.Like pairs (.condition h) (.condition h)

theorem Like.exchanges (op : Binary) (hu : u.Like pairs u') (hv : v.Like pairs v') :
    exchanges op u v = exchanges op u' v' := by
  cases op with
  | arith o => cases hu <;> cases hv <;> rfl
  | _ => rfl

theorem forall₂_flatten_replicate {R : Value → Value → Prop} (h : List.Forall₂ R vs ws) (n : Nat) :
    List.Forall₂ R (List.replicate n vs).flatten (List.replicate n ws).flatten := by
  induction n with
  | zero => exact .nil
  | succ n ih =>
    rw [List.replicate_succ, List.replicate_succ, List.flatten_cons, List.flatten_cons]
    exact List.rel_append h ih

theorem repeated_like (h : List.Forall₂ (Like pairs) vs ws) (hv : v.Like pairs v') :
    Except.Like (Like pairs) (onSequences.repeated vs v) (onSequences.repeated ws v') := by
  cases hv with
  | held g =>
    cases g with
    | plain p =>
      simp only [onSequences.repeated]
      cases p.int? with
      | none => exact .error _
      | some n => exact .ok (like_tuple (forall₂_flatten_replicate h _))
    | term t => exact .error _
  | _ => exact .error _

section Sequences

variable {title : String} (hu : u.Like pairs u') (hv : v.Like pairs v')

include hu hv

theorem unsupported_like {R : Value → Value → Prop} :
    Except.Like R (.error (Fault.unsupportedOperands title u.typeName v.typeName))
      (.error (.unsupportedOperands title u'.typeName v'.typeName)) := by
  rw [hu.typeName, hv.typeName]
  exact .error _

theorem sum_like :
    Except.Like (Like pairs) (onSequences title (.arith .add) u v)
      (onSequences title (.arith .add) u' v') := by
  have hsum := hu
  cases hu with
  | tuple _ _ =>
    have hother := hv
    cases hv with
    | tuple _ _ => exact .ok (like_tuple (List.rel_append hsum.tupleItems hother.tupleItems))
    | _ => exact .error _
  | held h =>
    rcases h with (_ | _ | _ | _ | _) | _
    case plain.str =>
      show Except.Like _ (.error (Fault.cannotConcatenate "str" v.typeName))
        (.error (.cannotConcatenate "str" v'.typeName))
      rw [hv.typeName]
      exact .error _
    all_goals exact unsupported_like hsum hv
  | _ => exact unsupported_like hsum hv

theorem product_like :
    Except.Like (Like pairs) (onSequences title (.arith .mul) u v)
      (onSequences title (.arith .mul) u' v') := by
  have hleft := hu
  have hright := hv
  cases hu with
  | tuple _ _ => exact repeated_like hleft.tupleItems hv
  | held h =>
    -- a text on the left has a message of its own
    rcases h with (_ | _ | _ | _ | _) | _
    all_goals
      cases hv with
      | tuple _ _ => exact repeated_like hright.tupleItems hleft
      | held g => rcases g with (_ | _ | _ | _ | _) | _ <;> exact .error _
      | _ => exact .error _
  | _ =>
    cases hv with
    | tuple _ _ => exact repeated_like hright.tupleItems hleft
    | held g => rcases g with (_ | _ | _ | _ | _) | _ <;> exact .error _
    | _ => exact .error _

theorem remainder_like :
    Except.Like (Like pairs) (onSequences title (.arith .mod) u v)
      (onSequences title (.arith .mod) u' v') := by
  have hleft := hu
  cases hu with
  | held h =>
    rcases h with (_ | _ | _ | _ | _) | _
    case plain.str => exact .error _
    all_goals exact unsupported_like hleft hv
  | _ => exact unsupported_like hleft hv

theorem onSequences_like (op : Binary) :
    Except.Like (Like pairs) (onSequences title op u v) (onSequences title op u' v') := by
  rcases op with ((_ | _ | _) | _ | _) | _ | _ | _ | _ | _ | _
  · exact sum_like hu hv
  · exact unsupported_like hu hv
  · exact product_like hu hv
  · exact remainder_like hu hv
  all_goals exact unsupported_like hu hv

theorem binaryUnwrapped_like (op : Binary) :
    Except.Like (Like pairs) (binaryUnwrapped title op u v) (binaryUnwrapped title op u' v') := by
  have hleft := hu
  have hright := hv
  cases hu with
  | held h =>
    cases hv with
    | held g =>
      -- held values are the same on both sides, and so is what comes of them
      refine .refl fun w hw => ?_
      cases h <;> cases g
      case plain.plain =>
        obtain ⟨r, -, rfl⟩ := Except.exists_of_map hw
        exact .held _
      all_goals
        cases op with
        | arith o =>
          obtain ⟨r, -, rfl⟩ := Except.exists_of_map hw
          exact .held _
        | _ => cases hw
    | _ => cases h <;> exact onSequences_like hleft hright op
  | _ => exact onSequences_like hleft hright op

end Sequences

/-- What a symbolic number makes of its partner. -/
theorem answered_like {R : Raw → Raw → Prop} (hv : v.Like pairs v') {f : Held → Except Fault Held}
    {wrap : Held → Raw} (hR : ∀ r, R (wrap r) (wrap r)) :
    Except.Like R (v.partner >>= fun g => (f g).map wrap)
      (v'.partner >>= fun g => (f g).map wrap) := by
  rw [hv.partner]
  refine .refl fun r hr => ?_
  obtain ⟨g, -, hr⟩ := Except.exists_of_bind hr
  obtain ⟨t, -, rfl⟩ := Except.exists_of_map hr
  exact hR t

/-- Without a symbolic number nothing is wrapped. -/
theorem binary_of_not_number (title : String) (op : Binary) (hu : ∀ h, u ≠ .number h)
    (hv : ∀ h, v ≠ .number h) :
    binary title op u v = (binaryUnwrapped title op u v).map .value := by
  unfold binary
  split
  all_goals first
    | rfl
    | exact absurd rfl (hu _)
    | exact absurd rfl (hv _)

theorem binary_number_right_like (title : String) (op : Binary) (hu : u.Like pairs u')
    (hnot : ∀ h, u ≠ .number h) (h : Held) :
    Except.Like (Raw.Like pairs) (binary title op u (.number h))
      (binary title op u' (.number h)) := by
  have hnumber : ∀ h : Held, Raw.Like pairs (.value (.number h)) (.value (.number h)) := fun h =>
    .value (.number h)
  have hleft := hu
  cases op with
  | arith o =>
    cases hu with
    | number g => exact absurd rfl (hnot g)
    | held g =>
      -- a text on the left takes "%" for its own operator
      rcases o with _ | _ | _ <;> rcases g with (_ | _ | _ | _ | _) | _
      case mod.plain.str => exact .error _
      all_goals exact answered_like hleft hnumber
    | _ => rcases o with _ | _ | _ <;> exact answered_like hleft hnumber
  | _ =>
    cases hu with
    | number g => exact absurd rfl (hnot g)
    | _ => exact .error _

theorem binary_like (title : String) (op : Binary) (hu : u.Like pairs u') (hv : v.Like pairs v') :
    Except.Like (Raw.Like pairs) (binary title op u v) (binary title op u' v') := by
  by_cases hleft : ∃ h, u = .number h
  · obtain ⟨h, rfl⟩ := hleft
    obtain rfl := hu.eq_number.mp rfl
    cases op with
    | arith o => exact answered_like hv fun r => .value (.number r)
    | junction o => exact answered_like hv .condition
    | _ =>
      show Except.Like _ (.error (Fault.unsupportedOperands title _ v.typeName))
        (.error (.unsupportedOperands title _ v'.typeName))
      rw [hv.typeName]
      exact .error _
  have hnot : ∀ h, u ≠ .number h := not_exists.mp hleft
  by_cases hright : ∃ h, v = .number h
  · obtain ⟨h, rfl⟩ := hright
    obtain rfl := hv.eq_number.mp rfl
    exact binary_number_right_like title op hu hnot h
  have hnot' : ∀ h, v ≠ .number h := not_exists.mp hright
  rw [binary_of_not_number title op hnot hnot', binary_of_not_number title op
    (fun h hu' => hnot h (hu.eq_number.mpr hu')) fun h hv' => hnot' h (hv.eq_number.mpr hv')]
  exact (binaryUnwrapped_like hu hv op).map fun _ _ hw => .value hw

theorem unary_like (op : Unary) (hu : u.Like pairs u') :
    Except.Like (Like pairs) (unary op u) (unary op u') := by
  have hmap : ∀ {α : Type} {x : Except Fault α} {f : α → Value}, (∀ a, Like pairs (f a) (f a)) →
      Except.Like (Like pairs) (x.map f) (x.map f) := by
    intro α x f hf
    refine .refl fun w hw => ?_
    obtain ⟨a, -, rfl⟩ := Except.exists_of_map hw
    exact hf a
  cases hu with
  | held h =>
    cases h with
    | plain p => cases op <;> exact hmap fun r => .held _
    | term t =>
      cases op with
      | neg => exact hmap fun r => .held _
      | _ => exact .error _
  | number h =>
    cases op with
    | neg => exact hmap fun r => .number _
    | _ => exact .error _
  | _ => cases op <;> exact .error _

/-! ### Comparisons -/

theorem equalAll_congr {us us' : List Value}
    (hequal : ∀ e ∈ us.zip us', ∀ w w', Like pairs w w' → equal e.1 w = equal e.2 w')
    (hlength : us.length = us'.length) (hvs : List.Forall₂ (Like pairs) vs ws) :
    equalAll us vs = equalAll us' ws := by
  induction hvs generalizing us us' with
  | nil =>
    cases us with
    | nil => rw [List.length_eq_zero_iff.mp hlength.symm]
    | cons u us =>
      obtain ⟨u', us', rfl⟩ := List.exists_of_length_succ us' hlength.symm
      rfl
  | cons hw _ ih =>
    cases us with
    | nil =>
      rw [List.length_eq_zero_iff.mp hlength.symm]
      rfl
    | cons u us =>
      obtain ⟨u', us', rfl⟩ := List.exists_of_length_succ us' hlength.symm
      have hfirst : equal u _ = equal u' _ := hequal (u, u') List.mem_cons_self _ _ hw
      have hrest := ih (fun e he => hequal e (List.mem_cons_of_mem _ he)) (Nat.succ.inj hlength)
      rw [equalAll, equalAll, hfirst, hrest]

section Identity

variable (unique : ∀ {i j i' j' : Nat}, pairs i j → pairs i' j' → (i = i' ↔ j = j'))
  (hu : u.Like pairs u') (hv : v.Like pairs v')

include unique hu hv

/-- Whether two values are equal can be seen, for functions as long as no two are confused. -/
theorem equal_congr : equal u v = equal u' v' := by
  induction hu generalizing v v' with
  | held h =>
    cases hv with
    | held g => rfl
    | _ => cases h <;> rfl
  | tuple hlength _ ih =>
    have hright := hv
    cases hv with
    | tuple _ _ => exact equalAll_congr (fun e he _ _ hw => ih e he hw) hlength hright.tupleItems
    | _ => rfl
  | function h =>
    cases hv with
    | function h' =>
      show (_ == _) = (_ == _)
      rw [Bool.eq_iff_iff, beq_iff_eq, beq_iff_eq]
      exact unique h h'
    | _ => rfl
  | _ => cases hv <;> rfl

theorem compareUnwrapped_like (op : Comparison) :
    Except.Like (Raw.Like pairs) (compareUnwrapped op u v) (compareUnwrapped op u' v') := by
  have hequal := equal_congr unique hu hv
  have hmap : ∀ {α : Type} {x : Except Fault α} {f : α → Held}, Except.Like (Raw.Like pairs)
      (x.map fun r => .value (.held (f r))) (x.map fun r => .value (.held (f r))) := by
    intro α x f
    refine .refl fun w hw => ?_
    obtain ⟨a, -, rfl⟩ := Except.exists_of_map hw
    exact .value (.held _)
  -- whatever else the values are, they are compared as equal or not, or have no order
  have heq : Except.Like (Raw.Like pairs) (.ok (.value (.bool (equal u v))) : Except Fault Raw)
      (.ok (.value (.bool (equal u' v')))) := by
    rw [hequal]
    exact .ok (.value (.held _))
  have hne : Except.Like (Raw.Like pairs) (.ok (.value (.bool (!equal u v))) : Except Fault Raw)
      (.ok (.value (.bool (!equal u' v')))) := by
    rw [hequal]
    exact .ok (.value (.held _))
  have horder : ∀ o : Order, Except.Like (Raw.Like pairs)
      (.error (Fault.unordered o.sign u.typeName v.typeName))
      (.error (Fault.unordered o.sign u'.typeName v'.typeName)) := by
    intro o
    rw [hu.typeName, hv.typeName]
    exact .error _
  cases hu with
  | held h =>
    cases hv with
    | held g => cases h <;> cases g <;> exact hmap
    | _ => cases h <;> (cases op; exacts [horder _, heq, hne])
  | _ => cases hv <;> (cases op; exacts [horder _, heq, hne])

theorem compare_like (op : Comparison) :
    Except.Like (Raw.Like pairs) (compare op u v) (compare op u' v') := by
  have hleft := hu
  have hunwrapped := compareUnwrapped_like unique hu hv op
  cases hu with
  | number h => exact answered_like hv .condition
  | _ =>
    cases hv with
    | number h => exact answered_like hleft .condition
    | _ => exact hunwrapped

end Identity

end Value

end Pathwise
