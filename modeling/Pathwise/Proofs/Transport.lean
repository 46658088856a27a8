import Pathwise.Proofs.Likeness

/-!
# Computations in two modules

Two modules can be seen from code that reads only certain names of them. If these names stand for
values that are alike, each step of the interpreter does the same in both: it asks the same, prints
the same, goes through the same lines and ends with values that are alike.

* `Likeness` — two memories and the names that are read.
* `Eval.Like` — computations that go the same way; the rules follow the interpreter.
-/

namespace Pathwise

/-! ## Two modules -/

/-- Two memories as code sees them that reads only certain names of the module. Which function of
the one stands for which of the other is a matter of `pairs`, and no two are confused. -/
structure Likeness where
  memory : Memory
  memory' : Memory
  names : String → Prop
  pairs : Nat → Nat → Prop
  unique : ∀ {i j i' j' : Nat}, pairs i j → pairs i' j' → (i = i' ↔ j = j')
  globals : ∀ x, names x →
    Option.Rel (Value.Like pairs) (memory.globals.lookup x) (memory'.globals.lookup x)

/-- Names of calls stand for values that are alike. -/
def Scope.Like (pairs : Nat → Nat → Prop) (s s' : Scope) : Prop :=
  ∀ x, Option.Rel (Value.Like pairs) (s.lookup x) (s'.lookup x)

theorem Scope.Like.set {pairs : Nat → Nat → Prop} {s s' : Scope} (h : s.Like pairs s')
    {v v' : Value} (hv : v.Like pairs v') (x : String) : (s.set x v).Like pairs (s'.set x v') := by
  intro y
  by_cases hy : y = x
  · subst hy
    rw [lookup_set_self, lookup_set_self]
    exact .some hv
  · rw [lookup_set_of_ne s v hy, lookup_set_of_ne s' v' hy]
    exact h y

/-- Two states in which code goes the same way. -/
structure State.Like (L : Likeness) (s s' : State) : Prop where
  memory : s.memory = L.memory
  memory' : s'.memory = L.memory'
  locals : s.locals.Like L.pairs s'.locals
  stamp : s.stamp = s'.stamp
  output : s.output = s'.output
  trace : s.trace = s'.trace

namespace Eval

variable {α β γ δ : Type} {L : Likeness} {R : α → β → Prop} {S : γ → δ → Prop}

/-- Two computations that go the same way from states that are alike: they ask the same and end
with related results, or with the same fault, in states that are alike again. -/
def Like (L : Likeness) (R : α → β → Prop) (c : Eval α) (c' : Eval β) : Prop :=
  ∀ s s', s.Like L s' →
    Run.Like (fun out out' => Except.Like R out.1 out'.1 ∧ out.2.Like L out'.2) (c s) (c' s')

namespace Like

variable {c : Eval α} {c' : Eval β}

theorem pure {a : α} {b : β} (h : R a b) : Like L R (Pure.pure a) (Pure.pure b) := fun _ _ hs =>
  .done ⟨.ok h, hs⟩

theorem throw {f f' : Fault} (h : f = f') :
    Like L R (throwThe Fault f) (throwThe Fault f') := fun _ _ hs =>
  h ▸ .done ⟨.error f, hs⟩

theorem bind {f : α → Eval γ} {f' : β → Eval δ} (h : Like L R c c')
    (hf : ∀ a b, R a b → Like L S (f a) (f' b)) : Like L S (c >>= f) (c' >>= f') := by
  intro s s' hs
  rw [bind_apply, bind_apply]
  refine (h s s' hs).bind ?_
  rintro ⟨r, t⟩ ⟨r', t'⟩ ⟨hr, ht⟩
  -- both go on from states that are alike, or both stop with the same fault
  cases hr with
  | ok hab => exact hf _ _ hab t t' ht
  | error e => exact .done ⟨.error e, ht⟩

theorem tryCatch {handler : Fault → Eval α} {handler' : Fault → Eval β} (h : Like L R c c')
    (hhandler : ∀ f, Like L R (handler f) (handler' f)) :
    Like L R (tryCatch c handler) (tryCatch c' handler') := by
  intro s s' hs
  rw [tryCatch_apply, tryCatch_apply]
  refine (h s s' hs).bind ?_
  rintro ⟨r, t⟩ ⟨r', t'⟩ ⟨hr, ht⟩
  cases hr with
  | ok hab => exact .done ⟨.ok hab, ht⟩
  | error e => exact hhandler e t t' ht

theorem ofExcept {x : Except Fault α} {y : Except Fault β} (h : Except.Like R x y) :
    Like L R (Eval.ofExcept x) (Eval.ofExcept y) := by
  cases h with
  | ok h => exact .pure h
  | error e => exact .throw rfl

/-- A result that is the same in both. -/
theorem ofExceptSame (x : Except Fault α) :
    Like L (· = ·) (Eval.ofExcept x) (Eval.ofExcept x) :=
  .ofExcept (.refl fun _ _ => rfl)

theorem cond {a b : Bool} {e : Eval α} {e' : Eval β} (hab : a = b) (hyes : Like L R c c')
    (hno : Like L R e e') : Like L R (if a then c else e) (if b then c' else e') := by
  subst hab
  cases a
  · exact hno
  · exact hyes

/-! ### The steps of the interpreter -/

theorem ask (h : Held) : Like L (· = ·) (Eval.ask h) (Eval.ask h) := fun _ _ hs =>
  .ask h fun _ => .done ⟨.refl fun _ _ => rfl, hs⟩

theorem fresh : Like L (· = ·) Eval.fresh Eval.fresh := fun _ _ hs =>
  .done ⟨.ok hs.stamp, hs.memory, hs.memory', hs.locals, congrArg (· + 1) hs.stamp, hs.output,
    hs.trace⟩

theorem print (text : String) :
    Like L (fun _ _ => True) (Eval.print text) (Eval.print text) := fun _ _ hs =>
  .done ⟨.ok trivial, hs.memory, hs.memory', hs.locals, hs.stamp,
    congrArg (text :: ·) hs.output, hs.trace⟩

theorem note (e : Event) :
    Like L (fun _ _ => True) (Eval.note e) (Eval.note e) := fun _ _ hs =>
  .done ⟨.ok trivial, hs.memory, hs.memory', hs.locals, hs.stamp, hs.output,
    congrArg (e :: ·) hs.trace⟩

theorem setLocal (x : String) {v v' : Value} (hv : v.Like L.pairs v') :
    Like L (fun _ _ => True) (Eval.setLocal x v) (Eval.setLocal x v') := fun _ _ hs =>
  .done ⟨.ok trivial, hs.memory, hs.memory', hs.locals.set hv x, hs.stamp, hs.output, hs.trace⟩

theorem within {locals locals' : Scope} (hlocals : locals.Like L.pairs locals')
    (h : Like L R c c') : Like L R (Eval.within locals c) (Eval.within locals' c') := by
  intro s s' hs
  refine (h { s with locals := locals } { s' with locals := locals' }
    ⟨hs.memory, hs.memory', hlocals, hs.stamp, hs.output, hs.trace⟩).bind ?_
  rintro ⟨r, t⟩ ⟨r', t'⟩ ⟨hr, ht⟩
  -- the names of the caller come back, all else stays as the call left it
  exact .done ⟨hr, ht.memory, ht.memory', hs.locals, ht.stamp, ht.output, ht.trace⟩

/-! ### Values -/

section Values

variable {u u' v v' : Value} {vs vs' : List Value}

/-- Computations whose results are values that are alike. -/
abbrev value (L : Likeness) (c c' : Eval Value) : Prop := Like L (Value.Like L.pairs) c c'

theorem box {r r' : Value.Raw} (h : r.Like L.pairs r') : value L (Eval.box r) (Eval.box r') := by
  cases h with
  | value h => exact .pure h
  | condition h =>
    refine fresh.bind fun stamp stamp' hstamp => ?_
    subst hstamp
    exact .pure (.condition stamp h)

theorem newCondition (h : Held) : value L (Eval.newCondition h) (Eval.newCondition h) :=
  box (.condition h)

theorem binary (title : String) (op : Binary) (hu : u.Like L.pairs u') (hv : v.Like L.pairs v') :
    value L (Eval.binary title op u v) (Eval.binary title op u' v') := by
  have hboxed : value L (Eval.ofExcept (Value.binary title op u v) >>= Eval.box)
      (Eval.ofExcept (Value.binary title op u' v') >>= Eval.box) :=
    (ofExcept (Value.binary_like title op hu hv)).bind fun _ _ => box
  unfold Eval.binary
  -- whether operands are exchanged can be seen from what they are, so it is noted in both
  rw [hu.exchanges op hv]
  cases Value.exchanges op u' v' with
  | true => exact (note .exchange).bind fun _ _ _ => hboxed
  | false => exact hboxed

theorem compare (op : Comparison) (hu : u.Like L.pairs u') (hv : v.Like L.pairs v') :
    value L (Eval.compare op u v) (Eval.compare op u' v') :=
  (ofExcept (Value.compare_like L.unique hu hv op)).bind fun _ _ => box

theorem isEmpty_congr {l : List γ} {l' : List δ} (h : l.length = l'.length) :
    l.isEmpty = l'.isEmpty := by
  rw [Bool.eq_iff_iff, List.isEmpty_iff_length_eq_zero, List.isEmpty_iff_length_eq_zero, h]

theorem truth (hv : v.Like L.pairs v') : Like L (· = ·) v.truth v'.truth := by
  cases hv with
  | held h => exact ofExceptSame _
  | condition stamp h => exact ask h
  | tuple hlength _ =>
    exact pure (congrArg (!·) (isEmpty_congr hlength))
  | table hnames =>
    have hlength := congrArg List.length hnames
    rw [List.length_map, List.length_map] at hlength
    exact pure (congrArg (!·) (isEmpty_congr hlength))
  | _ => exact pure rfl

theorem best (op : Order) (hv : v.Like L.pairs v')
    (hvs : List.Forall₂ (Value.Like L.pairs) vs vs') :
    value L (Builtin.best op v vs) (Builtin.best op v' vs') := by
  induction hvs generalizing v v' with
  | nil => exact pure hv
  | cons hw _ ih =>
    refine (compare (.order op) hw hv).bind fun c c' hc => ?_
    exact (truth hc).bind fun holds holds' hholds => cond hholds (ih hw) (ih hv)

theorem extremum (name : String) (op : Order) (hvs : List.Forall₂ (Value.Like L.pairs) vs vs') :
    value L (Builtin.extremum name op vs) (Builtin.extremum name op vs') := by
  cases hvs with
  | nil => exact .throw rfl
  | cons hv hrest =>
    cases hrest with
    | nil =>
      -- a single argument is looked into
      refine (ofExcept hv.items).bind fun ws ws' hws => ?_
      cases hws with
      | nil => exact .throw rfl
      | cons hw hws => exact best op hw hws
    | cons hw hrest => exact best op hv (.cons hw hrest)

theorem toIntFrom (hu : u.Like L.pairs u') (hv : v.Like L.pairs v') :
    Builtin.toIntFrom u v = Builtin.toIntFrom u' v' := by
  unfold Builtin.toIntFrom
  rw [hv.toIndex]
  cases hu <;> rfl

/-- Built-in functions. -/
theorem builtin (b : Builtin) (hvs : List.Forall₂ (Value.Like L.pairs) vs vs') :
    value L (b.apply vs) (b.apply vs') := by
  have hlength := hvs.length_eq
  cases b with
  | min => exact extremum "min" .lt hvs
  | max => exact extremum "max" .gt hvs
  | abs =>
    rcases hvs with _ | ⟨hv, _ | _⟩
    · exact .throw rfl
    · exact .ofExcept hv.absolute
    · exact .throw (by rw [hlength])
  | bool =>
    rcases hvs with _ | ⟨hv, _ | _⟩
    · exact .pure (.held _)
    · refine (truth hv).bind fun b b' hb => ?_
      subst hb
      exact .pure (.held _)
    · exact .throw (by rw [hlength])
  | int =>
    have hint : ∀ {x y : Except Fault Int}, x = y →
        value L (do return .int (← Eval.ofExcept x)) (do return .int (← Eval.ofExcept y)) := by
      rintro x - rfl
      refine (ofExceptSame x).bind fun n n' hn => ?_
      subst hn
      exact .pure (.held _)
    rcases hvs with _ | ⟨hv, _ | ⟨hw, _ | _⟩⟩
    · exact .pure (.held _)
    · exact hint hv.toInt
    · exact hint (toIntFrom hv hw)
    · exact .throw (by rw [hlength])

/-- What a symbolic value makes of something that is the same in both. -/
theorem made {x : Except Fault Held} {wrap : Held → Eval Value}
    (h : ∀ g, value L (wrap g) (wrap g)) :
    value L (Eval.ofExcept x >>= wrap) (Eval.ofExcept x >>= wrap) := by
  refine (ofExceptSame x).bind fun g g' hg => ?_
  subst hg
  exact h g

theorem method (h : Held) (m : Method) (hv : v.Like L.pairs v') :
    value L (m.apply h v) (m.apply h v') := by
  have hnumber : ∀ g : Held, value L (Pure.pure (.number g)) (Pure.pure (.number g)) := fun g =>
    .pure (.number g)
  unfold Method.apply
  -- what the other operand comes to is a number or a term, in which no function can occur
  rw [hv.partner]
  refine (ofExceptSame _).bind fun g g' hg => ?_
  subst hg
  cases m with
  | arith op => exact made hnumber
  | compare op => exact made newCondition
  | junction op => exact made newCondition
  | neg => exact made hnumber

theorem callOnNumber (h : Held) (name : String)
    (hvs : List.Forall₂ (Value.Like L.pairs) vs vs') :
    value L (Value.callOnNumber h name vs) (Value.callOnNumber h name vs') := by
  have hlength := hvs.length_eq
  unfold Value.callOnNumber
  cases Method.ofName? name with
  | none => exact .throw rfl
  | some m =>
    cases m with
    | neg =>
      rcases hvs with _ | ⟨_, _⟩
      · exact made fun g => .pure (.number g)
      · exact .throw (by rw [hlength])
    | _ =>
      rcases hvs with _ | ⟨hv, _ | _⟩
      · exact .throw rfl
      · exact method h _ hv
      · exact .throw (by rw [hlength])

/-- With arguments no method of a condition succeeds, and their number is all that matters. -/
theorem callOnCondition_cons (h : Held) (name : String) :
    ∃ fault : Nat → Fault, ∀ v vs,
      Value.callOnCondition h name (v :: vs) = throwThe Fault (fault vs.length) := by
  by_cases hbool : name = "__bool__"
  · subst hbool
    exact ⟨fun n => Value.methodCount "BoolProxy" "__bool__" "" 0 (n + 1), fun _ _ => rfl⟩
  by_cases hnot : name = "__not__"
  · subst hnot
    exact ⟨fun n => Value.methodCount "BoolProxy" "__not__" "" 0 (n + 1), fun _ _ => rfl⟩
  · refine ⟨fun _ => if name = "formula" then .notCallable h.typeName
      else .missingAttribute (Value.condition 0 h).typeName name, fun v vs => ?_⟩
    unfold Value.callOnCondition
    split
    · exact absurd rfl hbool
    · exact absurd rfl hnot
    · exact absurd rfl hbool
    · exact absurd rfl hnot
    · rfl

theorem callOnCondition (h : Held) (name : String)
    (hvs : List.Forall₂ (Value.Like L.pairs) vs vs') :
    value L (Value.callOnCondition h name vs) (Value.callOnCondition h name vs') := by
  cases hvs with
  | nil =>
    unfold Value.callOnCondition
    split
    · refine (ask h).bind fun b b' hb => ?_
      subst hb
      exact .pure (.held _)
    · cases h.toFormula with
      | ok p => exact fun s s' hs => .done ⟨.error _, hs⟩
      | error e => exact fun s s' hs => .done ⟨.error _, hs⟩
    all_goals exact .throw rfl
  | cons _ hrest =>
    obtain ⟨fault, hfault⟩ := callOnCondition_cons h name
    rw [hfault, hfault]
    exact .throw (congrArg fault hrest.length_eq)

theorem callMethod (hv : v.Like L.pairs v') (name : String)
    (hvs : List.Forall₂ (Value.Like L.pairs) vs vs') :
    value L (v.callMethod name vs) (v'.callMethod name vs') := by
  cases hv with
  | number h => exact callOnNumber h name hvs
  | condition stamp h => exact callOnCondition h name hvs
  | _ => exact .throw rfl

end Values

end Like

end Eval

end Pathwise
