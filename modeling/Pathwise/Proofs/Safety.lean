import Pathwise.Analysis
import Pathwise.Proofs.Definite
import Pathwise.Proofs.Walk

/-!
# Safe code

Code of a call writes only what the call owns, notes and prints more and more, and tests only
conditions built by its operators. All three are shown by one induction over the syntax. What is
asked of the values in a run and of the things it may call is a parameter, a `Demand`, so that
the induction serves programs of which little is known and programs of which much is.

* `Eval.Safe` — a computation keeps to a demand, whatever is answered to its tests.
* `Expr.Fits`, `Block.Fits` — what a demand asks of code.
* `Expr.safe`, `Stmt.safe`, `invoke_safe` — one case for each form of the language.
-/

namespace Pathwise

/-- What is asked of a run. -/
structure Demand where
  /-- The memory, which stays as it is. -/
  memory : Memory
  /-- The names over which all terms are integral, if that is asked. -/
  names : Option (List String)
  /-- What may be called. -/
  callable : Value → Prop

namespace Demand

variable (d : Demand)

def value (v : Value) : Prop := ∀ xs ∈ d.names, v.Over xs

def held (h : Held) : Prop := ∀ xs ∈ d.names, h.Over xs

def scope (s : Scope) : Prop := ∀ e ∈ s, d.value e.2

/-- A state that meets the demand. -/
structure Kept (s : State) : Prop where
  memory : s.memory = d.memory
  locals : d.scope s.locals

/-- A name that has a value which meets the demand, in a call that owns the given names. -/
def reads (owned : List String) (x : String) : Prop :=
  x ∈ owned ∨ ∀ v, d.memory.globals.lookup x = some v → d.value v

/-- A name that stands for something which may be called. -/
def calls (owned : List String) (x : String) : Prop :=
  (d.reads owned x ∧ ∀ v, d.callable v) ∨
    x ∉ owned ∧ ∃ v, d.memory.globals.lookup x = some v ∧ d.value v ∧ d.callable v

variable {d}

theorem value_plain (v : Plain) : d.value (.held (.plain v)) := fun _ _ => Value.over_plain v

theorem scope_nil : d.scope [] := fun _ h => nomatch h

theorem scope_append {s t : Scope} (hs : d.scope s) (ht : d.scope t) : d.scope (s ++ t) := by
  intro e he
  rcases List.mem_append.mp he with he | he
  · exact hs e he
  · exact ht e he

theorem scope_lookup {s : Scope} (h : d.scope s) {x : String} {v : Value}
    (hx : s.lookup x = some v) : d.value v := by
  obtain ⟨l, r, rfl, -⟩ := List.lookup_eq_some_iff.mp hx
  exact h (x, v) (by simp)

theorem scope_set {s : Scope} (h : d.scope s) {v : Value} (hv : d.value v) (x : String) :
    d.scope (s.set x v) := by
  induction s with
  | nil =>
    intro e he
    obtain rfl := List.mem_singleton.mp he
    exact hv
  | cons p rest ih =>
    obtain ⟨y, w⟩ := p
    have hrest : d.scope rest := fun e he => h e (List.mem_cons_of_mem _ he)
    intro e he
    rw [Scope.set] at he
    split at he
    · rcases List.mem_cons.mp he with rfl | he
      · exact hv
      · exact hrest e he
    · rcases List.mem_cons.mp he with rfl | he
      · exact h (y, w) List.mem_cons_self
      · exact ih hrest e he

end Demand

/-- What was noted and printed in a state is noted and printed in a later one. -/
structure State.Leads (s t : State) : Prop where
  trace : s.trace <:+ t.trace
  output : s.output <:+ t.output

theorem State.Leads.refl (s : State) : s.Leads s := ⟨List.suffix_rfl, List.suffix_rfl⟩

theorem State.Leads.trans {s t u : State} (h : s.Leads t) (h' : t.Leads u) : s.Leads u :=
  ⟨h.trace.trans h'.trace, h.output.trans h'.output⟩

theorem Run.Ensures.unanswered {α : Type} {asked : Held → Prop} {result : α → Prop} {r : Run α}
    (h : r.Ensures asked result) : result r.unanswered := by
  induction r with
  | done a => exact h
  | ask φ k ih => exact ih _ (h.2 _)

/-! ## Computations that keep to a demand -/

namespace Eval

variable {α β : Type}

theorem bind_apply (c : Eval α) (f : α → Eval β) (s : State) :
    (c >>= f) s = (c s).bind fun out =>
      match out.1 with
      | .ok a => f a out.2
      | .error e => .done (.error e, out.2) := by
  show Run.bind _ _ = _
  congr 1
  funext out
  obtain ⟨r, s⟩ := out
  cases r <;> rfl

theorem tryCatch_apply (c : Eval α) (handler : Fault → Eval α) (s : State) :
    (tryCatch c handler) s = (c s).bind fun out =>
      match out.1 with
      | .ok a => .done (.ok a, out.2)
      | .error e => handler e out.2 := by
  show Run.bind _ _ = _
  congr 1
  funext out
  obtain ⟨r, s⟩ := out
  cases r <;> rfl

/-- Whatever is answered, the computation tests only what meets the demand, goes from states that
meet it to later ones that do, and gives only results that are `good`. -/
def Safe (d : Demand) (good : α → Prop) (c : Eval α) : Prop :=
  ∀ s, d.Kept s → (c s).Ensures d.held fun out =>
    d.Kept out.2 ∧ s.Leads out.2 ∧ ∀ a, out.1 = .ok a → good a

namespace Safe

variable {d : Demand} {good good' : α → Prop} {c : Eval α}

theorem mono (h : Safe d good c) (hgood : ∀ a, good a → good' a) : Safe d good' c := by
  intro s hs
  refine (h s hs).mono (fun _ hφ => hφ) ?_
  rintro out ⟨hkept, hleads, hout⟩
  exact ⟨hkept, hleads, fun a ha => hgood a (hout a ha)⟩

theorem pure {a : α} (h : good a) : Safe d good (Pure.pure a) := by
  intro s hs
  exact ⟨hs, .refl s, fun b hb => by rwa [← Except.ok.inj hb]⟩

theorem throw (f : Fault) : Safe d good (throwThe Fault f : Eval α) := by
  intro s hs
  exact ⟨hs, .refl s, fun b hb => by cases hb⟩

theorem ofExcept {x : Except Fault α} (h : ∀ a, x = .ok a → good a) :
    Safe d good (Eval.ofExcept x) := by
  cases x with
  | error f => exact throw f
  | ok a => exact pure (h a rfl)

theorem bind {good' : β → Prop} {f : α → Eval β} (h : Safe d good c)
    (hf : ∀ a, good a → Safe d good' (f a)) : Safe d good' (c >>= f) := by
  intro s hs
  rw [bind_apply]
  refine (h s hs).bind ?_
  rintro ⟨r, t⟩ ⟨hkept, hleads, hout⟩
  cases r with
  | error e => exact ⟨hkept, hleads, fun a ha => by cases ha⟩
  | ok a =>
    refine (hf a (hout a rfl) t hkept).mono (fun _ hφ => hφ) ?_
    rintro out ⟨hkept', hleads', hout'⟩
    exact ⟨hkept', hleads.trans hleads', hout'⟩

theorem tryCatch {handler : Fault → Eval α} (h : Safe d good c)
    (hhandler : ∀ f, Safe d good (handler f)) : Safe d good (tryCatchThe Fault c handler) := by
  intro s hs
  rw [show tryCatchThe Fault c handler s = (MonadExcept.tryCatch c handler) s from rfl,
    tryCatch_apply]
  refine (h s hs).bind ?_
  rintro ⟨r, t⟩ ⟨hkept, hleads, hout⟩
  cases r with
  | ok a => exact ⟨hkept, hleads, hout⟩
  | error e =>
    refine (hhandler e t hkept).mono (fun _ hφ => hφ) ?_
    rintro out ⟨hkept', hleads', hout'⟩
    exact ⟨hkept', hleads.trans hleads', hout'⟩

theorem ask {h : Held} (hh : d.held h) : Safe d (fun _ => True) (Eval.ask h) := by
  intro s hs
  exact ⟨hh, fun answer => ⟨hs, .refl s, fun _ _ => trivial⟩⟩

theorem fresh : Safe d (fun _ => True) Eval.fresh := by
  intro s hs
  exact ⟨⟨hs.memory, hs.locals⟩, ⟨List.suffix_rfl, List.suffix_rfl⟩, fun _ _ => trivial⟩

theorem print (text : String) : Safe d (fun _ => True) (Eval.print text) := by
  intro s hs
  exact ⟨⟨hs.memory, hs.locals⟩, ⟨List.suffix_rfl, List.suffix_cons ..⟩, fun _ _ => trivial⟩

theorem note (e : Event) : Safe d (fun _ => True) (Eval.note e) := by
  intro s hs
  exact ⟨⟨hs.memory, hs.locals⟩, ⟨List.suffix_cons .., List.suffix_rfl⟩, fun _ _ => trivial⟩

theorem setLocal (x : String) {v : Value} (hv : d.value v) :
    Safe d (fun _ => True) (Eval.setLocal x v) := by
  intro s hs
  exact ⟨⟨hs.memory, Demand.scope_set hs.locals hv x⟩, ⟨List.suffix_rfl, List.suffix_rfl⟩,
    fun _ _ => trivial⟩

theorem within {locals : Scope} (hlocals : d.scope locals) (h : Safe d good c) :
    Safe d good (Eval.within locals c) := by
  intro s hs
  -- the names of the caller come back afterwards, and they meet the demand already
  refine (h { s with locals := locals } ⟨hs.memory, hlocals⟩).bind ?_
  rintro ⟨r, t⟩ ⟨hkept, hleads, hout⟩
  exact ⟨⟨hkept.memory, hs.locals⟩, ⟨hleads.trace, hleads.output⟩, hout⟩

theorem box {r : Value.Raw} (h : ∀ xs ∈ d.names, r.Over xs) : Safe d d.value (Eval.box r) := by
  cases r with
  | value v => exact pure h
  | condition held => exact fresh.bind fun n _ => pure fun xs hxs => .condition (h xs hxs)

/-- Give a result of an operator an identity. -/
theorem boxed {x : Except Fault Value.Raw} (h : ∀ xs ∈ d.names, ∀ r, x = .ok r → r.Over xs) :
    Safe d d.value (Eval.ofExcept x >>= Eval.box) := by
  have hx : Safe d (fun r => ∀ xs ∈ d.names, r.Over xs) (Eval.ofExcept x) :=
    ofExcept fun r hr xs hxs => h xs hxs r hr
  exact hx.bind fun _ hr => box hr

theorem compare {op : Comparison} {u v : Value} (hu : d.value u) (hv : d.value v) :
    Safe d d.value (Eval.compare op u v) :=
  boxed fun xs hxs _ hr => Value.compare_over (hu xs hxs) (hv xs hxs) hr

theorem binary {title : String} {op : Binary} {u v : Value}
    (h : ∀ xs ∈ d.names, ∀ r, Value.binary title op u v = .ok r → r.Over xs) :
    Safe d d.value (Eval.binary title op u v) := by
  unfold Eval.binary
  split
  · exact (note .exchange).bind fun _ _ => boxed h
  · exact boxed h

theorem truth {v : Value} (hv : d.value v) : Safe d (fun _ => True) v.truth := by
  cases v with
  | held h => exact ofExcept fun _ _ => trivial
  | condition n h =>
    refine ask fun xs hxs => ?_
    cases hv xs hxs with
    | condition hh => exact hh
  | _ => exact pure trivial

end Safe

end Eval

/-! ## Built-in functions -/

namespace Builtin

variable {d : Demand}

theorem best_safe (op : Order) {b : Value} {vs : List Value} (hb : d.value b)
    (hvs : ∀ v ∈ vs, d.value v) : Eval.Safe d d.value (best op b vs) := by
  induction vs generalizing b with
  | nil => exact .pure hb
  | cons v rest ih =>
    have hv := hvs v List.mem_cons_self
    have hrest : ∀ v ∈ rest, d.value v := fun v h => hvs v (List.mem_cons_of_mem _ h)
    refine (Eval.Safe.compare hv hb).bind fun c hc => (Eval.Safe.truth hc).bind fun holds _ => ?_
    split
    · exact ih hv hrest
    · exact ih hb hrest

theorem value_items {v : Value} (hv : d.value v) {vs : List Value} (h : v.items = .ok vs) :
    ∀ w ∈ vs, d.value w := by
  unfold Value.items at h
  split at h
  · obtain rfl := Except.ok.inj h
    exact fun w hw xs hxs => (hv xs hxs).items w hw
  · obtain rfl := Except.ok.inj h
    intro w hw
    obtain ⟨e, -, rfl⟩ := List.mem_map.mp hw
    exact Demand.value_plain _
  · obtain rfl := Except.ok.inj h
    intro w hw
    obtain ⟨c, -, rfl⟩ := List.mem_map.mp hw
    exact Demand.value_plain _
  · cases h

theorem extremum_safe (name : String) (op : Order) {vs : List Value}
    (hvs : ∀ v ∈ vs, d.value v) : Eval.Safe d d.value (extremum name op vs) := by
  unfold extremum
  split
  · exact .throw _
  · rename_i v
    have hitems : Eval.Safe d (fun items => ∀ w ∈ items, d.value w) (Eval.ofExcept v.items) :=
      .ofExcept fun _ h => value_items (hvs v List.mem_cons_self) h
    refine hitems.bind fun items hall => ?_
    split
    · exact .throw _
    · rename_i first rest
      exact best_safe op (hall first List.mem_cons_self) fun w hw =>
        hall w (List.mem_cons_of_mem _ hw)
  · rename_i first rest _
    exact best_safe op (hvs first List.mem_cons_self) fun w hw => hvs w (List.mem_cons_of_mem _ hw)

theorem value_absolute {v w : Value} (h : absolute v = .ok w) : d.value w := by
  unfold absolute at h
  split at h
  · split at h
    · obtain rfl := Except.ok.inj h
      exact Demand.value_plain _
    · obtain rfl := Except.ok.inj h
      exact Demand.value_plain _
    · cases h
  · cases h

theorem apply_safe (b : Builtin) {args : List Value} (hargs : ∀ v ∈ args, d.value v) :
    Eval.Safe d d.value (b.apply args) := by
  have hint : ∀ x : Except Fault Int,
      Eval.Safe d d.value (Eval.ofExcept x >>= fun n => pure (.int n)) := fun x =>
    (Eval.Safe.ofExcept fun _ _ => trivial).bind fun n (_ : True) => .pure (Demand.value_plain _)
  unfold apply
  split
  · exact .ofExcept fun _ h => value_absolute h
  · exact .throw _
  · exact .pure (Demand.value_plain _)
  · exact (Eval.Safe.truth (hargs _ List.mem_cons_self)).bind fun _ _ =>
      .pure (Demand.value_plain _)
  · exact .throw _
  · exact .pure (Demand.value_plain _)
  · exact hint _
  · exact hint _
  · exact .throw _
  · exact extremum_safe "min" .lt hargs
  · exact extremum_safe "max" .gt hargs

end Builtin

/-! ## What a demand asks of code -/

/-- A numeral other than zero, with or without a sign. -/
def Expr.isNonzero : Expr → Bool
  | .literal (.int n) | .unary .neg (.literal (.int n)) => n != 0
  | _ => false

/-- An operator that leaves nothing open, given its right operand. -/
def Binary.definiteBeside (op : Binary) (b : Expr) : Bool :=
  op.definite || (op == .arith .mod && b.isNonzero)

mutual

/-- The names in an expression can be read and called, and its operators leave nothing open if
that is asked. What looks inside symbolic values stands only where nothing is asked of them. -/
def Expr.Fits (d : Demand) (owned : List String) : Expr → Prop
  | .literal _ => True
  | .name x => d.reads owned x
  | .binary op a b =>
    (d.names.isSome = true → op.definiteBeside b = true) ∧ a.Fits d owned ∧ b.Fits d owned
  | .compare _ a b | .and a b | .or a b => a.Fits d owned ∧ b.Fits d owned
  | .unary _ a | .not a => a.Fits d owned
  | .chain a links => a.Fits d owned ∧ links.Fits d owned
  | .ite c a b => c.Fits d owned ∧ a.Fits d owned ∧ b.Fits d owned
  | .call f args => d.calls owned f ∧ args.Fits d owned
  | .unknown .. => d.names = none
  | .number a | .condition a | .termOf a | .formulaOf a | .negation a =>
    d.names = none ∧ a.Fits d owned
  | .method a _ args => d.names = none ∧ a.Fits d owned ∧ args.Fits d owned

def Args.Fits (d : Demand) (owned : List String) : Args → Prop
  | .nil => True
  | .cons a rest => a.Fits d owned ∧ rest.Fits d owned

def Links.Fits (d : Demand) (owned : List String) : Links → Prop
  | .last _ a => a.Fits d owned
  | .more _ a rest => a.Fits d owned ∧ rest.Fits d owned

end

mutual

/-- A statement assigns only what its call owns, and its expressions fit. -/
def Stmt.Fits (d : Demand) (owned : List String) : Stmt → Prop
  | .assign x e => x ∈ owned ∧ e.Fits d owned
  | .update x op e =>
    x ∈ owned ∧ (d.names.isSome = true → op.definiteBeside e = true) ∧ e.Fits d owned
  | .branch c yes no => c.Fits d owned ∧ yes.Fits d owned ∧ no.Fits d owned
  | .loop c body => c.Fits d owned ∧ body.Fits d owned
  | .range x bounds body => x ∈ owned ∧ bounds.Fits d owned ∧ body.Fits d owned
  | .result (some e) | .discard e | .assert e _ => e.Fits d owned
  | .attempt body _ handler => body.Fits d owned ∧ handler.Fits d owned
  | .result none | .print _ | .raise .. | .pass | .exitLoop | .nextRound | .declareGlobal _ => True

def Block.Fits (d : Demand) (owned : List String) : Block → Prop
  | .done => True
  | .step _ s rest => s.Fits d owned ∧ rest.Fits d owned

end

/-! ## Expressions -/

/-- All uses of an expression are safe. -/
structure Meaning.Safe (d : Demand) (m : Meaning) : Prop where
  value : Eval.Safe d d.value m.value
  truth : Eval.Safe d (fun _ => True) m.truth
  tested : Eval.Safe d (fun out => d.value out.1) m.tested

theorem Meaning.Safe.ofValue {d : Demand} {c : Eval Value} (h : Eval.Safe d d.value c) :
    (Meaning.ofValue c).Safe d where
  value := h
  truth := h.bind fun _ hv => .truth hv
  tested := h.bind fun _ hv => (Eval.Safe.truth hv).bind fun _ _ => .pure hv

/-- Surroundings in a call that owns the given names, in which what may be called is safe. -/
structure Env.Safe (d : Demand) (owned : List String) (env : Env) : Prop where
  frame : env.frame = .call owned
  invoke : ∀ f vs, d.callable f → (∀ v ∈ vs, d.value v) → Eval.Safe d d.value (env.invoke f vs)

section Surroundings

variable {d : Demand} {owned : List String} {env : Env}

theorem Env.Safe.always (x : String) : Eval.Safe d d.value (Env.always x) := by
  unfold Env.always
  split
  · exact .pure fun _ _ => .builtin _
  · split
    · exact .pure fun _ _ => .class x
    · exact .throw _

/-- Where a name is looked up. -/
theorem Env.read_apply {env : Env} {owned : List String} (h : env.frame = .call owned)
    (x : String) (s : State) :
    env.read x s =
      (if owned.contains x then
        match s.locals.lookup x with
        | some v => pure v
        | none => throw (.unboundLocal x)
      else
        match s.memory.globals.lookup x with
        | some v => pure v
        | none => Env.always x : Eval Value) s := by
  unfold Env.read
  rw [h]
  rfl

/-- A value that meets the demand can be read as far as the name allows. -/
theorem Env.Safe.readAs (henv : env.Safe d owned) (x : String) {good : Value → Prop}
    (hlocal : x ∈ owned → ∀ v, d.value v → good v)
    (hglobal : x ∉ owned → ∀ v, d.memory.globals.lookup x = some v → good v)
    (halways : x ∉ owned → d.memory.globals.lookup x = none → ∀ v, d.value v → good v) :
    Eval.Safe d good (env.read x) := by
  intro s hs
  rw [Env.read_apply henv.frame]
  by_cases hx : x ∈ owned
  · rw [if_pos (List.contains_iff_mem.mpr hx)]
    cases hv : s.locals.lookup x with
    | some v => exact Eval.Safe.pure (hlocal hx v (Demand.scope_lookup hs.locals hv)) s hs
    | none => exact Eval.Safe.throw _ s hs
  · rw [if_neg (by simpa using hx), hs.memory]
    cases hv : d.memory.globals.lookup x with
    | some v => exact Eval.Safe.pure (hglobal hx v hv) s hs
    | none => exact (Env.Safe.always x).mono (halways hx hv) s hs

theorem Env.Safe.read (henv : env.Safe d owned) {x : String} (hx : d.reads owned x) :
    Eval.Safe d d.value (env.read x) := by
  refine henv.readAs x (fun _ _ hv => hv) (fun hnot v hv => ?_) fun _ _ _ hv => hv
  rcases hx with hx | hx
  · exact absurd hx hnot
  · exact hx v hv

theorem Env.Safe.readAny (henv : env.Safe d owned) (x : String) :
    Eval.Safe d (fun _ => True) (env.read x) :=
  henv.readAs x (fun _ _ _ => trivial) (fun _ _ _ => trivial) fun _ _ _ _ => trivial

theorem Env.Safe.readCallee (henv : env.Safe d owned) {x : String} (hx : d.calls owned x) :
    Eval.Safe d d.callable (env.read x) := by
  rcases hx with ⟨hreads, hall⟩ | ⟨hnot, v, hv, -, hcall⟩
  · exact (henv.read hreads).mono fun v _ => hall v
  · refine henv.readAs x (fun hx => absurd hx hnot) (fun _ w hw => ?_) fun _ hnone => ?_
    · rwa [← Option.some.inj (hv.symm.trans hw)]
    · rw [hv] at hnone
      cases hnone

theorem Env.Safe.write (henv : env.Safe d owned) {x : String} (hx : x ∈ owned) {v : Value}
    (hv : d.value v) : Eval.Safe d (fun _ => True) (env.write x v) := by
  unfold Env.write
  rw [henv.frame]
  dsimp only
  rw [if_pos (List.contains_iff_mem.mpr hx)]
  exact .setLocal x hv

/-- A binary operator whose right operand is the value of a given expression. -/
theorem Eval.Safe.binaryBeside {title : String} {op : Binary} {u v : Value} {b : Expr}
    (hop : d.names.isSome = true → op.definiteBeside b = true) (hu : d.value u) (hv : d.value v)
    (hb : b.isNonzero = true → ∃ i, v = .int i ∧ i ≠ 0) :
    Eval.Safe d d.value (Eval.binary title op u v) := by
  refine .binary fun xs hxs r hr => ?_
  have hdef := hop (Option.isSome_of_mem hxs)
  rw [Binary.definiteBeside, Bool.or_eq_true, Bool.and_eq_true, beq_iff_eq] at hdef
  -- either the operator is harmless beside anything, or it is a remainder by a numeral
  rcases hdef with hdef | ⟨rfl, hnz⟩
  · exact Value.binary_over hdef (hu xs hxs) (hv xs hxs) hr
  · obtain ⟨i, rfl, hi⟩ := hb hnz
    exact Value.mod_over hi (hu xs hxs) hr

/-- A numeral other than zero has only one value. -/
theorem Expr.value_of_isNonzero {b : Expr} (h : b.isNonzero = true) (env : Env) :
    ∃ i, i ≠ 0 ∧ (b.meaning env).value = pure (.int i) := by
  unfold Expr.isNonzero at h
  split at h
  · rename_i n
    exact ⟨n, by simpa using h, rfl⟩
  · rename_i n
    exact ⟨-n, by simpa using h, rfl⟩
  · cases h

/-- The value of an operand, known if the operand is a numeral. -/
theorem Expr.operand_safe {b : Expr} (h : Eval.Safe d d.value (b.meaning env).value) :
    Eval.Safe d (fun v => d.value v ∧ (b.isNonzero = true → ∃ i, v = .int i ∧ i ≠ 0))
      (b.meaning env).value := by
  cases hb : b.isNonzero with
  | false => exact h.mono fun v hv => ⟨hv, fun hfalse => by cases hfalse⟩
  | true =>
    obtain ⟨i, hi, hval⟩ := Expr.value_of_isNonzero hb env
    rw [hval]
    exact .pure ⟨Demand.value_plain _, fun _ => ⟨i, rfl, hi⟩⟩

/-- Where nothing is asked of values all is as asked. -/
theorem Demand.of_none (hd : d.names = none) {P : List String → Prop} : ∀ xs ∈ d.names, P xs := by
  intro xs hxs
  rw [hd] at hxs
  cases hxs

theorem Eval.Safe.newCondition (hd : d.names = none) (h : Held) :
    Eval.Safe d d.value (Eval.newCondition h) :=
  .box (Demand.of_none hd)

/-- Where nothing is asked of values every method call is safe. -/
theorem Value.callMethod_safe (hd : d.names = Option.none) (v : Value) (name : String)
    (args : List Value) : Eval.Safe d d.value (v.callMethod name args) := by
  have hof : ∀ {α : Type} (x : Except Fault α),
      Eval.Safe d (fun _ => True) (Eval.ofExcept x) := fun x => .ofExcept fun _ _ => trivial
  have hnum : ∀ x : Except Fault Held,
      Eval.Safe d d.value (Eval.ofExcept x >>= fun h => pure (.number h)) :=
    fun x => (hof x).bind fun _ _ => .pure (Demand.of_none hd)
  unfold Value.callMethod
  split
  · unfold Value.callOnNumber
    split
    · exact hnum _
    · exact .throw _
    · rename_i m v _ _
      unfold Method.apply
      refine (hof v.partner).bind fun g _ => ?_
      cases m with
      | arith op => exact hnum _
      | compare op => exact (hof _).bind fun h _ => .newCondition hd h
      | junction op => exact (hof _).bind fun h _ => .newCondition hd h
      | neg => exact hnum _
    · exact .throw _
    · exact .throw _
  · unfold Value.callOnCondition
    split
    · exact (Eval.Safe.ask (Demand.of_none hd)).bind fun _ _ => .pure (Demand.of_none hd)
    · exact ((hof _).bind fun _ _ => .pure trivial).bind fun _ (_ : True) => .throw _
    · exact .throw _
    · exact .throw _
    · exact .throw _
  · exact .throw _

mutual

/-- Every use of an expression is safe. -/
theorem Expr.safe (henv : env.Safe d owned) :
    (e : Expr) → e.Fits d owned → (e.meaning env).Safe d
  | .literal v, _ => .ofValue (.pure (Demand.value_plain v))
  | .name x, hfits => .ofValue (henv.read hfits)
  | .binary op a b, ⟨hop, hfa, hfb⟩ => by
    have ha := (Expr.safe henv a hfa).value
    have hb := (Expr.safe henv b hfb).value
    exact .ofValue (ha.bind fun u hu => (Expr.operand_safe hb).bind fun v hv =>
      .binaryBeside hop hu hv.1 hv.2)
  | .compare op a b, ⟨hfa, hfb⟩ => by
    have ha := (Expr.safe henv a hfa).value
    have hb := (Expr.safe henv b hfb).value
    exact .ofValue (ha.bind fun u hu => hb.bind fun v hv => .compare hu hv)
  | .unary op a, hfits => by
    have ha := (Expr.safe henv a hfits).value
    exact .ofValue (ha.bind fun u hu =>
      .ofExcept fun v hv xs hxs => Value.unary_over (hu xs hxs) hv)
  | .not a, hfits => by
    have ha := Expr.safe henv a hfits
    have hvalue : Eval.Safe d d.value (do
        let u ← (a.meaning env).value
        return .bool !(← u.truth)) :=
      ha.value.bind fun u hu => (Eval.Safe.truth hu).bind fun b _ => .pure (Demand.value_plain _)
    exact ⟨hvalue, ha.truth.bind fun _ _ => .pure trivial, (Meaning.Safe.ofValue hvalue).tested⟩
  | .and a b, ⟨hfa, hfb⟩ => by
    have ha := Expr.safe henv a hfa
    have hb := Expr.safe henv b hfb
    refine ⟨ha.tested.bind fun out hout => ?_, ha.truth.bind fun holds _ => ?_,
      ha.tested.bind fun out hout => ?_⟩
    · obtain ⟨u, holds⟩ := out
      cases holds
      · exact .pure hout
      · exact hb.value
    · cases holds
      · exact .pure trivial
      · exact hb.truth
    · obtain ⟨u, holds⟩ := out
      cases holds
      · exact .pure hout
      · exact hb.tested
  | .or a b, ⟨hfa, hfb⟩ => by
    have ha := Expr.safe henv a hfa
    have hb := Expr.safe henv b hfb
    refine ⟨ha.tested.bind fun out hout => ?_, ha.truth.bind fun holds _ => ?_,
      ha.tested.bind fun out hout => ?_⟩
    · obtain ⟨u, holds⟩ := out
      cases holds
      · exact hb.value
      · exact .pure hout
    · cases holds
      · exact hb.truth
      · exact .pure trivial
    · obtain ⟨u, holds⟩ := out
      cases holds
      · exact hb.tested
      · exact .pure hout
  | .chain a links, ⟨hfa, hfl⟩ => by
    have ha := (Expr.safe henv a hfa).value
    have hvalue := ha.bind fun u hu => Links.safe_value henv links hfl u hu
    exact ⟨hvalue, ha.bind fun u hu => Links.safe_truth henv links hfl u hu,
      (Meaning.Safe.ofValue hvalue).tested⟩
  | .ite c a b, ⟨hfc, hfa, hfb⟩ => by
    have hc := (Expr.safe henv c hfc).truth
    have ha := Expr.safe henv a hfa
    have hb := Expr.safe henv b hfb
    have hvalue : Eval.Safe d d.value (do
        if ← (c.meaning env).truth then (a.meaning env).value else (b.meaning env).value) :=
      hc.bind fun holds _ => by
        cases holds
        · exact hb.value
        · exact ha.value
    refine ⟨hvalue, hc.bind fun holds _ => ?_, (Meaning.Safe.ofValue hvalue).tested⟩
    cases holds
    · exact hb.truth
    · exact ha.truth
  | .call f args, ⟨hcalls, hargs⟩ => by
    have hvalues := Args.safe henv args hargs
    exact .ofValue ((henv.readCallee hcalls).bind fun callee hcallee => hvalues.bind fun vs hvs =>
      henv.invoke callee vs hcallee hvs)
  | .unknown k x, hd => .ofValue ((Eval.Safe.ofExcept fun _ _ => trivial).bind
      fun _ (_ : True) => .pure (Demand.of_none hd))
  | .number a, ⟨hd, hfa⟩ => by
    have ha := (Expr.safe henv a hfa).value
    exact .ofValue (ha.bind fun u _ => (Eval.Safe.ofExcept fun _ _ => trivial).bind
      fun _ (_ : True) => .pure (Demand.of_none hd))
  | .condition a, ⟨hd, hfa⟩ => by
    have ha := (Expr.safe henv a hfa).value
    exact .ofValue (ha.bind fun u _ => (Eval.Safe.ofExcept fun _ _ => trivial).bind
      fun h (_ : True) => .newCondition hd h)
  | .termOf a, ⟨hd, hfa⟩ => by
    have ha := (Expr.safe henv a hfa).value
    exact .ofValue (ha.bind fun u _ => .ofExcept fun _ _ => Demand.of_none hd)
  | .formulaOf a, ⟨hd, hfa⟩ => by
    have ha := (Expr.safe henv a hfa).value
    exact .ofValue (ha.bind fun u _ => (Eval.Safe.ofExcept fun _ _ => trivial).bind
      fun _ (_ : True) => .pure (Demand.of_none hd))
  | .negation a, ⟨hd, hfa⟩ => by
    have ha := (Expr.safe henv a hfa).value
    exact .ofValue (ha.bind fun u _ => (Eval.Safe.ofExcept fun _ _ => trivial).bind
      fun _ (_ : True) => (Eval.Safe.ofExcept fun _ _ => trivial).bind
        fun h (_ : True) => .newCondition hd h)
  | .method a name args, ⟨hd, hfa, hargs⟩ => by
    have ha := (Expr.safe henv a hfa).value
    have hvalues := Args.safe henv args hargs
    exact .ofValue (ha.bind fun u _ => hvalues.bind fun vs _ => Value.callMethod_safe hd u name vs)

theorem Args.safe (henv : env.Safe d owned) :
    (args : Args) → args.Fits d owned →
      Eval.Safe d (fun vs => ∀ v ∈ vs, d.value v) (args.values env)
  | .nil, _ => .pure (by simp)
  | .cons a rest, ⟨hfa, hfrest⟩ => by
    have ha := (Expr.safe henv a hfa).value
    have hrest := Args.safe henv rest hfrest
    exact ha.bind fun v hv => hrest.bind fun vs hvs => .pure (by simpa [hv] using hvs)

theorem Links.safe_value (henv : env.Safe d owned) :
    (links : Links) → links.Fits d owned → ∀ u, d.value u →
      Eval.Safe d d.value (links.value env u)
  | .last op a, hfa, u, hu => by
    have ha := (Expr.safe henv a hfa).value
    exact ha.bind fun v hv => .compare hu hv
  | .more op a rest, ⟨hfa, hfrest⟩, u, hu => by
    have ha := (Expr.safe henv a hfa).value
    refine ha.bind fun v hv => (Eval.Safe.compare hu hv).bind fun c hc =>
      (Eval.Safe.truth hc).bind fun holds _ => ?_
    cases holds
    · exact .pure hc
    · exact Links.safe_value henv rest hfrest v hv

theorem Links.safe_truth (henv : env.Safe d owned) :
    (links : Links) → links.Fits d owned → ∀ u, d.value u →
      Eval.Safe d (fun _ => True) (links.truth env u)
  | .last op a, hfa, u, hu => by
    have ha := (Expr.safe henv a hfa).value
    exact ha.bind fun v hv => (Eval.Safe.compare hu hv).bind fun c hc => .truth hc
  | .more op a rest, ⟨hfa, hfrest⟩, u, hu => by
    have ha := (Expr.safe henv a hfa).value
    refine ha.bind fun v hv => (Eval.Safe.compare hu hv).bind fun c hc =>
      (Eval.Safe.truth hc).bind fun holds _ => ?_
    cases holds
    · exact .pure trivial
    · exact Links.safe_truth henv rest hfrest v hv

end

/-! ## Statements -/

/-- The value that a statement leaves with meets the demand. -/
def Demand.flow (d : Demand) : Flow → Prop
  | .result v => d.value v
  | _ => True

theorem Flow.loop_safe {test : Eval Bool} {body : Eval Flow}
    (htest : Eval.Safe d (fun _ => True) test) (hbody : Eval.Safe d d.flow body) (rounds : Nat) :
    Eval.Safe d d.flow (Flow.loop test body rounds) := by
  induction rounds with
  | zero => exact .throw _
  | succ rounds ih =>
    refine htest.bind fun holds _ => (Eval.Safe.note _).bind fun _ _ => ?_
    cases holds
    · exact .pure trivial
    · refine hbody.bind fun flow hflow => ?_
      cases flow with
      | next => exact ih
      | nextRound => exact ih
      | exitLoop => exact .pure trivial
      | result v => exact .pure hflow

theorem Flow.range_safe {body : Int → Eval Flow} (hbody : ∀ i, Eval.Safe d d.flow (body i))
    (step : Int) (count : Nat) (i : Int) : Eval.Safe d d.flow (Flow.range body step count i) := by
  induction count generalizing i with
  | zero => exact .pure trivial
  | succ count ih =>
    refine (hbody i).bind fun flow hflow => ?_
    cases flow with
    | next => exact ih _
    | nextRound => exact ih _
    | exitLoop => exact .pure trivial
    | result v => exact .pure hflow

theorem Env.Safe.faultClass (henv : env.Safe d owned) (x : String) (otherwise : Fault) :
    Eval.Safe d (fun _ => True) (env.faultClass x otherwise) := by
  refine (henv.readAny x).bind fun v _ => ?_
  split
  · split
    · exact .pure trivial
    · exact .throw _
  · exact .throw _

theorem Eval.attempt_safe (henv : env.Safe d owned) {body handler : Eval Flow} {c : String}
    (hbody : Eval.Safe d d.flow body) (hhandler : Eval.Safe d d.flow handler) :
    Eval.Safe d d.flow (Eval.attempt env body c handler) := by
  refine hbody.tryCatch fun f => ?_
  split
  · exact .throw _
  · refine (henv.faultClass c .notCatchable).bind fun c _ => ?_
    split
    · exact hhandler
    · exact .throw _

mutual

/-- Running a statement is safe. -/
theorem Stmt.safe (henv : env.Safe d owned) :
    (s : Stmt) → s.Fits d owned → Eval.Safe d d.flow (s.exec env)
  | .assign x e, ⟨hx, hfe⟩ => by
    have he := (Expr.safe henv e hfe).value
    exact he.bind fun v hv => (henv.write hx hv).bind fun _ _ => .pure trivial
  | .update x op e, ⟨hx, hop, hfe⟩ => by
    have he := (Expr.safe henv e hfe).value
    exact (henv.read (.inl hx)).bind fun u hu => (Expr.operand_safe he).bind fun v hv =>
      (Eval.Safe.binaryBeside hop hu hv.1 hv.2).bind fun w hw =>
        (henv.write hx hw).bind fun _ _ => .pure trivial
  | .branch c yes no, ⟨hfc, hfyes, hfno⟩ => by
    have hc := (Expr.safe henv c hfc).truth
    have hyes := Block.safe henv yes hfyes
    have hno := Block.safe henv no hfno
    refine hc.bind fun holds _ => (Eval.Safe.note _).bind fun _ _ => ?_
    cases holds
    · exact hno
    · exact hyes
  | .loop c body, ⟨hfc, hfbody⟩ => by
    have hc := (Expr.safe henv c hfc).truth
    have hbody := Block.safe henv body hfbody
    exact Flow.loop_safe hc hbody env.rounds
  | .range x bounds body, ⟨hx, hfbounds, hfbody⟩ => by
    have hbounds := Args.safe henv bounds hfbounds
    have hbody := Block.safe henv body hfbody
    refine hbounds.bind fun vs _ => (Eval.Safe.ofExcept fun _ _ => trivial).bind
      fun r (_ : True) => Flow.range_safe (fun i => ?_) _ _ _
    exact (henv.write hx (Demand.value_plain _)).bind fun _ _ => hbody
  | .result none, _ => .pure (Demand.value_plain _)
  | .result (some e), hfe => by
    have he := (Expr.safe henv e hfe).value
    exact he.bind fun v hv => .pure hv
  | .discard e, hfe => by
    have he := (Expr.safe henv e hfe).value
    exact he.bind fun v _ => .pure trivial
  | .print text, _ => (Eval.Safe.print text).bind fun _ _ => .pure trivial
  | .raise c text, _ => by
    refine (henv.readAny c).bind fun v _ => ?_
    split
    · split
      · exact .throw _
      · split
        · exact .throw _
        · exact .throw _
    · exact .throw _
  | .assert e text, hfe => by
    have he := (Expr.safe henv e hfe).truth
    refine he.bind fun holds _ => ?_
    cases holds
    · exact .throw _
    · exact .pure trivial
  | .pass, _ => .pure trivial
  | .exitLoop, _ => .pure trivial
  | .nextRound, _ => .pure trivial
  | .declareGlobal _, _ => .pure trivial
  | .attempt body c handler, ⟨hfbody, hfhandler⟩ =>
    Eval.attempt_safe henv (Block.safe henv body hfbody) (Block.safe henv handler hfhandler)

theorem Block.safe (henv : env.Safe d owned) :
    (b : Block) → b.Fits d owned → Eval.Safe d d.flow (b.exec env)
  | .done, _ => .pure trivial
  | .step line s rest, ⟨hfs, hfrest⟩ => by
    have hs := Stmt.safe henv s hfs
    have hrest := Block.safe henv rest hfrest
    refine (Eval.Safe.note _).bind fun _ _ => hs.bind fun flow hflow => ?_
    cases flow with
    | next => exact hrest
    | exitLoop => exact .pure trivial
    | nextRound => exact .pure trivial
    | result v => exact .pure hflow

end

end Surroundings

/-! ## Calls -/

section Calls

variable {d : Demand}

namespace Function

theorem scope_bindKeywords {takers : List String} {gathers : Bool}
    {refusal : String → BindingFault} {keywords : List (String × Value)} {bound extra : Scope}
    {out : Scope × Scope}
    (hkeywords : d.scope keywords) (hbound : d.scope bound) (hextra : d.scope extra)
    (h : bindKeywords takers gathers refusal keywords bound extra = .ok out) :
    d.scope out.1 ∧ d.scope out.2 := by
  induction keywords generalizing bound extra with
  | nil =>
    obtain rfl := Except.ok.inj h
    exact ⟨hbound, hextra⟩
  | cons e rest ih =>
    obtain ⟨k, v⟩ := e
    have hv : d.value v := hkeywords (k, v) List.mem_cons_self
    have hrest : d.scope rest := fun e he => hkeywords e (List.mem_cons_of_mem _ he)
    rw [bindKeywords] at h
    split at h
    · split at h
      · cases h
      · exact ih hrest (Demand.scope_set hbound hv k) hextra h
    · split at h
      · exact ih hrest hbound (Demand.scope_set hextra hv k) h
      · cases h

theorem scope_fill {ps : List Parameter} {bound : Scope} (hbound : d.scope bound)
    (hdefault : ∀ p ∈ ps, ∀ v, p.default? = some v → d.value v) : d.scope (fill ps bound) := by
  unfold fill
  induction ps generalizing bound with
  | nil => exact hbound
  | cons p ps ih =>
    rw [List.foldl_cons]
    refine ih ?_ fun q hq => hdefault q (List.mem_cons_of_mem _ hq)
    split
    · rename_i v _ hv
      exact Demand.scope_set hbound (hdefault p List.mem_cons_self v hv) _
    · exact hbound

/-- The values of the parameters are those given in the call and the defaults. -/
theorem scope_bind {f : Function} {args : List Value} {keywords : List (String × Value)}
    {locals : Scope} (hdefault : ∀ p ∈ f.params, ∀ v, p.default? = some v → d.value v)
    (hargs : ∀ v ∈ args, d.value v) (hkeywords : d.scope keywords)
    (h : f.bind args keywords = .ok locals) : d.scope locals := by
  unfold Function.bind at h
  obtain ⟨⟨bound, extra⟩, hkw, h⟩ := Except.exists_of_bind h
  have hfirst : d.scope ((f.positional.map Parameter.name).zip args) := fun e he =>
    hargs e.2 (List.of_mem_zip he).2
  obtain ⟨hbound, hextra⟩ := scope_bindKeywords hkeywords hfirst Demand.scope_nil hkw
  dsimp only at h hbound hextra
  iterate 3
    split at h
    · cases h
  obtain rfl := Except.ok.inj h
  -- the named parameters, then the tuple of other arguments and the table of other keywords
  refine Demand.scope_append (Demand.scope_append (scope_fill hbound ?_) ?_) ?_
  · intro p hp
    refine hdefault p ?_
    rcases List.mem_append.mp hp with hp | hp
    · exact List.mem_of_mem_filter hp
    · exact List.mem_of_mem_filter hp
  · intro e he
    obtain ⟨p, -, rfl⟩ := List.mem_map.mp he
    exact fun xs hxs => .tuple fun v hv => hargs v (List.mem_of_mem_drop hv) xs hxs
  · intro e he
    obtain ⟨p, -, rfl⟩ := List.mem_map.mp he
    exact fun xs hxs => .table fun e he => hextra e he xs hxs

end Function

/-- A function whose body and defaults meet the demand. -/
structure Function.Safe (d : Demand) (f : Function) : Prop where
  fits : f.body.Fits d f.owned
  default : ∀ p ∈ f.params, ∀ v, p.default? = some v → d.value v

/-- What may be called among the functions of a table meets the demand. -/
def Demand.serves (d : Demand) (functions : List Function) : Prop :=
  ∀ i f, d.callable (.function i) → functions[i]? = some f → f.Safe d

/-- A call is safe if the calls inside of it are. -/
theorem invoke_safe_of_inner {functions : List Function} (hserves : d.serves functions)
    {rounds depth : Nat}
    (hinner : ∀ k, depth = k + 1 → ∀ g vs, d.callable g → (∀ v ∈ vs, d.value v) →
      Eval.Safe d d.value (invoke functions rounds k g vs []))
    {callee : Value} {args : List Value} {keywords : List (String × Value)}
    (hcallee : d.callable callee) (hargs : ∀ v ∈ args, d.value v)
    (hkeywords : d.scope keywords) :
    Eval.Safe d d.value (invoke functions rounds depth callee args keywords) := by
  unfold invoke
  cases callee with
  | function i =>
    dsimp only
    split
    · exact .throw _
    · rename_i f hf
      have hsafe := hserves i f hcallee hf
      split
      · exact .throw _
      · rename_i locals hbind
        have hlocals := Function.scope_bind hsafe.default hargs hkeywords hbind
        split
        · exact .throw _
        · rename_i k
          -- the body runs with calls one level further down
          have henv : Env.Safe d f.owned
              ⟨.call f.owned, rounds, fun g vs => invoke functions rounds k g vs []⟩ :=
            ⟨rfl, hinner k rfl⟩
          refine .within hlocals
            ((Block.safe henv f.body hsafe.fits).bind fun flow hflow => .pure ?_)
          cases flow with
          | result v => exact hflow
          | _ => exact Demand.value_plain _
  | builtin b => exact b.apply_safe hargs
  | «class» c =>
    dsimp only
    split
    · exact Eval.Safe.fresh.bind fun n _ => .pure fun _ _ => .object n c
    · exact .throw _
  | _ => exact .throw _

/-- Calls of what may be called are safe, to any depth. -/
theorem invoke_safe {functions : List Function} (hserves : d.serves functions)
    (rounds depth : Nat) {callee : Value} {args : List Value} {keywords : List (String × Value)}
    (hcallee : d.callable callee) (hargs : ∀ v ∈ args, d.value v)
    (hkeywords : d.scope keywords) :
    Eval.Safe d d.value (invoke functions rounds depth callee args keywords) := by
  induction depth generalizing callee args keywords with
  | zero => exact invoke_safe_of_inner hserves (fun k hk => by cases hk) hcallee hargs hkeywords
  | succ depth ih =>
    refine invoke_safe_of_inner hserves ?_ hcallee hargs hkeywords
    rintro k ⟨rfl⟩ g vs hg hvs
    exact ih hg hvs Demand.scope_nil

end Calls

end Pathwise
