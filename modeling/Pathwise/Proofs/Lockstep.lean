import Pathwise.Proofs.Operators
import Pathwise.Proofs.Safety

/-!
# Runs in lockstep

A run on unknowns whose tests are answered truthfully and the run of the same code on the integers
behind the unknowns take the same steps, until an operator exchanges its operands or the path is
too long to be recorded.

* `Run.Ends` — what a run can end with if the answers to its tests are true.
* `Run.ends_play` — the answers of a search are true of all that meets the conditions of a round.
* `Eval.Lockstep` — two computations stay together; the rules follow the interpreter.
-/

namespace Pathwise

/-! ## Truthful answers -/

namespace Run

variable {α β : Type} {ρ : Valuation}

/-- The run can end with a result if every test is answered by its truth under a valuation, or by
the fault that the path is too long. -/
def Ends (ρ : Valuation) : Run α → α → Prop
  | .done a, out => out = a
  | .ask φ k, out => ∃ answer : Except Fault Bool,
      (answer = .error .depthLimit ∨ answer = φ.toFormula.map (Term.eval ρ)) ∧ (k answer).Ends ρ out

theorem Ends.of_bind {r : Run α} {f : α → Run β} {out : β} (h : (r.bind f).Ends ρ out) :
    ∃ a, r.Ends ρ a ∧ (f a).Ends ρ out := by
  induction r with
  | done a => exact ⟨a, rfl, h⟩
  | ask φ k ih =>
    obtain ⟨answer, hanswer, h⟩ := h
    obtain ⟨a, ha, hf⟩ := ih answer h
    exact ⟨a, ⟨answer, hanswer, ha⟩, hf⟩

theorem Ensures.ends {asked : Held → Prop} {result : α → Prop} {r : Run α} {out : α}
    (h : r.Ensures asked result) (hout : r.Ends ρ out) : result out := by
  induction r with
  | done a =>
    obtain rfl : out = a := hout
    exact h
  | ask φ k ih =>
    obtain ⟨answer, -, hout⟩ := hout
    exact ih answer (h.2 answer) hout

theorem unanswered_bind (r : Run α) (f : α → Run β) :
    (r.bind f).unanswered = (f r.unanswered).unanswered := by
  induction r with
  | done a => rfl
  | ask φ k ih => exact ih _

/-- A run that is answered along a path ends as it can if the answers are true of a valuation that
meets its last conditions. -/
theorem ends_play {solver : Solver} (hS : solver.Correct) {r : Run α} {t : Trail}
    (hρ : ρ.meets (r.play solver t).2.conditions = true) : r.Ends ρ (r.play solver t).1 := by
  induction r generalizing t with
  | done a => rfl
  | ask φ k ih =>
    have hfirst : ρ.meets (t.decide solver φ).2.conditions = true :=
      meets_of_prefix (play_conditions solver (k _) _) hρ
    exact ⟨_, Trail.decide_truthful hS hfirst, ih _ hρ⟩

end Run

/-! ## What stands for what -/

namespace Value

/-- The second value is the integer that the first stands for. -/
def Counted (ρ : Valuation) (v w : Value) : Prop := ∃ i, v.Counts ρ i ∧ w = .int i

/-- The second value is plain, and the first is the same or a condition of its truth. -/
inductive Judged (ρ : Valuation) : Value → Value → Prop where
  | plain (p : Plain) : Judged ρ (.held (.plain p)) (.held (.plain p))
  | condition (stamp : Nat) (p : Formula) :
    Judged ρ (.condition stamp (.term p)) (.bool (p.eval ρ))

theorem counted_int (ρ : Valuation) (n : Int) : Counted ρ (.int n) (.int n) := ⟨n, .int n, rfl⟩

end Value

theorem Scope.lookup_set_of_ne (s : Scope) {x y : String} (v : Value) (h : y ≠ x) :
    (s.set x v).lookup y = s.lookup y := by
  have hyx : (y == x) = false := by simpa using h
  induction s with
  | nil => simp [set, List.lookup_cons, hyx]
  | cons p rest ih =>
    obtain ⟨z, w⟩ := p
    by_cases hz : z = x
    · subst hz
      simp [set, List.lookup_cons, hyx]
    · simp only [set, hz, if_false, List.lookup_cons, ih]

/-- Names stand for values that stand for each other. -/
def Scope.Counted (ρ : Valuation) (s s' : Scope) : Prop :=
  ∀ x, Option.Rel (Value.Counted ρ) (s.lookup x) (s'.lookup x)

theorem Scope.Counted.set {ρ : Valuation} {s s' : Scope} (h : s.Counted ρ s') {v w : Value}
    (hv : v.Counted ρ w) (x : String) : (s.set x v).Counted ρ (s'.set x w) := by
  intro y
  by_cases hy : y = x
  · subst hy
    rw [lookup_set_self, lookup_set_self]
    exact .some hv
  · rw [lookup_set_of_ne s v hy, lookup_set_of_ne s' w hy]
    exact h y

/-- Two states that differ only in what stands for the values of names. -/
structure State.Alike (d : Demand) (ρ : Valuation) (s s' : State) : Prop where
  kept : d.Kept s
  kept' : d.Kept s'
  locals : s.locals.Counted ρ s'.locals
  output : s.output = s'.output
  trace : s.trace = s'.trace
  stores : List.Forall₂ (Scope.Counted ρ) s.stores s'.stores
  aligned : s.stores.length = s.trace.length

theorem State.Alike.leads {d : Demand} {ρ : Valuation} {s s' : State} (h : s.Alike d ρ s') :
    s.Leads s' :=
  ⟨h.trace ▸ List.suffix_rfl, h.output ▸ List.suffix_rfl⟩

/-- A name that no variable has is read without looking at the state. -/
theorem Env.always_cases (x : String) :
    (∃ v, Env.always x = pure v) ∨ ∃ f, Env.always x = throw f := by
  unfold Env.always
  split
  · exact .inl ⟨_, rfl⟩
  · split
    · exact .inl ⟨_, rfl⟩
    · exact .inr ⟨_, rfl⟩

/-! ## Computations in lockstep -/

namespace Eval

variable {α β : Type}

/-- How a computation on unknowns compares with one on integers. -/
inductive Agree (d : Demand) (ρ : Valuation) (R : α → α → Prop)
    (out out' : Except Fault α × State) : Prop where
  /-- Operands were exchanged, and nothing is said. -/
  | exchanged (h : .exchange ∈ out.2.trace)
  /-- The path is too long: the first computation did what the second did at first. -/
  | cut (h : out.1 = .error .depthLimit) (hleads : out.2.Leads out'.2)
  | ok {a b : α} (h : out.1 = .ok a) (h' : out'.1 = .ok b) (hR : R a b)
    (halike : out.2.Alike d ρ out'.2)
  | fault {f : Fault} (h : out.1 = .error f) (h' : out'.1 = .error f)
    (halike : out.2.Alike d ρ out'.2)

/-- If `pre` holds, two computations go from states that are alike to states that are alike with
results in `R`, as long as the answers to the tests of the first are true. -/
structure Lockstep (d : Demand) (ρ : Valuation) (pre : Prop) (R : α → α → Prop)
    (c c' : Eval α) : Prop where
  left : Safe d (fun _ => True) c
  right : Safe d (fun _ => True) c'
  agree : pre → ∀ s s', s.Alike d ρ s' → ∀ out, (c s).Ends ρ out →
    Agree d ρ R out (c' s').unanswered

theorem compare_int (op : Comparison) (a b : Int) :
    Eval.compare op (.int a) (.int b) = pure (.bool (op.onInt a b)) := by
  rw [Eval.compare, show Value.compare op (.int a) (.int b) =
    ((Plain.int a).compare op (.int b)).map fun r => .value (.bool r) from rfl, Plain.compare_int]
  rfl

/-- What follows a computation. -/
def andThen (f : α → Eval β) (out : Except Fault α × State) : Run (Except Fault β × State) :=
  match out.1 with
  | .ok a => f a out.2
  | .error e => .done (.error e, out.2)

theorem bind_eq_andThen (c : Eval α) (f : α → Eval β) (s : State) :
    (c >>= f) s = (c s).bind (andThen f) :=
  bind_apply c f s

theorem andThen_leads {d : Demand} {f : α → Eval β} (hf : ∀ a, Safe d (fun _ => True) (f a))
    {out : Except Fault α × State} (hkept : d.Kept out.2) :
    (andThen f out).Ensures d.held fun out' => out.2.Leads out'.2 := by
  obtain ⟨r, s⟩ := out
  cases r with
  | error e => exact State.Leads.refl s
  | ok a => exact (hf a s hkept).mono (fun _ hφ => hφ) fun out' hout => hout.2.1

namespace Lockstep

variable {d : Demand} {ρ : Valuation} {pre : Prop} {R : α → α → Prop} {c c' : Eval α}

/-- A relation between results may use that the second is a result. -/
theorem strengthen {R' : α → α → Prop} (h : Lockstep d ρ pre R c c')
    (hR : pre → ∀ s, d.Kept s → ∀ a b, (c' s).unanswered.1 = .ok b → R a b → R' a b) :
    Lockstep d ρ pre R' c c' := by
  refine ⟨h.left, h.right, fun hpre s s' hs out hout => ?_⟩
  cases h.agree hpre s s' hs out hout with
  | exchanged h => exact .exchanged h
  | cut h hleads => exact .cut h hleads
  | ok ha hb hab halike => exact .ok ha hb (hR hpre s' hs.kept' _ _ hb hab) halike
  | fault h h' halike => exact .fault h h' halike

theorem mono {R' : α → α → Prop} (h : Lockstep d ρ pre R c c') (hR : ∀ a b, R a b → R' a b) :
    Lockstep d ρ pre R' c c' :=
  h.strengthen fun _ _ _ a b _ hab => hR a b hab

/-- Computations that test nothing. -/
theorem ofDone (left : Safe d (fun _ => True) c) (right : Safe d (fun _ => True) c')
    (h : pre → ∀ s s', s.Alike d ρ s' → ∃ out out', c s = .done out ∧ c' s' = .done out' ∧
      Agree d ρ R out out') : Lockstep d ρ pre R c c' := by
  refine ⟨left, right, fun hpre s s' hs out hout => ?_⟩
  obtain ⟨o, o', ho, ho', hagree⟩ := h hpre s s' hs
  rw [ho] at hout
  obtain rfl : out = o := hout
  rw [ho']
  exact hagree

theorem pure {a b : α} (h : pre → R a b) : Lockstep d ρ pre R (Pure.pure a) (Pure.pure b) :=
  ofDone (.pure trivial) (.pure trivial) fun hpre s s' hs =>
    ⟨(.ok a, s), (.ok b, s'), rfl, rfl, .ok rfl rfl (h hpre) hs⟩

theorem throw {f f' : Fault} (h : pre → f = f') :
    Lockstep d ρ pre R (throwThe Fault f) (throwThe Fault f') :=
  ofDone (.throw f) (.throw f') fun hpre s s' hs =>
    ⟨(.error f, s), (.error f', s'), rfl, rfl, .fault rfl (h hpre ▸ rfl) hs⟩

/-- What `pre` says may be used to compare safe computations. -/
theorem given (left : Safe d (fun _ => True) c) (right : Safe d (fun _ => True) c')
    (h : pre → Lockstep d ρ True R c c') : Lockstep d ρ pre R c c' :=
  ⟨left, right, fun hpre => (h hpre).agree trivial⟩

theorem bind {R' : β → β → Prop} {f f' : α → Eval β} (h : Lockstep d ρ pre R c c')
    (hf : ∀ a b, Lockstep d ρ (pre ∧ R a b) R' (f a) (f' b)) :
    Lockstep d ρ pre R' (c >>= f) (c' >>= f') := by
  have hleft : ∀ a, Safe d (fun _ => True) (f a) := fun a => (hf a a).left
  have hright : ∀ b, Safe d (fun _ => True) (f' b) := fun b => (hf b b).right
  refine ⟨h.left.bind fun a _ => hleft a, h.right.bind fun b _ => hright b, ?_⟩
  intro hpre s s' hs out hout
  rw [bind_eq_andThen] at hout
  rw [bind_eq_andThen, Run.unanswered_bind]
  obtain ⟨mid, hmid, hout⟩ := hout.of_bind
  have hkept : d.Kept mid.2 := ((h.left s hs.kept).ends hmid).1
  have hkept' : d.Kept (c' s').unanswered.2 := (h.right s' hs.kept').unanswered.1
  have hleads : mid.2.Leads out.2 := (andThen_leads hleft hkept).ends hout
  have hleads' : (c' s').unanswered.2.Leads (andThen f' (c' s').unanswered).unanswered.2 :=
    (andThen_leads hright hkept').unanswered
  -- how far the first parts agree decides what the second parts can add
  cases h.agree hpre s s' hs mid hmid with
  | exchanged hx => exact .exchanged (hleads.trace.subset hx)
  | cut hcut hmids =>
    -- nothing follows on the left, and what follows on the right only adds to its state
    rw [andThen, hcut] at hout
    obtain rfl : out = (.error .depthLimit, mid.2) := hout
    exact .cut rfl (hmids.trans hleads')
  | ok ha hb hab halike =>
    rw [andThen, ha] at hout
    rw [andThen, hb]
    exact (hf _ _).agree ⟨hpre, hab⟩ _ _ halike out hout
  | fault hf hf' halike =>
    rw [andThen, hf] at hout
    rw [andThen, hf']
    obtain rfl : out = (.error _, mid.2) := hout
    exact .fault rfl rfl halike

/-! ## The steps of the interpreter -/

theorem note {e e' : Event} (h : pre → e = e') :
    Lockstep d ρ pre (fun _ _ => True) (Eval.note e) (Eval.note e') :=
  given (.note e) (.note e') fun hpre => by
    obtain rfl := h hpre
    exact ofDone (.note e) (.note e) fun _ s s' hs =>
      ⟨(.ok (), { s with trace := e :: s.trace, stores := s.locals :: s.stores }),
        (.ok (), { s' with trace := e :: s'.trace, stores := s'.locals :: s'.stores }),
        rfl, rfl, .ok rfl rfl trivial
          ⟨⟨hs.kept.memory, hs.kept.locals⟩, ⟨hs.kept'.memory, hs.kept'.locals⟩, hs.locals,
            hs.output, congrArg (e :: ·) hs.trace, .cons hs.locals hs.stores,
            congrArg (· + 1) hs.aligned⟩⟩

theorem print (text : String) :
    Lockstep d ρ pre (fun _ _ => True) (Eval.print text) (Eval.print text) :=
  ofDone (.print text) (.print text) fun _ s s' hs =>
    ⟨(.ok (), { s with output := text :: s.output }),
      (.ok (), { s' with output := text :: s'.output }), rfl, rfl, .ok rfl rfl trivial
        ⟨⟨hs.kept.memory, hs.kept.locals⟩, ⟨hs.kept'.memory, hs.kept'.locals⟩, hs.locals,
          congrArg (text :: ·) hs.output, hs.trace, hs.stores, hs.aligned⟩⟩

theorem within {locals locals' : Scope} (hd : d.names = none)
    (hlocals : pre → locals.Counted ρ locals') (h : Lockstep d ρ pre R c c') :
    Lockstep d ρ pre R (Eval.within locals c) (Eval.within locals' c') := by
  have hscope : ∀ locals, d.scope locals := fun _ _ _ => Demand.of_none hd
  refine ⟨h.left.within (hscope _), h.right.within (hscope _), ?_⟩
  intro hpre s s' hs out hout
  obtain ⟨mid, hmid, hout⟩ := hout.of_bind
  obtain rfl : out = (mid.1, { mid.2 with locals := s.locals }) := hout
  rw [show Eval.within locals' c' s' = (c' { s' with locals := locals' }).bind fun out =>
    .done (out.1, { out.2 with locals := s'.locals }) from rfl, Run.unanswered_bind]
  -- the names of the caller were alike before the call and are put back as they were
  have hback : ∀ {t t' : State}, t.Alike d ρ t' →
      State.Alike d ρ { t with locals := s.locals } { t' with locals := s'.locals } :=
    fun ht => ⟨⟨ht.kept.memory, hs.kept.locals⟩, ⟨ht.kept'.memory, hs.kept'.locals⟩, hs.locals,
      ht.output, ht.trace, ht.stores, ht.aligned⟩
  have hin : State.Alike d ρ { s with locals := locals } { s' with locals := locals' } :=
    ⟨⟨hs.kept.memory, hscope locals⟩, ⟨hs.kept'.memory, hscope locals'⟩, hlocals hpre, hs.output,
      hs.trace, hs.stores, hs.aligned⟩
  cases h.agree hpre _ _ hin mid hmid with
  | exchanged h => exact .exchanged h
  | cut h hleads => exact .cut h ⟨hleads.trace, hleads.output⟩
  | ok h h' hab halike => exact .ok h h' hab (hback halike)
  | fault h h' halike => exact .fault h h' (hback halike)

/-- A result without an identity stays; a condition gets one, which nothing depends on. -/
theorem box {r : Value.Raw} {b : Bool} (hd : d.names = none) (hr : pre → r.Tells ρ b) :
    Lockstep d ρ pre (Value.Judged ρ) (Eval.box r) (Pure.pure (.bool b)) := by
  have hleft : Safe d (fun _ => True) (Eval.box r) :=
    (Safe.box (Demand.of_none hd)).mono fun _ _ => trivial
  refine ofDone hleft (.pure trivial) fun hpre s s' hs => ?_
  cases hr hpre with
  | bool b => exact ⟨(.ok (.bool b), s), (.ok (.bool b), s'), rfl, rfl, .ok rfl rfl (.plain _) hs⟩
  | condition p =>
    exact ⟨(.ok (.condition s.stamp (.term p)), { s with stamp := s.stamp + 1 }),
      (.ok (.bool (p.eval ρ)), s'), rfl, rfl, .ok rfl rfl (.condition _ p)
        ⟨⟨hs.kept.memory, hs.kept.locals⟩, hs.kept', hs.locals, hs.output, hs.trace, hs.stores,
          hs.aligned⟩⟩

section Operators

variable {u u' v v' : Value}

theorem compare (op : Comparison) (hd : d.names = none) (hu : pre → u.Counted ρ u')
    (hv : pre → v.Counted ρ v') :
    Lockstep d ρ pre (Value.Judged ρ) (Eval.compare op u v) (Eval.compare op u' v') := by
  have hsafe : ∀ u v, Safe d (fun _ => True) (Eval.compare op u v) := fun u v =>
    (Safe.compare (Demand.of_none hd) (Demand.of_none hd)).mono fun _ _ => trivial
  refine ⟨hsafe u v, hsafe u' v', fun hpre => ?_⟩
  obtain ⟨a, hua, rfl⟩ := hu hpre
  obtain ⟨b, hvb, rfl⟩ := hv hpre
  obtain ⟨r, hr, htells⟩ := Value.compare_tells op hua hvb
  have hleft : Eval.compare op u v = Eval.box r := by
    rw [Eval.compare, hr]
    rfl
  rw [compare_int, hleft]
  exact (box hd fun _ => htells).agree trivial

/-- An operator on numbers, if its value is known where it does not exchange its operands. -/
theorem binary (title : String) (op : Binary) (hd : d.names = none)
    (h : pre → Value.exchanges op u' v' = false ∧ ∃ w',
      Value.binary title op u' v' = .ok (.value w') ∧
      (Value.exchanges op u v = false → ∃ w, Value.binary title op u v = .ok (.value w) ∧
        w.Counted ρ w')) :
    Lockstep d ρ pre (Value.Counted ρ) (Eval.binary title op u v) (Eval.binary title op u' v') := by
  have hboxed : ∀ x : Except Fault Value.Raw,
      Safe d (fun _ => True) (Eval.ofExcept x >>= Eval.box) := fun x =>
    (Safe.boxed (Demand.of_none hd)).mono fun _ _ => trivial
  have hsafe : ∀ u v, Safe d (fun _ => True) (Eval.binary title op u v) := fun u v =>
    (Safe.binary (Demand.of_none hd)).mono fun _ _ => trivial
  refine ⟨hsafe u v, hsafe u' v', fun hpre s s' hs out hout => ?_⟩
  obtain ⟨hno', w', hw', hw⟩ := h hpre
  cases hno : Value.exchanges op u v with
  | true =>
    -- the exchange is noted first, and notes stay
    refine .exchanged ?_
    rw [Eval.binary, hno, if_pos rfl] at hout
    have hnoted :
        d.Kept { s with trace := .exchange :: s.trace, stores := s.locals :: s.stores } :=
      ⟨hs.kept.memory, hs.kept.locals⟩
    exact ((hboxed _ _ hnoted).ends hout).2.1.trace.subset List.mem_cons_self
  | false =>
    obtain ⟨w, hvalue, hcounted⟩ := hw hno
    rw [Eval.binary, hno, hvalue] at hout
    rw [Eval.binary, hno', hw']
    obtain rfl : out = (.ok w, s) := hout
    exact .ok rfl rfl hcounted hs

theorem ring (title : String) (op : Ring) (hd : d.names = none) (hu : pre → u.Counted ρ u')
    (hv : pre → v.Counted ρ v') :
    Lockstep d ρ pre (Value.Counted ρ) (Eval.binary title (.arith (.ring op)) u v)
      (Eval.binary title (.arith (.ring op)) u' v') := by
  refine binary title _ hd fun hpre => ?_
  obtain ⟨a, hua, rfl⟩ := hu hpre
  obtain ⟨b, hvb, rfl⟩ := hv hpre
  refine ⟨rfl, .int (op.onInt a b), rfl, fun hno => ?_⟩
  obtain ⟨w, hw, hcounts⟩ := Value.ring_counts title op hua hvb hno
  exact ⟨w, hw, _, hcounts, rfl⟩

theorem mod (title : String) (hd : d.names = none) (hu : pre → u.Counted ρ u') {n : Int}
    (hn : 0 < n) :
    Lockstep d ρ pre (Value.Counted ρ) (Eval.binary title (.arith .mod) u (.int n))
      (Eval.binary title (.arith .mod) u' (.int n)) := by
  refine binary title _ hd fun hpre => ?_
  obtain ⟨a, hua, rfl⟩ := hu hpre
  refine ⟨rfl, .int (a.fmod n), Value.mod_int title a (Int.ne_of_gt hn), fun _ => ?_⟩
  obtain ⟨w, hw, hcounts⟩ := Value.mod_counts title hua hn
  exact ⟨w, hw, _, hcounts, rfl⟩

theorem neg (hu : pre → u.Counted ρ u') :
    Lockstep d ρ pre (Value.Counted ρ) (Eval.ofExcept (Value.unary .neg u))
      (Eval.ofExcept (Value.unary .neg u')) := by
  refine ⟨.ofExcept fun _ _ => trivial, .ofExcept fun _ _ => trivial, fun hpre => ?_⟩
  obtain ⟨a, hua, rfl⟩ := hu hpre
  obtain ⟨w, hw, hcounts⟩ := Value.neg_counts hua
  rw [hw]
  exact (pure fun _ => ⟨-a, hcounts, rfl⟩).agree trivial

theorem truth (hd : d.names = none) (hv : pre → v.Judged ρ v') :
    Lockstep d ρ pre (· = ·) v.truth v'.truth := by
  have hsafe : ∀ v : Value, Safe d (fun _ => True) v.truth := fun v =>
    .truth (Demand.of_none hd)
  refine ⟨hsafe v, hsafe v', fun hpre => ?_⟩
  cases hv hpre with
  | plain p => exact (pure fun _ => rfl).agree trivial
  | condition stamp p =>
    -- the one test of the interpreter: a truthful answer, or none at all
    rintro s s' hs out ⟨answer, rfl | rfl, hout⟩
    · obtain rfl : out = (.error .depthLimit, s) := hout
      exact .cut rfl hs.leads
    · obtain rfl : out = (.ok (p.eval ρ), s) := hout
      exact .ok rfl rfl rfl hs

end Operators

/-! ## Names -/

section Names

variable {owned : List String} {env : Env}

theorem readOwned (henv : env.Safe d owned) {x : String} (hx : x ∈ owned) :
    Lockstep d ρ pre (Value.Counted ρ) (env.read x) (env.read x) := by
  refine ofDone (henv.readAny x) (henv.readAny x) fun _ s s' hs => ?_
  simp only [Env.read_apply henv.frame, List.contains_iff_mem.mpr hx, if_true]
  have hrel := hs.locals x
  revert hrel
  cases s.locals.lookup x <;> cases s'.locals.lookup x <;> intro hrel
  · exact ⟨_, _, rfl, rfl, .fault rfl rfl hs⟩
  · cases hrel
  · cases hrel
  · cases hrel with
    | some h => exact ⟨_, _, rfl, rfl, .ok rfl rfl h hs⟩

/-- A name of the module has the same value in both computations. -/
theorem readGlobal (henv : env.Safe d owned) {x : String} (hx : x ∉ owned) :
    Lockstep d ρ pre (· = ·) (env.read x) (env.read x) := by
  refine ofDone (henv.readAny x) (henv.readAny x) fun _ s s' hs => ?_
  have hnot : ¬ owned.contains x = true := by simpa using hx
  simp only [Env.read_apply henv.frame, if_neg hnot, hs.kept.memory, hs.kept'.memory]
  cases d.memory.globals.lookup x with
  | some v => exact ⟨_, _, rfl, rfl, .ok rfl rfl rfl hs⟩
  | none =>
    obtain ⟨v, hv⟩ | ⟨f, hf⟩ := Env.always_cases x
    · exact ⟨_, _, congrFun hv s, congrFun hv s', .ok rfl rfl rfl hs⟩
    · exact ⟨_, _, congrFun hf s, congrFun hf s', .fault rfl rfl hs⟩

theorem write (hd : d.names = none) (henv : env.Safe d owned) {x : String} (hx : x ∈ owned)
    {v v' : Value} (hv : pre → v.Counted ρ v') :
    Lockstep d ρ pre (fun _ _ => True) (env.write x v) (env.write x v') := by
  have hsafe : ∀ v, Safe d (fun _ => True) (env.write x v) := fun v =>
    henv.write hx (Demand.of_none hd)
  have hset : ∀ v, env.write x v = Eval.setLocal x v := by
    intro v
    rw [Env.write, henv.frame]
    exact if_pos (List.contains_iff_mem.mpr hx)
  refine ofDone (hsafe v) (hsafe v') fun hpre s s' hs => ?_
  have hscope : ∀ locals, d.scope locals := fun _ _ _ => Demand.of_none hd
  rw [hset, hset]
  exact ⟨_, _, rfl, rfl, .ok rfl rfl trivial
    ⟨⟨hs.kept.memory, hscope _⟩, ⟨hs.kept'.memory, hscope _⟩, hs.locals.set (hv hpre) x,
      hs.output, hs.trace, hs.stores, hs.aligned⟩⟩

end Names

/-! ## Control -/

theorem cond {a b : Bool} {e e' : Eval α} (hab : pre → a = b) (hyes : Lockstep d ρ pre R c c')
    (hno : Lockstep d ρ pre R e e') :
    Lockstep d ρ pre R (if a then c else e) (if b then c' else e') := by
  refine ⟨?_, ?_, fun hpre => ?_⟩
  · cases a
    · exact hno.left
    · exact hyes.left
  · cases b
    · exact hno.right
    · exact hyes.right
  · obtain rfl := hab hpre
    cases a
    · exact hno.agree hpre
    · exact hyes.agree hpre

end Lockstep

end Eval

/-- Two flows of the same form, with related results. -/
inductive Flow.Paired (R : Value → Value → Prop) : Flow → Flow → Prop where
  | next : Paired R .next .next
  | exitLoop : Paired R .exitLoop .exitLoop
  | nextRound : Paired R .nextRound .nextRound
  | result {v w : Value} (h : R v w) : Paired R (.result v) (.result w)

section Loops

variable {d : Demand} {ρ : Valuation} {pre : Prop} {R : Value → Value → Prop}

/-- Go on from how a statement ended. -/
theorem Eval.Lockstep.bindFlow {β : Type} {S : β → β → Prop} {c c' : Eval Flow}
    {k : Flow → Eval β} (h : Eval.Lockstep d ρ pre (Flow.Paired R) c c')
    (hnext : Eval.Lockstep d ρ True S (k .next) (k .next))
    (hexit : Eval.Lockstep d ρ True S (k .exitLoop) (k .exitLoop))
    (hround : Eval.Lockstep d ρ True S (k .nextRound) (k .nextRound))
    (hresult : ∀ v w, Eval.Lockstep d ρ (R v w) S (k (.result v)) (k (.result w))) :
    Eval.Lockstep d ρ pre S (c >>= k) (c' >>= k) := by
  have hsafe : ∀ flow, Eval.Safe d (fun _ => True) (k flow) := by
    intro flow
    cases flow with
    | next => exact hnext.left
    | exitLoop => exact hexit.left
    | nextRound => exact hround.left
    | result v => exact (hresult v v).left
  refine h.bind fun flow flow' => ⟨hsafe flow, hsafe flow', ?_⟩
  rintro ⟨-, hflow⟩
  cases hflow with
  | next => exact hnext.agree trivial
  | exitLoop => exact hexit.agree trivial
  | nextRound => exact hround.agree trivial
  | result hR => exact (hresult _ _).agree hR

theorem Flow.loop_lockstep {test : Eval Bool} {body : Eval Flow}
    (htest : ∀ {pre}, Eval.Lockstep d ρ pre (· = ·) test test)
    (hbody : ∀ {pre}, Eval.Lockstep d ρ pre (Flow.Paired R) body body) (rounds : Nat) :
    Eval.Lockstep d ρ pre (Flow.Paired R) (loop test body rounds) (loop test body rounds) := by
  induction rounds generalizing pre with
  | zero => exact .throw fun _ => rfl
  | succ rounds ih =>
    refine htest.bind fun holds holds' => ?_
    refine (Eval.Lockstep.note fun h => congrArg Event.side h.2).bind fun _ _ => ?_
    refine .cond (fun h => h.1.2) ?_ (.pure fun _ => .next)
    exact hbody.bindFlow ih (.pure fun _ => .next) ih fun v w => .pure fun h => .result h

theorem Flow.range_lockstep {body : Int → Eval Flow}
    (hbody : ∀ {pre} i, Eval.Lockstep d ρ pre (Flow.Paired R) (body i) (body i)) (step : Int)
    (count : Nat) (i : Int) :
    Eval.Lockstep d ρ pre (Flow.Paired R) (range body step count i) (range body step count i) := by
  induction count generalizing pre i with
  | zero => exact .pure fun _ => .next
  | succ count ih =>
    exact (hbody i).bindFlow (ih _) (.pure fun _ => .next) (ih _) fun v w =>
      .pure fun h => .result h

end Loops

end Pathwise
