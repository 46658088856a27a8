import Pathwise.Proofs.Fragment
import Pathwise.Proofs.Lockstep

/-!
# Code of the fragment runs in lockstep

Every form of the fragment does the same on unknowns as on the integers behind them. The proof
follows the syntax, and calls are compared by induction on their depth.

* `Expr.number_lockstep`, `Expr.condition_lockstep` — arithmetic and conditions.
* `Stmt.lockstep`, `Block.lockstep` — statements.
* `Module.Agrees.lockstep` — calls.
-/

namespace Pathwise

/-- How results of a function on unknowns and on integers are related, by their use. -/
def Yield.Related (ρ : Valuation) : Yield → Value → Value → Prop
  | .number => Value.Counted ρ
  | .truth => Value.Judged ρ
  | .nothing => fun v w => v.Counted ρ w ∨ v.Judged ρ w

/-- Surroundings in which calls on unknowns and on integers are in lockstep. -/
structure Env.Lockstep (d : Demand) (ρ : Valuation) (yields : String → Yield → Bool)
    (owned : List String) (env : Env) : Prop where
  safe : env.Safe d owned
  plain : d.names = none
  call : ∀ x y, yields x y = true → ∃ v, d.memory.globals.lookup x = some v ∧
    ∀ {pre : Prop} vs ws, (pre → List.Forall₂ (Value.Counted ρ) vs ws) →
      Eval.Lockstep d ρ pre (y.Related ρ) (env.invoke v vs) (env.invoke v ws)

section Surroundings

variable {d : Demand} {ρ : Valuation} {yields : String → Yield → Bool} {owned : List String}
  {env : Env} {pre : Prop}

/-- Computations are in lockstep if they do what computations in lockstep do. -/
theorem Eval.Lockstep.congr {α : Type} {R : α → α → Prop} {c c' e e' : Eval α}
    (h : Eval.Lockstep d ρ pre R e e') (hc : ∀ s, d.Kept s → c s = e s)
    (hc' : ∀ s, d.Kept s → c' s = e' s) : Eval.Lockstep d ρ pre R c c' := by
  refine ⟨fun s hs => ?_, fun s hs => ?_, fun hpre s s' hs => ?_⟩
  · rw [hc s hs]
    exact h.left s hs
  · rw [hc' s hs]
    exact h.right s hs
  · rw [hc s hs.kept, hc' s' hs.kept']
    exact h.agree hpre s s' hs

/-- A name of the module for something is read as that. -/
theorem Env.Safe.read_bind {α : Type} (henv : env.Safe d owned) {x : String} {v : Value}
    (hx : x ∉ owned) (hv : d.memory.globals.lookup x = some v) (k : Value → Eval α) {s : State}
    (hs : d.Kept s) : (env.read x >>= k) s = k v s := by
  rw [Eval.bind_apply, Env.read_apply henv.frame, if_neg (by simpa using hx), hs.memory, hv]
  rfl

/-- A call for a use. -/
theorem Env.Lockstep.invoke (henv : env.Lockstep d ρ yields owned) {f : String} {y : Yield}
    (hf : callsFor yields owned f y = true) {args : Args}
    (hargs : Eval.Lockstep d ρ pre (List.Forall₂ (Value.Counted ρ)) (args.values env)
      (args.values env)) :
    Eval.Lockstep d ρ pre (y.Related ρ) ((Expr.call f args).meaning env).value
      ((Expr.call f args).meaning env).value := by
  obtain ⟨hnot, hyields⟩ := Bool.and_eq_true_iff.mp hf
  obtain ⟨v, hv, hcall⟩ := henv.call f y hyields
  have hread : ∀ s, d.Kept s → ((Expr.call f args).meaning env).value s =
      (args.values env >>= fun vs => env.invoke v vs) s := fun s hs =>
    henv.safe.read_bind (by simpa using hnot) hv _ hs
  exact (hargs.bind fun vs ws => hcall vs ws fun h => h.2).congr hread hread

mutual

theorem Expr.number_lockstep (henv : env.Lockstep d ρ yields owned) {pre : Prop} :
    (e : Expr) → e.isNumber yields owned = true →
      Eval.Lockstep d ρ pre (Value.Counted ρ) (e.meaning env).value (e.meaning env).value
  | .literal (.int n), _ => .pure fun _ => Value.counted_int ρ n
  | .name x, h => .readOwned henv.safe (List.contains_iff_mem.mp h)
  | .unary .neg a, h => (Expr.number_lockstep henv a h).bind fun u u' => .neg fun h => h.2
  | .binary op a b, h => by
    simp only [Expr.isNumber, Bool.and_eq_true] at h
    refine (Expr.number_lockstep henv a h.1.2).bind fun u u' => ?_
    -- a divisor is a numeral and known before it is evaluated
    obtain ⟨r, rfl⟩ | ⟨n, hn, rfl, rfl⟩ := Binary.agreesBeside_cases h.1.1
    · exact (Expr.number_lockstep henv b h.2).bind fun v v' =>
        .ring _ r henv.plain (fun h => h.1.2) fun h => h.2
    · exact .mod _ henv.plain (fun h => h.2) hn
  | .call f args, h => by
    simp only [Expr.isNumber, Bool.and_eq_true] at h
    exact henv.invoke h.1 (Args.lockstep henv args h.2)

theorem Args.lockstep (henv : env.Lockstep d ρ yields owned) {pre : Prop} :
    (args : Args) → args.areNumbers yields owned = true →
      Eval.Lockstep d ρ pre (List.Forall₂ (Value.Counted ρ)) (args.values env) (args.values env)
  | .nil, _ => .pure fun _ => .nil
  | .cons a rest, h => by
    simp only [Args.areNumbers, Bool.and_eq_true] at h
    exact (Expr.number_lockstep henv a h.1).bind fun v v' =>
      (Args.lockstep henv rest h.2).bind fun vs vs' => .pure fun h => .cons h.1.2 h.2

end

theorem Links.value_lockstep (henv : env.Lockstep d ρ yields owned) :
    (links : Links) → links.areNumbers yields owned = true → ∀ {pre : Prop} {u u' : Value},
      (pre → u.Counted ρ u') →
      Eval.Lockstep d ρ pre (Value.Judged ρ) (links.value env u) (links.value env u')
  | .last op a, h, _, _, _, hu =>
    (Expr.number_lockstep henv a h).bind fun v v' =>
      .compare op henv.plain (fun h => hu h.1) fun h => h.2
  | .more op a rest, h, _, _, _, hu => by
    simp only [Links.areNumbers, Bool.and_eq_true] at h
    refine (Expr.number_lockstep henv a h.1).bind fun v v' => ?_
    refine (Eval.Lockstep.compare op henv.plain (fun h => hu h.1) fun h => h.2).bind fun c c' => ?_
    refine (Eval.Lockstep.truth henv.plain fun h => h.2).bind fun holds holds' => ?_
    exact .cond (fun h => h.2) (Links.value_lockstep henv rest h.2 fun h => h.1.1.2)
      (.pure fun h => h.1.2)

theorem Links.truth_lockstep (henv : env.Lockstep d ρ yields owned) :
    (links : Links) → links.areNumbers yields owned = true → ∀ {pre : Prop} {u u' : Value},
      (pre → u.Counted ρ u') →
      Eval.Lockstep d ρ pre (· = ·) (links.truth env u) (links.truth env u')
  | .last op a, h, _, _, _, hu => by
    refine (Expr.number_lockstep henv a h).bind fun v v' => ?_
    exact (Eval.Lockstep.compare op henv.plain (fun h => hu h.1) fun h => h.2).bind fun c c' =>
      .truth henv.plain fun h => h.2
  | .more op a rest, h, _, _, _, hu => by
    simp only [Links.areNumbers, Bool.and_eq_true] at h
    refine (Expr.number_lockstep henv a h.1).bind fun v v' => ?_
    refine (Eval.Lockstep.compare op henv.plain (fun h => hu h.1) fun h => h.2).bind fun c c' => ?_
    refine (Eval.Lockstep.truth henv.plain fun h => h.2).bind fun holds holds' => ?_
    exact .cond (fun h => h.2) (Links.truth_lockstep henv rest h.2 fun h => h.1.1.2)
      (.pure fun _ => rfl)

/-- All uses of a condition are in lockstep. -/
structure Meaning.Lockstep (d : Demand) (ρ : Valuation) (m : Meaning) : Prop where
  value : ∀ {pre : Prop}, Eval.Lockstep d ρ pre (Value.Judged ρ) m.value m.value
  truth : ∀ {pre : Prop}, Eval.Lockstep d ρ pre (· = ·) m.truth m.truth
  tested : ∀ {pre : Prop},
    Eval.Lockstep d ρ pre (fun out out' => out.1.Judged ρ out'.1 ∧ out.2 = out'.2) m.tested m.tested

theorem Meaning.Lockstep.ofValue (hd : d.names = none) {c : Eval Value}
    (h : ∀ {pre : Prop}, Eval.Lockstep d ρ pre (Value.Judged ρ) c c) :
    (Meaning.ofValue c).Lockstep d ρ where
  value := h
  truth := h.bind fun _ _ => .truth hd fun h => h.2
  tested := h.bind fun _ _ => (Eval.Lockstep.truth hd fun h => h.2).bind fun _ _ =>
    .pure fun h => ⟨h.1.2, h.2⟩

theorem Expr.condition_lockstep (henv : env.Lockstep d ρ yields owned) :
    (e : Expr) → e.isCondition yields owned = true → (e.meaning env).Lockstep d ρ
  | .literal (.bool b), _ => .ofValue henv.plain (.pure fun _ => .plain (.bool b))
  | .compare op a b, h => by
    simp only [Expr.isCondition, Bool.and_eq_true] at h
    refine .ofValue henv.plain ?_
    exact (Expr.number_lockstep henv a h.1).bind fun u u' =>
      (Expr.number_lockstep henv b h.2).bind fun v v' =>
        .compare op henv.plain (fun h => h.1.2) fun h => h.2
  | .chain a links, h => by
    simp only [Expr.isCondition, Bool.and_eq_true] at h
    have hvalue : ∀ {pre : Prop}, Eval.Lockstep d ρ pre (Value.Judged ρ)
        ((a.meaning env).value >>= fun u => links.value env u)
        ((a.meaning env).value >>= fun u => links.value env u) :=
      (Expr.number_lockstep henv a h.1).bind fun u u' =>
        Links.value_lockstep henv links h.2 fun h => h.2
    refine ⟨hvalue, ?_, (Meaning.Lockstep.ofValue henv.plain hvalue).tested⟩
    exact (Expr.number_lockstep henv a h.1).bind fun u u' =>
      Links.truth_lockstep henv links h.2 fun h => h.2
  | .not a, h => by
    have ha := Expr.condition_lockstep henv a h
    have hvalue : ∀ {pre : Prop}, Eval.Lockstep d ρ pre (Value.Judged ρ)
        ((Expr.not a).meaning env).value ((Expr.not a).meaning env).value :=
      ha.value.bind fun u u' => (Eval.Lockstep.truth henv.plain fun h => h.2).bind fun b b' =>
        .pure fun h => h.2 ▸ .plain _
    exact ⟨hvalue, ha.truth.bind fun b b' => .pure fun h => congrArg Bool.not h.2,
      (Meaning.Lockstep.ofValue henv.plain hvalue).tested⟩
  | .and a b, h => by
    simp only [Expr.isCondition, Bool.and_eq_true] at h
    have ha := Expr.condition_lockstep henv a h.1
    have hb := Expr.condition_lockstep henv b h.2
    refine ⟨ha.tested.bind fun out out' => ?_, ha.truth.bind fun holds holds' => ?_,
      ha.tested.bind fun out out' => ?_⟩
    · exact .cond (fun h => h.2.2) hb.value (.pure fun h => h.2.1)
    · exact .cond (fun h => h.2) hb.truth (.pure fun _ => rfl)
    · exact .cond (fun h => h.2.2) hb.tested (.pure fun h => ⟨h.2.1, rfl⟩)
  | .or a b, h => by
    simp only [Expr.isCondition, Bool.and_eq_true] at h
    have ha := Expr.condition_lockstep henv a h.1
    have hb := Expr.condition_lockstep henv b h.2
    refine ⟨ha.tested.bind fun out out' => ?_, ha.truth.bind fun holds holds' => ?_,
      ha.tested.bind fun out out' => ?_⟩
    · exact .cond (fun h => h.2.2) (.pure fun h => h.2.1) hb.value
    · exact .cond (fun h => h.2) (.pure fun _ => rfl) hb.truth
    · exact .cond (fun h => h.2.2) (.pure fun h => ⟨h.2.1, rfl⟩) hb.tested
  | .call f args, h => by
    simp only [Expr.isCondition, Bool.and_eq_true] at h
    exact .ofValue henv.plain (henv.invoke h.1 (Args.lockstep henv args h.2))

/-- An expression of the fragment whose value is used for nothing. -/
theorem Expr.lockstep (henv : env.Lockstep d ρ yields owned) {e : Expr}
    (h : e.agrees yields owned = true) :
    Eval.Lockstep d ρ pre (Yield.nothing.Related ρ) (e.meaning env).value (e.meaning env).value := by
  rcases Expr.agrees_iff.mp h with h | h | h
  · exact (Expr.number_lockstep henv e h).mono fun _ _ => .inl
  · exact (Expr.condition_lockstep henv e h).value.mono fun _ _ => .inr
  · unfold Expr.isCall at h
    split at h
    · rw [Bool.and_eq_true] at h
      exact henv.invoke h.1 (Args.lockstep henv _ h.2)
    · cases h

/-- Returning without a value. -/
theorem Yield.related_none {y : Yield} (h : y.admits yields owned none = true) :
    y.Related ρ .none .none := by
  cases y with
  | number => cases h
  | truth => exact .plain .none
  | nothing => exact .inr (.plain .none)

/-- A result of a function. -/
theorem Expr.result_lockstep (henv : env.Lockstep d ρ yields owned) {y : Yield} {e : Expr}
    (h : y.admits yields owned (some e) = true) :
    Eval.Lockstep d ρ pre (y.Related ρ) (e.meaning env).value (e.meaning env).value := by
  cases y with
  | number => exact Expr.number_lockstep henv e h
  | truth => exact (Expr.condition_lockstep henv e h).value
  | nothing => exact Expr.lockstep henv h

/-- The values of numerals. -/
theorem Args.values_of_areNumerals (env : Env) : (args : Args) → args.areNumerals = true →
    ∃ ns : List Int, args.values env = pure (ns.map .int)
  | .nil, _ => ⟨[], rfl⟩
  | .cons a rest, h => by
    simp only [Args.areNumerals, Bool.and_eq_true] at h
    obtain ⟨ns, hns⟩ := Args.values_of_areNumerals env rest h.2
    have hfirst : ∃ n : Int, (a.meaning env).value = pure (.int n) := by
      unfold Expr.isNumeral at h
      split at h
      · exact ⟨_, rfl⟩
      · exact ⟨_, rfl⟩
      · cases h.1
    obtain ⟨n, hn⟩ := hfirst
    refine ⟨n :: ns, ?_⟩
    rw [Args.values, hn, hns]
    rfl

/-- The fault of raising a value. -/
def Value.raising (text : Option String) : Value → Fault
  | .class c =>
    if Fault.classes.contains c then .raised c text
    else if text.isSome then .wrongCount (c ++ "() takes no arguments")
    else .notAnException
  | _ => .notAnException

theorem Stmt.exec_raise (env : Env) (c : String) (text : Option String) :
    (Stmt.raise c text).exec env = env.read c >>= fun v => throw (v.raising text) := by
  rw [Stmt.exec]
  congr 1
  funext v
  unfold Value.raising
  cases v with
  | «class» c =>
    dsimp only
    split
    · rfl
    · split <;> rfl
  | _ => rfl

theorem Stmt.raise_lockstep (henv : env.Lockstep d ρ yields owned) {R : Flow → Flow → Prop}
    (c : String) (text : Option String) :
    Eval.Lockstep d ρ pre R ((Stmt.raise c text).exec env) ((Stmt.raise c text).exec env) := by
  rw [Stmt.exec_raise]
  by_cases hc : c ∈ owned
  · refine (Eval.Lockstep.readOwned henv.safe hc).bind fun v w => .throw fun h => ?_
    -- a number is no class of faults, symbolic or not
    obtain ⟨-, i, hcounts, rfl⟩ := h
    cases hcounts <;> rfl
  · exact (Eval.Lockstep.readGlobal henv.safe hc).bind fun v w => .throw fun h => h.2 ▸ rfl

mutual

theorem Stmt.lockstep (henv : env.Lockstep d ρ yields owned) {y : Yield} {pre : Prop} :
    (s : Stmt) → s.agrees yields owned y = true →
      Eval.Lockstep d ρ pre (Flow.Paired (y.Related ρ)) (s.exec env) (s.exec env)
  | .assign x e, h => by
    simp only [Stmt.agrees, Bool.and_eq_true, List.contains_iff_mem] at h
    exact (Expr.number_lockstep henv e h.2).bind fun v v' =>
      (Eval.Lockstep.write henv.plain henv.safe h.1 fun h => h.2).bind fun _ _ =>
        .pure fun _ => .next
  | .update x op e, h => by
    simp only [Stmt.agrees, Bool.and_eq_true, List.contains_iff_mem] at h
    have hwrite : ∀ {pre : Prop} {w w' : Value}, (pre → w.Counted ρ w') →
        Eval.Lockstep d ρ pre (Flow.Paired (y.Related ρ))
          (env.write x w >>= fun _ => pure .next) (env.write x w' >>= fun _ => pure .next) :=
      fun hw => (Eval.Lockstep.write henv.plain henv.safe h.1.1 hw).bind fun _ _ =>
        .pure fun _ => .next
    refine (Eval.Lockstep.readOwned henv.safe h.1.1).bind fun u u' => ?_
    obtain ⟨r, rfl⟩ | ⟨n, hn, rfl, rfl⟩ := Binary.agreesBeside_cases h.1.2
    · exact (Expr.number_lockstep henv e h.2).bind fun v v' =>
        (Eval.Lockstep.ring _ r henv.plain (fun h => h.1.2) fun h => h.2).bind fun w w' =>
          hwrite fun h => h.2
    · exact (Eval.Lockstep.mod _ henv.plain (fun h => h.2) hn).bind fun w w' =>
        hwrite fun h => h.2
  | .branch c yes no, h => by
    simp only [Stmt.agrees, Bool.and_eq_true] at h
    refine (Expr.condition_lockstep henv c h.1.1).truth.bind fun holds holds' => ?_
    refine (Eval.Lockstep.note fun h => congrArg Event.side h.2).bind fun _ _ => ?_
    exact .cond (fun h => h.1.2) (Block.lockstep henv yes h.1.2) (Block.lockstep henv no h.2)
  | .loop c body, h => by
    simp only [Stmt.agrees, Bool.and_eq_true] at h
    exact Flow.loop_lockstep (Expr.condition_lockstep henv c h.1).truth
      (Block.lockstep henv body h.2) env.rounds
  | .range x bounds body, h => by
    simp only [Stmt.agrees, Bool.and_eq_true, List.contains_iff_mem] at h
    -- the bounds are numerals, so both sides run through the same integers
    obtain ⟨ns, hns⟩ := Args.values_of_areNumerals env bounds h.1.2
    rw [Stmt.exec, hns]
    show Eval.Lockstep d ρ pre _ (Eval.ofExcept (Range.ofValues (ns.map .int)) >>= _)
      (Eval.ofExcept (Range.ofValues (ns.map .int)) >>= _)
    cases Range.ofValues (ns.map .int) with
    | error f => exact .throw fun _ => rfl
    | ok r =>
      refine Flow.range_lockstep (fun i => ?_) r.step r.count r.first
      exact (Eval.Lockstep.write henv.plain henv.safe h.1.1 fun _ =>
        Value.counted_int ρ i).bind fun _ _ => Block.lockstep henv body h.2
  | .result none, h => .pure fun _ => .result (Yield.related_none h)
  | .result (some e), h =>
    (Expr.result_lockstep henv h).bind fun v v' => .pure fun h => .result h.2
  | .discard e, h => (Expr.lockstep henv h).bind fun v v' => .pure fun _ => .next
  | .print text, _ => (Eval.Lockstep.print text).bind fun _ _ => .pure fun _ => .next
  | .raise c text, _ => Stmt.raise_lockstep henv c text
  | .pass, _ => .pure fun _ => .next
  | .exitLoop, _ => .pure fun _ => .exitLoop
  | .nextRound, _ => .pure fun _ => .nextRound

theorem Block.lockstep (henv : env.Lockstep d ρ yields owned) {y : Yield} {pre : Prop} :
    (b : Block) → b.agrees yields owned y = true →
      Eval.Lockstep d ρ pre (Flow.Paired (y.Related ρ)) (b.exec env) (b.exec env)
  | .done, _ => .pure fun _ => .next
  | .step line s rest, h => by
    simp only [Block.agrees, Bool.and_eq_true] at h
    exact (Eval.Lockstep.note fun _ => rfl).bind fun _ _ =>
      (Stmt.lockstep henv s h.1).bindFlow (Block.lockstep henv rest h.2) (.pure fun _ => .exitLoop)
        (.pure fun _ => .nextRound) fun v w => .pure fun h => .result h

end

end Surroundings

/-! ## Calls -/

section Binding

variable {ρ : Valuation} {vs ws : List Value}

theorem Scope.counted_zip (h : List.Forall₂ (Value.Counted ρ) vs ws) (names : List String) :
    Scope.Counted ρ (names.zip vs) (names.zip ws) := by
  intro x
  induction h generalizing names with
  | nil =>
    rw [List.zip_nil_right]
    exact .none
  | cons hv _ ih =>
    cases names with
    | nil => exact .none
    | cons y names =>
      simp only [List.zip_cons_cons, List.lookup_cons]
      cases x == y with
      | true => exact .some hv
      | false => exact ih names

theorem Scope.Counted.isNone {s s' : Scope} (h : s.Counted ρ s') (x : String) :
    (s.lookup x).isNone = (s'.lookup x).isNone := by
  have hx := h x
  revert hx
  cases s.lookup x <;> cases s'.lookup x <;> intro hx <;> cases hx <;> rfl

namespace Function

theorem missing_congr {s s' : Scope} (h : s.Counted ρ s') (ps : List Parameter) :
    missing ps s = missing ps s' := by
  unfold missing
  simp only [h.isNone]

/-- Filling in defaults changes nothing where there are none. -/
theorem fill_of_plain {ps : List Parameter} (h : ∀ p ∈ ps, p.default? = none) (bound : Scope) :
    fill ps bound = bound := by
  unfold fill
  induction ps generalizing bound with
  | nil => rfl
  | cons p ps ih =>
    rw [List.foldl_cons]
    split
    · rename_i v _ hv
      rw [h p List.mem_cons_self] at hv
      cases hv
    · exact ih (fun q hq => h q (List.mem_cons_of_mem _ hq)) bound

/-- Plain positional parameters are all of one kind. -/
theorem ofKind_of_plain {f : Function}
    (h : ∀ p ∈ f.params, p.kind = .positional ∧ p.default? = none) (k : ParamKind) :
    f.ofKind k = if k = .positional then f.params else [] := by
  split
  · rename_i hk
    exact List.filter_eq_self.mpr fun p hp => by simp [(h p hp).1, hk]
  · rename_i hk
    exact List.filter_eq_nil_iff.mpr fun p hp => by simp [(h p hp).1, Ne.symm hk]

theorem positional_of_plain {f : Function}
    (h : ∀ p ∈ f.params, p.kind = .positional ∧ p.default? = none) : f.positional = f.params :=
  List.filter_eq_self.mpr fun p hp => by rw [(h p hp).1, ParamKind.byPosition]

/-- How plain positional parameters are bound: each to the argument at its place. -/
theorem bind_plain {f : Function}
    (h : ∀ p ∈ f.params, p.kind = .positional ∧ p.default? = none) (args : List Value) :
    f.bind args [] =
      if f.params.length < args.length then
        .error (.tooMany f.params.length f.params.length args.length 0)
      else if (missing f.params (f.paramNames.zip args)).isEmpty then .ok (f.paramNames.zip args)
      else .error (.missing (missing f.params (f.paramNames.zip args))) := by
  have hplain : (f.params.filter fun p => p.default?.isNone) = f.params :=
    List.filter_eq_self.mpr fun p hp => by simp [(h p hp).2]
  unfold bind
  simp only [ofKind_of_plain h, positional_of_plain h, reduceCtorEq, if_true, if_false]
  have hfill := fill_of_plain (fun p hp => (h p hp).2) (f.paramNames.zip args)
  have hnone : missing [] (f.paramNames.zip args) = [] := rfl
  simp only [bindKeywords, Bind.bind, Except.bind, ← paramNames.eq_def]
  by_cases hlong : f.params.length < args.length
  · simp [hlong, hplain, throw, throwThe, MonadExceptOf.throw]
  · by_cases hmissing : (missing f.params (f.paramNames.zip args)).isEmpty = true
    · simp [hlong, hmissing, hfill, hnone, Pure.pure, Except.pure]
    · simp [hlong, hmissing, throw, throwThe, MonadExceptOf.throw]

/-- Plain parameters are bound alike to arguments that stand for each other. -/
theorem bind_counted {f : Function}
    (hf : ∀ p ∈ f.params, p.kind = .positional ∧ p.default? = none)
    (h : List.Forall₂ (Value.Counted ρ) vs ws) :
    (∃ cause, f.bind vs [] = .error cause ∧ f.bind ws [] = .error cause) ∨
      ∃ s s', f.bind vs [] = .ok s ∧ f.bind ws [] = .ok s' ∧ s.Counted ρ s' := by
  have hscope := Scope.counted_zip h f.paramNames
  rw [bind_plain hf, bind_plain hf, h.length_eq, missing_congr hscope]
  split
  · exact .inl ⟨_, rfl, rfl⟩
  · split
    · exact .inr ⟨_, _, rfl, rfl, hscope⟩
    · exact .inl ⟨_, rfl, rfl⟩

end Function

theorem Value.exists_int_of_counted (h : List.Forall₂ (Value.Counted ρ) vs ws) :
    ∃ ns : List Int, ws = ns.map .int := by
  induction h with
  | nil => exact ⟨[], rfl⟩
  | cons hv _ ih =>
    obtain ⟨n, -, rfl⟩ := hv
    obtain ⟨ns, rfl⟩ := ih
    exact ⟨n :: ns, rfl⟩

end Binding

namespace Module

variable {m : Module} {uses : Nat → Yield → Bool} {ρ : Valuation}

/-- Where a function ends without a result, what it gives is as good as what it yields. -/
theorem Agrees.related_of_none (h : m.Agrees uses) {depth : Nat} {pre : Prop} {i : Nat} {y : Yield}
    {vs ws : List Value} (hi : uses i y = true)
    (hargs : pre → List.Forall₂ (Value.Counted ρ) vs ws) (hpre : pre) (s : State)
    (hs : (m.offer uses none).Kept s) (v w : Value)
    (hw : (Pathwise.invoke m.functions m.limits.rounds depth (.function i) ws []
      s).unanswered.1 = .ok w)
    (hvw : y.Related ρ v w ∨ (v = .none ∧ w = .none)) : y.Related ρ v w := by
  rcases hvw with hvw | ⟨rfl, rfl⟩
  · exact hvw
  · cases y with
    | number =>
      obtain ⟨ns, rfl⟩ := Value.exists_int_of_counted (hargs hpre)
      exact absurd hw (h.returns i hi depth ns s hs.memory)
    | truth => exact .plain .none
    | nothing => exact .inr (.plain .none)

/-- A call of a function of the fragment, if the calls inside of it are in lockstep. -/
theorem Agrees.lockstep_of_inner (h : m.Agrees uses) {depth : Nat}
    (hinner : ∀ k, depth = k + 1 → ∀ {pre : Prop} i y vs ws, uses i y = true →
      (pre → List.Forall₂ (Value.Counted ρ) vs ws) →
      Eval.Lockstep (m.offer uses none) ρ pre (y.Related ρ)
        (Pathwise.invoke m.functions m.limits.rounds k (.function i) vs [])
        (Pathwise.invoke m.functions m.limits.rounds k (.function i) ws []))
    {pre : Prop} {i : Nat} {y : Yield} {vs ws : List Value} (hi : uses i y = true)
    (hargs : pre → List.Forall₂ (Value.Counted ρ) vs ws) :
    Eval.Lockstep (m.offer uses none) ρ pre
      (fun v w => y.Related ρ v w ∨ (v = .none ∧ w = .none))
      (Pathwise.invoke m.functions m.limits.rounds depth (.function i) vs [])
      (Pathwise.invoke m.functions m.limits.rounds depth (.function i) ws []) := by
  have hserves := (h.serves none hi).functions
  have hcallable : (m.offer uses none).callable (.function i) := ⟨i, y, rfl, hi⟩
  have hsafe : ∀ vs, Eval.Safe (m.offer uses none) (fun _ => True)
      (Pathwise.invoke m.functions m.limits.rounds depth (.function i) vs []) := fun vs =>
    (invoke_safe hserves _ _ hcallable (fun _ _ => Demand.of_none rfl)
      Demand.scope_nil).mono fun _ _ => trivial
  refine .given (hsafe vs) (hsafe ws) fun hpre => ?_
  -- a call fails before its body for reasons that do not look at the values of the arguments
  unfold Pathwise.invoke
  dsimp only
  cases hf : m.functions[i]? with
  | none => exact .throw fun _ => rfl
  | some f =>
    obtain ⟨hparams, -, hbody⟩ := Function.agrees_iff.mp (h.agrees i y f hi hf)
    dsimp only
    obtain ⟨cause, hvs, hws⟩ | ⟨s, s', hvs, hws, hscope⟩ :=
      Function.bind_counted hparams (hargs hpre)
    · rw [hvs, hws]
      exact .throw fun _ => rfl
    · rw [hvs, hws]
      dsimp only
      cases depth with
      | zero => exact .throw fun _ => rfl
      | succ k =>
        -- inside of the body calls are one level further down
        have henv : Env.Lockstep (m.offer uses none) ρ (m.yields uses) f.owned
            ⟨.call f.owned, m.limits.rounds,
              fun g vs => Pathwise.invoke m.functions m.limits.rounds k g vs []⟩ := by
          refine ⟨⟨rfl, fun g vs hg hvs => invoke_safe hserves _ k hg hvs Demand.scope_nil⟩,
            rfl, ?_⟩
          intro x z hz
          unfold yields at hz
          split at hz
          · rename_i j hx
            exact ⟨.function j, hx, fun vs ws hpre => hinner k rfl j z vs ws hz hpre⟩
          · cases hz
        -- only a body that returns has a value
        have hnone : ∀ {pre : Prop}, Eval.Lockstep (m.offer uses none) ρ pre
            (fun v w => y.Related ρ v w ∨ (v = .none ∧ w = .none)) (pure .none) (pure .none) :=
          .pure fun _ => .inr ⟨rfl, rfl⟩
        exact .within rfl (fun _ => hscope) ((Block.lockstep henv f.body hbody).bindFlow hnone
          hnone hnone fun v w => .pure fun hvw => .inl hvw)

/-- Calls of functions of the fragment are in lockstep, to any depth. -/
theorem Agrees.lockstep (h : m.Agrees uses) (depth : Nat) {pre : Prop} {i : Nat} {y : Yield}
    {vs ws : List Value} (hi : uses i y = true)
    (hargs : pre → List.Forall₂ (Value.Counted ρ) vs ws) :
    Eval.Lockstep (m.offer uses none) ρ pre (y.Related ρ)
      (Pathwise.invoke m.functions m.limits.rounds depth (.function i) vs [])
      (Pathwise.invoke m.functions m.limits.rounds depth (.function i) ws []) := by
  induction depth generalizing pre i y vs ws with
  | zero =>
    refine (h.lockstep_of_inner ?_ hi hargs).strengthen (h.related_of_none hi hargs)
    intro k hk
    cases hk
  | succ depth ih =>
    refine (h.lockstep_of_inner ?_ hi hargs).strengthen (h.related_of_none hi hargs)
    rintro k ⟨rfl⟩ pre j z vs ws hj hargs
    exact ih hj hargs

end Module

end Pathwise
