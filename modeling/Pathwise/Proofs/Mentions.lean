import Pathwise.Proofs.Transport

/-!
# The names that code mentions

What a piece of code does depends on the names that it mentions and on nothing else of its module.
If these names stand for values that are alike in two modules, the code runs alike in both.

* `Expr.uses`, `Block.uses` — the names that code mentions, and for what.
* `Expr.like`, `Block.like` — code runs alike where the names that it mentions are alike.
* `invoke_like` — calls of functions that stand for each other are alike.
-/

namespace Pathwise

/-! ## The names that code mentions -/

/-- For what a name is mentioned. -/
inductive Use where
  /-- To call what it stands for. -/
  | call
  /-- To take its value, or to see what class of faults it stands for. -/
  | value
  deriving DecidableEq

mutual

/-- The names that an expression mentions. -/
def Expr.uses : Expr → List (String × Use)
  | .literal _ | .unknown .. => []
  | .name x => [(x, .value)]
  | .binary _ a b | .compare _ a b | .and a b | .or a b => a.uses ++ b.uses
  | .unary _ a | .not a | .number a | .condition a | .termOf a | .formulaOf a | .negation a =>
    a.uses
  | .chain a links => a.uses ++ links.uses
  | .ite c a b => c.uses ++ a.uses ++ b.uses
  | .call f args => (f, .call) :: args.uses
  | .method a _ args => a.uses ++ args.uses

def Args.uses : Args → List (String × Use)
  | .nil => []
  | .cons a rest => a.uses ++ rest.uses

def Links.uses : Links → List (String × Use)
  | .last _ a => a.uses
  | .more _ a rest => a.uses ++ rest.uses

end

mutual

/-- The names that a statement mentions otherwise than to give them a value. -/
def Stmt.uses : Stmt → List (String × Use)
  | .assign _ e | .result (some e) | .discard e | .assert e _ => e.uses
  | .update x _ e => (x, .value) :: e.uses
  | .branch c yes no => c.uses ++ yes.uses ++ no.uses
  | .loop c body => c.uses ++ body.uses
  | .range _ bounds body => bounds.uses ++ body.uses
  | .raise c _ => [(c, .value)]
  | .attempt body c handler => (c, .value) :: (body.uses ++ handler.uses)
  | .result none | .print _ | .pass | .exitLoop | .nextRound | .declareGlobal _ => []

def Block.uses : Block → List (String × Use)
  | .done => []
  | .step _ s rest => s.uses ++ rest.uses

end

/-- What is mentioned belongs to the call or is among the given names of the module. -/
def UsesOnly (names : String → Prop) (owned : List String) (uses : List (String × Use)) : Prop :=
  ∀ u ∈ uses, u.1 ∈ owned ∨ names u.1

/-! ## Expressions -/

/-- Surroundings in calls that own the same names, where calls are alike. -/
structure Env.Like (L : Likeness) (owned : List String) (env env' : Env) : Prop where
  frame : env.frame = .call owned
  frame' : env'.frame = .call owned
  rounds : env.rounds = env'.rounds
  invoke : ∀ f f' vs vs', f.Like L.pairs f' → List.Forall₂ (Value.Like L.pairs) vs vs' →
    Eval.Like.value L (env.invoke f vs) (env'.invoke f' vs')

section Surroundings

variable {L : Likeness} {owned : List String} {env env' : Env}

theorem Env.Like.read (henv : env.Like L owned env') {x : String} (hx : x ∈ owned ∨ L.names x) :
    Eval.Like.value L (env.read x) (env'.read x) := by
  intro s s' hs
  rw [Env.read_apply henv.frame, Env.read_apply henv.frame']
  -- a name of the call is read from the states, any other one from the modules
  by_cases howned : x ∈ owned
  · rw [if_pos (List.contains_iff_mem.mpr howned), if_pos (List.contains_iff_mem.mpr howned)]
    have hrel := hs.locals x
    revert hrel
    cases s.locals.lookup x <;> cases s'.locals.lookup x <;> intro hrel <;> cases hrel
    · exact Eval.Like.throw rfl s s' hs
    · rename_i h
      exact Eval.Like.pure h s s' hs
  · have hnot : ¬ owned.contains x = true := by simpa using howned
    rw [if_neg hnot, if_neg hnot, hs.memory, hs.memory']
    have hrel := L.globals x (hx.resolve_left howned)
    revert hrel
    cases L.memory.globals.lookup x <;> cases L.memory'.globals.lookup x <;> intro hrel <;>
      cases hrel
    · -- a name of no variable means the same everywhere
      have halways : Eval.Like.value L (Env.always x) (Env.always x) := by
        unfold Env.always
        split
        · exact .pure (.builtin _)
        · split
          · exact .pure (.class x)
          · exact .throw rfl
      exact halways s s' hs
    · rename_i h
      exact Eval.Like.pure h s s' hs

theorem Env.Like.write (henv : env.Like L owned env') {x : String} (hx : x ∈ owned)
    {v v' : Value} (hv : v.Like L.pairs v') :
    Eval.Like L (fun _ _ => True) (env.write x v) (env'.write x v') := by
  have hset : ∀ {env : Env}, env.frame = .call owned → ∀ v, env.write x v = Eval.setLocal x v := by
    intro env hframe v
    rw [Env.write, hframe]
    exact if_pos (List.contains_iff_mem.mpr hx)
  rw [hset henv.frame, hset henv.frame']
  exact .setLocal x hv

theorem Env.Like.faultClass (henv : env.Like L owned env') {x : String}
    (hx : x ∈ owned ∨ L.names x) (otherwise : Fault) :
    Eval.Like L (· = ·) (env.faultClass x otherwise) (env'.faultClass x otherwise) := by
  refine (henv.read hx).bind fun v v' hv => ?_
  cases hv with
  | «class» c =>
    dsimp only
    split
    · exact .pure rfl
    · exact .throw rfl
  | _ => exact .throw rfl

end Surroundings

/-- All uses of an expression are alike. -/
structure Meaning.Like (L : Likeness) (m m' : Meaning) : Prop where
  value : Eval.Like.value L m.value m'.value
  truth : Eval.Like L (· = ·) m.truth m'.truth
  tested : Eval.Like L (fun p p' => p.1.Like L.pairs p'.1 ∧ p.2 = p'.2) m.tested m'.tested

theorem Meaning.Like.ofValue {L : Likeness} {c c' : Eval Value} (h : Eval.Like.value L c c') :
    (Meaning.ofValue c).Like L (Meaning.ofValue c') where
  value := h
  truth := h.bind fun _ _ hv => .truth hv
  tested := h.bind fun _ _ hv => (Eval.Like.truth hv).bind fun _ _ hb => .pure ⟨hv, hb⟩

section Expressions

variable {L : Likeness} {owned : List String} {env env' : Env}

mutual

theorem Expr.like (henv : env.Like L owned env') :
    (e : Expr) → UsesOnly L.names owned e.uses → (e.meaning env).Like L (e.meaning env')
  | .literal v, _ => .ofValue (.pure (.held _))
  | .name x, h => .ofValue (henv.read (h _ List.mem_cons_self))
  | .binary op a b, h => by
    obtain ⟨ha, hb⟩ := List.forall_mem_append.mp h
    exact .ofValue <| (Expr.like henv a ha).value.bind fun u u' hu =>
      (Expr.like henv b hb).value.bind fun v v' hv => .binary _ op hu hv
  | .compare op a b, h => by
    obtain ⟨ha, hb⟩ := List.forall_mem_append.mp h
    exact .ofValue <| (Expr.like henv a ha).value.bind fun u u' hu =>
      (Expr.like henv b hb).value.bind fun v v' hv => .compare op hu hv
  | .unary op a, h =>
    .ofValue <| (Expr.like henv a h).value.bind fun u u' hu => .ofExcept (Value.unary_like op hu)
  | .not a, h => by
    have ha := Expr.like henv a h
    have hvalue : Eval.Like.value L
        (do return .bool !(← (← (a.meaning env).value).truth))
        (do return .bool !(← (← (a.meaning env').value).truth)) :=
      ha.value.bind fun u u' hu => (Eval.Like.truth hu).bind fun b b' hb => by
        subst hb
        exact .pure (.held _)
    have hnot := Meaning.Like.ofValue hvalue
    exact ⟨hnot.value, ha.truth.bind fun b b' hb => .pure (congrArg (!·) hb), hnot.tested⟩
  | .and a b, h => by
    obtain ⟨hua, hub⟩ := List.forall_mem_append.mp h
    have ha := Expr.like henv a hua
    have hb := Expr.like henv b hub
    -- one goal for each way to use the expression: its value, its truth, and both
    refine ⟨?_, ?_, ?_⟩
    · exact ha.tested.bind fun p p' hp => .cond hp.2 hb.value (.pure hp.1)
    · exact ha.truth.bind fun c c' hc => .cond hc hb.truth (.pure rfl)
    · exact ha.tested.bind fun p p' hp => .cond hp.2 hb.tested (.pure ⟨hp.1, rfl⟩)
  | .or a b, h => by
    obtain ⟨hua, hub⟩ := List.forall_mem_append.mp h
    have ha := Expr.like henv a hua
    have hb := Expr.like henv b hub
    refine ⟨?_, ?_, ?_⟩
    · exact ha.tested.bind fun p p' hp => .cond hp.2 (.pure hp.1) hb.value
    · exact ha.truth.bind fun c c' hc => .cond hc (.pure rfl) hb.truth
    · exact ha.tested.bind fun p p' hp => .cond hp.2 (.pure ⟨hp.1, rfl⟩) hb.tested
  | .chain a links, h => by
    obtain ⟨hua, hul⟩ := List.forall_mem_append.mp h
    have ha := (Expr.like henv a hua).value
    -- only the truth of a chain is found in a way of its own
    have hchain : Meaning.Like L _ _ := Meaning.Like.ofValue
      (ha.bind fun u u' hu => Links.like_value henv links hul hu)
    exact ⟨hchain.value, ha.bind fun u u' hu => Links.like_truth henv links hul hu, hchain.tested⟩
  | .ite c a b, h => by
    obtain ⟨huca, hub⟩ := List.forall_mem_append.mp h
    obtain ⟨huc, hua⟩ := List.forall_mem_append.mp huca
    have hc := (Expr.like henv c huc).truth
    have ha := Expr.like henv a hua
    have hb := Expr.like henv b hub
    have hite : Meaning.Like L _ _ := Meaning.Like.ofValue
      (hc.bind fun t t' ht => .cond ht ha.value hb.value)
    exact ⟨hite.value, hc.bind fun t t' ht => .cond ht ha.truth hb.truth, hite.tested⟩
  | .call f args, h => by
    obtain ⟨hf, hargs⟩ := List.forall_mem_cons.mp h
    exact .ofValue <| (henv.read hf).bind fun g g' hg =>
      (Args.like henv args hargs).bind fun vs vs' hvs => henv.invoke g g' vs vs' hg hvs
  | .unknown k x, _ =>
    .ofValue <| (Eval.Like.ofExceptSame _).bind fun _ _ _ => .pure (.number _)
  | .number a, h => .ofValue <| (Expr.like henv a h).value.bind fun u u' hu => by
    rw [hu.holdable]
    exact .made fun g => .pure (.number g)
  | .condition a, h => .ofValue <| (Expr.like henv a h).value.bind fun u u' hu => by
    rw [hu.holdable]
    exact .made .newCondition
  | .termOf a, h => .ofValue <| (Expr.like henv a h).value.bind fun u u' hu => .ofExcept hu.termOf
  | .formulaOf a, h => .ofValue <| (Expr.like henv a h).value.bind fun u u' hu => by
    rw [hu.formulaOf]
    exact .made fun g => .pure (.held g)
  | .negation a, h => .ofValue <| (Expr.like henv a h).value.bind fun u u' hu => by
    rw [hu.formulaOf]
    exact .made fun g => .made .newCondition
  | .method a name args, h => by
    obtain ⟨ha, hargs⟩ := List.forall_mem_append.mp h
    exact .ofValue <| (Expr.like henv a ha).value.bind fun v v' hv =>
      (Args.like henv args hargs).bind fun vs vs' hvs => .callMethod hv name hvs

theorem Args.like (henv : env.Like L owned env') :
    (args : Args) → UsesOnly L.names owned args.uses →
      Eval.Like L (List.Forall₂ (Value.Like L.pairs)) (args.values env) (args.values env')
  | .nil, _ => .pure .nil
  | .cons a rest, h => by
    obtain ⟨ha, hrest⟩ := List.forall_mem_append.mp h
    exact (Expr.like henv a ha).value.bind fun v v' hv =>
      (Args.like henv rest hrest).bind fun vs vs' hvs => .pure (.cons hv hvs)

theorem Links.like_value (henv : env.Like L owned env') :
    (links : Links) → UsesOnly L.names owned links.uses → ∀ {u u' : Value}, u.Like L.pairs u' →
      Eval.Like.value L (links.value env u) (links.value env' u')
  | .last op a, h, u, u', hu => (Expr.like henv a h).value.bind fun v v' hv => .compare op hu hv
  | .more op a rest, h, u, u', hu => by
    obtain ⟨ha, hrest⟩ := List.forall_mem_append.mp h
    refine (Expr.like henv a ha).value.bind fun v v' hv => ?_
    refine (Eval.Like.compare op hu hv).bind fun c c' hc => ?_
    exact (Eval.Like.truth hc).bind fun b b' hb =>
      .cond hb (Links.like_value henv rest hrest hv) (.pure hc)

theorem Links.like_truth (henv : env.Like L owned env') :
    (links : Links) → UsesOnly L.names owned links.uses → ∀ {u u' : Value}, u.Like L.pairs u' →
      Eval.Like L (· = ·) (links.truth env u) (links.truth env' u')
  | .last op a, h, u, u', hu => (Expr.like henv a h).value.bind fun v v' hv =>
    (Eval.Like.compare op hu hv).bind fun c c' hc => .truth hc
  | .more op a rest, h, u, u', hu => by
    obtain ⟨ha, hrest⟩ := List.forall_mem_append.mp h
    refine (Expr.like henv a ha).value.bind fun v v' hv => ?_
    refine (Eval.Like.compare op hu hv).bind fun c c' hc => ?_
    exact (Eval.Like.truth hc).bind fun b b' hb =>
      .cond hb (Links.like_truth henv rest hrest hv) (.pure rfl)

end

end Expressions

/-! ## Statements -/

theorem Range.ofValues_congr {pairs : Nat → Nat → Prop} {vs vs' : List Value}
    (h : List.Forall₂ (Value.Like pairs) vs vs') : ofValues vs = ofValues vs' := by
  have hindices : vs.mapM Value.toIndex = vs'.mapM Value.toIndex := by
    induction h with
    | nil => rfl
    | cons hv _ ih => rw [List.mapM_cons, List.mapM_cons, hv.toIndex, ih]
  rw [ofValues, ofValues, hindices]

section Statements

variable {L : Likeness} {owned : List String} {env env' : Env}

/-- Statements end in the same way, with results that are alike. -/
abbrev Eval.Like.flow (L : Likeness) (c c' : Eval Flow) : Prop :=
  Eval.Like L (Flow.Paired (Value.Like L.pairs)) c c'

theorem Flow.loop_like {test test' : Eval Bool} {body body' : Eval Flow}
    (htest : Eval.Like L (· = ·) test test') (hbody : Eval.Like.flow L body body') (rounds : Nat) :
    Eval.Like.flow L (loop test body rounds) (loop test' body' rounds) := by
  induction rounds with
  | zero => exact .throw rfl
  | succ rounds ih =>
    refine htest.bind fun holds holds' hholds => ?_
    subst hholds
    refine (Eval.Like.note _).bind fun _ _ _ => .cond rfl ?_ (.pure .next)
    refine hbody.bind fun flow flow' hflow => ?_
    cases hflow with
    | next => exact ih
    | exitLoop => exact .pure .next
    | nextRound => exact ih
    | result hv => exact .pure (.result hv)

theorem Flow.range_like {body body' : Int → Eval Flow}
    (hbody : ∀ i, Eval.Like.flow L (body i) (body' i)) (step : Int) (count : Nat) (i : Int) :
    Eval.Like.flow L (range body step count i) (range body' step count i) := by
  induction count generalizing i with
  | zero => exact .pure .next
  | succ count ih =>
    refine (hbody i).bind fun flow flow' hflow => ?_
    cases hflow with
    | next => exact ih _
    | exitLoop => exact .pure .next
    | nextRound => exact ih _
    | result hv => exact .pure (.result hv)

theorem Eval.attempt_like (henv : env.Like L owned env') {body body' handler handler' : Eval Flow}
    {c : String} (hc : c ∈ owned ∨ L.names c) (hbody : Eval.Like.flow L body body')
    (hhandler : Eval.Like.flow L handler handler') :
    Eval.Like.flow L (Eval.attempt env body c handler) (Eval.attempt env' body' c handler') := by
  refine hbody.tryCatch fun f => ?_
  -- a run without end is never caught; any other fault is compared with the class that is named
  cases f with
  | endless => exact .throw rfl
  | _ =>
    refine (henv.faultClass hc _).bind fun c c' hcc => ?_
    subst hcc
    exact .cond rfl hhandler (.throw rfl)

mutual

theorem Stmt.like (henv : env.Like L owned env') :
    (s : Stmt) → (∀ x ∈ s.assigned, x ∈ owned) → UsesOnly L.names owned s.uses →
      Eval.Like.flow L (s.exec env) (s.exec env')
  | .assign x e, hx, h =>
    (Expr.like henv e h).value.bind fun v v' hv =>
      (henv.write (hx x List.mem_cons_self) hv).bind fun _ _ _ => .pure .next
  | .update x op e, hx, h => by
    obtain ⟨hread, he⟩ := List.forall_mem_cons.mp h
    refine (henv.read hread).bind fun u u' hu => ?_
    refine (Expr.like henv e he).value.bind fun v v' hv => ?_
    refine (Eval.Like.binary _ op hu hv).bind fun w w' hw => ?_
    exact (henv.write (hx x List.mem_cons_self) hw).bind fun _ _ _ => .pure .next
  | .branch c yes no, hx, h => by
    obtain ⟨hxyes, hxno⟩ := List.forall_mem_append.mp hx
    obtain ⟨hcyes, hno⟩ := List.forall_mem_append.mp h
    obtain ⟨hc, hyes⟩ := List.forall_mem_append.mp hcyes
    refine (Expr.like henv c hc).truth.bind fun holds holds' hholds => ?_
    subst hholds
    exact (Eval.Like.note _).bind fun _ _ _ =>
      .cond rfl (Block.like henv yes hxyes hyes) (Block.like henv no hxno hno)
  | .loop c body, hx, h => by
    obtain ⟨hc, hbody⟩ := List.forall_mem_append.mp h
    -- both loops may go through the same number of rounds
    have hloop := Flow.loop_like (Expr.like henv c hc).truth (Block.like henv body hx hbody)
      env.rounds
    rw [Stmt.exec, Stmt.exec, ← henv.rounds]
    exact hloop
  | .range x bounds body, hx, h => by
    obtain ⟨hxown, hxbody⟩ := List.forall_mem_cons.mp hx
    obtain ⟨hbounds, hbody⟩ := List.forall_mem_append.mp h
    refine (Args.like henv bounds hbounds).bind fun vs vs' hvs => ?_
    rw [Range.ofValues_congr hvs]
    refine (Eval.Like.ofExceptSame _).bind fun r r' hr => ?_
    subst hr
    refine Flow.range_like (fun i => ?_) _ _ _
    exact (henv.write hxown (.held _)).bind fun _ _ _ => Block.like henv body hxbody hbody
  | .result none, _, _ => .pure (.result (.held _))
  | .result (some e), _, h => (Expr.like henv e h).value.bind fun _ _ hv => .pure (.result hv)
  | .discard e, _, h => (Expr.like henv e h).value.bind fun _ _ _ => .pure .next
  | .print text, _, _ => (Eval.Like.print text).bind fun _ _ _ => .pure .next
  | .raise c text, _, h => by
    rw [Stmt.exec_raise, Stmt.exec_raise]
    exact (henv.read (h _ List.mem_cons_self)).bind fun v v' hv => .throw (hv.raising text)
  | .assert e text, _, h =>
    (Expr.like henv e h).truth.bind fun _ _ hb => .cond hb (.pure .next) (.throw rfl)
  | .pass, _, _ => .pure .next
  | .exitLoop, _, _ => .pure .exitLoop
  | .nextRound, _, _ => .pure .nextRound
  | .declareGlobal _, _, _ => .pure .next
  | .attempt body c handler, hx, h => by
    obtain ⟨hxbody, hxhandler⟩ := List.forall_mem_append.mp hx
    obtain ⟨hc, hblocks⟩ := List.forall_mem_cons.mp h
    obtain ⟨hbody, hhandler⟩ := List.forall_mem_append.mp hblocks
    exact Eval.attempt_like henv hc (Block.like henv body hxbody hbody)
      (Block.like henv handler hxhandler hhandler)

theorem Block.like (henv : env.Like L owned env') :
    (b : Block) → (∀ x ∈ b.assigned, x ∈ owned) → UsesOnly L.names owned b.uses →
      Eval.Like.flow L (b.exec env) (b.exec env')
  | .done, _, _ => .pure .next
  | .step line s rest, hx, h => by
    obtain ⟨hxs, hxrest⟩ := List.forall_mem_append.mp hx
    obtain ⟨hs, hrest⟩ := List.forall_mem_append.mp h
    refine (Eval.Like.note _).bind fun _ _ _ => ?_
    refine (Stmt.like henv s hxs hs).bind fun flow flow' hflow => ?_
    cases hflow with
    | next => exact Block.like henv rest hxrest hrest
    | exitLoop => exact .pure .exitLoop
    | nextRound => exact .pure .nextRound
    | result hv => exact .pure (.result hv)

end

end Statements

/-! ## Functions -/

/-- Parameters that differ at most in defaults that are alike. -/
structure Parameter.Like (pairs : Nat → Nat → Prop) (p p' : Parameter) : Prop where
  name : p.name = p'.name
  kind : p.kind = p'.kind
  default : Option.Rel (Value.Like pairs) p.default? p'.default?

/-- The same function in two modules: it assigns only what is its own, and the other names that it
mentions mean the same in both. -/
structure Function.Like (names : String → Prop) (pairs : Nat → Nat → Prop) (f f' : Function) :
    Prop where
  name : f.name = f'.name
  params : List.Forall₂ (Parameter.Like pairs) f.params f'.params
  body : f.body = f'.body
  globals : f.body.globals = []
  uses : UsesOnly names f.owned f.body.uses

theorem Parameter.Like.mono {pairs pairs' : Nat → Nat → Prop}
    (hsub : ∀ i j, pairs i j → pairs' i j) {p p' : Parameter} (h : p.Like pairs p') :
    p.Like pairs' p' :=
  ⟨h.name, h.kind, Value.rel_mono hsub h.default⟩

theorem Function.Like.mono {names : String → Prop} {pairs pairs' : Nat → Nat → Prop}
    (hsub : ∀ i j, pairs i j → pairs' i j) {f f' : Function} (h : f.Like names pairs f') :
    f.Like names pairs' f' :=
  ⟨h.name, h.params.imp fun _ _ hp => hp.mono hsub, h.body, h.globals, h.uses⟩

/-- Functions that stand for each other are alike. -/
def Likeness.Serves (L : Likeness) (functions functions' : List Function) : Prop :=
  ∀ i j, L.pairs i j → Option.Rel (Function.Like L.names L.pairs) functions[i]? functions'[j]?

section Binding

variable {pairs : Nat → Nat → Prop} {vs vs' : List Value} {ps ps' : List Parameter}
  {s s' : Scope}

theorem Scope.Like.isNone (h : s.Like pairs s') (x : String) :
    (s.lookup x).isNone = (s'.lookup x).isNone := by
  have hx := h x
  revert hx
  cases s.lookup x <;> cases s'.lookup x <;> intro hx <;> cases hx <;> rfl

theorem Scope.Like.append {t t' : Scope} (h : s.Like pairs s') (ht : t.Like pairs t') :
    Scope.Like pairs (s ++ t) (s' ++ t') := by
  intro x
  rw [List.lookup_append, List.lookup_append]
  have hx := h x
  revert hx
  cases s.lookup x <;> cases s'.lookup x <;> intro hx <;> cases hx
  · exact ht x
  · rename_i hv
    exact .some hv

theorem Scope.like_cons (h : s.Like pairs s') (x : String) {v v' : Value} (hv : v.Like pairs v') :
    Scope.Like pairs ((x, v) :: s) ((x, v') :: s') := by
  intro y
  rw [List.lookup_cons, List.lookup_cons]
  cases y == x with
  | true => exact .some hv
  | false => exact h y

theorem Scope.like_zip (h : List.Forall₂ (Value.Like pairs) vs vs') (names : List String) :
    Scope.Like pairs (names.zip vs) (names.zip vs') := by
  induction h generalizing names with
  | nil =>
    rw [List.zip_nil_right]
    exact fun _ => .none
  | cons hv _ ih =>
    cases names with
    | nil => exact fun _ => .none
    | cons y names => exact like_cons (ih names) y hv

namespace Parameter.Like

variable {p p' : Parameter}

theorem isNone (h : p.Like pairs p') : p.default?.isNone = p'.default?.isNone := by
  have hdefault := h.default
  revert hdefault
  cases p.default? <;> cases p'.default? <;> intro hdefault <;> cases hdefault <;> rfl

theorem names (h : List.Forall₂ (Parameter.Like pairs) ps ps') :
    ps.map Parameter.name = ps'.map Parameter.name := by
  induction h with
  | nil => rfl
  | cons hp _ ih => rw [List.map_cons, List.map_cons, hp.name, ih]

/-- What is picked out by something that can be seen. -/
theorem filter (h : List.Forall₂ (Parameter.Like pairs) ps ps') {test test' : Parameter → Bool}
    (htest : ∀ p p', p.Like pairs p' → test p = test' p') :
    List.Forall₂ (Parameter.Like pairs) (ps.filter test) (ps'.filter test') :=
  List.rel_filter (fun p p' hp => Bool.eq_iff_iff.mp (htest p p' hp)) h

theorem ofKind {f f' : Function} (h : List.Forall₂ (Parameter.Like pairs) f.params f'.params)
    (k : ParamKind) : List.Forall₂ (Parameter.Like pairs) (f.ofKind k) (f'.ofKind k) :=
  filter h fun p p' hp => by rw [hp.kind]

theorem positional {f f' : Function}
    (h : List.Forall₂ (Parameter.Like pairs) f.params f'.params) :
    List.Forall₂ (Parameter.Like pairs) f.positional f'.positional :=
  filter h fun p p' hp => by rw [hp.kind]

theorem missing (h : List.Forall₂ (Parameter.Like pairs) ps ps') (hs : s.Like pairs s') :
    Function.missing ps s = Function.missing ps' s' :=
  names (filter h fun p p' hp => by rw [hp.name, hs.isNone, hp.isNone])

theorem fill (h : List.Forall₂ (Parameter.Like pairs) ps ps') (hs : s.Like pairs s') :
    Scope.Like pairs (Function.fill ps s) (Function.fill ps' s') := by
  unfold Function.fill
  induction h generalizing s s' with
  | nil => exact hs
  | @cons p p' _ _ hp _ ih =>
    rw [List.foldl_cons, List.foldl_cons]
    refine ih ?_
    have hbound := hs p.name
    have hdefault := hp.default
    rw [← hp.name]
    revert hbound hdefault
    -- a default is taken only where nothing is bound, and that is so in both or in neither
    cases s.lookup p.name <;> cases s'.lookup p.name <;> intro hbound <;> cases hbound <;>
      cases p.default? <;> cases p'.default? <;> intro hdefault <;> cases hdefault
    · exact hs
    · rename_i hv
      exact hs.set hv _
    · exact hs
    · exact hs

/-- Every parameter is given a value that is the same for all of them. -/
theorem constant (h : List.Forall₂ (Parameter.Like pairs) ps ps') {v v' : Value}
    (hv : v.Like pairs v') :
    Scope.Like pairs (ps.map fun p => (p.name, v)) (ps'.map fun p => (p.name, v')) := by
  induction h with
  | nil => exact fun _ => .none
  | cons hp _ ih =>
    rw [List.map_cons, List.map_cons, hp.name]
    exact Scope.like_cons ih _ hv

end Parameter.Like

namespace Function

/-- What remains of binding when the keywords have been looked at. -/
def settle (f : Function) (args : List Value) (bound extra : Scope) :
    Except BindingFault Scope :=
  let positional := f.positional
  let keywordOnly := f.ofKind .keywordOnly
  if (f.ofKind .rest).isEmpty && positional.length < args.length then
    .error (.tooMany (positional.filter fun p => p.default?.isNone).length positional.length
      args.length (keywordOnly.filter fun p => (bound.lookup p.name).isSome).length)
  else if !(missing positional bound).isEmpty then .error (.missing (missing positional bound))
  else if !(missing keywordOnly bound).isEmpty then
    .error (.missingKeywords (missing keywordOnly bound))
  else
    .ok (fill (positional ++ keywordOnly) bound
      ++ (f.ofKind .rest).map (fun p => (p.name, .tuple (args.drop positional.length)))
      ++ (f.ofKind .keywords).map fun p => (p.name, .table extra))

theorem bind_eq_settle (f : Function) (args : List Value) (keywords : List (String × Value)) :
    f.bind args keywords =
      bindKeywords ((f.ofKind .positional ++ f.ofKind .keywordOnly).map Parameter.name)
          (!(f.ofKind .keywords).isEmpty) (f.refusal keywords) keywords
          ((f.positional.map Parameter.name).zip args) [] >>=
        fun out => f.settle args out.1 out.2 := by
  rfl

theorem settle_like {f f' : Function}
    (hparams : List.Forall₂ (Parameter.Like pairs) f.params f'.params)
    (hargs : List.Forall₂ (Value.Like pairs) vs vs') {bound bound' extra extra' : Scope}
    (hbound : bound.Like pairs bound') (hextra : extra.map Prod.fst = extra'.map Prod.fst) :
    Except.Like (Scope.Like pairs) (f.settle vs bound extra) (f'.settle vs' bound' extra') := by
  have hkind := Parameter.Like.ofKind hparams
  have hpositional := Parameter.Like.positional hparams
  have hrest := Eval.Like.isEmpty_congr (hkind .rest).length_eq
  have hleast := (Parameter.Like.filter hpositional fun p p' hp => hp.isNone).length_eq
  have hbinds : ∀ p p' : Parameter, p.Like pairs p' →
      (bound.lookup p.name).isSome = (bound'.lookup p'.name).isSome := by
    intro p p' hp
    rw [hp.name, ← Option.not_isNone, ← Option.not_isNone, hbound.isNone]
  have hgiven := (Parameter.Like.filter (hkind .keywordOnly) hbinds).length_eq
  unfold settle
  dsimp only
  -- all that decides about a fault can be seen, and so can what the fault says
  rw [hrest, hleast, hgiven, hargs.length_eq, hpositional.length_eq,
    Parameter.Like.missing hpositional hbound,
    Parameter.Like.missing (hkind .keywordOnly) hbound]
  split
  · exact .error _
  · split
    · exact .error _
    · split
      · exact .error _
      · refine .ok (.append (.append ?_ ?_) ?_)
        · exact Parameter.Like.fill
            (List.rel_append hpositional (hkind .keywordOnly)) hbound
        · exact Parameter.Like.constant (hkind .rest) (Value.like_tuple (List.forall₂_drop _ hargs))
        · exact Parameter.Like.constant (hkind .keywords) (.table hextra)

/-- Arguments that are alike are bound alike. -/
theorem bind_like {f f' : Function}
    (hparams : List.Forall₂ (Parameter.Like pairs) f.params f'.params)
    (hargs : List.Forall₂ (Value.Like pairs) vs vs') :
    Except.Like (Scope.Like pairs) (f.bind vs []) (f'.bind vs' []) := by
  rw [bind_eq_settle, bind_eq_settle]
  have hfirst := Scope.like_zip hargs (f.positional.map Parameter.name)
  rw [← Parameter.Like.names (Parameter.Like.positional hparams)]
  exact settle_like hparams hargs hfirst rfl

end Function

end Binding

/-! ## Calls -/

section Calls

variable {L : Likeness} {functions functions' : List Function} {rounds depth : Nat}

theorem Function.Like.owned {f f' : Function} (h : f.Like L.names L.pairs f') :
    f.owned = f'.owned := by
  unfold Function.owned
  rw [h.body, paramNames, paramNames, Parameter.Like.names h.params]

/-- Calls of functions that stand for each other are alike if their arguments are bound alike and
the calls inside of them are alike. -/
theorem invoke_function_like (hserves : L.Serves functions functions')
    (hinner : ∀ k, depth = k + 1 → ∀ g g' vs vs', Value.Like L.pairs g g' →
      List.Forall₂ (Value.Like L.pairs) vs vs' →
      Eval.Like.value L (invoke functions rounds k g vs []) (invoke functions' rounds k g' vs' []))
    {i j : Nat} (hij : L.pairs i j) {args args' : List Value}
    {keywords keywords' : List (String × Value)}
    (hbind : ∀ f f' : Function, functions[i]? = some f → functions'[j]? = some f' →
      f.Like L.names L.pairs f' →
      Except.Like (Scope.Like L.pairs) (f.bind args keywords) (f'.bind args' keywords')) :
    Eval.Like.value L (invoke functions rounds depth (.function i) args keywords)
      (invoke functions' rounds depth (.function j) args' keywords') := by
  unfold invoke
  have hrel := hserves i j hij
  dsimp only
  revert hrel
  -- both places hold a function or neither does, and both bindings succeed or fail alike
  cases hi : functions[i]? <;> cases hj : functions'[j]? <;> intro hrel <;> cases hrel
  · exact .throw rfl
  · rename_i f f' hf
    have hbound := hbind f f' hi hj hf
    dsimp only
    revert hbound
    cases f.bind args keywords <;> cases f'.bind args' keywords' <;> intro hbound <;>
      cases hbound
    · exact .throw (by rw [hf.name])
    · rename_i locals locals' hlocals
      cases depth with
      | zero => exact .throw rfl
      | succ k =>
        -- the body is the same code, run in surroundings that are alike
        have henv : Env.Like L f.owned
            ⟨.call f.owned, rounds, fun g vs => invoke functions rounds k g vs []⟩
            ⟨.call f'.owned, rounds, fun g vs => invoke functions' rounds k g vs []⟩ :=
          ⟨rfl, by rw [hf.owned], rfl, hinner k rfl⟩
        have hbody := Block.like henv f.body (Function.assigned_subset_owned hf.globals) hf.uses
        dsimp only
        rw [← hf.body]
        refine .within hlocals (hbody.bind fun flow flow' hflow => .pure ?_)
        cases hflow with
        | result hv => exact hv
        | _ => exact .held _

theorem invoke_like_of_inner (hserves : L.Serves functions functions')
    (hinner : ∀ k, depth = k + 1 → ∀ g g' vs vs', Value.Like L.pairs g g' →
      List.Forall₂ (Value.Like L.pairs) vs vs' →
      Eval.Like.value L (invoke functions rounds k g vs []) (invoke functions' rounds k g' vs' []))
    {callee callee' : Value} (hcallee : callee.Like L.pairs callee') {args args' : List Value}
    (hargs : List.Forall₂ (Value.Like L.pairs) args args') :
    Eval.Like.value L (invoke functions rounds depth callee args [])
      (invoke functions' rounds depth callee' args' []) := by
  cases hcallee with
  | function hij =>
    exact invoke_function_like hserves hinner hij fun f f' _ _ hf =>
      Function.bind_like hf.params hargs
  | builtin b =>
    unfold invoke
    exact .builtin b hargs
  | «class» c =>
    unfold invoke
    rw [Eval.Like.isEmpty_congr hargs.length_eq]
    refine .cond rfl (Eval.Like.fresh.bind fun n n' hn => ?_) (.throw rfl)
    subst hn
    exact .pure (.object n c)
  | _ =>
    unfold invoke
    exact .throw rfl

/-- Calls of values that are alike are alike, to any depth. -/
theorem invoke_like (hserves : L.Serves functions functions') (rounds depth : Nat)
    {callee callee' : Value} (hcallee : callee.Like L.pairs callee') {args args' : List Value}
    (hargs : List.Forall₂ (Value.Like L.pairs) args args') :
    Eval.Like.value L (invoke functions rounds depth callee args [])
      (invoke functions' rounds depth callee' args' []) := by
  -- by induction on how deep calls may go: the calls inside of a call have one level less
  induction depth generalizing callee callee' args args' with
  | zero => exact invoke_like_of_inner hserves (fun k hk => by cases hk) hcallee hargs
  | succ depth ih =>
    refine invoke_like_of_inner hserves ?_ hcallee hargs
    rintro k ⟨rfl⟩ g g' vs vs' hg hvs
    exact ih hg hvs

end Calls

end Pathwise
