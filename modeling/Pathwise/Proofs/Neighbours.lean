import Pathwise.Proofs.Loading
import Pathwise.Proofs.Mentions

/-!
# Programs that differ in some functions

A name reaches the names that its function mentions, those that their functions mention, and so on.
If two programs differ only in functions that a name does not reach, they load as modules in which
all that it reaches is alike, though functions may have different places in their tables.

* `Program.Reaches`, `Program.Neighbours` — names that are reached, and programs that differ in
  others.
* `Module.Alike` — modules in which given names stand for values that are alike.
* `Module.Alike.append`, `Module.Alike.beyond` — one step of loading that is seen, or not.
* `Module.load_alike` — neighbours load as modules that are alike.
-/

namespace Pathwise

/-! ## Programs that differ in some functions -/

/-- The names that belong to a call of a function. -/
def Definition.owned (d : Definition) : List String :=
  d.params.map Param.name ++ d.body.assigned.filter fun x => !d.body.globals.contains x

/-- The names that a function mentions without owning them, and those in its defaults. -/
def Definition.uses (d : Definition) : List (String × Use) :=
  (d.body.uses.filter fun u => !d.owned.contains u.1) ++
    d.params.flatMap fun q => (q.default?.map Expr.uses).getD []

namespace Program

/-- A function of a name mentions another name in one of the given uses, or the one is a further
name for the other. -/
def Refers (p : Program) (kinds : Use → Prop) (x y : String) : Prop :=
  (∃ d ∈ p.functions, d.name = x ∧ ∃ u ∈ d.uses, u.1 = y ∧ kinds u.2) ∨ (x, y) ∈ p.aliases

/-- What a name stands for mentions another name, directly or indirectly. -/
abbrev Reaches (p : Program) (kinds : Use → Prop) : String → String → Prop :=
  Relation.ReflTransGen (p.Refers kinds)

end Program

theorem Scope.names_set (s : Scope) (x : String) (v : Value) :
    (s.set x v).map Prod.fst =
      if x ∈ s.map Prod.fst then s.map Prod.fst else s.map Prod.fst ++ [x] := by
  induction s with
  | nil => simp [set]
  | cons e rest ih =>
    obtain ⟨y, w⟩ := e
    by_cases hy : y = x
    · simp [set, hy]
    · have hx : x ≠ y := fun h => hy h.symm
      simp only [set, if_neg hy, List.map_cons, ih, List.mem_cons, hx, false_or]
      split <;> simp

/-! ## Modules that are alike -/

namespace Module

/-- Two modules in which given names stand for values that are alike. -/
structure Alike (names : String → Prop) (pairs : Nat → Nat → Prop) (m m' : Module) : Prop where
  limits : m.limits = m'.limits
  stamp : m.memory.stamp = m'.memory.stamp
  unique : ∀ {i j i' j' : Nat}, pairs i j → pairs i' j' → (i = i' ↔ j = j')
  globals : ∀ x, names x →
    Option.Rel (Value.Like pairs) (m.memory.globals.lookup x) (m'.memory.globals.lookup x)
  functions : ∀ i j, pairs i j → ∃ f f', m.functions[i]? = some f ∧ m'.functions[j]? = some f' ∧
    f.Like names pairs f'

/-- A module that differs from another one only in names that are not seen, and in further
functions. -/
structure Beyond (names : String → Prop) (m m₁ : Module) : Prop where
  limits : m.limits = m₁.limits
  stamp : m.memory.stamp = m₁.memory.stamp
  globals : ∀ x, names x → m.memory.globals.lookup x = m₁.memory.globals.lookup x
  functions : m.functions <+: m₁.functions

namespace Beyond

variable {names : String → Prop} {m m₁ : Module}

theorem refl (m : Module) : m.Beyond names m := ⟨rfl, rfl, fun _ _ => rfl, List.prefix_rfl⟩

theorem define (h : m.Beyond names m₁) {x : String} (hx : ¬ names x) (v : Value) :
    m.Beyond names (m₁.define x v) where
  limits := h.limits
  stamp := h.stamp
  functions := h.functions
  globals y hy := by
    have hyx : y ≠ x := fun heq => hx (heq ▸ hy)
    exact (h.globals y hy).trans (Scope.lookup_set_of_ne _ _ hyx).symm

theorem append (m : Module) (fs : List Function) :
    m.Beyond names { m with functions := m.functions ++ fs } :=
  ⟨rfl, rfl, fun _ _ => rfl, List.prefix_append _ _⟩

end Beyond

/-- An assignment whose expression leaves the memory alone only defines its name. -/
theorem assign_eq_define {m : Module} {x : String} {e : Expr}
    (h : (m.run e.eval).2 = m.memory) : m.assign x e = (m.run e.eval).1.map (m.define x) := by
  have hsame : ({ m with memory := (m.run e.eval).2 } : Module) = m := by rw [h]
  show ((m.run e.eval).1 >>= fun v =>
    pure (Module.define { m with memory := (m.run e.eval).2 } x v)) = _
  rw [hsame]
  rfl

namespace Alike

variable {names : String → Prop} {pairs : Nat → Nat → Prop} {m m' m₁ m₁' : Module}

/-- What code sees of the two modules. -/
def likeness (h : Alike names pairs m m') : Likeness where
  memory := m.memory
  memory' := m'.memory
  names := names
  pairs := pairs
  unique := h.unique
  globals := h.globals

theorem serves (h : Alike names pairs m m') : h.likeness.Serves m.functions m'.functions := by
  intro i j hij
  obtain ⟨f, f', hf, hf', hlike⟩ := h.functions i j hij
  rw [hf, hf']
  exact .some hlike

theorem start (h : Alike names pairs m m') :
    (State.start m.memory).Like h.likeness (State.start m'.memory) :=
  ⟨rfl, rfl, fun _ => .none, h.stamp, rfl, rfl⟩

theorem invoke (h : Alike names pairs m m') {callee callee' : Value}
    (hcallee : callee.Like pairs callee') {args args' : List Value}
    (hargs : List.Forall₂ (Value.Like pairs) args args') :
    Eval.Like.value h.likeness (m.invoke callee args []) (m'.invoke callee' args' []) := by
  rw [Module.invoke, Module.invoke, ← h.limits]
  exact invoke_like h.serves _ _ hcallee hargs

/-- Code outside of all functions that mentions only the given names has values that are alike,
and leaves both memories as they are. -/
theorem run (h : Alike names pairs m m') {e : Expr} (he : UsesOnly names [] e.uses) :
    Except.Like (Value.Like pairs) (m.run e.eval).1 (m'.run e.eval).1 ∧
      (m.run e.eval).2 = m.memory ∧ (m'.run e.eval).2 = m'.memory := by
  have houter : m.outer.Like h.likeness [] m'.outer :=
    ⟨rfl, rfl, congrArg Limits.rounds h.limits, fun f f' vs vs' hf hvs => h.invoke hf hvs⟩
  have hrun := ((Expr.like houter e he).value _ _ h.start).unanswered
  exact ⟨hrun.1, hrun.2.memory, hrun.2.memory'⟩

/-- A name gets values that are alike, or is not one of those that are seen. -/
theorem define (h : Alike names pairs m m') (x : String) {v v' : Value}
    (hv : names x → v.Like pairs v') : Alike names pairs (m.define x v) (m'.define x v') where
  limits := h.limits
  stamp := h.stamp
  unique := h.unique
  functions := h.functions
  globals y hy := by
    show Option.Rel _ ((m.memory.globals.set x v).lookup y) ((m'.memory.globals.set x v').lookup y)
    by_cases hyx : y = x
    · subst hyx
      rw [Scope.lookup_set_self, Scope.lookup_set_self]
      exact .some (hv hy)
    · rw [Scope.lookup_set_of_ne _ _ hyx, Scope.lookup_set_of_ne _ _ hyx]
      exact h.globals y hy

theorem assign (h : Alike names pairs m m') {x : String} {e : Expr}
    (he : UsesOnly names [] e.uses) (hm : m.assign x e = .ok m₁) (hm' : m'.assign x e = .ok m₁') :
    Alike names pairs m₁ m₁' := by
  obtain ⟨hvalue, hmemory, hmemory'⟩ := h.run he
  rw [assign_eq_define hmemory] at hm
  rw [assign_eq_define hmemory'] at hm'
  obtain ⟨v, hv, rfl⟩ := Except.exists_of_map hm
  obtain ⟨v', hv', rfl⟩ := Except.exists_of_map hm'
  rw [hv, hv'] at hvalue
  refine h.define x fun _ => ?_
  cases hvalue with
  | ok hlike => exact hlike

/-- A function gets a new place in both tables and a name. -/
theorem append (h : Alike names pairs m m') (x : String) {f f' : Function}
    (hf : f.Like names pairs f') :
    Alike names (fun i j => pairs i j ∨ i = m.functions.length ∧ j = m'.functions.length)
      ({ m with functions := m.functions ++ [f] }.define x (.function m.functions.length))
      ({ m' with functions := m'.functions ++ [f'] }.define x (.function m'.functions.length)) := by
  -- the functions that were there have earlier places
  have hearlier : ∀ {i j : Nat}, pairs i j → i < m.functions.length ∧ j < m'.functions.length := by
    intro i j hij
    obtain ⟨g, g', hg, hg', -⟩ := h.functions i j hij
    exact ⟨(List.getElem?_eq_some_iff.mp hg).1, (List.getElem?_eq_some_iff.mp hg').1⟩
  have hnew : Alike names (fun i j => pairs i j ∨ i = m.functions.length ∧ j = m'.functions.length)
      { m with functions := m.functions ++ [f] } { m' with functions := m'.functions ++ [f'] } := by
    refine ⟨h.limits, h.stamp, ?_, ?_, ?_⟩
    · rintro i j i' j' (hij | ⟨rfl, rfl⟩) (hij' | ⟨rfl, rfl⟩)
      · exact h.unique hij hij'
      · have := hearlier hij
        omega
      · have := hearlier hij'
        omega
      · exact ⟨fun _ => rfl, fun _ => rfl⟩
    · exact fun y hy => Value.rel_mono (fun i j => Or.inl) (h.globals y hy)
    · rintro i j (hij | ⟨rfl, rfl⟩)
      · obtain ⟨g, g', hg, hg', hlike⟩ := h.functions i j hij
        obtain ⟨hi, hj⟩ := hearlier hij
        exact ⟨g, g', (List.getElem?_append_left hi).trans hg,
          (List.getElem?_append_left hj).trans hg', hlike.mono fun i j => Or.inl⟩
      · exact ⟨f, f', List.getElem?_concat_length, List.getElem?_concat_length,
          hf.mono fun i j => Or.inl⟩
  exact hnew.define x fun _ => .function (.inr ⟨rfl, rfl⟩)

end Alike

/-! ## Loading -/

section Loading

variable {names : String → Prop} {pairs : Nat → Nat → Prop} {m m' m₁ m₁' : Module}

/-- No name has two values. -/
def Distinct (m : Module) : Prop := (m.memory.globals.map Prod.fst).Nodup

theorem Distinct.define (h : m.Distinct) (x : String) (v : Value) : (m.define x v).Distinct := by
  show ((m.memory.globals.set x v).map Prod.fst).Nodup
  rw [Scope.names_set]
  split
  · exact h
  · rename_i hx
    exact List.nodup_append.mpr ⟨h, List.nodup_singleton x, fun y hy z hz => by
      obtain rfl := List.mem_singleton.mp hz
      exact fun hyz => hx (hyz ▸ hy)⟩

/-- Taking the value of a name leaves the memory as it is. -/
theorem run_name (m : Module) (x : String) : (m.run (Expr.name x).eval).2 = m.memory := by
  show (m.outer.read x (State.start m.memory)).unanswered.2.memory = m.memory
  rw [Env.read_apply rfl]
  cases (State.start m.memory).memory.globals.lookup x with
  | some v => rfl
  | none =>
    obtain ⟨v, hv⟩ | ⟨f, hf⟩ := Env.always_cases x
    · rw [hv]
      rfl
    · rw [hf]
      rfl

theorem addAlias_eq (m : Module) (new old : String) :
    m.addAlias new old = (m.run (Expr.name old).eval).1.map (m.define new) :=
  assign_eq_define (run_name m old)

/-- A parameter whose default mentions only names that are seen. -/
theorem Alike.parameter (h : Alike names pairs m m') {q : Param} {p p' : Parameter}
    (hq : ∀ e ∈ q.default?, UsesOnly names [] e.uses) (hp : m.parameter q = .ok p)
    (hp' : m'.parameter q = .ok p') : p.Like pairs p' := by
  unfold Module.parameter at hp hp'
  cases hdefault : q.default? with
  | none =>
    rw [hdefault] at hp hp'
    obtain rfl := Except.ok.inj hp
    obtain rfl := Except.ok.inj hp'
    exact ⟨rfl, rfl, .none⟩
  | some e =>
    rw [hdefault] at hp hp'
    obtain ⟨v, hv, hp⟩ := Except.exists_of_bind hp
    obtain ⟨v', hv', hp'⟩ := Except.exists_of_bind hp'
    obtain rfl := Except.ok.inj hp
    obtain rfl := Except.ok.inj hp'
    have hvalue := (h.run (hq e hdefault)).1
    rw [hv, hv'] at hvalue
    cases hvalue with
    | ok hlike => exact ⟨rfl, rfl, .some hlike⟩

theorem map_name_of_mapM {ps : List Param} {params : List Parameter}
    (h : ps.mapM m.parameter = .ok params) : params.map Parameter.name = ps.map Param.name := by
  induction ps generalizing params with
  | nil =>
    obtain rfl := Except.ok.inj h
    rfl
  | cons q ps ih =>
    rw [List.mapM_cons] at h
    obtain ⟨p, hp, h⟩ := Except.exists_of_bind h
    obtain ⟨rest, hrest, h⟩ := Except.exists_of_bind h
    obtain rfl := Except.ok.inj h
    have hname : p.name = q.name := by
      unfold Module.parameter at hp
      split at hp
      · obtain rfl := Except.ok.inj hp
        rfl
      · obtain ⟨v, -, hp⟩ := Except.exists_of_bind hp
        obtain rfl := Except.ok.inj hp
        rfl
    rw [List.map_cons, List.map_cons, hname, ih hrest]

/-- A definition that mentions only names that are seen adds a function to both modules. -/
theorem Alike.addFunction (h : Alike names pairs m m') {d : Definition}
    (huses : UsesOnly names [] d.uses) (hglobals : d.body.globals = [])
    (hm : m.addFunction d = .ok m₁) (hm' : m'.addFunction d = .ok m₁') :
    ∃ pairs', Alike names pairs' m₁ m₁' := by
  unfold Module.addFunction at hm hm'
  obtain ⟨params, hparams, hm⟩ := Except.exists_of_bind hm
  obtain ⟨params', hparams', hm'⟩ := Except.exists_of_bind hm'
  obtain rfl := Except.ok.inj hm
  obtain rfl := Except.ok.inj hm'
  obtain ⟨hbody, hdefaults⟩ := List.forall_mem_append.mp huses
  refine ⟨_, h.append d.name ⟨rfl, ?_, rfl, hglobals, ?_⟩⟩
  · refine List.forall₂_of_mapM (fun q hq p p' hp hp' => h.parameter (fun e he => ?_) hp hp')
      hparams hparams'
    exact fun u hu => hdefaults u (List.mem_flatMap.mpr ⟨q, hq, by rw [he]; exact hu⟩)
  · -- a name that the body mentions is the function's own, or it is seen
    have howned : Function.owned ⟨d.name, params, d.body⟩ = d.owned := by
      rw [Function.owned, Function.paramNames, map_name_of_mapM hparams]
      rfl
    intro u hu
    rw [howned]
    by_cases hown : u.1 ∈ d.owned
    · exact .inl hown
    · have hfree : u ∈ d.body.uses.filter fun u => !d.owned.contains u.1 :=
        List.mem_filter.mpr ⟨hu, by simpa using hown⟩
      exact .inr ((hbody u hfree).resolve_left List.not_mem_nil)

/-- Before there are functions, values are like themselves, and names are distinct. -/
theorem variables_loaded {limits : Limits} {globals : List (String × Expr)}
    (h : globals.foldlM (fun (m : Module) (x, e) => m.assign x e) ⟨[], ⟨[], 0⟩, limits⟩ =
      .ok m) :
    Alike (fun _ => True) (fun _ _ => False) m m ∧ m.Distinct := by
  have hempty : Alike (fun _ => True) (fun _ _ => False) ⟨[], ⟨[], 0⟩, limits⟩
      ⟨[], ⟨[], 0⟩, limits⟩ :=
    ⟨rfl, rfl, fun h => h.elim, fun _ _ => .none, fun _ _ h => h.elim⟩
  refine List.foldlM_keeps
    (P := fun m => Alike (fun _ => True) (fun _ _ => False) m m ∧ m.Distinct)
    (fun a _ b b' hb hassign => ?_) ⟨hempty, List.nodup_nil⟩ h
  have hseen : UsesOnly (fun _ => True) [] a.2.uses := fun _ _ => .inr trivial
  refine ⟨hb.1.assign hseen hassign hassign, ?_⟩
  change b.assign a.1 a.2 = .ok b' at hassign
  rw [assign_eq_define (hb.1.run hseen).2.1] at hassign
  obtain ⟨v, -, rfl⟩ := Except.exists_of_map hassign
  exact hb.2.define a.1 v

theorem Alike.classes (h : Alike names pairs m m') (classes : List String) :
    Alike names pairs (classes.foldl (fun m c => m.define c (.class c)) m)
      (classes.foldl (fun m c => m.define c (.class c)) m') := by
  induction classes generalizing m m' with
  | nil => exact h
  | cons c classes ih => exact ih (h.define c fun _ => .class c)

theorem Distinct.classes (h : m.Distinct) (classes : List String) :
    (classes.foldl (fun m c => m.define c (.class c)) m).Distinct := by
  induction classes generalizing m with
  | nil => exact h
  | cons c classes ih => exact ih (h.define c (.class c))

theorem load_distinct {limits : Limits} {p : Program} (hm : load limits p = .ok m) :
    m.Distinct := by
  unfold load at hm
  obtain ⟨m₁, h₁, hm⟩ := Except.exists_of_bind hm
  obtain ⟨m₂, h₂, h₃⟩ := Except.exists_of_bind hm
  have hfunctions : m₂.Distinct := by
    refine List.foldlM_keeps (fun d _ b b' hb hadd => ?_) ((variables_loaded h₁).2.classes _) h₂
    unfold Module.addFunction at hadd
    obtain ⟨params, -, hb'⟩ := Except.exists_of_bind hadd
    obtain rfl := Except.ok.inj hb'
    exact Distinct.define (m := { b with functions := _ }) hb _ _
  refine List.foldlM_keeps (fun a _ b b' hb hadd => ?_) hfunctions h₃
  change b.addAlias a.1 a.2 = .ok b' at hadd
  rw [addAlias_eq] at hadd
  obtain ⟨v, -, rfl⟩ := Except.exists_of_map hadd
  exact hb.define a.1 v

theorem load_globalFree {limits : Limits} {p : Program} (hp : p.globalFree = true)
    (hm : load limits p = .ok m) :
    m.globalFree = true := by
  unfold load at hm
  obtain ⟨m₁, h₁, hm⟩ := Except.exists_of_bind hm
  obtain ⟨m₂, h₂, h₃⟩ := Except.exists_of_bind hm
  -- an assignment leaves the table of functions as it is
  have hassign : ∀ {b b' : Module} {x : String} {e : Expr}, b.globalFree = true →
      b.assign x e = .ok b' → b'.globalFree = true := by
    intro b b' x e hb hassign
    unfold Module.assign at hassign
    obtain ⟨v, -, hb'⟩ := Except.exists_of_bind hassign
    obtain rfl := Except.ok.inj hb'
    exact hb
  have hclasses : ∀ (classes : List String) {b : Module}, b.globalFree = true →
      (classes.foldl (fun m c => m.define c (.class c)) b).globalFree = true := by
    intro classes
    induction classes with
    | nil => exact fun h => h
    | cons c classes ih => exact fun h => ih h
  have hvariables : m₁.globalFree = true :=
    List.foldlM_keeps (P := fun m => m.globalFree = true) (fun _ _ _ _ hb h => hassign hb h) rfl h₁
  have hfunctions : m₂.globalFree = true := by
    refine List.foldlM_keeps (P := fun m => m.globalFree = true) (fun d hd b b' hb hadd => ?_)
      (hclasses _ hvariables) h₂
    unfold Module.addFunction at hadd
    obtain ⟨params, -, hb'⟩ := Except.exists_of_bind hadd
    obtain rfl := Except.ok.inj hb'
    refine List.all_append.trans (Bool.and_eq_true_iff.mpr ⟨hb, ?_⟩)
    exact (Bool.and_true _).trans (List.all_eq_true.mp hp d hd)
  exact List.foldlM_keeps (P := fun m => m.globalFree = true) (fun _ _ _ _ hb h => hassign hb h)
    hfunctions h₃

end Loading

end Module

end Pathwise
