import Pathwise.Proofs.Steady

/-!
# Loading keeps a program definite

What is asked of a module by `Module.Definite` and `Module.globalFree` can be read off the text of
a program: its code, its defaults and the expressions of its variables. Loading evaluates these
expressions, and evaluation is safe.

* `Program.definite`, `Program.globalFree` — the checks on the text.
* `Module.load_wellBehaved` — a program that passes them loads as a module that does.
-/

namespace Pathwise

/-- No operator in the program leaves anything open. -/
def Program.definite (p : Program) : Bool :=
  p.globals.all (fun e => e.2.definite) &&
    p.functions.all fun d => d.body.definite && d.params.all fun q => q.default?.all Expr.definite

/-- No function of the program declares a name to be global. -/
def Program.globalFree (p : Program) : Bool := p.functions.all fun d => d.body.globals.isEmpty

namespace Module

/-- A definite module without global declarations. -/
structure WellBehaved (m : Module) : Prop where
  globalFree : m.globalFree = true
  definite : m.Definite

variable {m m' : Module}

theorem WellBehaved.serves (h : m.WellBehaved) (names : Option (List String)) (index : Nat) :
    m.Serves index (m.demand names) :=
  serves_demand h.globalFree (fun _ => h.definite) index

/-- The demand that no value holds an unknown. -/
abbrev closed (m : Module) : Demand := m.demand (some [])

theorem value_closed {v : Value} (hv : v.Over []) : m.closed.value v := by
  rintro xs ⟨rfl⟩
  exact hv

theorem WellBehaved.define (h : m.WellBehaved) (x : String) {v : Value} (hv : v.Over []) :
    (m.define x v).WellBehaved := by
  refine ⟨h.globalFree, h.definite.code, h.definite.default, ?_⟩
  have hglobals : m.closed.scope m.memory.globals := fun e he =>
    value_closed (h.definite.globals e he)
  exact fun e he => Demand.scope_set hglobals (value_closed hv) x e he [] rfl

/-- Code outside of all functions leaves the memory alone and has a value without unknowns. -/
theorem WellBehaved.run (h : m.WellBehaved) {e : Expr} (he : e.definite = true) :
    (m.run e.eval).2 = m.memory ∧ ∀ v, (m.run e.eval).1 = .ok v → v.Over [] := by
  have hserves := h.serves (some []) 0
  have henv : Env.Safe m.closed [] m.outer :=
    ⟨rfl, fun f vs _ hvs => invoke_safe hserves.functions _ _ trivial hvs Demand.scope_nil⟩
  have hfits : e.Fits m.closed [] := Expr.fits (demand_open fun _ => h.definite) e fun _ => he
  have hout := ((Expr.safe henv e hfits).value (State.start m.memory)
    ⟨rfl, Demand.scope_nil⟩).unanswered
  exact ⟨hout.1.memory, fun v hv => hout.2.2 v hv [] rfl⟩

theorem WellBehaved.assign (h : m.WellBehaved) {x : String} {e : Expr}
    (he : e.definite = true) (hassign : m.assign x e = .ok m') : m'.WellBehaved := by
  obtain ⟨hmem, hvalue⟩ := h.run he
  unfold Module.assign at hassign
  obtain ⟨v, hv, hm'⟩ := Except.exists_of_bind hassign
  obtain rfl := Except.ok.inj hm'
  -- evaluating the expression has changed nothing, so only the definition is new
  have hsame : ({ m with memory := (m.run e.eval).2 } : Module) = m := by rw [hmem]
  change (Module.define { m with memory := (m.run e.eval).2 } x v).WellBehaved
  rw [hsame]
  exact h.define x (hvalue v hv)

theorem WellBehaved.parameter (h : m.WellBehaved) {q : Param} {q' : Parameter}
    (hq : q.default?.all Expr.definite = true) (hparameter : m.parameter q = .ok q') :
    ∀ v, q'.default? = some v → v.Over [] := by
  unfold Module.parameter at hparameter
  split at hparameter
  · obtain rfl := Except.ok.inj hparameter
    intro v hv
    cases hv
  · rename_i e he
    obtain ⟨v, hv, hq'⟩ := Except.exists_of_bind hparameter
    obtain rfl := Except.ok.inj hq'
    rintro w ⟨rfl⟩
    rw [he] at hq
    exact (h.run hq).2 v hv

theorem WellBehaved.addFunction (h : m.WellBehaved) {d : Definition}
    (hglobals : d.body.globals.isEmpty = true) (hcode : d.body.definite = true)
    (hparams : d.params.all (fun q => q.default?.all Expr.definite) = true)
    (hadd : m.addFunction d = .ok m') : m'.WellBehaved := by
  unfold Module.addFunction at hadd
  obtain ⟨params, hmap, hm'⟩ := Except.exists_of_bind hadd
  obtain rfl := Except.ok.inj hm'
  have hdefault : ∀ p ∈ params, ∀ v, p.default? = some v → v.Over [] := by
    intro p hp
    obtain ⟨q, hq, hqp⟩ := List.exists_of_mem_mapM hmap p hp
    exact h.parameter (List.all_eq_true.mp hparams q hq) hqp
  refine WellBehaved.define (m := { m with functions := m.functions ++ [⟨d.name, params, d.body⟩] })
    ⟨?_, ?_, ?_, h.definite.globals⟩ _ (.function _)
  · have hfree := h.globalFree
    simp only [Module.globalFree, List.all_append, List.all_cons, List.all_nil, Bool.and_true,
      Bool.and_eq_true] at hfree ⊢
    exact ⟨hfree, hglobals⟩
  · intro f hf
    rcases List.mem_append.mp hf with hf | hf
    · exact h.definite.code f hf
    · obtain rfl := List.mem_singleton.mp hf
      exact hcode
  · intro f hf
    rcases List.mem_append.mp hf with hf | hf
    · exact h.definite.default f hf
    · obtain rfl := List.mem_singleton.mp hf
      exact hdefault

theorem WellBehaved.classes (h : m.WellBehaved) (classes : List String) :
    (classes.foldl (fun m c => m.define c (.class c)) m).WellBehaved := by
  induction classes generalizing m with
  | nil => exact h
  | cons c classes ih => exact ih (h.define c (.class c))

/-- A program that passes the checks on its text loads as a module that behaves. -/
theorem load_wellBehaved {limits : Limits} {p : Program} (hglobal : p.globalFree = true)
    (hdef : p.definite = true) (hload : load limits p = .ok m) : m.WellBehaved := by
  simp only [Program.definite, Bool.and_eq_true, List.all_eq_true] at hdef
  simp only [Program.globalFree, List.all_eq_true] at hglobal
  unfold load at hload
  obtain ⟨m₁, h₁, hload⟩ := Except.exists_of_bind hload
  obtain ⟨m₂, h₂, h₃⟩ := Except.exists_of_bind hload
  -- variables first, then classes and functions, and the aliases last
  have hempty : WellBehaved ⟨[], ⟨[], 0⟩, limits⟩ :=
    ⟨rfl, nofun, nofun, nofun⟩
  have hvariables : m₁.WellBehaved :=
    List.foldlM_keeps (fun e he b b' hb hassign => hb.assign (hdef.1 e he) hassign) hempty h₁
  have hfunctions : m₂.WellBehaved := by
    refine List.foldlM_keeps (fun d hd b b' hb hadd => ?_) (hvariables.classes p.classes) h₂
    obtain ⟨hcode, hparams⟩ := hdef.2 d hd
    exact hb.addFunction (hglobal d hd) hcode (List.all_eq_true.mpr hparams) hadd
  exact List.foldlM_keeps (fun a _ b b' hb hassign => hb.assign rfl hassign) hfunctions h₃

end Module

end Pathwise
