import Pathwise.Proofs.Safety

/-!
# What a run leaves alone

A module without global declarations keeps its memory through every run of its functions, so all
runs start alike. If moreover no operator in it leaves anything open, its functions test only
formulas that are integral over the names of their parameters.

* `Module.Serves` — a function and all that it may call meet a demand.
* `Module.Serves.steady`, `Module.Serves.integral` — what follows of its calls.
* `Module.serves_demand` — every function of such a module does.
-/

namespace Pathwise

/-! ## Code that leaves nothing open -/

mutual

/-- The expression uses no power, and takes remainders only by numerals other than zero. -/
def Expr.definite : Expr → Bool
  | .literal _ | .name _ => true
  | .binary op a b => op.definiteBeside b && a.definite && b.definite
  | .compare _ a b | .and a b | .or a b => a.definite && b.definite
  | .unary _ a | .not a => a.definite
  | .chain a links => a.definite && links.definite
  | .ite c a b => c.definite && a.definite && b.definite
  | .call _ args => args.definite
  -- what looks inside symbolic values is not part of programs
  | .unknown .. | .number _ | .condition _ | .termOf _ | .formulaOf _ | .negation _
  | .method .. => false

def Args.definite : Args → Bool
  | .nil => true
  | .cons a rest => a.definite && rest.definite

def Links.definite : Links → Bool
  | .last _ a => a.definite
  | .more _ a rest => a.definite && rest.definite

end

mutual

/-- No operator in the statement leaves anything open. -/
def Stmt.definite : Stmt → Bool
  | .assign _ e | .discard e | .assert e _ | .result (some e) => e.definite
  | .update _ op e => op.definiteBeside e && e.definite
  | .branch c yes no => c.definite && yes.definite && no.definite
  | .loop c body => c.definite && body.definite
  | .range _ bounds body => bounds.definite && body.definite
  | .attempt body _ handler => body.definite && handler.definite
  | .result none | .print _ | .raise .. | .pass | .exitLoop | .nextRound
  | .declareGlobal _ => true

def Block.definite : Block → Bool
  | .done => true
  | .step _ s rest => s.definite && rest.definite

end

/-- Everything may be read and called. -/
structure Demand.Open (d : Demand) : Prop where
  globals : d.scope d.memory.globals
  callable : ∀ v, d.callable v

section Fits

variable {d : Demand} {owned : List String}

theorem Demand.Open.reads (hd : d.Open) (x : String) : d.reads owned x :=
  .inr fun _ hv => Demand.scope_lookup hd.globals hv

theorem Demand.Open.calls (hd : d.Open) (x : String) : d.calls owned x :=
  .inl ⟨hd.reads x, hd.callable⟩

/-- Nothing is asked of values by a demand that indefinite code meets. -/
theorem Demand.names_eq_none (h : d.names.isSome = true → false = true) : d.names = none := by
  cases hn : d.names with
  | none => rfl
  | some xs =>
    rw [hn] at h
    cases h rfl

mutual

theorem Expr.fits (hd : d.Open) :
    (e : Expr) → (d.names.isSome = true → e.definite = true) → e.Fits d owned
  | .literal _, _ => trivial
  | .name x, _ => hd.reads x
  | .binary op a b, h => by
    simp only [Expr.definite, Bool.and_eq_true] at h
    exact ⟨fun hs => (h hs).1.1, Expr.fits hd a fun hs => (h hs).1.2,
      Expr.fits hd b fun hs => (h hs).2⟩
  | .compare _ a b, h | .and a b, h | .or a b, h => by
    simp only [Expr.definite, Bool.and_eq_true] at h
    exact ⟨Expr.fits hd a fun hs => (h hs).1, Expr.fits hd b fun hs => (h hs).2⟩
  | .unary _ a, h | .not a, h => Expr.fits hd a h
  | .chain a links, h => by
    simp only [Expr.definite, Bool.and_eq_true] at h
    exact ⟨Expr.fits hd a fun hs => (h hs).1, Links.fits hd links fun hs => (h hs).2⟩
  | .ite c a b, h => by
    simp only [Expr.definite, Bool.and_eq_true] at h
    exact ⟨Expr.fits hd c fun hs => (h hs).1.1, Expr.fits hd a fun hs => (h hs).1.2,
      Expr.fits hd b fun hs => (h hs).2⟩
  | .call f args, h => ⟨hd.calls f, Args.fits hd args h⟩
  | .unknown .., h => Demand.names_eq_none h
  | .number a, h | .condition a, h | .termOf a, h | .formulaOf a, h | .negation a, h =>
    ⟨Demand.names_eq_none h, Expr.fits hd a fun hs => nomatch h hs⟩
  | .method a _ args, h => ⟨Demand.names_eq_none h, Expr.fits hd a (fun hs => nomatch h hs),
      Args.fits hd args (fun hs => nomatch h hs)⟩

theorem Args.fits (hd : d.Open) :
    (args : Args) → (d.names.isSome = true → args.definite = true) → args.Fits d owned
  | .nil, _ => trivial
  | .cons a rest, h => by
    simp only [Args.definite, Bool.and_eq_true] at h
    exact ⟨Expr.fits hd a fun hs => (h hs).1, Args.fits hd rest fun hs => (h hs).2⟩

theorem Links.fits (hd : d.Open) :
    (links : Links) → (d.names.isSome = true → links.definite = true) → links.Fits d owned
  | .last _ a, h => Expr.fits hd a h
  | .more _ a rest, h => by
    simp only [Links.definite, Bool.and_eq_true] at h
    exact ⟨Expr.fits hd a fun hs => (h hs).1, Links.fits hd rest fun hs => (h hs).2⟩

end

mutual

theorem Stmt.fits (hd : d.Open) : (s : Stmt) → s.assigned ⊆ owned →
    (d.names.isSome = true → s.definite = true) → s.Fits d owned
  | .assign x e, hown, h => ⟨hown List.mem_cons_self, Expr.fits hd e h⟩
  | .update x op e, hown, h => by
    simp only [Stmt.definite, Bool.and_eq_true] at h
    exact ⟨hown List.mem_cons_self, fun hs => (h hs).1, Expr.fits hd e fun hs => (h hs).2⟩
  | .branch c yes no, hown, h => by
    simp only [Stmt.definite, Bool.and_eq_true] at h
    exact ⟨Expr.fits hd c fun hs => (h hs).1.1,
      Block.fits hd yes (fun x hx => hown (List.mem_append_left _ hx)) fun hs => (h hs).1.2,
      Block.fits hd no (fun x hx => hown (List.mem_append_right _ hx)) fun hs => (h hs).2⟩
  | .loop c body, hown, h => by
    simp only [Stmt.definite, Bool.and_eq_true] at h
    exact ⟨Expr.fits hd c fun hs => (h hs).1, Block.fits hd body hown fun hs => (h hs).2⟩
  | .range x bounds body, hown, h => by
    simp only [Stmt.definite, Bool.and_eq_true] at h
    exact ⟨hown List.mem_cons_self, Args.fits hd bounds fun hs => (h hs).1,
      Block.fits hd body (fun y hy => hown (List.mem_cons_of_mem _ hy)) fun hs => (h hs).2⟩
  | .result (some e), _, h | .discard e, _, h | .assert e _, _, h => Expr.fits hd e h
  | .attempt body _ handler, hown, h => by
    simp only [Stmt.definite, Bool.and_eq_true] at h
    exact ⟨Block.fits hd body (fun x hx => hown (List.mem_append_left _ hx)) fun hs => (h hs).1,
      Block.fits hd handler (fun x hx => hown (List.mem_append_right _ hx)) fun hs => (h hs).2⟩
  | .result none, _, _ | .print _, _, _ | .raise .., _, _ | .pass, _, _ | .exitLoop, _, _
  | .nextRound, _, _ | .declareGlobal _, _, _ => trivial

theorem Block.fits (hd : d.Open) : (b : Block) → b.assigned ⊆ owned →
    (d.names.isSome = true → b.definite = true) → b.Fits d owned
  | .done, _, _ => trivial
  | .step _ s rest, hown, h => by
    simp only [Block.definite, Bool.and_eq_true] at h
    exact ⟨Stmt.fits hd s (fun x hx => hown (List.mem_append_left _ hx)) fun hs => (h hs).1,
      Block.fits hd rest (fun x hx => hown (List.mem_append_right _ hx)) fun hs => (h hs).2⟩

end

end Fits

/-- Without global declarations a call owns all names that its body assigns. -/
theorem Function.assigned_subset_owned {f : Function} (h : f.body.globals = []) :
    f.body.assigned ⊆ f.owned := by
  intro x hx
  simp [Function.owned, h, hx]

/-! ## Modules -/

namespace Module

/-- No function of the module declares a name to be global. -/
def globalFree (m : Module) : Bool := m.functions.all fun f => f.body.globals.isEmpty

/-- No operator in the module leaves anything open, and no unknown is in its variables and
defaults. -/
structure Definite (m : Module) : Prop where
  code : ∀ f ∈ m.functions, f.body.definite = true
  default : ∀ f ∈ m.functions, ∀ p ∈ f.params, ∀ v, p.default? = some v → v.Over []
  globals : ∀ e ∈ m.memory.globals, e.2.Over []

/-- A function of the module and all that it may call meet a demand. -/
structure Serves (m : Module) (index : Nat) (d : Demand) : Prop where
  memory : d.memory = m.memory
  functions : d.serves m.functions
  index : d.callable (.function index)

variable {m : Module} {index : Nat} {d : Demand}

/-- A call leaves the memory alone and tests only what meets the demand. -/
theorem Serves.target (h : m.Serves index d) {args : List Value}
    {keywords : List (String × Value)} (hargs : ∀ v ∈ args, d.value v)
    (hkeywords : d.scope keywords) :
    (m.target index args keywords m.memory).Ensures d.held fun e => e.world = m.memory := by
  refine (invoke_safe h.functions m.limits.rounds m.limits.calls h.index hargs hkeywords
    (State.start m.memory) ⟨h.memory.symm, Demand.scope_nil⟩).bind ?_
  rintro ⟨r, s⟩ ⟨hkept, -, -⟩
  exact hkept.memory.trans h.memory

theorem Serves.value_unknown {xs : List String} (hnames : ∀ ys ∈ d.names, ys = xs) :
    ∀ v ∈ xs.map Value.unknown, d.value v := by
  intro v hv ys hys
  obtain ⟨x, hx, rfl⟩ := List.mem_map.mp hv
  obtain rfl := hnames ys hys
  exact Value.over_unknown hx

/-- A call with parameters as unknowns is a steady target. -/
theorem Serves.steady (h : m.Serves index d) {xs : List String}
    (hnames : ∀ ys ∈ d.names, ys = xs) :
    (m.target index (xs.map .unknown) []).Steady m.memory :=
  (h.target (value_unknown hnames) Demand.scope_nil).mono (fun _ _ => trivial) fun _ he => he

/-- A call with parameters as unknowns tests integral formulas only, if that is asked. -/
theorem Serves.integral (h : m.Serves index d) {xs : List String} (hnames : d.names = some xs) :
    (m.target index (xs.map .unknown) [] m.memory).Ensures (Held.Over xs) fun _ => True := by
  refine (h.target (value_unknown fun ys hys => ?_) Demand.scope_nil).mono
    (fun φ hφ => hφ xs hnames) fun _ _ => trivial
  exact (Option.some.inj (hnames.symm.trans hys)).symm

/-- The demand of a module in which everything may be called. -/
def demand (m : Module) (names : Option (List String)) : Demand := ⟨m.memory, names, fun _ => True⟩

variable {names : Option (List String)}

theorem demand_open (hdef : names.isSome = true → m.Definite) : (m.demand names).Open where
  globals e he xs hxs :=
    ((hdef (Option.isSome_of_mem hxs)).globals e he).mono (List.nil_subset xs)
  callable _ := trivial

/-- A module without global declarations serves every function, and with integral terms if it is
definite. -/
theorem serves_demand (h : m.globalFree = true) (hdef : names.isSome = true → m.Definite)
    (index : Nat) : m.Serves index (m.demand names) := by
  refine ⟨rfl, fun i f _ hf => ?_, trivial⟩
  have hmem := List.mem_of_getElem? hf
  have hglobals : f.body.globals = [] := by simpa using List.all_eq_true.mp h f hmem
  refine ⟨Block.fits (demand_open hdef) f.body (Function.assigned_subset_owned hglobals)
    fun hs => (hdef hs).code f hmem, ?_⟩
  intro p hp v hv xs hxs
  exact ((hdef (Option.isSome_of_mem hxs)).default f hmem p hp v hv).mono (List.nil_subset xs)

end Module

end Pathwise
