import Pathwise.Proofs.Steady

/-!
# The fragment in which unknowns and integers agree

Arithmetic is made of numerals, of the names that a call owns, of sums, differences, products and
negation, and of remainders by positive numerals; conditions are made of comparisons of arithmetic.
Functions of the fragment assign arithmetic only, test conditions only, and take and return what
their callers can use.

* `Yield` — what callers can use the results of a function for.
* `Expr.isNumber`, `Expr.isCondition`, `Block.agrees` — the fragment, as checks on the syntax.
* `Module.Agrees` — the functions of a module that are in the fragment, with what they yield.
* `Module.Agrees.serves` — these functions meet every demand on their terms.
-/

namespace Pathwise

/-- What the results of a function can be used for. -/
inductive Yield where
  /-- In arithmetic. -/
  | number
  /-- In conditions. -/
  | truth
  /-- For nothing. -/
  | nothing
  deriving DecidableEq, Repr

/-! ## The checks -/

/-- A right operand beside which an operator is in the fragment. -/
def Binary.agreesBeside : Binary → Expr → Bool
  | .arith (.ring _), _ => true
  | .arith .mod, .literal (.int n) => decide (0 < n)
  | _, _ => false

/-- A numeral, with or without a sign. -/
def Expr.isNumeral : Expr → Bool
  | .literal (.int _) | .unary .neg (.literal (.int _)) => true
  | _ => false

def Args.areNumerals : Args → Bool
  | .nil => true
  | .cons a rest => a.isNumeral && rest.areNumerals

section Checks

variable (yields : String → Yield → Bool) (owned : List String)

/-- A name that a call does not own and that can be called for a use. -/
def callsFor (f : String) (y : Yield) : Bool := !owned.contains f && yields f y

mutual

/-- Arithmetic of the fragment. -/
def Expr.isNumber : Expr → Bool
  | .literal (.int _) => true
  | .name x => owned.contains x
  | .unary .neg a => a.isNumber
  | .binary op a b => op.agreesBeside b && a.isNumber && b.isNumber
  | .call f args => callsFor yields owned f .number && args.areNumbers
  | _ => false

def Args.areNumbers : Args → Bool
  | .nil => true
  | .cons a rest => a.isNumber && rest.areNumbers

end

def Links.areNumbers : Links → Bool
  | .last _ a => a.isNumber yields owned
  | .more _ a rest => a.isNumber yields owned && rest.areNumbers

/-- Conditions of the fragment. -/
def Expr.isCondition : Expr → Bool
  | .literal (.bool _) => true
  | .compare _ a b => a.isNumber yields owned && b.isNumber yields owned
  | .chain a links => a.isNumber yields owned && links.areNumbers yields owned
  | .and a b | .or a b => a.isCondition && b.isCondition
  | .not a => a.isCondition
  | .call f args => callsFor yields owned f .truth && args.areNumbers yields owned
  | _ => false

/-- A call whose result is not used. -/
def Expr.isCall : Expr → Bool
  | .call f args => callsFor yields owned f .nothing && args.areNumbers yields owned
  | _ => false

/-- Expressions of the fragment. -/
def Expr.agrees (e : Expr) : Bool :=
  e.isNumber yields owned || e.isCondition yields owned || e.isCall yields owned

/-- What a function can return if its results are to have a use. -/
def Yield.admits : Yield → Option Expr → Bool
  | .number, some e => e.isNumber yields owned
  | .number, none => false
  | .truth, some e => e.isCondition yields owned
  | .nothing, some e => e.agrees yields owned
  | _, none => true

mutual

/-- Statements of the fragment, in a function with results for a use. -/
def Stmt.agrees (y : Yield) : Stmt → Bool
  | .assign x e => owned.contains x && e.isNumber yields owned
  | .update x op e => owned.contains x && op.agreesBeside e && e.isNumber yields owned
  | .branch c yes no => c.isCondition yields owned && yes.agrees y && no.agrees y
  | .loop c body => c.isCondition yields owned && body.agrees y
  | .range x bounds body => owned.contains x && bounds.areNumerals && body.agrees y
  | .result e => y.admits yields owned e
  | .discard e => e.agrees yields owned
  | .print _ | .raise .. | .pass | .exitLoop | .nextRound => true
  | .assert .. | .declareGlobal _ | .attempt .. => false

def Block.agrees (y : Yield) : Block → Bool
  | .done => true
  | .step _ s rest => s.agrees y && rest.agrees y

end

/-- Functions of the fragment: plain positional parameters of different names, and a body of the
fragment. -/
def Function.agrees (f : Function) (y : Yield) : Bool :=
  f.params.all (fun p => p.kind == .positional && p.default?.isNone) && f.paramNames.Nodup &&
    f.body.agrees yields f.owned y

end Checks

/-! ## The fragment meets every demand -/

section Demands

variable {yields : String → Yield → Bool} {owned : List String} {d : Demand}

/-- Every name that can be called for a use is a name of the module for what may be called. -/
def Demand.Offers (d : Demand) (yields : String → Yield → Bool) : Prop :=
  ∀ x y, yields x y = true →
    ∃ v, d.memory.globals.lookup x = some v ∧ d.value v ∧ d.callable v

theorem Demand.Offers.calls (h : d.Offers yields) {f : String} {y : Yield}
    (hf : callsFor yields owned f y = true) : d.calls owned f := by
  obtain ⟨hnot, hyields⟩ := Bool.and_eq_true_iff.mp hf
  exact .inr ⟨by simpa using hnot, h f y hyields⟩

theorem Binary.agreesBeside_cases {op : Binary} {b : Expr} (h : op.agreesBeside b = true) :
    (∃ r, op = .arith (.ring r)) ∨ ∃ n, 0 < n ∧ op = .arith .mod ∧ b = .literal (.int n) := by
  unfold agreesBeside at h
  split at h
  · exact .inl ⟨_, rfl⟩
  · exact .inr ⟨_, of_decide_eq_true h, rfl, rfl⟩
  · cases h

theorem Binary.definiteBeside_of_agrees {op : Binary} {b : Expr} (h : op.agreesBeside b = true) :
    op.definiteBeside b = true := by
  obtain ⟨r, rfl⟩ | ⟨n, hn, rfl, rfl⟩ := agreesBeside_cases h
  · rfl
  · simp [definiteBeside, Expr.isNonzero, Int.ne_of_gt hn]

mutual

theorem Expr.fits_of_isNumber (hd : d.Offers yields) :
    (e : Expr) → e.isNumber yields owned = true → e.Fits d owned
  | .literal _, _ => trivial
  | .name x, h => .inl (List.contains_iff_mem.mp h)
  | .unary .neg a, h => Expr.fits_of_isNumber hd a h
  | .binary op a b, h => by
    simp only [Expr.isNumber, Bool.and_eq_true] at h
    exact ⟨fun _ => Binary.definiteBeside_of_agrees h.1.1, Expr.fits_of_isNumber hd a h.1.2,
      Expr.fits_of_isNumber hd b h.2⟩
  | .call f args, h => by
    simp only [Expr.isNumber, Bool.and_eq_true] at h
    exact ⟨hd.calls h.1, Args.fits_of_areNumbers hd args h.2⟩

theorem Args.fits_of_areNumbers (hd : d.Offers yields) :
    (args : Args) → args.areNumbers yields owned = true → args.Fits d owned
  | .nil, _ => trivial
  | .cons a rest, h => by
    simp only [Args.areNumbers, Bool.and_eq_true] at h
    exact ⟨Expr.fits_of_isNumber hd a h.1, Args.fits_of_areNumbers hd rest h.2⟩

end

theorem Links.fits_of_areNumbers (hd : d.Offers yields) :
    (links : Links) → links.areNumbers yields owned = true → links.Fits d owned
  | .last _ a, h => Expr.fits_of_isNumber hd a h
  | .more _ a rest, h => by
    simp only [Links.areNumbers, Bool.and_eq_true] at h
    exact ⟨Expr.fits_of_isNumber hd a h.1, Links.fits_of_areNumbers hd rest h.2⟩

theorem Expr.fits_of_isCondition (hd : d.Offers yields) :
    (e : Expr) → e.isCondition yields owned = true → e.Fits d owned
  | .literal _, _ => trivial
  | .compare _ a b, h => by
    simp only [Expr.isCondition, Bool.and_eq_true] at h
    exact ⟨Expr.fits_of_isNumber hd a h.1, Expr.fits_of_isNumber hd b h.2⟩
  | .chain a links, h => by
    simp only [Expr.isCondition, Bool.and_eq_true] at h
    exact ⟨Expr.fits_of_isNumber hd a h.1, Links.fits_of_areNumbers hd links h.2⟩
  | .and a b, h => by
    simp only [Expr.isCondition, Bool.and_eq_true] at h
    exact ⟨Expr.fits_of_isCondition hd a h.1, Expr.fits_of_isCondition hd b h.2⟩
  | .or a b, h => by
    simp only [Expr.isCondition, Bool.and_eq_true] at h
    exact ⟨Expr.fits_of_isCondition hd a h.1, Expr.fits_of_isCondition hd b h.2⟩
  | .not a, h => Expr.fits_of_isCondition hd a h
  | .call f args, h => by
    simp only [Expr.isCondition, Bool.and_eq_true] at h
    exact ⟨hd.calls h.1, Args.fits_of_areNumbers hd args h.2⟩

theorem Expr.fits_of_isCall (hd : d.Offers yields) :
    (e : Expr) → e.isCall yields owned = true → e.Fits d owned
  | .call f args, h => by
    simp only [Expr.isCall, Bool.and_eq_true] at h
    exact ⟨hd.calls h.1, Args.fits_of_areNumbers hd args h.2⟩

theorem Expr.agrees_iff {e : Expr} :
    e.agrees yields owned = true ↔
      e.isNumber yields owned = true ∨ e.isCondition yields owned = true ∨
        e.isCall yields owned = true := by
  simp [Expr.agrees, or_assoc]

theorem Expr.fits_of_agrees (hd : d.Offers yields) {e : Expr}
    (h : e.agrees yields owned = true) : e.Fits d owned := by
  rcases Expr.agrees_iff.mp h with h | h | h
  · exact e.fits_of_isNumber hd h
  · exact e.fits_of_isCondition hd h
  · exact e.fits_of_isCall hd h

theorem Expr.fits_of_admits (hd : d.Offers yields) {y : Yield} {e : Expr}
    (h : y.admits yields owned (some e) = true) : e.Fits d owned := by
  cases y with
  | number => exact e.fits_of_isNumber hd h
  | truth => exact e.fits_of_isCondition hd h
  | nothing => exact Expr.fits_of_agrees hd h

theorem Expr.fits_of_isNumeral : (e : Expr) → e.isNumeral = true → e.Fits d owned
  | .literal _, _ => trivial
  | .unary .neg (.literal _), _ => trivial

theorem Args.fits_of_areNumerals : (args : Args) → args.areNumerals = true → args.Fits d owned
  | .nil, _ => trivial
  | .cons a rest, h => by
    simp only [Args.areNumerals, Bool.and_eq_true] at h
    exact ⟨a.fits_of_isNumeral h.1, Args.fits_of_areNumerals rest h.2⟩

mutual

theorem Stmt.fits_of_agrees (hd : d.Offers yields) {y : Yield} :
    (s : Stmt) → s.agrees yields owned y = true → s.Fits d owned
  | .assign x e, h => by
    simp only [Stmt.agrees, Bool.and_eq_true, List.contains_iff_mem] at h
    exact ⟨h.1, e.fits_of_isNumber hd h.2⟩
  | .update x op e, h => by
    simp only [Stmt.agrees, Bool.and_eq_true, List.contains_iff_mem] at h
    exact ⟨h.1.1, fun _ => Binary.definiteBeside_of_agrees h.1.2, e.fits_of_isNumber hd h.2⟩
  | .branch c yes no, h => by
    simp only [Stmt.agrees, Bool.and_eq_true] at h
    exact ⟨c.fits_of_isCondition hd h.1.1, Block.fits_of_agrees hd yes h.1.2,
      Block.fits_of_agrees hd no h.2⟩
  | .loop c body, h => by
    simp only [Stmt.agrees, Bool.and_eq_true] at h
    exact ⟨c.fits_of_isCondition hd h.1, Block.fits_of_agrees hd body h.2⟩
  | .range x bounds body, h => by
    simp only [Stmt.agrees, Bool.and_eq_true, List.contains_iff_mem] at h
    exact ⟨h.1.1, bounds.fits_of_areNumerals h.1.2, Block.fits_of_agrees hd body h.2⟩
  | .result none, _ => trivial
  | .result (some e), h => Expr.fits_of_admits hd h
  | .discard e, h => Expr.fits_of_agrees hd h
  | .print _, _ | .raise .., _ | .pass, _ | .exitLoop, _ | .nextRound, _ => trivial

theorem Block.fits_of_agrees (hd : d.Offers yields) {y : Yield} :
    (b : Block) → b.agrees yields owned y = true → b.Fits d owned
  | .done, _ => trivial
  | .step _ s rest, h => by
    simp only [Block.agrees, Bool.and_eq_true] at h
    exact ⟨Stmt.fits_of_agrees hd s h.1, Block.fits_of_agrees hd rest h.2⟩

end

theorem Function.agrees_iff {f : Function} {y : Yield} :
    f.agrees yields y = true ↔
      (∀ p ∈ f.params, p.kind = .positional ∧ p.default? = none) ∧ f.paramNames.Nodup ∧
        f.body.agrees yields f.owned y = true := by
  simp [Function.agrees, and_assoc]

theorem Function.safe_of_agrees (hd : d.Offers yields) {f : Function} {y : Yield}
    (h : f.agrees yields y = true) : f.Safe d := by
  obtain ⟨hparams, -, hbody⟩ := Function.agrees_iff.mp h
  refine ⟨Block.fits_of_agrees hd f.body hbody, fun p hp v hv => ?_⟩
  rw [(hparams p hp).2] at hv
  cases hv

end Demands

/-! ## Modules -/

namespace Module

variable {m : Module} {uses : Nat → Yield → Bool}

/-- What names of a module can be called for, given the same of its functions. -/
def yields (m : Module) (uses : Nat → Yield → Bool) (x : String) (y : Yield) : Bool :=
  match m.memory.globals.lookup x with
  | some (.function i) => uses i y
  | _ => false

/-- No call of a function on integers, at any depth, ends without a result. -/
def Returns (m : Module) (index : Nat) : Prop :=
  ∀ (depth : Nat) (ns : List Int) (s : State), s.memory = m.memory →
    (Pathwise.invoke m.functions m.limits.rounds depth (.function index) (ns.map .int) []
      s).unanswered.1 ≠ .ok .none

/-- The functions that are called are in the fragment, as far as their results are used, and those
whose results are used in arithmetic do not end without a result. -/
structure Agrees (m : Module) (uses : Nat → Yield → Bool) : Prop where
  agrees : ∀ i y f, uses i y = true → m.functions[i]? = some f →
    f.agrees (m.yields uses) y = true
  returns : ∀ i, uses i .number = true → m.Returns i

/-- The demand of the functions of the fragment. -/
def offer (m : Module) (uses : Nat → Yield → Bool) (names : Option (List String)) : Demand :=
  ⟨m.memory, names, fun v => ∃ i y, v = .function i ∧ uses i y = true⟩

theorem offers (m : Module) (uses : Nat → Yield → Bool) (names : Option (List String)) :
    (m.offer uses names).Offers (m.yields uses) := by
  intro x y h
  unfold yields at h
  split at h
  · rename_i i hx
    exact ⟨.function i, hx, fun _ _ => .function i, i, y, rfl, h⟩
  · cases h

/-- Functions of the fragment write only what they own and test integral conditions. -/
theorem Agrees.serves (h : m.Agrees uses) (names : Option (List String)) {index : Nat} {y : Yield}
    (hindex : uses index y = true) : m.Serves index (m.offer uses names) where
  memory := rfl
  functions := by
    rintro i f ⟨j, z, ⟨rfl⟩, hz⟩ hf
    exact Function.safe_of_agrees (m.offers uses names) (h.agrees i z f hz hf)
  index := ⟨index, y, rfl, hindex⟩

end Module

end Pathwise
