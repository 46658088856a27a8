import Pathwise.Linear.Goal
import Pathwise.Solver.Basic

/-!
# From formulas to linear goals

A formula whose arithmetic is linear becomes a linear goal over numbered variables.

* Truth values are variables between 0 and 1.
* A remainder by a nonzero constant `m` is what is left of the dividend after a whole multiple of
  `m`, the multiple being a new variable. Equal remainders share it. Numbers in the dividend count
  only up to multiples of `m`.
* A remainder by zero is a new variable; equal dividends give equal values.
* A choice is a new variable with an alternative.

Rational terms are forms over a common denominator. What is not linear has no reduction.
-/

namespace Pathwise

namespace Reduction

open Linear (Form Goal)

/-- What has been numbered so far, and the side conditions that go with it. -/
structure State where
  next : Nat
  unknowns : List (Unknown × Nat)
  quotients : List ((Form × Nat) × Nat)
  zeroMods : List (Form × Nat)
  sides : List Goal

/-- Nothing numbered. -/
def State.empty : State := ⟨0, [], [], [], []⟩

/-- Reduction with numbering; it fails on what is not linear. -/
abbrev M := StateT State Option

/-- What has no reduction. -/
def fail {α : Type} : M α := fun _ => none

/-- A new variable. -/
def fresh : M Nat := do
  let s ← get
  set { s with next := s.next + 1 }
  return s.next

/-- Record a side condition. -/
def require (g : Goal) : M Unit := modify fun s => { s with sides := g :: s.sides }

/-- The goal that a form lies between zero and a bound. -/
def within (f : Form) (bound : Int) : Goal :=
  .and (.nonneg f) (.nonneg ((Form.ofInt bound).sub f))

/-- The variable of an unknown. -/
def unknown (u : Unknown) : M Form := do
  match (← get).unknowns.lookup u with
  | some i => return .ofVar i
  | none =>
    let i ← fresh
    modify fun s => { s with unknowns := (u, i) :: s.unknowns }
    if u.kind = .bool then require (within (.ofVar i) 1)
    return .ofVar i

/-- The goal that two forms are equal. -/
def equal (f g : Form) : Goal := .zero (f.sub g)

/-- The goal that two forms differ. -/
def differ (f g : Form) : Goal :=
  .or (.nonneg ((f.sub g).shift (-1))) (.nonneg ((g.sub f).shift (-1)))

/-- The remainder of a form by a positive constant. -/
def remainder (dividend : Form) (m : Nat) : M Form := do
  let f := dividend.residue m
  match f.const? with
  | some c => return .ofInt c
  | none =>
    match (← get).quotients.lookup (f, m) with
    | some q => return f.sub ((Form.ofVar q).scale m)
    | none =>
      let q ← fresh
      modify fun s => { s with quotients := ((f, m), q) :: s.quotients }
      let r := f.sub ((Form.ofVar q).scale m)
      require (within r (m - 1))
      return r

/-- The remainder of a form by zero. -/
def zeroRemainder (f : Form) : M Form := do
  match (← get).zeroMods.lookup f with
  | some v => return .ofVar v
  | none =>
    let v ← fresh
    for (g, w) in (← get).zeroMods do
      require (.or (differ f g) (equal (.ofVar v) (.ofVar w)))
    modify fun s => { s with zeroMods := (f, v) :: s.zeroMods }
    return .ofVar v

/-- A form divided by a positive constant. -/
structure Quotient where
  form : Form
  den : Nat

namespace Quotient

/-- An undivided form. -/
def ofForm (f : Form) : Quotient := ⟨f, 1⟩

/-- A constant. -/
def ofRat (q : Rat) : Quotient := ⟨.ofInt q.num, q.den⟩

/-- Sum. -/
def add (a b : Quotient) : Quotient :=
  ⟨(a.form.scale b.den).add (b.form.scale a.den), a.den * b.den⟩

/-- Negative. -/
def neg (a : Quotient) : Quotient := { a with form := a.form.neg }

/-- The constant, if there are no variables. -/
def const? (a : Quotient) : Option Rat := a.form.const?.map fun c => mkRat c a.den

/-- Multiple. -/
def scale (q : Rat) (a : Quotient) : Quotient := ⟨a.form.scale q.num, a.den * q.den⟩

/-- Product, if a factor is constant. -/
def mul? (a b : Quotient) : Option Quotient :=
  match a.const?, b.const? with
  | some q, _ => some (b.scale q)
  | _, some q => some (a.scale q)
  | _, _ => none

/-- Power of a constant with a whole positive exponent; a first power of anything. -/
def pow? (a b : Quotient) : Option Quotient :=
  match a.const?, b.const? with
  | some q, some e => if e.den = 1 ∧ 0 < e.num then some (ofRat (q ^ e.num.toNat)) else none
  | none, some e => if e = 1 then some a else none
  | _, _ => none

/-- A ring operation. -/
def ring? (op : Ring) (a b : Quotient) : Option Quotient :=
  match op with
  | .add => some (a.add b)
  | .sub => some (a.add b.neg)
  | .mul => a.mul? b

/-- The numerator of the difference of two quotients. -/
def gap (a b : Quotient) : Form := (a.add b.neg).form

end Quotient

/-- The goal that an order holds of a difference. -/
def ordered (op : Order) (gap : Form) : Goal :=
  match op with
  | .lt => .nonneg (gap.neg.shift (-1))
  | .le => .nonneg gap.neg
  | .gt => .nonneg (gap.shift (-1))
  | .ge => .nonneg gap

/-- The opposite order. -/
def opposite : Order → Order
  | .lt => .ge
  | .le => .gt
  | .gt => .le
  | .ge => .lt

/-- The goal that a difference is zero, or that it is not. -/
def vanishes (positive : Bool) (gap : Form) : Goal :=
  if positive then .zero gap
  else .or (.nonneg (gap.shift (-1))) (.nonneg (gap.neg.shift (-1)))

/-- What a term reduces to: the two goals that a formula holds and that it fails, or a form over
a denominator. -/
abbrev Image : Kind → Type
  | .bool => Goal × Goal
  | .num _ => Quotient

/-- The pair of goals for equality of two terms. -/
def equality : (k : Kind) → Image k → Image k → Goal × Goal
  | .bool, (p, p'), (q, q') =>
    (.or (.and p q) (.and p' q'), .or (.and p q') (.and p' q))
  | .num _, a, b => (vanishes true (a.gap b), vanishes false (a.gap b))

/-- Reduce a term. -/
def reduce : {k : Kind} → Term k → M (Image k)
  | _, .var .bool x => do
    let f ← unknown ⟨.bool, x⟩
    return (.nonneg (f.shift (-1)), .nonneg f.neg)
  | _, .var (.num .int) x => do return .ofForm (← unknown ⟨.int, x⟩)
  | _, .var (.num .real) _ => fail
  | _, .bool b => return if b then (.top, .bottom) else (.bottom, .top)
  | _, .int n => return .ofForm (.ofInt n)
  | _, .real q => return .ofRat q
  | _, .neg a => do return (← reduce a).neg
  | _, .ring op a b => do
    match Quotient.ring? op (← reduce a) (← reduce b) with
    | some q => return q
    | none => fail
  | _, .mod a b => do
    let f ← reduce a
    match (← reduce b).form.const? with
    | some 0 => return .ofForm (← zeroRemainder f.form)
    | some m => return .ofForm (← remainder f.form m.natAbs)
    | none => fail
  | _, .pow a b => do
    match Quotient.pow? (← reduce a) (← reduce b) with
    | some q => return q
    | none => fail
  | _, .toReal a => do
    let q : Quotient ← reduce (k := .int) a
    return q
  | _, .ite c a b => do
    let (holds, fails) ← reduce c
    let p ← reduce a
    let q ← reduce b
    let v ← fresh
    let den := p.den * q.den
    let value : Quotient := ⟨.ofVar v, den⟩
    require (.or (.and holds (.zero (value.gap p))) (.and fails (.zero (value.gap q))))
    return value
  | _, .eq (k := k) a b => do return equality k (← reduce a) (← reduce b)
  | _, .distinct (k := k) a b => do
    let (same, other) := equality k (← reduce a) (← reduce b)
    return (other, same)
  | _, .order op a b => do
    let gap := (← reduce a).gap (← reduce b)
    return (ordered op gap, ordered (opposite op) gap)
  | _, .not a => do
    let (holds, fails) ← reduce a
    return (fails, holds)
  | _, .and a b => do
    let (p, p') ← reduce a
    let (q, q') ← reduce b
    return (.and p q, .or p' q')
  | _, .or a b => do
    let (p, p') ← reduce a
    let (q, q') ← reduce b
    return (.or p q, .and p' q')

/-- The goal of several formulas with its numbering, if all are linear. -/
def reduceAll (φs : List Formula) : Option (Goal × State) := do
  let (goals, s) ← (φs.mapM fun φ => reduce φ).run .empty
  let facts := (goals.map Prod.fst) ++ s.sides
  return (facts.foldr .and .top, s)

/-- Read a model off an assignment. -/
def model (s : State) (σ : Linear.Assignment) : Model :=
  let entries := s.unknowns.reverse.map fun (u, i) =>
    (u.name, if u.kind = .bool then Reading.bool (σ.value i == 1) else Reading.int (σ.value i))
  let table := s.zeroMods.map fun (f, v) => (f.eval σ, σ.value v)
  ⟨if table.isEmpty then entries else entries ++ [("mod0", .modZero table)]⟩

/-- A model of formulas with linear arithmetic, or the answer that they have none. The outer `none`
says that the formulas are not linear. -/
def solve? (φs : List Formula) : Option (Option Model) :=
  (reduceAll φs).map fun (g, s) => g.solve?.map (model s)

end Reduction

end Pathwise
