import Pathwise.Linear.Form

/-!
# Integer solutions of linear systems

`System.solve?` looks for integers that make some forms zero and others nonnegative.

* An equation is solved for a variable with coefficient one; where there is none, a change of
  variables makes the coefficients smaller until there is.
* A variable is eliminated from inequalities by pairing its lower with its upper bounds. That is
  exact if one side has only coefficients one. Otherwise a narrower system finds the solutions
  that leave room, and the others lie close to a bound and are tried one by one.
-/

namespace Pathwise

namespace Linear

/-- Forms that are to be zero, and forms that are to be nonnegative. -/
structure System where
  zeros : List Form
  nonnegs : List Form
  deriving Repr

namespace System

/-- Bring an equation to lowest terms: `none` if it has no solution, and no equation if it
always holds. -/
def reduceZero (f : Form) : Option (List Form) :=
  match f.const? with
  | some c => if c = 0 then some [] else none
  | none =>
    let d := f.content
    if f.const % (d : Int) = 0 then some [f.divide d (f.const / (d : Int))] else none

/-- Bring an inequality to lowest terms, as `reduceZero`. -/
def reduceNonneg (f : Form) : Option (List Form) :=
  match f.const? with
  | some c => if 0 ≤ c then some [] else none
  | none =>
    let d := f.content
    some [f.divide d (f.const / (d : Int))]

/-- Reduce all members of a list. -/
def reduceAll (reduce : Form → Option (List Form)) (fs : List Form) : Option (List Form) :=
  (fs.mapM reduce).map List.flatten

/-- Keep the tightest of the inequalities with equal coefficients. -/
def tighten (fs : List Form) : List Form :=
  fs.foldl insert []
where
  /-- Insert an inequality into a list of tightest ones. -/
  insert (kept : List Form) (f : Form) : List Form :=
    match kept with
    | [] => [f]
    | g :: rest =>
      if g.coeffs = f.coeffs then (if g.const ≤ f.const then g else f) :: rest
      else g :: insert rest f

/-- How an inequality and its opposite meet. -/
inductive Meeting where
  | apart
  | touching (f : Form)
  | crossing

/-- Look for two opposite inequalities that leave one value or none. -/
def meeting (fs : List Form) : Meeting :=
  fs.foldl
    (fun found f =>
      match found with
      | .apart =>
        let opposite := f.coeffs.map fun (x, a) => (x, -a)
        match fs.find? fun g => g.coeffs = opposite with
        | none => .apart
        | some g =>
          if f.const + g.const < 0 then .crossing
          else if f.const + g.const = 0 then .touching f
          else .apart
      | other => other)
    .apart

/-- The variables of some forms. -/
def support (fs : List Form) : List Nat :=
  (fs.flatMap fun f => f.coeffs.map Prod.fst).eraseDups

/-- The bounds on a variable: inequalities in which it is positive, those in which it is negative,
and those without it. -/
structure Bounds where
  lower : List Form
  upper : List Form
  free : List Form

/-- Sort inequalities by a variable. -/
def bounds (fs : List Form) (x : Nat) : Bounds :=
  ⟨fs.filter fun f => 0 < f.coeff x, fs.filter fun f => f.coeff x < 0,
    fs.filter fun f => f.coeff x = 0⟩

namespace Bounds

/-- Whether eliminating the variable loses no integer solution. -/
def isExact (b : Bounds) (x : Nat) : Bool :=
  b.lower.all (fun f => f.coeff x = 1) || b.upper.all (fun f => f.coeff x = -1)

/-- How many inequalities eliminating the variable makes. -/
def cost (b : Bounds) : Nat := b.lower.length * b.upper.length

/-- The sizes of the variable's coefficients in some inequalities. -/
def sizes (fs : List Form) (x : Nat) : List Nat := fs.map fun f => (f.coeff x).natAbs

/-- The sum of these sizes. -/
def total (fs : List Form) (x : Nat) : Nat := (sizes fs x).foldl (· + ·) 0

/-- The sum of the sizes of the variable's coefficients on the side where it is smaller. -/
def spread (b : Bounds) (x : Nat) : Nat := min (total b.lower x) (total b.upper x)

/-- How much work eliminating the variable makes. A variable without bounds on a side is best, and
one whose elimination loses solutions is worse than all that lose none: it is the worse the larger
its coefficients are. -/
def weight (b : Bounds) (x : Nat) : Nat :=
  if b.cost = 0 then 0
  else if b.isExact x then 2 * b.cost
  else 1000000 + 1000 * b.spread x + b.cost

/-- Pair every lower with every upper bound; `gap` is the room that each pair has to leave. -/
def shadow (b : Bounds) (x : Nat) (gap : Int → Int → Int) : List Form :=
  b.free ++ b.lower.flatMap fun l => b.upper.map fun u =>
    let p := l.coeff x
    let q := -u.coeff x
    (((l.without x).scale q).add ((u.without x).scale p)).shift (-(gap p q))

/-- A value of the variable between its bounds, the others being given. -/
def pick (b : Bounds) (x : Nat) (σ : Assignment) : Int :=
  let least (f : Form) : Int := -((f.without x).eval σ / f.coeff x)
  let greatest (f : Form) : Int := (f.without x).eval σ / (-f.coeff x)
  match b.lower.map least, b.upper.map greatest with
  | l :: ls, _ => ls.foldl max l
  | [], u :: us => us.foldl min u
  | [], [] => 0

/-- How many equations are tried for one bound at most. Only systems whose coefficients are all
larger than this on both sides of every variable need more. -/
def closeLimit : Nat := 20000

/-- The equations that put a variable close to one of its bounds on a side, given the bounds on the
other side. -/
def closeTo (side other : List Form) (x : Nat) : List Form :=
  let q := (sizes other x).foldl max 1
  side.flatMap fun f =>
    let p := (f.coeff x).natAbs
    (List.range (min closeLimit ((p * q - p - q) / q + 1))).map fun i => f.shift (-i)

/-- The equations that put a variable close to one of its bounds, on the side where they are
fewer. -/
def splinters (b : Bounds) (x : Nat) : List Form :=
  if total b.lower x ≤ total b.upper x then closeTo b.lower b.upper x
  else closeTo b.upper b.lower x

end Bounds

/-- The variable that is the cheapest to eliminate. -/
def choice (fs : List Form) : Option (Nat × Bounds) :=
  let weighed := (support fs).map fun x =>
    let b := bounds fs x
    (b.weight x, x, b)
  let least := weighed.foldl
    (fun (best : Option (Nat × Nat × Bounds)) item =>
      match best with
      | none => some item
      | some b => if item.1 < b.1 then some item else some b)
    none
  least.map Prod.snd

/-- The coefficient of least size in a form, with its variable. -/
def leastCoeff (f : Form) : Option (Nat × Int) :=
  f.coeffs.foldl
    (fun (best : Option (Nat × Int)) item =>
      match best with
      | none => some item
      | some b => if item.2.natAbs < b.2.natAbs then some item else some b)
    none

/-- What to put in the place of a variable with coefficient `a` to solve an equation for it, or
to make the other coefficients smaller than `a`. -/
def replacement (f : Form) (x : Nat) (a : Int) : Form :=
  if a.natAbs = 1 then (f.without x).scale (-a)
  else
    let rest := f.without x
    let quotient : Form :=
      ⟨rest.const / a,
        rest.coeffs.filterMap fun (y, c) => if c / a = 0 then none else some (y, c / a)⟩
    (Form.ofVar x).sub quotient

mutual

/-- An integer solution of a system, within a bound on the number of steps. -/
def solve? (steps : Nat) (s : System) : Option Assignment :=
  match steps with
  | 0 => none
  | steps + 1 =>
    match reduceAll reduceZero s.zeros, reduceAll reduceNonneg s.nonnegs with
    | some (f :: zeros), some nonnegs => solveZero steps f zeros nonnegs
    | some [], some nonnegs => solveNonneg steps (tighten nonnegs)
    | _, _ => none

/-- Use an equation to replace a variable. -/
def solveZero (steps : Nat) (f : Form) (zeros nonnegs : List Form) : Option Assignment :=
  match steps with
  | 0 => none
  | steps + 1 =>
    match leastCoeff f with
    | none => none
    | some (x, a) =>
      let g := replacement f x a
      let put (h : Form) : Form := h.subst x g
      let zeros := if a.natAbs = 1 then zeros.map put else (f :: zeros).map put
      match solve? steps ⟨zeros, nonnegs.map put⟩ with
      | none => none
      | some σ => some ((x, g.eval σ) :: σ.filter fun (y, _) => y != x)

/-- Eliminate a variable from inequalities. -/
def solveNonneg (steps : Nat) (fs : List Form) : Option Assignment :=
  match steps with
  | 0 => none
  | steps + 1 =>
    match meeting fs with
    | .crossing => none
    | .touching f => solve? steps ⟨[f], fs⟩
    | .apart =>
      match choice fs with
      | none => some []
      | some (x, b) =>
        let finish (σ : Assignment) : Assignment := (x, b.pick x σ) :: σ
        if b.cost = 0 then (solve? steps ⟨[], b.free⟩).map finish
        else if b.isExact x then (solve? steps ⟨[], b.shadow x fun _ _ => 0⟩).map finish
        else
          match solve? steps ⟨[], b.shadow x fun _ _ => 0⟩ with
          | none => none
          | some ρ =>
            -- the bounds may leave an integer of the variable even where this is not certain
            if fs.all fun f => 0 ≤ f.eval (finish ρ) then some (finish ρ)
            else
              match solve? steps ⟨[], b.shadow x fun p q => (p - 1) * (q - 1)⟩ with
              | some σ => some (finish σ)
              | none => (b.splinters x).findSome? fun f => solve? steps ⟨[f], fs⟩

end

/-- Whether an assignment solves a system. -/
def holds (s : System) (σ : Assignment) : Bool :=
  s.zeros.all (fun f => f.eval σ == 0) && s.nonnegs.all fun f => 0 ≤ f.eval σ

end System

end Linear

end Pathwise
