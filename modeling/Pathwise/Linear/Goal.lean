import Pathwise.Linear.System

/-!
# Combinations of linear conditions

A goal joins linear conditions by "and" and "or". `Goal.solve?` finds integers that meet it: it
solves the conditions that have to hold in any case and splits an alternative only if the
solution found meets neither side of it.
-/

namespace Pathwise

namespace Linear

/-- Linear conditions joined by "and" and "or". -/
inductive Goal where
  | top
  | bottom
  | zero (f : Form)
  | nonneg (f : Form)
  | and (a b : Goal)
  | or (a b : Goal)
  deriving Repr

namespace Goal

/-- Whether an assignment meets a goal. -/
def holds (σ : Assignment) : Goal → Bool
  | .top => true
  | .bottom => false
  | .zero f => f.eval σ == 0
  | .nonneg f => 0 ≤ f.eval σ
  | .and a b => a.holds σ && b.holds σ
  | .or a b => a.holds σ || b.holds σ

/-- How many alternatives a goal has. -/
def alternatives : Goal → Nat
  | .and a b => a.alternatives + b.alternatives
  | .or a b => a.alternatives + b.alternatives + 1
  | _ => 0

/-- Conditions that have to hold, and alternatives still open. -/
structure Agenda where
  system : System
  pending : List (Goal × Goal)

/-- Nothing to do. -/
def Agenda.empty : Agenda := ⟨⟨[], []⟩, []⟩

/-- Enter a goal into an agenda, or find that it cannot be met. -/
def enter : Goal → Agenda → Option Agenda
  | .top, w => some w
  | .bottom, _ => none
  | .zero f, w => some { w with system := { w.system with zeros := f :: w.system.zeros } }
  | .nonneg f, w => some { w with system := { w.system with nonnegs := f :: w.system.nonnegs } }
  | .and a b, w => (a.enter w).bind b.enter
  | .or a b, w => some { w with pending := (a, b) :: w.pending }

/-- Take the first item with a property out of a list. -/
def takeOut {α : Type} (p : α → Bool) : List α → Option (α × List α)
  | [] => none
  | x :: xs =>
    if p x then some (x, xs)
    else (takeOut p xs).map fun (y, ys) => (y, x :: ys)

/-- Bound on the steps of solving one system. -/
def systemSteps : Nat := 100000

/-- Meet an agenda, splitting at most the given number of alternatives in a row. -/
def meet? : Nat → Agenda → Option Assignment
  | splits, w =>
    match w.system.solve? systemSteps with
    | none => none
    | some σ =>
      match takeOut (fun (a, b) => !(a.holds σ || b.holds σ)) w.pending with
      | none => some σ
      | some ((a, b), rest) =>
        match splits with
        | 0 => none
        | splits + 1 =>
          let remaining : Agenda := { w with pending := rest }
          let first := (a.enter remaining).bind (meet? splits)
          match first with
          | some τ => some τ
          | none => (b.enter remaining).bind (meet? splits)

/-- Integers that meet a goal. -/
def solve? (g : Goal) : Option Assignment :=
  (g.enter .empty).bind (meet? g.alternatives)

end Goal

end Linear

end Pathwise
