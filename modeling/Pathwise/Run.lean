import Pathwise.Held.Basic

/-!
# Runs that ask for truth

A run is a computation that now and then needs to know whether a condition holds. It names the
condition and goes on with the answer, or with the fault that asking led to.

Nothing in a run says who answers. `Trail.decide` answers from a path and a solver; a valuation
answers by evaluation.
-/

namespace Pathwise

/-- A computation that asks for the truth of conditions. -/
inductive Run (α : Type) where
  | done (a : α)
  | ask (φ : Held) (k : Except Fault Bool → Run α)

namespace Run

variable {α β : Type}

/-- Go on with the result of a run. -/
def bind (r : Run α) (f : α → Run β) : Run β :=
  match r with
  | .done a => f a
  | .ask φ k => .ask φ fun b => (k b).bind f

instance : Monad Run where
  pure := .done
  bind := bind

@[simp] theorem pure_bind (a : α) (f : α → Run β) : (Run.done a).bind f = f a := rfl

theorem bind_done (r : Run α) : r.bind .done = r := by
  induction r with
  | done a => rfl
  | ask φ k ih => simp [bind, ih]

theorem bind_assoc {γ : Type} (r : Run α) (f : α → Run β) (g : β → Run γ) :
    (r.bind f).bind g = r.bind fun a => (f a).bind g := by
  induction r with
  | done a => rfl
  | ask φ k ih => simp [bind, ih]

instance : LawfulMonad Run :=
  LawfulMonad.mk' Run (fun r => bind_done r) (fun _ _ => rfl) bind_assoc

end Run

end Pathwise
