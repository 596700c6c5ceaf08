import FitSession.Scalar

/-!
# Samplings

A sampling is a finite plan for asking a function for its values: each question is a point, and the
plan goes on from the answer. A plan only knows numbers. Where the function fails it is answered
with NaN, and it is followed to its end.

* `Sampling`: the plans, and their monad;
* `Sampling.value`: one question;
* `Sampling.follow`: a plan, asked of a function that always answers;
* `Sampling.answer`, `Sampling.run`: a plan, asked of a function that may fail, with a slot for its
  first failure.
-/

namespace FitSession

/-- A finite plan for asking a function of points. -/
inductive Sampling (α β : Type)
  | done (x : β)
  | ask (theta : List α) (next : α → Sampling α β)

namespace Sampling

variable {α β γ : Type}

/-- The plan `s`, continued from its result. -/
def bind (s : Sampling α β) (f : β → Sampling α γ) : Sampling α γ :=
  match s with
  | done x => f x
  | ask theta next => ask theta fun answer => (next answer).bind f

instance : Monad (Sampling α) where
  pure := done
  bind := bind

/-- The value at a point. -/
def value (theta : List α) : Sampling α α := ask theta done

section Run

variable {ε : Type} {m : Type → Type} [Monad m]

/-- The result of a plan, asked of a function that always answers. -/
def follow (f : List α → m α) : Sampling α β → m β
  | done x => pure x
  | ask theta next => do
    let x ← f theta
    follow f (next x)

/-- What comes of a plan that has been followed: the failure in the slot, or its result. -/
def settled (x : β) : Option ε → Except ε β
  | some e => .error e
  | none => .ok x

/-- The value at a point. A failure is answered with NaN, and kept in the slot if that is empty. -/
def answer [Scalar α] (f : List α → m (Except ε α)) (theta : List α) :
    StateT (Option ε) m α := do
  match ← f theta with
  | .ok x => pure x
  | .error e => do
    modify (·.or (some e))
    pure Scalar.nan

/-- The result of a plan, or the first failure of the function that it asks. -/
def run [Scalar α] (f : List α → m (Except ε α)) (s : Sampling α β) : m (Except ε β) := do
  let (x, slot) ← (s.follow (answer f)).run none
  pure (settled x slot)

end Run

end Sampling
end FitSession
