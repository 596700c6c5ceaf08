import FitSession.Bench
import FitSession.Coordinates.Map
import FitSession.Derivative.Difference
import FitSession.Minimizer.Search

/-!
# Minimization problems

A problem is a cost seen through a parameter map: a function of the internal coordinates of the
free parameters. Whatever asks it, what comes of an evaluation is noted in a memory, which can tell
the lowest value met so far and its point. A minimizer remembers nothing else.

* `Problem`, `Best`: the problem, and the lowest value met;
* `Memory`: what may be remembered of the evaluations;
* `Problem.value`, `Problem.gradient`: what can be asked;
* `Problem.answer`: the questions of a search, answered.
-/

namespace FitSession

/-- A cost as a function of internal coordinates. -/
structure Problem (α : Type) where
  cost : Cost α
  map : ParameterMap α

/-- The lowest value met so far and its point. -/
abbrev Best (α : Type) : Type := Option (α × List α)

/-- What may be remembered of the evaluations of a problem. -/
class Memory (μ : Type) (α : outParam Type) where
  /-- The memory after one more evaluation, at a point, with what came of it. -/
  note : μ → List α → Except (FitError α) α → μ
  /-- The lowest value that was noted, and its point. -/
  lowest : μ → Best α

variable {α : Type} [Scalar α]

/-- The lowest value after one more; of equal values the first stays. -/
def Best.record (best : Best α) (x : α) (theta : List α) : Best α :=
  match best with
  | some (least, point) => if least ≤ x then some (least, point) else some (x, theta)
  | none => some (x, theta)

/-- Only the lowest value is remembered, and failures are not. -/
instance : Memory (Best α) α where
  note best theta answer :=
    match answer with
    | .ok x => best.record x theta
    | .error _ => best
  lowest := id

/-- A value that is finite. -/
def finiteCost (x : α) : Except (FitError α) α := do
  checkFiniteCost x
  pure x

namespace Problem

variable {μ : Type} [Memory μ α] [Differences α]

/-- The value at a point, which must be finite. -/
def value (p : Problem α) (theta : List α) : Run μ α α := do
  let answer ← (p.cost.evaluate (p.map.toExternal theta)).attempt
  let checked := answer >>= finiteCost
  modify fun b => { b with memory := Memory.note b.memory theta checked }
  Run.ofExcept checked

/-- The gradient that the cost gives, carried over to internal coordinates. -/
def givenGradient (p : Problem α) (theta : List α) : Run μ α (List α) := do
  let args := p.map.toExternal theta
  let g ← p.cost.differentiate args
  if g.length ≠ args.length then throw (.gradientDimMismatch args.length g.length)
  pure (List.zipWith (fun i d => g[i]?.getD 0 * d) p.map.free (p.map.jacobian theta))

/-- The gradient from differences: on both sides, or ahead only when those are not usable. -/
def differenceGradient (p : Problem α) (theta : List α) : Run μ α (List α) := do
  let sample (t : List α) := (p.value t).attempt
  match ← checkedSlopes sample (Differences.central theta) theta.length with
  | .ok g => pure g
  | .error _ => do
    let forward ← forwardGradient sample theta
    Run.ofExcept forward

/-- The gradient: that of the cost if it has one, else from differences. -/
def gradient (p : Problem α) (theta : List α) : Run μ α (List α) := do
  if p.cost.hasGrad then
    match ← (p.givenGradient theta).attempt with
    | .ok g => do
      Run.ofExcept (checkGradient g theta.length)
      pure g
    | .error .gradientNotImplemented => p.differenceGradient theta
    | .error e => throw e
  else p.differenceGradient theta

/-- The questions of a search, answered in order. -/
def answer {β : Type} (p : Problem α) : Search α β → Run μ α β
  | .done x => pure x
  | .fail fault => throw fault.toFitError
  | .askValue theta next => do
    let x ← (p.value theta).attempt
    p.answer (next (x.mapError .objective))
  | .askGradient theta next => do
    let g ← (p.gradient theta).attempt
    p.answer (next (g.mapError .objective))

end Problem
end FitSession
