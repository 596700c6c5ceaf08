import FitSession.Derivative.Checks
import FitSession.Derivative.Sampling

/-!
# Finite differences

Derivatives from the values of a function at shifted points. How the points are chosen, and the
slopes computed, is a plan, so that a sample may also be a failure.

* `differenceStep`, `shifted`: the step and a point moved along one axis;
* `centralSamples`, `centralSlopes`: samples on both sides of each coordinate;
* `forwardSamples`, `forwardSlopes`: a sample at the point and one ahead on each coordinate;
* `Differences`, `standardDifferences`: plans for both kinds of slopes, and the usual ones;
* `checkedSlopes`, `forwardGradient`: slopes that are checked.
-/

namespace FitSession

variable {α β : Type} {m : Type → Type} [Scalar α] [Monad m]

/-- The step of first differences, the square root of the spacing at 1. -/
def differenceStep : α := 1 / 67108864

/-- The point `theta` moved by `h` along axis `i`. -/
def shifted (theta : List α) (i : Nat) (h : α) : List α := theta.modify i (· + h)

/-- Samples ahead and behind on each axis, in this order. -/
def centralSamples (f : List α → m β) (theta : List α) : m (List (β × β)) :=
  (List.range theta.length).mapM fun i => do
    let ahead ← f (shifted theta i differenceStep)
    let behind ← f (shifted theta i (-differenceStep))
    pure (ahead, behind)

/-- The sample at the point, then one ahead on each axis. -/
def forwardSamples (f : List α → m β) (theta : List α) : m (β × List β) := do
  let here ← f theta
  let ahead ← (List.range theta.length).mapM fun i => f (shifted theta i differenceStep)
  pure (here, ahead)

/-- Slopes from samples on both sides. -/
def centralSlopes (samples : List (α × α)) : List α :=
  samples.map fun (ahead, behind) => (ahead - behind) / (2 * differenceStep)

/-- Slopes from the sample at the point and those ahead. -/
def forwardSlopes (here : α) (ahead : List α) : List α :=
  ahead.map fun x => (x - here) / differenceStep

/-- How the slopes of a function at a point are taken from its values. -/
class Differences (α : Type) where
  /-- The slopes from values on both sides. -/
  central : List α → Sampling α (List α)
  /-- The slopes from values ahead. -/
  forward : List α → Sampling α (List α)

/-- One step on each axis. -/
instance standardDifferences : Differences α where
  central theta := do
    let samples ← centralSamples Sampling.value theta
    pure (centralSlopes samples)
  forward theta := do
    let (here, ahead) ← forwardSamples Sampling.value theta
    pure (forwardSlopes here ahead)

/-- The slopes that a plan gives. All points are sampled before the first failure, or an unusable
component, is reported. -/
def checkedSlopes (f : List α → m (Except (FitError α) α)) (plan : Sampling α (List α))
    (dim : Nat) : m (Except (FitError α) (List α)) := do
  let slopes ← plan.run f
  pure do
    let g ← slopes
    checkGradient g dim
    pure g

/-- The gradient from forward differences. -/
def forwardGradient [Differences α] (f : List α → m (Except (FitError α) α)) (theta : List α) :
    m (Except (FitError α) (List α)) :=
  checkedSlopes f (Differences.forward theta) theta.length

end FitSession
