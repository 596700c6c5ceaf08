import FitSession.Minimizer.Iteration
import FitSession.Minimizer.LineSearch

/-!
# Quasi-Newton steps of limited memory

A minimization by line searches along `-H g`, where `H` stands for the inverse curvature as far as
the last few pairs of steps and gradient changes tell it.

* `Lbfgs.Pair`, `Lbfgs.direction`: the memory, and the direction that it gives;
* `Lbfgs.State`, `Lbfgs.isConverged`, `Lbfgs.advance`: the current point and one step from it;
* `Lbfgs.solver`: the solver from a start.
-/

namespace FitSession
namespace Lbfgs

/-- A step and the change of the gradient along it. -/
structure Pair (α : Type) where
  step : List α
  change : List α

/-- The current point of a minimization. -/
structure State (α : Type) where
  theta : List α
  cost : α
  costBefore : α
  gradient : List α
  /-- The memory, oldest pair first. -/
  pairs : List (Pair α)

/-- When a minimization ends, and how many pairs it keeps. -/
structure Settings (α : Type) where
  gradientTolerance : α
  costTolerance : α
  memory : Nat

variable {α : Type} [Scalar α]

/-- The estimate of the inverse curvature times `g`; the newest pair comes first and the scale is
that of the newest pair. -/
def apply (scale : α) : List (Pair α) → List α → List α
  | [], q => Scalar.scaleVec scale q
  | p :: older, q =>
    let rho := 1 / Scalar.dot p.change p.step
    let a := Scalar.dot p.step q * rho
    let r := apply scale older (Scalar.subVec q (Scalar.scaleVec a p.change))
    let b := Scalar.dot p.change r * rho
    Scalar.addVec r (Scalar.scaleVec (a - b) p.step)

/-- The scale of the inverse curvature along the newest pair. -/
def newestScale : List (Pair α) → α
  | [] => 1
  | p :: _ => Scalar.dot p.step p.change / Scalar.dot p.change p.change

/-- The direction of the next line search. -/
def direction (s : State α) : List α :=
  let newestFirst := s.pairs.reverse
  Scalar.scaleVec (-1) (apply (newestScale newestFirst) newestFirst s.gradient)

/-- Whether the gradient is small, or the last step has hardly changed the cost. -/
def isConverged (settings : Settings α) (s : State α) : Bool :=
  decide (Scalar.norm s.gradient < settings.gradientTolerance)
    || decide (Scalar.abs (s.costBefore - s.cost) < settings.costTolerance)

/-- One line search. When it fails the run ends where it was. -/
def advance (search : Ray α → Search α (LinePoint α)) (settings : Settings α) (made : Nat)
    (s : State α) : Search α (State α × Option (Termination α)) := do
  match ← (search ⟨s.theta, direction s, s.cost, s.gradient⟩).attempt with
  | .error fault => pure (s, some (.lineSearch fault))
  | .ok found =>
    let gradient ← Search.gradient found.theta
    let kept := if settings.memory ≤ made then s.pairs.drop 1 else s.pairs
    let pair := ⟨Scalar.subVec found.theta s.theta, Scalar.subVec gradient s.gradient⟩
    pure (⟨found.theta, found.cost, s.cost, gradient, kept ++ [pair]⟩, none)

/-- The state at the start. -/
def start (theta : List α) : Search α (State α) := do
  let cost ← Search.value theta
  let gradient ← Search.gradient theta
  pure ⟨theta, cost, Scalar.inf, gradient, []⟩

/-- The solver from a start, with a line search of choice. -/
def solver (search : Ray α → Search α (LinePoint α)) (settings : Settings α) (theta : List α) :
    Solver α (State α) where
  start := start theta
  current s := ⟨s.theta, s.cost⟩
  hasConverged := isConverged settings
  step := advance search settings

end Lbfgs
end FitSession
