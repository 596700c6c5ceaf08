import FitSession.Coordinates.Problem
import FitSession.Covariance.Inversion
import FitSession.Derivative.Hessian

/-!
# Curvature at a point

The covariance of the free parameters and the estimated distance to the minimum, from the curvature
of a problem.

* `FitError.meansNoCurvature`: the failures that only say that there is no usable curvature;
* `Curvature`, `Problem.curvature`: what the curvature tells;
* `ParameterState.withCurvature`: a state with the errors and the covariance of a curvature.
-/

namespace FitSession

/-- What the curvature at a point tells. -/
structure Curvature (α : Type) where
  /-- The covariance of the free parameters. -/
  external : DenseMatrix α
  /-- The estimated distance to the minimum. -/
  edm : α
  /-- Some direction had to be bent upwards. -/
  madePosdef : Bool

/-- Whether a failure only says that there is no usable curvature. -/
def FitError.meansNoCurvature {α : Type} : FitError α → Bool
  | .nonFiniteCost _ => true
  | .invalidHessian _ _ _ => true
  | .hessianDimMismatch _ _ _ => true
  | .invalidGradient _ _ _ => true
  | .gradientDimMismatch _ _ => true
  | _ => false

variable {α : Type} [Scalar α]

/-- The estimated distance to the minimum, `½ gᵀ H⁻¹ g`. -/
def distanceToMinimum (inverse : DenseMatrix α) (g : List α) : α :=
  0.5 * Scalar.dot g (inverse.mulVec g)

namespace Problem

variable {μ : Type} [Memory μ α] [Differences α]

/-- The matrix of second derivatives, from gradients or from values. -/
def hessian (p : Problem α) (theta : List α) (useGradient : Bool) :
    Run μ α (Except (FitError α) (DenseMatrix α)) :=
  if useGradient then
    hessianOfGradients (fun t => do
      match ← (p.gradient t).attempt with
      | .ok g => pure g
      | .error _ => pure (t.map fun _ => Scalar.nan)) theta
  else (hessianOfValues p.value theta).attempt

/-- The curvature at a point, if it is usable. -/
def curvature (p : Problem α) (theta : List α) (useGradient : Bool) :
    Run μ α (Option (Curvature α)) := do
  match ← p.hessian theta useGradient with
  | .error e => if e.meansNoCurvature then pure none else throw e
  | .ok h =>
    match invertCurvature h with
    | none => pure none
    | some inv => do
      let edm := match ← (p.gradient theta).attempt with
        | .ok g => distanceToMinimum inv.inverse g
        | .error _ => Scalar.inf
      let b ← get
      let internal := inv.inverse.map (2 * b.up * ·)
      pure (some ⟨p.map.carriedCovariance theta internal, edm, inv.madePosdef⟩)

end Problem

/-- A state with the errors and the covariance of a curvature; without one it has no covariance. -/
def ParameterState.withCurvature (s : ParameterState α) (free : List Nat)
    (c : Option (Curvature α)) : ParameterState α :=
  match c with
  | none => s.withCovariance none
  | some c =>
    let errors := c.external.diagonal.map fun v => Scalar.sqrt (Scalar.maxNum v 0)
    (s.overwriteErrors free errors).withCovariance (some c.external)

end FitSession
