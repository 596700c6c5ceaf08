import FitSession.Cost
import FitSession.Dense.Inverse

/-!
# Normal constraints

The cost of a normal distribution of some parameters around a mean: the quadratic form of their
deviation with the inverse of the covariance.

* `NormalConstraint`, `NormalConstraint.ofErrors`, `NormalConstraint.ofCovariance`: constraints
  without and with correlations;
* `NormalConstraint.value`, `NormalConstraint.grad`: the quadratic form and its gradient;
* `NormalConstraint.toCost`: the cost.
-/

namespace FitSession

/-- A normal distribution of some parameters, by its mean and the inverse of its covariance. -/
structure NormalConstraint (α : Type) where
  names : List String
  mean : List α
  inverse : DenseMatrix α

namespace NormalConstraint

variable {α : Type} [Scalar α]

/-- Independent parameters with standard deviations; these must be finite and positive. -/
def ofErrors (names : List String) (mean errors : List α) :
    Except (FitError α) (NormalConstraint α) := do
  checkLength names.length mean.length
  checkLength names.length errors.length
  match errors.zipIdx.find? fun (e, _) => !(Scalar.isFinite e && decide (0 < e)) with
  | some (e, i) => throw (.invalidValue i e .widthNotPositive)
  | none =>
    let n := names.length
    pure ⟨names, mean, DenseMatrix.ofFn n n fun i j =>
      if i = j then
        let e := errors[i]?.getD 1
        1 / (e * e)
      else 0⟩

/-- Parameters with a covariance, which must have an inverse. -/
def ofCovariance (names : List String) (mean : List α) (cov : DenseMatrix α) :
    Except (FitError α) (NormalConstraint α) := do
  checkLength names.length mean.length
  checkLength names.length cov.nrows
  checkLength names.length cov.ncols
  match cov.inverse? with
  | some inverse => pure ⟨names, mean, inverse⟩
  | none => throw (.fitFailed .singularConstraint)

/-- The deviation from the mean. -/
def residuals (c : NormalConstraint α) (args : List α) : Except (FitError α) (List α) := do
  checkLength c.names.length args.length
  pure (Scalar.subVec args c.mean)

/-- The quadratic form of the deviation. -/
def value (c : NormalConstraint α) (args : List α) : Except (FitError α) α := do
  let r ← c.residuals args
  pure <| Scalar.sum <| r.zipIdx.flatMap fun (x, i) =>
    r.zipIdx.map fun (y, j) => x * c.inverse.get i j * y

/-- Twice the inverse covariance times the deviation. -/
def grad (c : NormalConstraint α) (args : List α) : Except (FitError α) (List α) := do
  let r ← c.residuals args
  pure <| r.zipIdx.map fun (_, i) =>
    2 * Scalar.sum (r.zipIdx.map fun (y, j) => c.inverse.get i j * y)

/-- The cost of the deviation. -/
def toCost (c : NormalConstraint α) : Cost α :=
  { Cost.ofFunction c.value with
    grad := c.grad, hasGrad := true, names := some c.names,
    errordef := some leastSquaresErrordef }

end NormalConstraint
end FitSession
