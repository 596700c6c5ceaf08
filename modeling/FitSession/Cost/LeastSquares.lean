import FitSession.Cost

/-!
# Least squares

The cost of a model against measured points: the sum over the points of a loss of the residual in
units of its uncertainty.

* `Loss`: the loss of a standardized residual;
* `LeastSquares`, `LeastSquares.ofData`: points and model, with their validation;
* `LeastSquares.toCost`: the cost.
-/

namespace FitSession

/-- The loss of a standardized residual. -/
inductive Loss
  /-- The square of the residual. -/
  | linear
  /-- A loss that grows like the residual itself when it is large. -/
  | softL1
deriving DecidableEq, Repr

/-- Measured points and a model for them. -/
structure LeastSquares (α : Type) where
  points : List (α × α × α)
  names : List String
  model : α → List α → α
  loss : Loss
  verbose : Nat

variable {α : Type} [Scalar α]

/-- The loss of a residual. -/
def Loss.apply (loss : Loss) (z : α) : α :=
  match loss with
  | .linear => z * z
  | .softL1 => 2 * (Scalar.sqrt (1 + z * z) - 1)

namespace LeastSquares

/-- Points `(x, y)` with uncertainties; these must be finite and positive. -/
def ofData (x y yerror : List α) (names : List String) (model : α → List α → α) :
    Except (FitError α) (LeastSquares α) := do
  checkLength x.length y.length
  checkLength x.length yerror.length
  match yerror.zipIdx.find? fun (e, _) => !(Scalar.isFinite e && decide (0 < e)) with
  | some (e, i) => throw (.invalidValue i e .uncertaintyNotPositive)
  | none => pure ⟨x.zip (y.zip yerror), names, model, .linear, 0⟩

/-- The sum of the losses. It starts from negative zero, to which every number can be added without
a change. -/
def value (c : LeastSquares α) (args : List α) : Except (FitError α) α := do
  checkLength c.names.length args.length
  pure <| c.points.foldl
    (fun total (x, y, e) => total + c.loss.apply ((y - c.model x args) / e)) (-0)

/-- The cost of the points under the model. -/
def toCost (c : LeastSquares α) : Cost α :=
  { Cost.ofFunction c.value with
    names := some c.names, errordef := some leastSquaresErrordef, verbose := c.verbose }

end LeastSquares
end FitSession
