import FitSession.Dense
import FitSession.Failure

/-!
# Checks of derivatives

What crosses between a minimizer and an objective must be finite and of the right size.

* `checkFiniteCost`, `checkGradient`, `checkHessian`, `checkSolverPoint`: values, gradients,
  curvatures and points;
* `checkGradientTolerance`: tolerances of a solver.
-/

namespace FitSession

variable {α : Type} [Scalar α]

/-- A value of the objective must be finite. -/
def checkFiniteCost (x : α) : Except (FitError α) Unit :=
  if Scalar.isFinite x then .ok () else .error (.nonFiniteCost x)

/-- A gradient must have `dim` finite components. -/
def checkGradient (g : List α) (dim : Nat) : Except (FitError α) Unit :=
  if g.length ≠ dim then .error (.gradientDimMismatch dim g.length)
  else
    match g.zipIdx.find? fun (x, _) => !Scalar.isFinite x with
    | some (x, i) => .error (.invalidGradient i x .notFinite)
    | none => .ok ()

/-- A curvature must be a square matrix of size `dim` with finite entries. -/
def checkHessian (h : DenseMatrix α) (dim : Nat) : Except (FitError α) Unit :=
  if !h.hasSize dim then .error (.hessianDimMismatch dim h.nrows h.ncols)
  else
    match h.entries.find? fun (_, _, x) => !Scalar.isFinite x with
    | some (i, j, x) => .error (.invalidHessian i j x)
    | none => .ok ()

/-- The best point of a solver must exist and be finite. -/
def checkSolverPoint (theta : Option (List α)) : Except (FitError α) (List α) :=
  match theta with
  | none => .error (.fitFailed .noSolverPoint)
  | some t =>
    match t.zipIdx.find? fun (x, _) => !Scalar.isFinite x with
    | some (x, i) => .error (.invalidValue i x .solverPointNotFinite)
    | none => .ok t

/-- Whether a tolerance or scale is finite and positive. -/
def isPositive (x : α) : Bool := Scalar.isFinite x && decide (0 < x)

/-- A gradient tolerance must be finite and positive. -/
def checkGradientTolerance (x : α) : Except (FitError α) Unit :=
  if isPositive x then .ok () else .error (.configuration (.gradientTolerance x))

end FitSession
