import FitSession.Derivative.Difference
import FitSession.Scratch

/-!
# Curvatures from finite differences

The matrix of second derivatives at a point, from values alone or from gradients.

* `displace`, `putBack`: a scratch point that is moved away from the point on an axis, and back;
* `curvatureStep`, `hessianOfValues`: second differences of values, with one point on each side of
  every coordinate and four around every pair;
* `hessianOfGradients`: differences of gradients on both sides, or ahead only when those are not
  usable.
-/

namespace FitSession

variable {α : Type} {m : Type → Type} [Scalar α] [Monad m]

/-- The step of second differences on a coordinate: the fourth root of the spacing at 1, in units
of the coordinate if that is large. -/
def curvatureStep (x : α) : α := 1 / 8192 * Scalar.maxNum (Scalar.abs x) 1

section Scratch

variable (f : List α → m α) (theta : List α)

/-- Moves the scratch point by `x` from `theta` on axis `i`. -/
def displace (i : Nat) (x : α) : StateT (List α) m PUnit :=
  Scratch.write i (theta[i]?.getD 0 + x)

/-- Moves the scratch point back to `theta` on axis `i`. -/
def putBack (i : Nat) : StateT (List α) m PUnit := Scratch.write i (theta[i]?.getD 0)

/-- The second difference on one axis. -/
def diagonalInPlace (f0 : α) (i : Nat) (h : α) : StateT (List α) m α := do
  displace theta i h
  let ahead ← Scratch.ask f
  displace theta i (-h)
  let behind ← Scratch.ask f
  putBack theta i
  pure ((ahead - 2 * f0 + behind) / (h * h))

/-- The value with the scratch point moved on two axes. -/
def cornerInPlace (i j : Nat) (x y : α) : StateT (List α) m α := do
  displace theta i x
  displace theta j y
  let v ← Scratch.ask f
  putBack theta i
  putBack theta j
  pure v

/-- The mixed difference on two axes. -/
def mixedInPlace (i j : Nat) (hi hj : α) : StateT (List α) m α := do
  let pp ← cornerInPlace f theta i j hi hj
  let pm ← cornerInPlace f theta i j hi (-hj)
  let mp ← cornerInPlace f theta i j (-hi) hj
  let mm ← cornerInPlace f theta i j (-hi) (-hj)
  pure ((pp - pm - mp + mm) / (4 * hi * hj))

/-- The entries of row `i` up to the diagonal, which is evaluated first. -/
def rowInPlace (steps : List α) (f0 : α) (i : Nat) : StateT (List α) m (List α) := do
  let hi := steps[i]?.getD 1
  let diagonal ← diagonalInPlace f theta f0 i hi
  let mixed ← (List.range i).mapM fun j => mixedInPlace f theta i j hi (steps[j]?.getD 1)
  pure (mixed ++ [diagonal])

end Scratch

/-- The symmetric matrix with these rows up to the diagonal. -/
def ofLowerRows (rows : List (List α)) : DenseMatrix α :=
  let lower (i j : Nat) : α := ((rows[i]?.getD [])[j]?).getD 0
  DenseMatrix.ofFn rows.length rows.length fun i j => if j ≤ i then lower i j else lower j i

/-- Second differences with given steps: `1 + 2 n + 2 n (n - 1)` evaluations. -/
def secondDifferences (f : List α → m α) (theta steps : List α) : m (DenseMatrix α) := do
  let f0 ← f theta
  let rows ← ((List.range theta.length).mapM (rowInPlace f theta steps f0)).run' theta
  pure (ofLowerRows rows)

/-- The curvature from values. -/
def hessianOfValues [MonadExceptOf (FitError α) m] (f : List α → m α) (theta : List α) :
    m (DenseMatrix α) := do
  let h ← secondDifferences f theta (theta.map curvatureStep)
  match checkHessian h theta.length with
  | .ok () => pure h
  | .error e => throw e

/-- Differences of gradients on both sides, one row per coordinate. The gradient at the point is
asked for first. -/
def centralRows (g : List α → m (List α)) (theta : List α) : m (DenseMatrix α) := do
  let _ ← g theta
  let samples ← centralSamples g theta
  pure ⟨samples.map fun (ahead, behind) =>
    (Scalar.subVec ahead behind).map (· / (2 * differenceStep))⟩

/-- Differences of gradients ahead, one row per coordinate. -/
def forwardRows (g : List α → m (List α)) (theta : List α) : m (DenseMatrix α) := do
  let (here, ahead) ← forwardSamples g theta
  pure ⟨ahead.map fun x => (Scalar.subVec x here).map (· / differenceStep)⟩

/-- The curvature from gradients. -/
def hessianOfGradients (g : List α → m (List α)) (theta : List α) :
    m (Except (FitError α) (DenseMatrix α)) := do
  let central := (← centralRows g theta).symmetrized
  match checkHessian central theta.length with
  | .ok () => pure (.ok central)
  | .error _ => do
    let forward := (← forwardRows g theta).symmetrized
    pure do
      checkHessian forward theta.length
      pure forward

end FitSession
