import FitSession.Dense.Eigen
import FitSession.Dense.Inverse

/-!
# Covariances from curvatures

The covariance of a fit is the inverse of its curvature. The inverse is built from eigenvalues, so
that a curvature with directions that are flat or bend downwards still gives a covariance: their
eigenvalues are lifted to a fraction of the largest one.

* `flatFloor`, `liftFraction`: the least usable eigenvalue, and the fraction;
* `Inversion`, `Inversion.ofEigen?`, `invertCurvatureWith`, `invertCurvature`: the inverse and how
  it was obtained;
* `globalCorrelations`: how far each parameter is determined by all others.
-/

namespace FitSession

/-- The inverse of a curvature. -/
structure Inversion (α : Type) where
  inverse : DenseMatrix α
  /-- Every eigenvalue was above the floor. -/
  posdef : Bool
  /-- Some eigenvalue was lifted to the floor. -/
  madePosdef : Bool

variable {α : Type} [Scalar α]

/-- A curvature whose largest eigenvalue is not above this has no usable direction. -/
def flatFloor : α := 1e-12

/-- The fraction of the largest eigenvalue to which smaller ones are lifted. -/
def liftFraction : α := 1e-3

/-- The largest eigenvalue. -/
def Eigen.largest (e : Eigen α) : α := e.values.foldl Scalar.maxNum Scalar.negInf

namespace Inversion

/-- An eigenvalue, lifted to the floor unless it is above it. -/
def lift (floor x : α) : α := if floor < x then x else floor

/-- The matrix with these eigenvectors and the reciprocals of these eigenvalues. -/
def compose (values : List α) (q : DenseMatrix α) : DenseMatrix α :=
  let n := values.length
  DenseMatrix.ofFn n n fun i j =>
    Scalar.sum (values.zipIdx.map fun (l, k) => q.get i k * q.get j k / l)

/-- The inverse from a decomposition, unless no direction bends upwards. -/
def ofEigen? (e : Eigen α) : Option (Inversion α) :=
  let top := e.largest
  if !Scalar.isFinite top || top ≤ flatFloor then none
  else
    let floor := liftFraction * top
    let inverse := compose (e.values.map (lift floor)) e.vectors
    let made := e.values.any fun x => !decide (floor < x)
    if inverse.rows.all (·.all Scalar.isFinite) then some ⟨inverse, !made, made⟩ else none

end Inversion

/-- The inverse of a symmetric curvature, by a way to decompose it. -/
def invertCurvatureWith (decompose : DenseMatrix α → Eigen α) (h : DenseMatrix α) :
    Option (Inversion α) :=
  if h.nrows = 0 then some ⟨⟨[]⟩, true, false⟩ else Inversion.ofEigen? (decompose h)

/-- The inverse of a symmetric curvature. -/
def invertCurvature (h : DenseMatrix α) : Option (Inversion α) :=
  invertCurvatureWith Eigen.ofSymmetric h

/-- The global correlation coefficients `sqrt (1 - 1 / (Vᵢᵢ (V⁻¹)ᵢᵢ))` of a covariance, unless it
has no inverse. -/
def globalCorrelations (cov : DenseMatrix α) : Option (List α) :=
  cov.inverse?.map fun inv =>
    (List.range cov.nrows).map fun i =>
      let product := cov.get i i * inv.get i i
      if 0 < product then Scalar.sqrt (Scalar.maxNum (1 - 1 / product) 0) else 0

end FitSession
