import FitSession.Dense

/-!
# Tridiagonal matrices

A change of axes that makes a symmetric matrix tridiagonal. For each column but the last two a
reflection sends the part below the diagonal to a multiple of its first axis. Only the lower half of
the matrix is read.

* `Reflection`, `Reflection.clearing`: the reflection that clears a vector behind its first
  coordinate;
* `Reflection.turn`: a symmetric matrix seen from the reflected axes;
* `Tridiagonal`, `Tridiagonal.ofSymmetric`: the tridiagonal matrix and its axes.
-/

namespace FitSession

variable {α : Type} [Scalar α]

/-- A reflection, by the unit vector across it. -/
structure Reflection (α : Type) where
  across : List α
  /-- What the vector to be cleared becomes in its first coordinate. -/
  image : α
  /-- The reflection is the identity, because there was nothing to clear. -/
  isIdle : Bool

namespace Reflection

/-- The reflection that clears `x` behind its first coordinate. -/
def clearing (x : List α) : Reflection α :=
  let square := Scalar.dot x x
  let length := Scalar.sqrt square
  match x with
  | [] => ⟨[], 0, true⟩
  | first :: rest =>
    let signed := if 0 ≤ first then length else -length
    let factor := (square + Scalar.abs first * length) * 2
    if factor == 0 then ⟨x, signed, true⟩
    else
      let scaled := ((first + signed) :: rest).map (· / Scalar.sqrt factor)
      ⟨scaled.map (· / Scalar.norm scaled), -signed, false⟩

/-- A symmetric matrix, given by its lower half, seen from the reflected axes. -/
def turn (r : Reflection α) (m : DenseMatrix α) : DenseMatrix α :=
  if r.isIdle then m
  else
    let n := m.nrows
    let a (i : Nat) : α := r.across[i]?.getD 0
    let lower (i j : Nat) : α := if j ≤ i then m.get i j else m.get j i
    let ps := (List.range n).map fun i =>
      2 * Scalar.sum ((List.range n).map fun j => lower i j * a j)
    let p (i : Nat) : α := ps[i]?.getD 0
    let twice := Scalar.dot r.across ps * 2
    DenseMatrix.ofFn n n fun i j =>
      if j ≤ i then m.get i j - p i * a j - a i * p j + twice * a i * a j else m.get i j

/-- The columns of a matrix reflected, and negated if the image is negative. -/
def reflect (r : Reflection α) (m : DenseMatrix α) : DenseMatrix α :=
  if r.isIdle then m
  else
    let sign : α := if r.image < 0 then -1 else 1
    let n := m.nrows
    let factors := (List.range n).map fun j =>
      Scalar.sum ((List.range n).map fun i => r.across[i]?.getD 0 * m.get i j) * (sign * -2)
    DenseMatrix.ofFn n n fun i j =>
      factors[j]?.getD 0 * r.across[i]?.getD 0 + sign * m.get i j

end Reflection

/-- A symmetric tridiagonal matrix, and its axes as columns. -/
structure Tridiagonal (α : Type) where
  diagonal : List α
  /-- The entries beside the diagonal. -/
  beside : List α
  axes : DenseMatrix α

namespace Tridiagonal

/-- A matrix in one more axis, which it leaves alone. -/
def bordered (m : DenseMatrix α) : DenseMatrix α :=
  let n := m.nrows + 1
  DenseMatrix.ofFn n n fun i j =>
    match i, j with
    | 0, 0 => 1
    | i + 1, j + 1 => m.get i j
    | _, _ => 0

/-- The tridiagonal form of a matrix with as many rows as the first argument says. -/
def reduce : Nat → DenseMatrix α → Tridiagonal α
  | 0, _ => ⟨[], [], ⟨[]⟩⟩
  | 1, m => ⟨[m.get 0 0], [], DenseMatrix.identity 1⟩
  | n + 2, m =>
    let below := (List.range (n + 1)).map fun i => m.get (i + 1) 0
    let rest : DenseMatrix α := ⟨(m.rows.drop 1).map (·.drop 1)⟩
    let r := Reflection.clearing below
    let t := reduce (n + 1) (r.turn rest)
    ⟨m.get 0 0 :: t.diagonal, Scalar.abs r.image :: t.beside, bordered (r.reflect t.axes)⟩

/-- The tridiagonal form of a symmetric matrix. -/
def ofSymmetric (m : DenseMatrix α) : Tridiagonal α := reduce m.nrows m

end Tridiagonal
end FitSession
