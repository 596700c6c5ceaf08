import FitSession.Dense

/-!
# Inverse matrices

Up to three rows a matrix is inverted by its cofactors over the determinant, and with four rows by
its cofactors times the reciprocal of the determinant. A larger one is brought to triangular form,
with the largest entry of a column as pivot, and solved against the identity. A matrix has no
inverse when its determinant, or a pivot, is exactly zero; one that is only so small that its
reciprocal is infinite gives an inverse with infinite entries.

* `determinant`, `sixProducts`: expansion along the first row, and the sum of products;
* `DenseMatrix.cofactorInverse?`, `DenseMatrix.fourRowInverse?`: inverses by cofactors;
* `triangular?`, `backSubstitute`: the two halves of elimination;
* `DenseMatrix.inverse?`: the inverse.
-/

namespace FitSession

variable {α : Type} [Scalar α]

/-- Terms of alternating sign, starting with plus, added from the left. -/
def alternatingSum (xs : List α) : α :=
  match xs with
  | [] => 0
  | x :: rest =>
    rest.zipIdx.foldl (fun total (y, k) => if k % 2 = 0 then total - y else total + y) x

/-- The determinant of a square list of rows, by expansion along the first one. -/
def determinant : List (List α) → α
  | [] => 1
  | row :: rest =>
    alternatingSum <| row.zipIdx.map fun (x, j) =>
      if rest.isEmpty then x else x * determinant (rest.map (·.eraseIdx j))
termination_by rows => rows.length

/-- The determinant of three rows as the sum of its six products. -/
def sixProducts : List (List α) → α
  | [[a, b, c], [d, e, f], [g, h, i]] =>
    a * e * i - a * h * f - b * d * i + b * g * f + c * d * h - c * g * e
  | _ => 0

/-- The place of the largest magnitude, the first of equal ones. -/
def largestAt (xs : List α) : Nat :=
  match xs with
  | [] => 0
  | x :: rest =>
    ((rest.zipIdx 1).foldl (fun (best, place) (y, k) =>
      if best < Scalar.abs y then (Scalar.abs y, k) else (best, place)) (Scalar.abs x, 0)).2

/-- The rows after the first one has changed places with the one whose first entry is largest. -/
def pivotFirst (rows : List (List α)) : List (List α) :=
  let k := largestAt (rows.map (·.headD 0))
  match rows.head?, rows[k]? with
  | some first, some best => (rows.set k first).set 0 best
  | _, _ => rows

/-- The row without its first entry, after subtracting the multiple of `pivot` that clears it.
The pivot's first entry is given by its reciprocal. -/
def clearFirst (reciprocal : α) (pivot row : List α) : List α :=
  let factor := row.headD 0 * reciprocal
  List.zipWith (fun x p => x - p * factor) row.tail pivot.tail

/-- Clears as many leading columns as the first argument says: the `k`-th row of the result starts
with the pivot of column `k`. -/
def triangular? : Nat → List (List α) → Option (List (List α))
  | 0, _ => some []
  | n + 1, rows =>
    match pivotFirst rows with
    | [] => some []
    | pivot :: rest =>
      let p := pivot.headD 0
      if p == 0 then none
      else (triangular? n (rest.map (clearFirst (1 / p) pivot))).map (pivot :: ·)

/-- Solves triangular rows, each extended by its right-hand sides, from the last one up. -/
def backSubstitute : List (List α) → List (List α)
  | [] => []
  | row :: rest =>
    let solved := backSubstitute rest
    let right := row.drop (solved.length + 1)
    let remaining := (row.tail.zip solved).foldr
      (fun (u, xs) bs => List.zipWith (fun b x => b - x * u) bs xs) right
    remaining.map (· / row.headD 0) :: solved

namespace DenseMatrix

/-- The signed minor that belongs to row `i` and column `j`, with `minor` as the determinant of
what is left. -/
def cofactor (minor : List (List α) → α) (m : DenseMatrix α) (i j : Nat) : α :=
  let rest := minor ((m.rows.eraseIdx i).map (·.eraseIdx j))
  if (i + j) % 2 = 0 then rest else -rest

/-- The transposed cofactors over the determinant, unless that is zero. -/
def cofactorInverse? (m : DenseMatrix α) : Option (DenseMatrix α) :=
  let det := determinant m.rows
  if det == 0 then none
  else some (ofFn m.nrows m.nrows fun i j => m.cofactor determinant j i / det)

/-- The inverse of four rows: the transposed cofactors times the reciprocal of the determinant,
which is expanded along the first column. -/
def fourRowInverse? (m : DenseMatrix α) : Option (DenseMatrix α) :=
  let adjugate := ofFn 4 4 fun i j => m.cofactor sixProducts j i
  let det := Scalar.sum ((List.range 4).map fun k => m.get k 0 * adjugate.get 0 k)
  if det == 0 then none else some (adjugate.map (· * (1 / det)))

/-- The inverse by elimination on the matrix extended by the identity. -/
def eliminationInverse? (m : DenseMatrix α) : Option (DenseMatrix α) :=
  let extended := List.zipWith (· ++ ·) m.rows (identity m.nrows).rows
  (triangular? m.nrows extended).map fun rows => ⟨backSubstitute rows⟩

/-- The inverse of a square matrix. -/
def inverse? (m : DenseMatrix α) : Option (DenseMatrix α) :=
  if m.nrows < 4 then m.cofactorInverse?
  else if m.nrows = 4 then m.fourRowInverse?
  else m.eliminationInverse?

end DenseMatrix
end FitSession
