import FitSession.Scalar

/-!
# Dense matrices

A matrix is the list of its rows, all of one length; the matrix without rows is the only one of
size `0 × 0`.

* `DenseMatrix`, `DenseMatrix.ofFn`, `DenseMatrix.get`: a matrix by its entries;
* `DenseMatrix.submatrix`: chosen rows and columns;
* `DenseMatrix.symmetrized`: the average with the transpose;
* `DenseMatrix.mulVec`, `DenseMatrix.diagonal`: products and diagonals.
-/

namespace FitSession

/-- A matrix as the list of its rows. -/
structure DenseMatrix (α : Type) where
  rows : List (List α)
deriving BEq, Repr

namespace DenseMatrix

variable {α : Type}

/-- The matrix with entry `f i j` in row `i` and column `j`. -/
def ofFn (n m : Nat) (f : Nat → Nat → α) : DenseMatrix α :=
  ⟨(List.range n).map fun i => (List.range m).map fun j => f i j⟩

/-- The number of rows. -/
def nrows (m : DenseMatrix α) : Nat := m.rows.length

/-- The number of columns. -/
def ncols (m : DenseMatrix α) : Nat := (m.rows.head?.map List.length).getD 0

/-- Whether the matrix has `n` rows and `n` columns. -/
def hasSize (m : DenseMatrix α) (n : Nat) : Bool := m.nrows = n && m.ncols = n

/-- The entries in reading order, each with its row and column. -/
def entries (m : DenseMatrix α) : List (Nat × Nat × α) :=
  m.rows.zipIdx.flatMap fun (row, i) => row.zipIdx.map fun (x, j) => (i, j, x)

/-- The entries at the chosen rows and columns; positions outside the matrix are left out. -/
def submatrix (m : DenseMatrix α) (is js : List Nat) : DenseMatrix α :=
  ⟨is.filterMap fun i => m.rows[i]?.map fun row => js.filterMap fun j => row[j]?⟩

/-- Every entry changed by `f`. -/
def map {β : Type} (f : α → β) (m : DenseMatrix α) : DenseMatrix β := ⟨m.rows.map (·.map f)⟩

variable [Scalar α]

/-- The entry in row `i` and column `j`, zero outside the matrix. -/
def get (m : DenseMatrix α) (i j : Nat) : α := ((m.rows[i]?.getD [])[j]?).getD 0

/-- The entries `(i, i)`. -/
def diagonal (m : DenseMatrix α) : List α := (List.range m.nrows).map fun i => m.get i i

/-- The matrix with one row and column per position and ones on the diagonal. -/
def identity (n : Nat) : DenseMatrix α := ofFn n n fun i j => if i = j then 1 else 0

/-- The product with a vector. -/
def mulVec (m : DenseMatrix α) (x : List α) : List α := m.rows.map fun row => Scalar.dot row x

/-- The average with the transpose; the diagonal is kept. -/
def symmetrized (m : DenseMatrix α) : DenseMatrix α :=
  ofFn m.nrows m.ncols fun i j =>
    if i = j then m.get i j
    else if j < i then 0.5 * (m.get i j + m.get j i)
    else 0.5 * (m.get j i + m.get i j)

end DenseMatrix
end FitSession
