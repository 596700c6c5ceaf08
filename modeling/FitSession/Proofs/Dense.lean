import FitSession.Dense
import FitSession.Proofs.Positions

/-!
# Square matrices

* `DenseMatrix.IsSquare`: a matrix with as many rows as each row has entries;
* `get_ofFn`, `isSquare_ofFn`: matrices given by their entries;
* `submatrix_eq_map`, `get_submatrix`: rows and columns that are chosen from a square matrix.
-/

namespace FitSession.DenseMatrix

variable {α : Type} {n : Nat}

/-- The matrix has `n` rows of `n` entries each. -/
structure IsSquare (n : Nat) (m : DenseMatrix α) : Prop where
  rows : m.rows.length = n
  entries : ∀ row ∈ m.rows, row.length = n

theorem isSquare_ofFn (n : Nat) (f : Nat → Nat → α) : (ofFn n n f).IsSquare n where
  rows := by simp [ofFn]
  entries row hrow := by
    obtain ⟨i, -, rfl⟩ := List.mem_map.mp hrow
    simp

/-- Only the entries within the matrix matter. -/
theorem ofFn_congr {m : Nat} {f g : Nat → Nat → α} (h : ∀ i < n, ∀ j < m, f i j = g i j) :
    ofFn n m f = ofFn n m g := by
  refine congrArg DenseMatrix.mk (List.map_congr_left fun i hi => List.map_congr_left fun j hj => ?_)
  exact h i (List.mem_range.mp hi) j (List.mem_range.mp hj)

theorem IsSquare.hasSize {m : DenseMatrix α} (h : m.IsSquare n) : m.hasSize n = true := by
  obtain ⟨rows⟩ := m
  cases rows with
  | nil =>
    have hn : n = 0 := h.rows.symm
    subst hn
    rfl
  | cons row rest =>
    have hrows : (row :: rest).length = n := h.rows
    have hrow : row.length = n := h.entries row List.mem_cons_self
    rw [DenseMatrix.hasSize, Bool.and_eq_true, decide_eq_true_eq, decide_eq_true_eq]
    exact ⟨hrows, hrow⟩

variable [Scalar α]

theorem get_ofFn {i j : Nat} (hi : i < n) (hj : j < n) (f : Nat → Nat → α) :
    (ofFn n n f).get i j = f i j := by
  simp [ofFn, get, hi, hj]

theorem getElem?_row {m : DenseMatrix α} (h : m.IsSquare n) {i j : Nat} (hi : i < n)
    (hj : j < n) : ∃ row, m.rows[i]? = some row ∧ row[j]? = some (m.get i j) := by
  have hlt : i < m.rows.length := h.rows ▸ hi
  have hrow : j < m.rows[i].length := (h.entries _ (List.getElem_mem hlt)).symm ▸ hj
  refine ⟨m.rows[i], List.getElem?_eq_getElem hlt, ?_⟩
  simp [get, hlt, hrow]

/-- Rows and columns within a square matrix are all chosen. -/
theorem submatrix_eq_map {m : DenseMatrix α} (h : m.IsSquare n) {ks : List Nat}
    (hks : ∀ k ∈ ks, k < n) : m.submatrix ks ks = ⟨ks.map fun i => ks.map fun j => m.get i j⟩ := by
  refine congrArg DenseMatrix.mk (filterMap_eq_map fun i hi => ?_)
  obtain ⟨row, hrow, -⟩ := getElem?_row h (hks i hi) (hks i hi)
  rw [hrow, Option.map_some]
  refine congrArg some (filterMap_eq_map fun j hj => ?_)
  obtain ⟨row', hrow', hentry⟩ := getElem?_row h (hks i hi) (hks j hj)
  rw [hrow] at hrow'
  cases hrow'
  exact hentry

theorem isSquare_submatrix {m : DenseMatrix α} (h : m.IsSquare n) {ks : List Nat}
    (hks : ∀ k ∈ ks, k < n) : (m.submatrix ks ks).IsSquare ks.length := by
  rw [submatrix_eq_map h hks]
  refine ⟨by simp, fun row hrow => ?_⟩
  obtain ⟨i, -, rfl⟩ := List.mem_map.mp hrow
  simp

/-- The entries of chosen rows and columns are those of the matrix. -/
theorem get_submatrix {m : DenseMatrix α} (h : m.IsSquare n) {ks : List Nat}
    (hks : ∀ k ∈ ks, k < n) {x y i j : Nat} (hx : ks[x]? = some i) (hy : ks[y]? = some j) :
    (m.submatrix ks ks).get x y = m.get i j := by
  rw [submatrix_eq_map h hks]
  simp [get, hx, hy]

end FitSession.DenseMatrix
