import FitSession.Dense.Eigen
import FitSession.Proofs.Exact

/-!
# Exact eigenvalues

Symmetric matrices of real numbers with an exact decomposition, and those whose decomposition is
computed exactly.

* `DenseMatrix.ofMatrix`: matrices of real numbers as lists of rows;
* `Spectral`, `Spectral.spectrum_eq`: a decomposition, and the eigenvalues it finds;
* `Spectral.mapped`, `Spectral.mapped_mulVec`: functions of a symmetric matrix;
* `Eigen.ofSymmetric_diagonal`: **a diagonal matrix is decomposed exactly**.
-/

namespace FitSession

open Matrix

variable {n : ℕ} {M H : Matrix (Fin n) (Fin n) ℝ}

/-! ## Matrices of real numbers -/

namespace DenseMatrix

/-- A matrix of real numbers as the list of its rows. -/
def ofMatrix (M : Matrix (Fin n) (Fin n) ℝ) : DenseMatrix Exact :=
  ⟨List.ofFn fun i => List.ofFn fun j => .real (M i j)⟩

@[simp] theorem nrows_ofMatrix : (ofMatrix M).nrows = n := List.length_ofFn

@[simp] theorem ncols_ofMatrix : (ofMatrix M).ncols = n := by
  cases n with
  | zero => rfl
  | succ n => simp [ofMatrix, ncols]

@[simp] theorem get_ofMatrix (i j : Fin n) : (ofMatrix M).get i j = .real (M i j) := by
  simp [ofMatrix, get]

theorem ofFn_eq_ofMatrix {f : ℕ → ℕ → Exact} (h : ∀ i j : Fin n, f i j = .real (M i j)) :
    ofFn n n f = ofMatrix M := by
  refine congrArg DenseMatrix.mk (List.ext_getElem (by simp) fun i hi _ => ?_)
  refine List.ext_getElem (by simp) fun j hj _ => ?_
  simp only [List.length_map, List.length_range] at hi
  simp only [List.getElem_map, List.getElem_range, List.length_map, List.length_range] at hj
  simpa using h ⟨i, hi⟩ ⟨j, hj⟩

theorem identity_eq (n : ℕ) : identity n = ofMatrix (1 : Matrix (Fin n) (Fin n) ℝ) := by
  refine ofFn_eq_ofMatrix fun i j => ?_
  by_cases h : i = j
  · subst h
    simp [Exact.ofNat_eq]
  · simp [h, Fin.val_ne_of_ne h, Exact.ofNat_eq]

/-- What is left without the first row and column. -/
theorem drop_ofMatrix (M : Matrix (Fin (n + 1)) (Fin (n + 1)) ℝ) :
    (⟨((ofMatrix M).rows.drop 1).map (·.drop 1)⟩ : DenseMatrix Exact) =
      ofMatrix (M.submatrix Fin.succ Fin.succ) := by
  simp [ofMatrix, List.ofFn_succ, Function.comp_def]

theorem map_ofMatrix {f : Exact → Exact} {g : ℝ → ℝ} (h : ∀ x, f (.real x) = .real (g x)) :
    (ofMatrix M).map f = ofMatrix (M.map g) := by
  simp [ofMatrix, map, List.map_ofFn, Function.comp_def, h]

theorem isFinite_ofMatrix : ((ofMatrix M).rows.all fun row => row.all Scalar.isFinite) = true := by
  simp [ofMatrix]

end DenseMatrix

/-! ## Decompositions -/

theorem exists_isGreatest_range (hn : n ≠ 0) (v : Fin n → ℝ) :
    ∃ top, IsGreatest (Set.range v) top := by
  have : Nonempty (Fin n) := ⟨⟨0, Nat.pos_of_ne_zero hn⟩⟩
  obtain ⟨k, hk⟩ := Finite.exists_max v
  refine ⟨v k, ⟨k, rfl⟩, ?_⟩
  rintro _ ⟨j, rfl⟩
  exact hk j

/-- A decomposition of a symmetric matrix: its eigenvalues, and eigenvectors as the orthonormal
columns of a matrix. -/
structure Spectral (H : Matrix (Fin n) (Fin n) ℝ) where
  values : Fin n → ℝ
  vectors : Matrix (Fin n) (Fin n) ℝ
  orthonormal : vectorsᵀ * vectors = 1
  recovers : vectors * diagonal values * vectorsᵀ = H

namespace Spectral

/-- A diagonal matrix is its own decomposition. -/
def ofDiagonal (v : Fin n → ℝ) : Spectral (diagonal v) where
  values := v
  vectors := 1
  orthonormal := by simp
  recovers := by simp

variable (d : Spectral H)

/-- The decomposition in the form in which it is computed. -/
def toEigen : Eigen Exact := ⟨List.ofFn fun k => .real (d.values k), .ofMatrix d.vectors⟩

theorem orthonormal' : d.vectors * d.vectorsᵀ = 1 := mul_eq_one_comm.mp d.orthonormal

/-- The eigenvalues of the decomposition are all that there are. -/
theorem spectrum_eq : spectrum ℝ H = Set.range d.values := by
  let u : (Matrix (Fin n) (Fin n) ℝ)ˣ := ⟨d.vectors, d.vectorsᵀ, d.orthonormal', d.orthonormal⟩
  calc spectrum ℝ H
      = spectrum ℝ (u * diagonal d.values * u⁻¹ : Matrix (Fin n) (Fin n) ℝ) :=
        congrArg (spectrum ℝ) d.recovers.symm
    _ = Set.range d.values := spectrum.units_conjugate.trans (spectrum_diagonal d.values)

theorem transpose_mul : d.vectorsᵀ * H = diagonal d.values * d.vectorsᵀ := by
  calc d.vectorsᵀ * H
      = d.vectorsᵀ * (d.vectors * diagonal d.values * d.vectorsᵀ) :=
        congrArg (d.vectorsᵀ * ·) d.recovers.symm
    _ = (d.vectorsᵀ * d.vectors) * diagonal d.values * d.vectorsᵀ := by simp only [Matrix.mul_assoc]
    _ = diagonal d.values * d.vectorsᵀ := by rw [d.orthonormal, Matrix.one_mul]

/-! ## Functions of a symmetric matrix -/

/-- A function of a symmetric matrix: it is applied to the eigenvalues. -/
def mapped (f : ℝ → ℝ) : Matrix (Fin n) (Fin n) ℝ :=
  d.vectors * diagonal (fun k => f (d.values k)) * d.vectorsᵀ

theorem mapped_id : (d.mapped fun x => x) = H := d.recovers

/-- What becomes one on every eigenvalue is the identity. -/
theorem mapped_eq_one {f : ℝ → ℝ} (h : ∀ k, f (d.values k) = 1) : d.mapped f = 1 := by
  rw [mapped, funext h, diagonal_one, Matrix.mul_one, d.orthonormal']

theorem mapped_mul (f g : ℝ → ℝ) : d.mapped f * d.mapped g = d.mapped fun x => f x * g x := by
  calc d.mapped f * d.mapped g
      = d.vectors * (diagonal (fun k => f (d.values k)) * ((d.vectorsᵀ * d.vectors) *
          diagonal (fun k => g (d.values k)))) * d.vectorsᵀ := by
        simp only [mapped, Matrix.mul_assoc]
    _ = d.mapped fun x => f x * g x := by
        rw [d.orthonormal, Matrix.one_mul, diagonal_mul_diagonal]
        rfl

/-- A function of a matrix is applied along each eigenvector. -/
theorem mapped_mulVec (f : ℝ → ℝ) {x : ℝ} {u : Fin n → ℝ} (h : H *ᵥ u = x • u) :
    d.mapped f *ᵥ u = f x • u := by
  -- each coordinate of `u` along the eigenvectors is zero or belongs to the eigenvalue `x`
  have hcoord : diagonal d.values *ᵥ (d.vectorsᵀ *ᵥ u) = x • (d.vectorsᵀ *ᵥ u) := by
    rw [← mulVec_smul, ← h, mulVec_mulVec, mulVec_mulVec, d.transpose_mul]
  have hmapped : diagonal (fun k => f (d.values k)) *ᵥ (d.vectorsᵀ *ᵥ u) =
      f x • (d.vectorsᵀ *ᵥ u) := by
    funext k
    have hk := congrFun hcoord k
    simp only [mulVec_diagonal, Pi.smul_apply, smul_eq_mul] at hk ⊢
    obtain heq | hzero := mul_eq_mul_right_iff.mp hk
    · rw [heq]
    · rw [hzero, mul_zero, mul_zero]
  rw [mapped, ← mulVec_mulVec, ← mulVec_mulVec, hmapped, mulVec_smul, mulVec_mulVec, d.orthonormal',
    one_mulVec]

/-- A symmetric matrix with positive eigenvalues is positive definite. -/
theorem posDef (h : ∀ k, 0 < d.values k) : H.PosDef := by
  have hinjective : Function.Injective d.vectors.vecMul :=
    Function.LeftInverse.injective (g := d.vectorsᵀ.vecMul) fun u =>
      (vecMul_vecMul ..).trans (d.orthonormal' ▸ vecMul_one u)
  have hposDef := (posDef_diagonal_iff.mpr h).mul_mul_conjTranspose_same hinjective
  rw [conjTranspose_eq_transpose_of_trivial] at hposDef
  exact (congrArg Matrix.PosDef d.recovers).mp hposDef

end Spectral

/-! ## Diagonal matrices -/

variable {v : Fin n → ℝ}

/-- There is nothing to clear in a vector of zeros. -/
theorem Reflection.clearing_replicate (n : ℕ) :
    Reflection.clearing (List.replicate (n + 1) (Exact.real 0)) =
      ⟨List.replicate (n + 1) (.real 0), .real 0, true⟩ := by
  have hdot : Scalar.dot (List.replicate (n + 1) (Exact.real 0))
      (List.replicate (n + 1) (Exact.real 0)) = .real 0 := by
    have hzeros : List.zipWith (· * ·) (List.replicate (n + 1) (Exact.real 0))
        (List.replicate (n + 1) (Exact.real 0)) = (List.replicate (n + 1) 0).map .real := by
      simp
    rw [Scalar.dot, hzeros, Exact.sum_map_real, List.sum_replicate, smul_zero]
  have hroot : Scalar.sqrt (Exact.real 0) = .real 0 := by simp
  have hfactor : (Exact.real 0 + Scalar.abs (Exact.real 0) * Exact.real 0) * 2 = Exact.real 0 := by
    simp [Exact.ofNat_eq]
  rw [List.replicate_succ] at hdot ⊢
  unfold Reflection.clearing
  rw [hdot]
  dsimp only
  rw [hroot, hfactor, Exact.ofNat_eq, Nat.cast_zero, if_pos (Exact.real_beq_real.mpr rfl),
    if_pos (Exact.real_le_real.mpr le_rfl)]

namespace Tridiagonal

theorem bordered_one (n : ℕ) : bordered (.ofMatrix (1 : Matrix (Fin n) (Fin n) ℝ)) =
    .ofMatrix (1 : Matrix (Fin (n + 1)) (Fin (n + 1)) ℝ) := by
  unfold bordered
  rw [DenseMatrix.nrows_ofMatrix]
  refine DenseMatrix.ofFn_eq_ofMatrix fun i j => ?_
  cases i using Fin.cases with
  | zero =>
    cases j using Fin.cases with
    | zero => simp [Exact.ofNat_eq]
    | succ j => simp [Exact.ofNat_eq, (Fin.succ_ne_zero j).symm]
  | succ i =>
    cases j using Fin.cases with
    | zero => simp [Exact.ofNat_eq]
    | succ j => simp [Matrix.one_apply]

/-- The tridiagonal form of a diagonal matrix. -/
def ofDiagonal (v : Fin n → ℝ) : Tridiagonal Exact :=
  ⟨List.ofFn fun k => .real (v k), List.replicate (n - 1) (.real 0),
    .ofMatrix (1 : Matrix (Fin n) (Fin n) ℝ)⟩

/-- A diagonal matrix is tridiagonal as it is. -/
theorem reduce_diagonal (v : Fin n → ℝ) : reduce n (.ofMatrix (Matrix.diagonal v)) =
    ofDiagonal v := by
  induction n with
  | zero => rfl
  | succ n ih =>
    cases n with
    | zero =>
      have hfirst : (DenseMatrix.ofMatrix (Matrix.diagonal v)).get 0 0 = .real (v 0) := by
        simpa using DenseMatrix.get_ofMatrix (M := Matrix.diagonal v) 0 0
      rw [reduce, hfirst, DenseMatrix.identity_eq]
      rfl
    | succ n =>
      have hfirst : (DenseMatrix.ofMatrix (Matrix.diagonal v)).get 0 0 = .real (v 0) := by
        simpa using DenseMatrix.get_ofMatrix (M := Matrix.diagonal v) 0 0
      have hbelow : ((List.range (n + 1)).map fun i =>
          (DenseMatrix.ofMatrix (Matrix.diagonal v)).get (i + 1) 0) =
            List.replicate (n + 1) (.real 0) := by
        refine List.eq_replicate_iff.mpr ⟨by simp, fun x hx => ?_⟩
        obtain ⟨i, hi, rfl⟩ := List.mem_map.mp hx
        have hentry := DenseMatrix.get_ofMatrix (M := Matrix.diagonal v)
          (Fin.succ ⟨i, List.mem_range.mp hi⟩) 0
        rwa [Matrix.diagonal_apply_ne _ (Fin.succ_ne_zero _)] at hentry
      unfold reduce
      dsimp only
      rw [hbelow, DenseMatrix.drop_ofMatrix, Matrix.submatrix_diagonal _ _ (Fin.succ_injective _),
        Reflection.clearing_replicate]
      change (⟨_ :: (reduce (n + 1) (.ofMatrix (Matrix.diagonal (v ∘ Fin.succ)))).diagonal,
        _ :: (reduce (n + 1) (.ofMatrix (Matrix.diagonal (v ∘ Fin.succ)))).beside,
        bordered (reduce (n + 1) (.ofMatrix (Matrix.diagonal (v ∘ Fin.succ)))).axes⟩ :
          Tridiagonal Exact) = _
      have hdiagonal : .real (v 0) :: (ofDiagonal (v ∘ Fin.succ)).diagonal =
          (ofDiagonal v).diagonal := (List.ofFn_succ (f := fun k => Exact.real (v k))).symm
      have hbeside : Scalar.abs (Exact.real 0) :: (ofDiagonal (v ∘ Fin.succ)).beside =
          (ofDiagonal v).beside := by simp [ofDiagonal, List.replicate_succ]
      have haxes : bordered (ofDiagonal (v ∘ Fin.succ)).axes = (ofDiagonal v).axes :=
        bordered_one (n + 1)
      rw [ih, hfirst, hdiagonal, hbeside, haxes]

theorem exists_d_ofDiagonal (v : Fin n → ℝ) (i : ℕ) : ∃ x, (ofDiagonal v).d i = .real x := by
  rw [d, ofDiagonal]
  by_cases hi : i < n
  · exact ⟨v ⟨i, hi⟩, by simp [hi]⟩
  · exact ⟨0, by simp [hi, Exact.ofNat_eq]⟩

theorem o_ofDiagonal (v : Fin n → ℝ) (i : ℕ) : (ofDiagonal v).o i = .real 0 := by
  rw [o, ofDiagonal]
  by_cases hi : i < n - 1
  · simp [hi]
  · simp [hi, Exact.ofNat_eq]

/-- Without entries beside the diagonal, no block is left. -/
theorem lastCoupled_ofDiagonal (v : Fin n → ℝ) (m : ℕ) : (ofDiagonal v).lastCoupled m = 0 := by
  induction m with
  | zero => rfl
  | succ m ih =>
    obtain ⟨x, hx⟩ := exists_d_ofDiagonal v (m + 1)
    obtain ⟨y, hy⟩ := exists_d_ofDiagonal v m
    have hslack : (ofDiagonal v).slack m = .real (1 / 4503599627370496 * (|x| + |y|)) := by
      simp [slack, hx, hy, Scalar.epsilon, Exact.ofNat_eq]
    rw [lastCoupled, hslack, o_ofDiagonal, if_neg, ih]
    simp
    positivity

/-- Without entries beside the diagonal, nothing is left to do. -/
theorem decouple_ofDiagonal (v : Fin n → ℝ) (fuel last : ℕ) :
    (ofDiagonal v).decouple fuel last = ofDiagonal v := by
  cases fuel with
  | zero => rfl
  | succ fuel => rw [decouple, lastCoupled_ofDiagonal]

end Tridiagonal

/-- The greatest magnitude of an entry bounds all of them. -/
theorem DenseMatrix.exists_greatest (M : Matrix (Fin n) (Fin n) ℝ) :
    ∃ s, (ofMatrix M).greatest = .real s ∧ ∀ i j, |M i j| ≤ s := by
  let xs : List ℝ := (List.ofFn fun i => List.ofFn fun j => M i j).flatten
  have hrows : (ofMatrix M).rows.flatten = xs.map .real := by
    simp [ofMatrix, xs, List.map_flatten, List.map_ofFn, Function.comp_def]
  have hmem (i j : Fin n) : M i j ∈ xs :=
    List.mem_flatten.mpr ⟨_, List.mem_ofFn.mpr ⟨i, rfl⟩, List.mem_ofFn.mpr ⟨j, rfl⟩⟩
  unfold greatest
  rw [hrows]
  cases hxs : xs with
  | nil => exact ⟨0, by simp [Exact.ofNat_eq], fun i j => by simpa [hxs] using hmem i j⟩
  | cons x rest =>
    refine ⟨(rest.map (|·|)).foldl max |x|, ?_, fun i j => ?_⟩
    · change (rest.map Exact.real).foldl (fun top y => Scalar.maxNum top (Scalar.abs y))
        (.real |x|) = _
      rw [← Exact.foldl_maxNum_map_real, List.map_map, List.foldl_map, List.foldl_map]
      rfl
    · have hmax : (xs.map (|·|)).max? = some ((rest.map (|·|)).foldl max |x|) := by rw [hxs]; rfl
      exact (List.max?_eq_some_iff.mp hmax).2 _ (List.mem_map_of_mem (hmem i j))

/-- **A diagonal matrix is decomposed exactly.** -/
theorem Eigen.ofSymmetric_diagonal (v : Fin n → ℝ) :
    Eigen.ofSymmetric (.ofMatrix (diagonal v)) = (Spectral.ofDiagonal v).toEigen := by
  obtain ⟨s, hs, hbound⟩ := DenseMatrix.exists_greatest (diagonal v)
  have hscale (k : Fin n) : |v k| ≤ s := by simpa using hbound k k
  -- the diagonal is divided by its scale, unless it vanishes, and multiplied by it in the end
  obtain ⟨w, hw, hback⟩ : ∃ w : Fin n → ℝ,
      (if (Exact.real s == 0) = true then DenseMatrix.ofMatrix (diagonal v)
        else (DenseMatrix.ofMatrix (diagonal v)).map (· / .real s)) = .ofMatrix (diagonal w) ∧
      ∀ k, w k * s = v k := by
    by_cases hzero : s = 0
    · refine ⟨v, if_pos (by simp [Exact.ofNat_eq, Exact.real_beq_real, hzero]), fun k => ?_⟩
      have hk : v k = 0 := abs_nonpos_iff.mp (hzero ▸ hscale k)
      rw [hk, zero_mul]
    · refine ⟨fun k => v k / s, ?_, fun k => div_mul_cancel₀ (v k) hzero⟩
      rw [if_neg (by simp [Exact.ofNat_eq, Exact.real_beq_real, hzero]),
        DenseMatrix.map_ofMatrix (g := (· / s)) fun _ => Exact.real_div_real hzero,
        diagonal_map (zero_div s)]
  unfold Eigen.ofSymmetric
  dsimp only
  rw [hs, hw, Tridiagonal.ofSymmetric, DenseMatrix.nrows_ofMatrix, DenseMatrix.nrows_ofMatrix,
    Tridiagonal.reduce_diagonal, Tridiagonal.decouple_ofDiagonal]
  simp [Tridiagonal.ofDiagonal, Spectral.toEigen, Spectral.ofDiagonal, List.map_ofFn,
    Function.comp_def, hback]

end FitSession
