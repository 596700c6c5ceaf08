import FitSession.Dense.Inverse
import FitSession.Proofs.Dense.Spectral

/-!
# Exact determinants

In exact arithmetic the expansions of a determinant agree with it, and so do the inverses by
cofactors.

* `determinant_ofMatrix`, `sixProducts_ofMatrix`: **determinants**;
* `cofactor_ofMatrix`: signed minors are the entries of the adjugate;
* `cofactorInverse?_ofMatrix`, `fourRowInverse?_ofMatrix`: inverses by cofactors.
-/

namespace FitSession

open Matrix
open Exact (real)

variable {n : ℕ}

theorem reals_succ (f : Fin (n + 1) → ℝ) : reals f = real (f 0) :: reals fun j => f j.succ :=
  List.ofFn_succ

/-- A list without one of its items. -/
theorem eraseIdx_ofFn {β : Type} (f : Fin (n + 1) → β) (j : Fin (n + 1)) :
    (List.ofFn f).eraseIdx j = List.ofFn fun k => f (j.succAbove k) := by
  have hlength : (j : ℕ) < (List.ofFn f).length := by simpa using j.is_le
  refine List.ext_getElem ?_ fun k hk hk' => ?_
  · rw [List.length_eraseIdx_of_lt hlength, List.length_ofFn, List.length_ofFn, Nat.add_sub_cancel]
  rw [List.getElem_eraseIdx]
  by_cases h : k < (j : ℕ) <;> simp [h, Fin.succAbove, Fin.lt_def, -List.ofFn_succ]

theorem foldl_alternating (f : Fin n → ℝ) (k : ℕ) (total : ℝ) :
    ((reals f).zipIdx k).foldl
        (fun total (y, k) => if k % 2 = 0 then total - y else total + y) (real total) =
      real (total + ∑ j : Fin n, (-1) ^ (k + j + 1) * f j) := by
  induction n generalizing k total with
  | zero => simp [reals]
  | succ n ih =>
    have hstep : (if k % 2 = 0 then real total - real (f 0) else real total + real (f 0)) =
        real (total + (-1) ^ (k + 1) * f 0) := by
      rcases Nat.even_or_odd k with hk | hk
      · rw [if_pos (Nat.even_iff.mp hk), hk.add_one.neg_one_pow, neg_one_mul, ← sub_eq_add_neg,
          Exact.real_sub_real]
      · rw [if_neg (Nat.not_even_iff_odd.mpr hk ∘ Nat.even_iff.mpr), hk.add_one.neg_one_pow,
          one_mul, Exact.real_add_real]
    have hindex (j : ℕ) : k + 1 + j + 1 = k + (j + 1) + 1 := by omega
    rw [reals_succ, List.zipIdx_cons, List.foldl_cons]
    dsimp only
    rw [hstep, ih, Fin.sum_univ_succ, ← add_assoc]
    simp only [hindex, Fin.val_zero, add_zero, Fin.val_succ]

/-- Terms of alternating sign as a sum. -/
theorem alternatingSum_reals (f : Fin n → ℝ) :
    alternatingSum (reals f) = real (∑ j : Fin n, (-1) ^ (j : ℕ) * f j) := by
  cases n with
  | zero => simp [reals, alternatingSum, Exact.ofNat_eq]
  | succ n =>
    rw [reals_succ, Fin.sum_univ_succ]
    refine (foldl_alternating (fun j => f j.succ) 0 (f 0)).trans ?_
    simp

/-- **The determinant** of rows is that of their matrix. -/
theorem determinant_ofMatrix (M : Matrix (Fin n) (Fin n) ℝ) :
    determinant (DenseMatrix.ofMatrix M).rows = real M.det := by
  induction n with
  | zero => simp [DenseMatrix.ofMatrix, determinant, Exact.ofNat_eq]
  | succ n ih =>
    have hminor (j : Fin (n + 1)) :
        (List.ofFn fun i : Fin n => List.ofFn fun k => real (M i.succ k)).map (·.eraseIdx j) =
          (DenseMatrix.ofMatrix (M.submatrix Fin.succ j.succAbove)).rows := by
      rw [List.map_ofFn]
      exact congrArg List.ofFn (funext fun i => eraseIdx_ofFn _ j)
    have hterms : ((List.ofFn fun k => real (M 0 k)).zipIdx.map fun (x, j) =>
        if (List.ofFn fun i : Fin n => List.ofFn fun k => real (M i.succ k)).isEmpty then x
        else x * determinant ((List.ofFn fun i : Fin n =>
          List.ofFn fun k => real (M i.succ k)).map (·.eraseIdx j))) =
        reals fun j => M 0 j * (M.submatrix Fin.succ j.succAbove).det := by
      refine List.ext_getElem (by simp [reals]) fun j hj _ => ?_
      have hj : j < n + 1 := by simpa using hj
      simp only [List.getElem_map, List.getElem_zipIdx, zero_add]
      rw [hminor ⟨j, hj⟩, ih]
      cases n with
      | zero => simp [reals]
      | succ n => simp [reals, -List.ofFn_succ]
    have hrows : (DenseMatrix.ofMatrix M).rows = (List.ofFn fun k => real (M 0 k)) ::
        List.ofFn fun i : Fin n => List.ofFn fun k => real (M i.succ k) := List.ofFn_succ
    rw [hrows, determinant, hterms, alternatingSum_reals, Matrix.det_succ_row_zero]
    simp only [mul_assoc]

namespace DenseMatrix

/-- A signed minor is an entry of the adjugate. -/
theorem cofactor_ofMatrix {minor : List (List Exact) → Exact}
    (hminor : ∀ N : Matrix (Fin n) (Fin n) ℝ, minor (ofMatrix N).rows = real N.det)
    (M : Matrix (Fin (n + 1)) (Fin (n + 1)) ℝ) (i j : Fin (n + 1)) :
    (ofMatrix M).cofactor minor j i = real (M.adjugate i j) := by
  have hrows : ((ofMatrix M).rows.eraseIdx j).map (·.eraseIdx i) =
      (ofMatrix (M.submatrix j.succAbove i.succAbove)).rows := by
    rw [ofMatrix, eraseIdx_ofFn, List.map_ofFn]
    exact congrArg List.ofFn (funext fun k => eraseIdx_ofFn _ i)
  rw [cofactor, hrows, hminor, adjugate_fin_succ_eq_det_submatrix]
  rcases Nat.even_or_odd (j + i : ℕ) with h | h
  · simp [Nat.even_iff.mp h, h.neg_one_pow]
  · simp [Nat.odd_iff.mp h, h.neg_one_pow]

theorem inv_apply (M : Matrix (Fin n) (Fin n) ℝ) (i j : Fin n) :
    M⁻¹ i j = M.adjugate i j / M.det := by
  rw [Matrix.inv_def, Ring.inverse_eq_inv', Matrix.smul_apply, smul_eq_mul, div_eq_inv_mul]

theorem cofactorInverse?_ofMatrix (M : Matrix (Fin n) (Fin n) ℝ) :
    (ofMatrix M).cofactorInverse? = if M.det = 0 then none else some (ofMatrix M⁻¹) := by
  unfold cofactorInverse?
  dsimp only
  rw [determinant_ofMatrix, nrows_ofMatrix]
  by_cases h : M.det = 0
  · rw [if_pos (Exact.real_beq_zero.mpr h), if_pos h]
  · rw [if_neg (mt Exact.real_beq_zero.mp h), if_neg h]
    refine congrArg some (ofFn_eq_ofMatrix fun i j => ?_)
    cases n with
    | zero => exact i.elim0
    | succ n => rw [cofactor_ofMatrix determinant_ofMatrix, Exact.real_div_real h, inv_apply]

/-- Three rows have six products. -/
theorem sixProducts_ofMatrix (M : Matrix (Fin 3) (Fin 3) ℝ) :
    sixProducts (ofMatrix M).rows = real M.det := by
  have hrows : (ofMatrix M).rows = [[real (M 0 0), real (M 0 1), real (M 0 2)],
      [real (M 1 0), real (M 1 1), real (M 1 2)], [real (M 2 0), real (M 2 1), real (M 2 2)]] := by
    simp [ofMatrix, List.ofFn_succ]
  rw [hrows, Matrix.det_fin_three]
  simp only [sixProducts, Exact.real_mul_real, Exact.real_sub_real, Exact.real_add_real]
  congr 1
  ring

theorem fourRowInverse?_ofMatrix (M : Matrix (Fin 4) (Fin 4) ℝ) :
    (ofMatrix M).fourRowInverse? = if M.det = 0 then none else some (ofMatrix M⁻¹) := by
  have hadjugate : (ofFn 4 4 fun i j => (ofMatrix M).cofactor sixProducts j i) =
      ofMatrix M.adjugate :=
    ofFn_eq_ofMatrix fun i j => cofactor_ofMatrix sixProducts_ofMatrix M i j
  have hdet : Scalar.sum ((List.range 4).map fun k =>
      (ofMatrix M).get k 0 * (ofMatrix M.adjugate).get 0 k) = real M.det := by
    have hentries (k : Fin 4) : (ofMatrix M).get k 0 * (ofMatrix M.adjugate).get 0 k =
        real (M.adjugate 0 k * M k 0) := by
      rw [mul_comm (M.adjugate 0 k)]
      exact congrArg₂ (· * ·) (get_ofMatrix k 0) (get_ofMatrix 0 k)
    have hlist : ((List.range 4).map fun k =>
        (ofMatrix M).get k 0 * (ofMatrix M.adjugate).get 0 k) =
          (List.ofFn fun k : Fin 4 => M.adjugate 0 k * M k 0).map real := by
      rw [List.map_ofFn]
      exact List.ext_getElem (by simp) fun k hk _ => by
        simpa [-List.ofFn_succ] using hentries ⟨k, by simpa using hk⟩
    rw [hlist, Exact.sum_map_real, List.sum_ofFn, ← Matrix.mul_apply, Matrix.adjugate_mul]
    simp
  unfold fourRowInverse?
  dsimp only
  rw [hadjugate, hdet]
  by_cases h : M.det = 0
  · rw [if_pos (Exact.real_beq_zero.mpr h), if_pos h]
  · rw [if_neg (mt Exact.real_beq_zero.mp h), if_neg h, Exact.ofNat_eq, Exact.real_div_real h,
      map_ofMatrix (g := (· * (((1 : ℕ) : ℝ) / M.det))) fun _ => rfl]
    refine congrArg some (congrArg ofMatrix ?_)
    ext i j
    rw [inv_apply, Matrix.map_apply, Nat.cast_one, mul_one_div]

end DenseMatrix

end FitSession
