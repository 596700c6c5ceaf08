import FitSession.Proofs.Covariance.Addressed
import FitSession.Proofs.Covariance.Correlated

/-!
# Correlations

The correlation of a covariance is symmetric and bounded by one. Its diagonal is one for variances
of a usual size only: a variance that is not far above the guard has less, and one whose square is
infinite has nothing.

* `DenseMatrix.values`, `DenseMatrix.IsCovariance`: matrices of finite numbers as real ones;
* `DenseMatrix.IsSchwarz`, `isSchwarz_labelled`: what is left of a covariance that is spread over
  all parameters;
* `LabelledMatrix.IsCorrelationOf`, `isCorrelationOf_correlation`: **the correlation of a matrix**;
* `correlation_labelledCovariance`: **the correlation of a state**, full or of the free parameters.
-/

namespace FitSession

/-! ## Covariances -/

/-- The entries of a square matrix as real numbers. -/
noncomputable def DenseMatrix.values (m : DenseMatrix Float) (n : ℕ) : Matrix (Fin n) (Fin n) ℝ :=
  .of fun i j => realValue (m.get i j)

@[simp] theorem DenseMatrix.values_apply (m : DenseMatrix Float) (n : ℕ) (i j : Fin n) :
    m.values n i j = realValue (m.get i j) := rfl

/-- The entries are finite, and the matrix is symmetric and positive semidefinite. -/
structure DenseMatrix.IsCovariance (n : ℕ) (c : DenseMatrix Float) : Prop where
  isFinite : ∀ i < n, ∀ j < n, (c.get i j).isFinite
  semidefinite : Matrix.PosSemidef (c.values n)

/-- What two rows of a covariance have in common: an entry is bounded by the variances, which is the
inequality of Schwarz. -/
structure DenseMatrix.IsSchwarz (n : ℕ) (c : DenseMatrix Float) : Prop where
  isFinite {i j : ℕ} : i < n → j < n → (c.get i j).isFinite
  symmetric {i j : ℕ} : i < n → j < n → realValue (c.get i j) = realValue (c.get j i)
  nonneg {i : ℕ} : i < n → 0 ≤ realValue (c.get i i)
  sq_le {i j : ℕ} : i < n → j < n →
    realValue (c.get i j) ^ 2 ≤ realValue (c.get i i) * realValue (c.get j j)

theorem sq_le_of_semidefinite {n : ℕ} {v : Matrix (Fin n) (Fin n) ℝ} (h : Matrix.PosSemidef v)
    (i j : Fin n) : v i j ^ 2 ≤ v i i * v j j := by
  have hminor := (h.submatrix ![i, j]).det_nonneg
  have hsymm : v j i = v i j := h.isHermitian.apply i j
  rw [Matrix.det_fin_two] at hminor
  simp only [Matrix.submatrix_apply, Matrix.cons_val_zero, Matrix.cons_val_one] at hminor
  rw [hsymm] at hminor
  linarith

theorem DenseMatrix.IsCovariance.isSchwarz {n : ℕ} {c : DenseMatrix Float} (h : c.IsCovariance n) :
    c.IsSchwarz n where
  isFinite hi hj := h.isFinite _ hi _ hj
  symmetric hi hj := (h.semidefinite.isHermitian.apply ⟨_, hi⟩ ⟨_, hj⟩).symm
  nonneg hi := h.semidefinite.diag_nonneg (i := ⟨_, hi⟩)
  sq_le hi hj := sq_le_of_semidefinite h.semidefinite ⟨_, hi⟩ ⟨_, hj⟩

namespace ParameterState

variable {s : ParameterState Float} {registry : Registry} {c : DenseMatrix Float}

theorem get_spread_of_not_free {i j : Nat} (hi : i < s.len) (hj : j < s.len)
    (h : ¬(i ∈ s.freeIndices ∧ j ∈ s.freeIndices)) :
    (c.spread s.freeIndices s.len).get i j = 0 :=
  get_spread_eq_zero hi hj (not_and_or.mp h)

/-- A covariance that is spread over all parameters keeps the inequality of Schwarz. -/
theorem isSchwarz_spread (h : c.IsSchwarz s.nFree) :
    (c.spread s.freeIndices s.len).IsSchwarz s.len := by
  have hnonneg {i : Nat} (hi : i < s.len) :
      0 ≤ realValue ((c.spread s.freeIndices s.len).get i i) := by
    by_cases hfree : i ∈ s.freeIndices
    · rw [get_spread hfree hfree]
      exact h.nonneg (row_lt hfree)
    · rw [get_spread_eq_zero hi hi (.inl hfree)]
      exact le_rfl
  refine ⟨fun {i j} hi hj => ?_, fun {i j} hi hj => ?_, hnonneg, fun {i j} hi hj => ?_⟩
  · by_cases hfree : i ∈ s.freeIndices ∧ j ∈ s.freeIndices
    · rw [get_spread hfree.1 hfree.2]
      exact h.isFinite (row_lt hfree.1) (row_lt hfree.2)
    · rw [get_spread_of_not_free hi hj hfree]
      rfl
  · by_cases hfree : i ∈ s.freeIndices ∧ j ∈ s.freeIndices
    · rw [get_spread hfree.1 hfree.2, get_spread hfree.2 hfree.1]
      exact h.symmetric (row_lt hfree.1) (row_lt hfree.2)
    · rw [get_spread_of_not_free hi hj hfree, get_spread_of_not_free hj hi (mt And.symm hfree)]
  · by_cases hfree : i ∈ s.freeIndices ∧ j ∈ s.freeIndices
    · rw [get_spread hfree.1 hfree.2, get_spread hfree.1 hfree.1, get_spread hfree.2 hfree.2]
      exact h.sq_le (row_lt hfree.1) (row_lt hfree.2)
    · rw [get_spread_of_not_free hi hj hfree]
      rw [realValue_zero, sq, mul_zero]
      exact mul_nonneg (hnonneg hi) (hnonneg hj)

theorem len_labelled_true : (s.labelled registry c true).len = s.nFree := by
  rw [← s.length_freeIndices]
  exact List.length_map _

theorem isSchwarz_labelled (hlen : s.len = registry.len) (h : c.IsSchwarz s.nFree)
    (onlyFree : Bool) :
    (s.labelled registry c onlyFree).data.IsSchwarz (s.labelled registry c onlyFree).len := by
  cases onlyFree with
  | true => rwa [len_labelled_true]
  | false =>
    have hsize : (s.labelled registry c false).len = s.len := hlen.symm
    rw [hsize]
    exact isSchwarz_spread h

end ParameterState

/-! ## Correlations -/

theorem one_sub_part {v g : ℝ} (hv : 0 < v) (hg : 0 < g) : v / (v + g) - 1 = -(g / (v + g)) := by
  field_simp
  ring

/-- What misses a usual variance by the guard alone is near one. -/
theorem abs_sub_one_le {v y : ℝ} (hv : 1.001e-88 ≤ v)
    (h : |y - v / (v + 1e-100)| ≤ 2 ^ (-51 : ℤ)) : |y - 1| ≤ 1e-12 := by
  have hpos : 0 < v := lt_of_lt_of_le (by norm_num) hv
  have hpart : (1e-100 : ℝ) / (v + 1e-100) ≤ 1e-100 / 1.001e-88 :=
    div_le_div_of_nonneg_left (by norm_num) (by norm_num) (by linarith)
  have hnonneg : (0 : ℝ) ≤ 1e-100 / (v + 1e-100) := by positivity
  calc |y - 1| ≤ |y - v / (v + 1e-100)| + |v / (v + 1e-100) - 1| := abs_sub_le _ _ _
    _ ≤ 2 ^ (-51 : ℤ) + 1e-100 / 1.001e-88 := by
      rw [one_sub_part hpos (by norm_num), abs_neg, abs_of_nonneg hnonneg]
      exact add_le_add h hpart
    _ ≤ 1e-12 := by norm_num

theorem lt_abs_sub_one {v y : ℝ} (hpos : 0 < v) (hv : v ≤ 0.999e-88)
    (h : |y - v / (v + 1e-100)| ≤ 2 ^ (-51 : ℤ)) : 1e-12 < |y - 1| := by
  have hpart : (1e-100 : ℝ) / (0.999e-88 + 1e-100) ≤ 1e-100 / (v + 1e-100) :=
    div_le_div_of_nonneg_left (by norm_num) (by positivity) (by linarith)
  have hless := (abs_le.mp h).2
  have hone := one_sub_part hpos (by norm_num : (0 : ℝ) < 1e-100)
  rw [abs_sub_comm]
  refine lt_of_lt_of_le ?_ (le_abs_self _)
  norm_num at hpart hless hone ⊢
  linarith

namespace LabelledMatrix

/-- What the correlations of a covariance are. -/
structure Correlates {n : ℕ} (v r : Matrix (Fin n) (Fin n) ℝ) : Prop where
  symmetric : r.IsSymm
  bounded (i j : Fin n) : |r i j| ≤ 1
  /-- Rows and columns without variance. -/
  zero {i : Fin n} (j : Fin n) : v i i = 0 → r i j = 0 ∧ r j i = 0
  /-- The guard takes its part of a variance. -/
  diagonal {i : Fin n} : 0 < v i i → v i i < 2 ^ (512 : ℤ) →
    |r i i - v i i / (v i i + 1e-100)| ≤ 2 ^ (-51 : ℤ)
  unit {i : Fin n} : 1.001e-88 ≤ v i i → v i i < 2 ^ (512 : ℤ) → |r i i - 1| ≤ 1e-12
  /-- The part of the guard is too large. -/
  small {i : Fin n} : 0 < v i i → v i i ≤ 0.999e-88 → 1e-12 < |r i i - 1|
  /-- The square of the variance is infinite. -/
  large {i : Fin n} : 2 ^ (512 : ℤ) ≤ v i i → r i i = 0

/-- A matrix is the correlation of another one, with the same names. -/
structure IsCorrelationOf (r m : LabelledMatrix Float) : Prop where
  names : r.names = m.names
  size : r.data.IsSquare m.len
  isFinite {i j : ℕ} : i < m.len → j < m.len → (r.data.get i j).isFinite
  correlates : Correlates (m.data.values m.len) (r.data.values m.len)

theorem IsCorrelationOf.get_eq_zero {r m : LabelledMatrix Float} (h : r.IsCorrelationOf m)
    {i j : ℕ} (hi : i < m.len) (hj : j < m.len) (hzero : realValue (m.data.get i i) = 0) :
    realValue (r.data.get i j) = 0 ∧ realValue (r.data.get j i) = 0 :=
  h.correlates.zero (i := ⟨i, hi⟩) ⟨j, hj⟩ hzero

section

variable {m : LabelledMatrix Float} (hsquare : m.data.IsSquare m.len)
  (h : m.data.IsSchwarz m.len)

include hsquare

theorem correlation_data : m.correlation.data = DenseMatrix.ofFn m.len m.len fun i j =>
    m.data.get i j / (Float.sqrt (m.data.get i i * m.data.get j j) + correlationGuard) := by
  have hsize := hsquare.hasSize
  rw [DenseMatrix.hasSize, Bool.and_eq_true, decide_eq_true_eq, decide_eq_true_eq] at hsize
  rw [correlation, hsize.1, hsize.2]
  rfl

theorem get_correlation {i j : ℕ} (hi : i < m.len) (hj : j < m.len) :
    m.correlation.data.get i j =
      m.data.get i j / (Float.sqrt (m.data.get i i * m.data.get j j) + correlationGuard) := by
  rw [correlation_data hsquare, DenseMatrix.get_ofFn hi hj]

include h

theorem values_correlation (i j : Fin m.len) :
    m.correlation.data.values m.len i j = correlated (realValue (m.data.get i j))
      (realValue (m.data.get i i) * realValue (m.data.get j j)) := by
  rw [DenseMatrix.values_apply, get_correlation hsquare i.2 j.2]
  exact (realValue_correlated (h.isFinite i.2 j.2) (h.isFinite i.2 i.2) (h.isFinite j.2 j.2)
    (h.sq_le i.2 j.2)).2

/-- **The correlation of a matrix** whose entries satisfy the inequality of Schwarz. -/
theorem isCorrelationOf_correlation : m.correlation.IsCorrelationOf m := by
  have hvalues := values_correlation hsquare h
  have hsymm : (m.correlation.data.values m.len).IsSymm := by
    ext i j
    rw [Matrix.transpose_apply, hvalues, hvalues, h.symmetric j.2 i.2, mul_comm]
  have hdiagonal {i : Fin m.len} (hpos : 0 < m.data.values m.len i i)
      (hlt : m.data.values m.len i i < 2 ^ (512 : ℤ)) := by
    have hpart := abs_correlated_sub_le (h.isFinite i.2 i.2) hpos hlt
    rwa [← hvalues] at hpart
  refine ⟨rfl, ?_, ?_, hsymm, ?_, ?_, hdiagonal, ?_, ?_, ?_⟩
  · rw [correlation_data hsquare]
    exact DenseMatrix.isSquare_ofFn _ _
  · intro i j hi hj
    rw [get_correlation hsquare hi hj]
    exact (realValue_correlated (h.isFinite hi hj) (h.isFinite hi hi) (h.isFinite hj hj)
      (h.sq_le hi hj)).1
  · intro i j
    rw [hvalues]
    exact abs_correlated_le_one (h.isFinite i.2 j.2) (h.sq_le i.2 j.2)
  · intro i j hzero
    have hentry : realValue (m.data.get i j) = 0 := by
      have hsq := h.sq_le i.2 j.2
      rw [show realValue (m.data.get i i) = 0 from hzero, zero_mul] at hsq
      exact pow_eq_zero_iff two_ne_zero |>.mp (le_antisymm hsq (sq_nonneg _))
    have hrow : m.correlation.data.values m.len i j = 0 := by
      rw [hvalues, hentry, correlated_zero]
    exact ⟨hrow, (hsymm.apply i j).symm ▸ hrow⟩
  · intro i hlo hhi
    exact abs_sub_one_le hlo (hdiagonal (lt_of_lt_of_le (by norm_num) hlo) hhi)
  · intro i hpos hle
    refine lt_abs_sub_one hpos hle (hdiagonal hpos (hle.trans_lt ?_))
    exact lt_of_lt_of_le (by norm_num) (one_le_zpow₀ one_le_two (by norm_num))
  · intro i hle
    rw [hvalues]
    exact correlated_of_le hle

end

end LabelledMatrix

namespace ParameterState

variable {s : ParameterState Float} {registry : Registry} {c : DenseMatrix Float}

theorem isSquare_labelled (hlen : s.len = registry.len) (hsquare : c.IsSquare s.nFree)
    (onlyFree : Bool) :
    (s.labelled registry c onlyFree).data.IsSquare (s.labelled registry c onlyFree).len := by
  cases onlyFree with
  | true => rwa [len_labelled_true]
  | false =>
    have hsize : (s.labelled registry c false).len = s.len := hlen.symm
    rw [hsize]
    exact DenseMatrix.isSquare_ofFn _ _

/-- **The correlation of a state** whose covariance is positive semidefinite, of all parameters or
of the free ones. Parameters that are fixed have rows and columns of zeros. -/
theorem correlation_labelledCovariance (hlen : s.len = registry.len) (hc : s.covariance = some c)
    (hsquare : c.IsSquare s.nFree) (hcov : c.IsCovariance s.nFree) (onlyFree : Bool) :
    ∃ m, s.labelledCovariance registry onlyFree = .ok m ∧ m.correlation.IsCorrelationOf m ∧
      ∀ i j e, onlyFree = false → s.entries[i]? = some e → e.isFixed = true → j < m.len →
        realValue (m.correlation.data.get i j) = 0 ∧
          realValue (m.correlation.data.get j i) = 0 := by
  have hcorrelation := LabelledMatrix.isCorrelationOf_correlation
    (isSquare_labelled hlen hsquare onlyFree) (isSchwarz_labelled hlen hcov.isSchwarz onlyFree)
  refine ⟨_, labelledCovariance_eq hlen hc hsquare onlyFree, hcorrelation, ?_⟩
  rintro i j e rfl he hfixed hj
  have hi : i < s.len := (List.getElem?_eq_some_iff.mp he).1
  have hvariance : (s.labelled registry c false).data.get i i = 0 :=
    get_spread_eq_zero hi hi (.inl (not_mem_freeIndices he hfixed))
  have hrow : i < (s.labelled registry c false).len := hi.trans_eq hlen
  exact hcorrelation.get_eq_zero hrow hj (by rw [hvariance, realValue_zero])

theorem realValue_four : realValue 4 = 4 := by
  rw [realValue_of_unpack (m := 2 ^ 52) (e := -50) (h := by decide) rfl]
  norm_num

theorem values_halfFixed :
    (⟨[[4, 1], [1, 9]]⟩ : DenseMatrix Float).values 2 = !![4, 1; 1, 9] := by
  have hone : realValue 1 = 1 := by
    rw [realValue_of_unpack (m := 2 ^ 52) (e := -52) (h := by decide) rfl]
    norm_num
  have hnine : realValue 9 = 9 := by
    rw [realValue_of_unpack (m := 9 * 2 ^ 49) (e := -49) (h := by decide) rfl]
    norm_num
  ext i j
  fin_cases i <;> fin_cases j
  exacts [realValue_four, hone, hone, hnine]

/-- The covariance of `halfFixed`. -/
theorem isCovariance_halfFixed : (⟨[[4, 1], [1, 9]]⟩ : DenseMatrix Float).IsCovariance 2 := by
  refine ⟨by decide +kernel, ?_⟩
  rw [values_halfFixed]
  refine .of_dotProduct_mulVec_nonneg ?_ fun x => ?_
  · ext i j
    fin_cases i <;> fin_cases j <;> rfl
  · simp [dotProduct, Matrix.mulVec, Fin.sum_univ_two]
    nlinarith [sq_nonneg (x 0 + x 1), sq_nonneg (x 0), sq_nonneg (x 1)]

theorem correlation_labelledCovariance_halfFixed :
    ∃ m, halfFixed.labelledCovariance fourNames false = .ok m ∧
      |realValue (m.correlation.data.get 0 0) - 1| ≤ 1e-12 ∧
      realValue (m.correlation.data.get 1 3) = 0 := by
  have hsquare : (⟨[[4, 1], [1, 9]]⟩ : DenseMatrix Float).IsSquare halfFixed.nFree :=
    ⟨by decide +kernel, by decide +kernel⟩
  have hlen : halfFixed.len = fourNames.len := rfl
  obtain ⟨m, hm, hcorrelation, hfixed⟩ :=
    correlation_labelledCovariance hlen rfl hsquare isCovariance_halfFixed false
  obtain rfl := Except.ok.inj ((labelledCovariance_eq rfl rfl hsquare false).symm.trans hm)
  have hfour : (halfFixed.labelled fourNames ⟨[[4, 1], [1, 9]]⟩ false).data.get 0 0 = 4 := by
    decide +kernel
  refine ⟨_, hm, ?_, (hfixed 1 3 _ rfl rfl (by decide +kernel) (by decide)).1⟩
  refine hcorrelation.correlates.unit (i := ⟨0, by decide⟩) ?_ ?_
  · rw [DenseMatrix.values_apply, hfour, realValue_four]
    norm_num
  · rw [DenseMatrix.values_apply, hfour, realValue_four]
    exact (by norm_num : (4 : ℝ) < 2 ^ (3 : ℤ)).trans
      (zpow_lt_zpow_right₀ one_lt_two (by norm_num))

/-! ## Small and large variances -/

/-- A state with one parameter of the given variance. -/
def withVariance (v : Float) : ParameterState Float where
  entries := [⟨0, 1, false, Scalar.negInf, Scalar.inf⟩]
  covariance := some ⟨[[v]]⟩

theorem isCovariance_single {v : Float} (hv : v.isFinite) (hpos : 0 < v) :
    (⟨[[v]]⟩ : DenseMatrix Float).IsCovariance 1 := by
  have hvalues : (⟨[[v]]⟩ : DenseMatrix Float).values 1 = .diagonal fun _ => realValue v := by
    ext i j
    fin_cases i
    fin_cases j
    rfl
  refine ⟨fun i hi j hj => ?_, ?_⟩
  · obtain rfl : i = 0 := by omega
    obtain rfl : j = 0 := by omega
    exact hv
  · rw [hvalues]
    exact .diagonal fun _ => (realValue_pos hv hpos).le

/-- One parameter of the name `a`. -/
def oneName : Registry := ⟨["a"], [("a", 0)], by decide, rfl⟩

/-- A variance as small as the guard has half a correlation with itself, and one whose square is
infinite has none. -/
theorem correlation_not_unit :
    (∃ m, (withVariance 1e-100).labelledCovariance oneName true = .ok m ∧
      m.data.IsCovariance 1 ∧ 0 < realValue (m.data.get 0 0) ∧
      ¬|realValue (m.correlation.data.get 0 0) - 1| ≤ 1e-12) ∧
    ∃ m, (withVariance 1e200).labelledCovariance oneName true = .ok m ∧
      m.data.IsCovariance 1 ∧ 0 < realValue (m.data.get 0 0) ∧
      ¬|realValue (m.correlation.data.get 0 0) - 1| ≤ 1e-12 := by
  have hhalf : (⟨["a"], ⟨[[1e-100]]⟩⟩ : LabelledMatrix Float).correlation.data.get 0 0 = 0.5 := by
    decide +kernel
  have hnone : (⟨["a"], ⟨[[1e200]]⟩⟩ : LabelledMatrix Float).correlation.data.get 0 0 = 0 := by
    decide +kernel
  have hvalue : realValue 0.5 = 1 / 2 := by
    rw [realValue_of_unpack (m := 2 ^ 52) (e := -53) (h := by decide) rfl]
    norm_num
  refine ⟨⟨⟨["a"], ⟨[[1e-100]]⟩⟩, rfl, ?_, ?_, ?_⟩, ⟨⟨["a"], ⟨[[1e200]]⟩⟩, rfl, ?_, ?_, ?_⟩⟩
  · exact isCovariance_single (by decide +kernel) (by decide +kernel)
  · exact realValue_pos (by decide +kernel) (by decide +kernel)
  · rw [hhalf, hvalue]
    norm_num [abs_le]
  · exact isCovariance_single (by decide +kernel) (by decide +kernel)
  · exact realValue_pos (by decide +kernel) (by decide +kernel)
  · rw [hnone, realValue_zero]
    norm_num

end ParameterState

end FitSession
