import FitSession.Cost.NormalConstraint
import FitSession.Proofs.Dense.Inverse
import FitSession.Proofs.Outcome

/-!
# Slopes of normal constraints

In exact arithmetic a normal constraint is a quadratic form, so that the difference of its values on
both sides of a point is the slope there, however far apart they are taken.

* `NormalConstraint.around`: a constraint by its mean and the inverse of its covariance;
* `ofErrors_eq_ok`, `ofCovariance_eq_ok`: what is built;
* `HasSlopes`, `hasSlopes_around_iff`: whether the gradient is that of the value;
* **`hasSlopes_iff_symmetric`**: it is for independent parameters, and with a covariance just when
  that is symmetric.
-/

namespace FitSession

open Matrix
open Exact (real)

variable {n : ℕ}

namespace NormalConstraint

/-- The constraint around a mean with a given inverse of its covariance. -/
noncomputable def around (names : List String) (mean : Fin n → ℝ)
    (inverse : Matrix (Fin n) (Fin n) ℝ) : NormalConstraint Exact :=
  ⟨names, reals mean, .ofMatrix inverse⟩

/-- The gradient is made of the slopes of the value: each component is the difference of the values
at equal distances on both sides over the distance between them. -/
structure HasSlopes (c : NormalConstraint Exact) : Prop where
  slope : ∀ (p : Fin c.names.length → ℝ) (i : Fin c.names.length) (h : ℝ), h ≠ 0 →
    ∃ (ahead behind : ℝ) (g : Fin c.names.length → ℝ),
      c.value (reals (p + Pi.single i h)) = .ok (real ahead) ∧
      c.value (reals (p - Pi.single i h)) = .ok (real behind) ∧
      c.grad (reals p) = .ok (reals g) ∧ (ahead - behind) / (2 * h) = g i

/-! ## Value and gradient -/

section Around

variable {names : List String} {mean : Fin names.length → ℝ}
  {W : Matrix (Fin names.length) (Fin names.length) ℝ} (p : Fin names.length → ℝ)

theorem residuals_around :
    (around names mean W).residuals (reals p) = .ok (reals (p - mean)) := by
  have hdifference : Scalar.subVec (reals p) (reals mean) = reals (p - mean) :=
    zipWith_reals fun _ => Exact.real_sub_real
  unfold residuals
  rw [length_reals]
  simp [checkLength, around, hdifference]

theorem zipIdx_reals (x : Fin n → ℝ) :
    (reals x).zipIdx = List.ofFn fun i : Fin n => (real (x i), (i : ℕ)) :=
  List.ext_getElem (by simp [reals]) fun i _ _ => by simp [reals]

theorem value_around :
    (around names mean W).value (reals p) = .ok (real ((p - mean) ⬝ᵥ W *ᵥ (p - mean))) := by
  have hterm (i j : Fin names.length) : real ((p - mean) i) * (around names mean W).inverse.get i j *
      real ((p - mean) j) = real ((p - mean) i * W i j * (p - mean) j) := by
    rw [around, DenseMatrix.get_ofMatrix, Exact.real_mul_real, Exact.real_mul_real]
  have hterms : (List.ofFn fun i => List.ofFn fun j =>
      real ((p - mean) i * W i j * (p - mean) j)).flatten =
      ((List.ofFn fun i => List.ofFn fun j => (p - mean) i * W i j * (p - mean) j).flatten).map
        real := by
    rw [List.map_flatten, List.map_ofFn]
    simp only [Function.comp_def, List.map_ofFn]
  unfold value
  rw [residuals_around]
  refine congrArg Except.ok ?_
  rw [zipIdx_reals, List.flatMap_def, List.map_ofFn]
  simp only [Function.comp_def, List.map_ofFn, hterm]
  rw [hterms, Exact.sum_map_real, List.sum_flatten, List.map_ofFn, List.sum_ofFn]
  simp only [Function.comp_def, List.sum_ofFn, dotProduct, mulVec, Finset.mul_sum, mul_assoc]

theorem grad_around :
    (around names mean W).grad (reals p) = .ok (reals ((2 : ℝ) • W *ᵥ (p - mean))) := by
  have hsum (i : Fin names.length) : Scalar.sum (List.ofFn fun j : Fin names.length =>
      (around names mean W).inverse.get i j * real ((p - mean) j)) =
        real ((W *ᵥ (p - mean)) i) := by
    have hterms : (List.ofFn fun j : Fin names.length =>
        (around names mean W).inverse.get i j * real ((p - mean) j)) =
          (List.ofFn fun j => W i j * (p - mean) j).map real := by
      rw [List.map_ofFn]
      simp only [Function.comp_def, around, DenseMatrix.get_ofMatrix, Exact.real_mul_real]
    rw [hterms, Exact.sum_map_real, List.sum_ofFn]
    rfl
  unfold grad
  rw [residuals_around]
  refine congrArg Except.ok ?_
  rw [zipIdx_reals, List.map_ofFn]
  simp only [Function.comp_def, List.map_ofFn, hsum, Exact.ofNat_eq, Exact.real_mul_real]
  rfl

/-- A quadratic form on both sides of a point. -/
theorem sub_form (W : Matrix (Fin n) (Fin n) ℝ) (r : Fin n → ℝ) (i : Fin n) (h : ℝ) :
    (r + Pi.single i h) ⬝ᵥ W *ᵥ (r + Pi.single i h) -
        (r - Pi.single i h) ⬝ᵥ W *ᵥ (r - Pi.single i h) =
      2 * h * ((W *ᵥ r) i + (Wᵀ *ᵥ r) i) := by
  have hleft : Pi.single i h ⬝ᵥ W *ᵥ r = h * (W *ᵥ r) i := single_dotProduct ..
  have hright : r ⬝ᵥ W *ᵥ Pi.single i h = h * (Wᵀ *ᵥ r) i := by
    rw [dotProduct_mulVec, dotProduct_single, ← mulVec_transpose, mul_comm]
  simp only [mulVec_add, mulVec_sub, dotProduct_add, dotProduct_sub, add_dotProduct, sub_dotProduct,
    hleft, hright]
  ring

/-- The slopes of the value are those of the form and of its transpose. -/
theorem slope_around (p : Fin names.length → ℝ) (i : Fin names.length) {h : ℝ} (hh : h ≠ 0) :
    ((p + Pi.single i h - mean) ⬝ᵥ W *ᵥ (p + Pi.single i h - mean) -
        (p - Pi.single i h - mean) ⬝ᵥ W *ᵥ (p - Pi.single i h - mean)) / (2 * h) =
      (W *ᵥ (p - mean)) i + (Wᵀ *ᵥ (p - mean)) i := by
  rw [add_sub_right_comm, sub_right_comm, sub_form, mul_div_cancel_left₀]
  exact mul_ne_zero two_ne_zero hh

/-- The gradient is that of the value where the form and its transpose have the same slopes. -/
theorem hasSlopes_around : (around names mean W).HasSlopes ↔
    ∀ (p : Fin names.length → ℝ) (i : Fin names.length),
      (Wᵀ *ᵥ (p - mean)) i = (W *ᵥ (p - mean)) i := by
  have hdouble (p : Fin names.length → ℝ) (i : Fin names.length) :
      ((2 : ℝ) • W *ᵥ (p - mean)) i = (W *ᵥ (p - mean)) i + (W *ᵥ (p - mean)) i := by
    rw [Pi.smul_apply, smul_eq_mul, two_mul]
  constructor
  · intro hslopes p i
    obtain ⟨ahead, behind, g, hahead, hbehind, hg, hslope⟩ := hslopes.slope p i 1 one_ne_zero
    have hahead := Exact.real.inj (Except.ok.inj ((value_around _).symm.trans hahead))
    have hbehind := Exact.real.inj (Except.ok.inj ((value_around _).symm.trans hbehind))
    have hg := congrFun (reals_injective (Except.ok.inj ((grad_around _).symm.trans hg))) i
    rw [← hahead, ← hbehind, ← hg] at hslope
    exact add_left_cancel ((slope_around p i one_ne_zero).symm.trans (hslope.trans (hdouble p i)))
  · refine fun hsame => ⟨fun p i h hh => ?_⟩
    refine ⟨_, _, _, value_around _, value_around _, grad_around p, ?_⟩
    refine (slope_around p i hh).trans ((congrArg _ (hsame p i)).trans (hdouble p i).symm)

/-- The gradient of a quadratic form is that of its value if the form is symmetric, and only
then. -/
theorem hasSlopes_around_iff : (around names mean W).HasSlopes ↔ W.IsSymm := by
  rw [hasSlopes_around]
  constructor
  · intro hsame
    ext i j
    -- the slope along `i` where the deviation from the mean is one along `j`
    have hentry := hsame (mean + Pi.single j 1) i
    rw [add_sub_cancel_left] at hentry
    simpa using hentry
  · intro hsymm p i
    rw [hsymm.eq]

end Around

/-- An inverse is symmetric just as what it is the inverse of. -/
theorem isSymm_inv_iff {M : Matrix (Fin n) (Fin n) ℝ} (h : M.det ≠ 0) : M⁻¹.IsSymm ↔ M.IsSymm := by
  rw [IsSymm, IsSymm, transpose_nonsing_inv]
  constructor
  · intro hinverse
    have hunit : IsUnit M.det := h.isUnit
    rw [← nonsing_inv_nonsing_inv Mᵀ (by rwa [det_transpose]), hinverse,
      nonsing_inv_nonsing_inv M hunit]
  · intro hsymm
    rw [hsymm]

/-! ## What is built -/

theorem checkLength_eq_ok {α : Type} {expected found : ℕ} {u : Unit}
    (h : (checkLength expected found : Except (FitError α) Unit) = .ok u) : expected = found := by
  unfold checkLength at h
  split_ifs at h with heq
  exact heq

theorem checkLength_of_eq {α : Type} {expected found : ℕ} (h : expected = found) :
    (checkLength expected found : Except (FitError α) Unit) = .ok () := if_pos h

theorem eq_ofFn_of_length {β : Type} {l : List β} (h : n = l.length) :
    ∃ f : Fin n → β, l = List.ofFn f := by
  subst h
  exact ⟨_, (List.ofFn_get l).symm⟩

section Built

variable (names : List String) (mean : Fin names.length → ℝ)

/-- Independent parameters with positive errors have these as standard deviations. -/
theorem ofErrors_reals {σ : Fin names.length → ℝ} (hσ : ∀ i, 0 < σ i) :
    ofErrors names (reals mean) (reals σ) =
      .ok (around names mean (diagonal fun i => 1 / (σ i * σ i))) := by
  have hinverse (i j : Fin names.length) :
      (if (i : ℕ) = j then 1 / ((reals σ)[(i : ℕ)]?.getD 1 * (reals σ)[(i : ℕ)]?.getD 1)
        else (0 : Exact)) = real (diagonal (fun i => 1 / (σ i * σ i)) i j) := by
    by_cases hij : i = j
    · subst hij
      have hne : σ i * σ i ≠ 0 := (mul_pos (hσ i) (hσ i)).ne'
      simp [reals, hne, Exact.ofNat_eq]
    · rw [if_neg (Fin.val_ne_of_ne hij), diagonal_apply_ne _ hij, Exact.ofNat_eq, Nat.cast_zero]
  unfold ofErrors
  rw [checkLength_of_eq (length_reals mean).symm, checkLength_of_eq (length_reals σ).symm,
    List.find?_eq_none.mpr fun entry hentry => ?_]
  · dsimp only
    rw [DenseMatrix.ofFn_eq_ofMatrix hinverse]
    rfl
  · obtain ⟨j, hj⟩ := List.mem_ofFn.mp (List.fst_mem_of_mem_zipIdx hentry)
    simp [← hj, Exact.ofNat_eq, hσ j]

/-- A covariance must have an inverse. -/
theorem ofCovariance_ofMatrix (C : Matrix (Fin names.length) (Fin names.length) ℝ) :
    ofCovariance names (reals mean) (.ofMatrix C) =
      if C.det = 0 then .error (.fitFailed .singularConstraint)
      else .ok (around names mean C⁻¹) := by
  unfold ofCovariance
  rw [checkLength_of_eq (length_reals mean).symm, DenseMatrix.nrows_ofMatrix,
    DenseMatrix.ncols_ofMatrix, checkLength_of_eq rfl, DenseMatrix.inverse?_ofMatrix]
  by_cases hdet : C.det = 0
  · rw [if_pos hdet, if_pos hdet]
    rfl
  · rw [if_neg hdet, if_neg hdet]
    rfl

end Built

/-- Independent parameters are only accepted with positive errors, one for each. -/
theorem ofErrors_eq_ok {names : List String} {mean : List ℝ} {errors : List Exact}
    {c : NormalConstraint Exact} (h : ofErrors names (mean.map real) errors = .ok c) :
    ∃ μ σ : Fin names.length → ℝ, mean = List.ofFn μ ∧ errors = reals σ ∧ ∀ i, 0 < σ i := by
  unfold ofErrors at h
  obtain ⟨_, hmean, h⟩ := except_bind_eq_ok.mp h
  obtain ⟨_, herrors, h⟩ := except_bind_eq_ok.mp h
  obtain ⟨μ, rfl⟩ := eq_ofFn_of_length ((checkLength_eq_ok hmean).trans (List.length_map _))
  obtain ⟨e, rfl⟩ := eq_ofFn_of_length (checkLength_eq_ok herrors)
  generalize hfind : (List.ofFn e).zipIdx.find? _ = found at h
  cases found with
  | some found => cases h
  | none =>
    have hwidth (i : Fin names.length) : ∃ σ : ℝ, e i = real σ ∧ 0 < σ := by
      have hi := List.find?_eq_none.mp hfind (e i, i)
        (List.mem_zipIdx_iff_getElem?.mpr (by simp))
      simp only [Bool.not_eq_true, Bool.not_eq_false', Bool.and_eq_true, decide_eq_true_eq] at hi
      obtain ⟨σ, hσ⟩ := Exact.exists_real_of_isFinite hi.1
      rw [hσ, Exact.ofNat_eq, Exact.real_lt_real, Nat.cast_zero] at hi
      exact ⟨σ, hσ, hi.2⟩
    choose σ hσ hpos using hwidth
    exact ⟨μ, σ, rfl, congrArg List.ofFn (funext hσ), hpos⟩

/-- Only a square matrix is accepted as a covariance. -/
theorem ofCovariance_eq_ok {names : List String} {mean : List ℝ} {k l : ℕ} {C : ℕ → ℕ → ℝ}
    {c : NormalConstraint Exact}
    (h : ofCovariance names (mean.map real) (.ofFn k l fun i j => real (C i j)) = .ok c) :
    k = names.length ∧ (∃ μ : Fin names.length → ℝ, mean = List.ofFn μ) ∧
      DenseMatrix.ofFn k l (fun i j => real (C i j)) =
        .ofMatrix (Matrix.of fun i j : Fin names.length => C i j) := by
  unfold ofCovariance at h
  obtain ⟨_, hmean, h⟩ := except_bind_eq_ok.mp h
  obtain ⟨_, hrows, h⟩ := except_bind_eq_ok.mp h
  obtain ⟨_, hcols, h⟩ := except_bind_eq_ok.mp h
  have hk : names.length = k :=
    (checkLength_eq_ok hrows).trans (by simp [DenseMatrix.ofFn, DenseMatrix.nrows])
  have hl : DenseMatrix.ofFn k l (fun i j => real (C i j)) =
      .ofFn names.length names.length fun i j => real (C i j) := by
    rw [← hk] at hcols ⊢
    cases hn : names.length with
    | zero => rfl
    | succ n =>
      rw [hn] at hcols
      have hl : n + 1 = l := (checkLength_eq_ok hcols).trans
        (by simp [DenseMatrix.ofFn, DenseMatrix.ncols, List.range_succ_eq_map])
      rw [hl]
  exact ⟨hk.symm, eq_ofFn_of_length ((checkLength_eq_ok hmean).trans (List.length_map _)),
    hl.trans (DenseMatrix.ofFn_eq_ofMatrix fun i j => rfl)⟩

/-- **Slopes of normal constraints.** In exact arithmetic the gradient of a constraint on
independent parameters is that of its value, and that of one with a covariance is just if the
covariance is symmetric, which is not checked. -/
theorem hasSlopes_iff_symmetric (names : List String) (mean : List ℝ) :
    (∀ (errors : List Exact) (c : NormalConstraint Exact),
      ofErrors names (mean.map real) errors = .ok c → c.HasSlopes) ∧
    ∀ (k l : ℕ) (C : ℕ → ℕ → ℝ) (c : NormalConstraint Exact),
      ofCovariance names (mean.map real) (.ofFn k l fun i j => real (C i j)) = .ok c →
        (c.HasSlopes ↔ ∀ i < k, ∀ j < k, C i j = C j i) := by
  have hreals (μ : Fin names.length → ℝ) : (List.ofFn μ).map real = reals μ := List.map_ofFn
  constructor
  · intro errors c h
    obtain ⟨μ, σ, rfl, rfl, hσ⟩ := ofErrors_eq_ok h
    rw [hreals, ofErrors_reals names μ hσ] at h
    obtain rfl := Except.ok.inj h
    exact hasSlopes_around_iff.mpr (isSymm_diagonal _)
  · intro k l C c h
    obtain ⟨hk, ⟨μ, rfl⟩, hC⟩ := ofCovariance_eq_ok h
    rw [hreals, hC, ofCovariance_ofMatrix] at h
    split_ifs at h with hdet
    obtain rfl := Except.ok.inj h
    rw [hasSlopes_around_iff, isSymm_inv_iff hdet, hk]
    constructor
    · intro hsymm i hi j hj
      exact hsymm.apply ⟨j, hj⟩ ⟨i, hi⟩
    · intro hsymm
      ext i j
      exact hsymm j j.2 i i.2

/-- Two parameters, without and with a correlation. -/
theorem hasSlopes_iff_symmetric_twoParameters :
    (∃ c, ofErrors ["a", "b"] ([1, 2].map real) [real (1 / 2), real 2] = .ok c ∧ c.HasSlopes) ∧
    ∃ c, ofCovariance ["a", "b"] ([1, 2].map real)
      (.ofFn 2 2 fun i j => real (if i = j then 2 else 1)) = .ok c ∧ c.HasSlopes := by
  constructor
  · have herrors : [real (1 / 2), real 2] = reals ![1 / 2, 2] := by simp [reals]
    have hbuilt := ofErrors_reals ["a", "b"] ![1, 2] (σ := ![1 / 2, 2])
      (Fin.forall_fin_two.mpr ⟨by norm_num, by norm_num⟩)
    have hmean : [1, 2].map real = reals ![1, 2] := by simp [reals]
    rw [← hmean, ← herrors] at hbuilt
    exact ⟨_, hbuilt, (hasSlopes_iff_symmetric _ _).1 _ _ hbuilt⟩
  · have hcov : DenseMatrix.ofFn 2 2 (fun i j => real (if i = j then 2 else 1)) =
        .ofMatrix !![2, 1; 1, 2] :=
      DenseMatrix.ofFn_eq_ofMatrix (by simp [Fin.forall_fin_two])
    have hbuilt := ofCovariance_ofMatrix ["a", "b"] ![1, 2] !![2, 1; 1, 2]
    have hmean : [1, 2].map real = reals ![1, 2] := by simp [reals]
    have hdet : (!![2, 1; 1, 2] : Matrix (Fin 2) (Fin 2) ℝ).det ≠ 0 := by
      norm_num [det_fin_two]
    rw [if_neg hdet, ← hmean, ← hcov] at hbuilt
    refine ⟨_, hbuilt, ((hasSlopes_iff_symmetric _ _).2 _ _ _ _ hbuilt).mpr fun i _ j _ => ?_⟩
    simp only [eq_comm]

/-- A matrix that is not symmetric is accepted as a covariance, and then the gradient is not that of
the value. -/
theorem not_hasSlopes_triangular : ∃ c,
    ofCovariance ["a", "b"] ([0, 0].map real)
      (.ofFn 2 2 fun i j => real (if i ≤ j then 1 else 0)) = .ok c ∧
    c.value (reals ![3 / 2, 1]) = .ok (real (7 / 4)) ∧
    c.value (reals ![1 / 2, 1]) = .ok (real (3 / 4)) ∧
    c.grad (reals ![1, 1]) = .ok (reals ![0, 2]) ∧ ¬ c.HasSlopes := by
  have hcov : DenseMatrix.ofFn 2 2 (fun i j => real (if i ≤ j then 1 else 0)) =
      .ofMatrix !![1, 1; 0, 1] :=
    DenseMatrix.ofFn_eq_ofMatrix (by simp [Fin.forall_fin_two])
  have hinverse : (!![1, 1; 0, 1] : Matrix (Fin 2) (Fin 2) ℝ)⁻¹ = !![1, -1; 0, 1] := by
    refine inv_eq_right_inv ?_
    ext i j
    fin_cases i <;> fin_cases j <;> simp
  have hbuilt := ofCovariance_ofMatrix ["a", "b"] ![0, 0] !![1, 1; 0, 1]
  have hmean : [0, 0].map real = reals ![0, 0] := by simp [reals]
  have hdet : (!![1, 1; 0, 1] : Matrix (Fin 2) (Fin 2) ℝ).det ≠ 0 := by
    norm_num [det_fin_two]
  have hform (x y : ℝ) :
      (![x, y] - ![0, 0]) ⬝ᵥ (!![1, -1; 0, 1] : Matrix (Fin 2) (Fin 2) ℝ) *ᵥ (![x, y] - ![0, 0]) =
        x * (x - y) + y * y := by
    simp only [dotProduct, mulVec, Fin.sum_univ_two, Pi.sub_apply, of_apply, cons_val_zero,
      cons_val_one]
    ring
  rw [if_neg hdet, ← hmean, ← hcov, hinverse] at hbuilt
  refine ⟨_, hbuilt, (value_around _).trans ?_, (value_around _).trans ?_,
    (grad_around _).trans ?_, fun hslopes => ?_⟩
  · exact congrArg (fun v => Except.ok (real v)) ((hform _ _).trans (by norm_num))
  · exact congrArg (fun v => Except.ok (real v)) ((hform _ _).trans (by norm_num))
  · refine congrArg (fun g => Except.ok (reals g)) ?_
    ext i
    fin_cases i <;> norm_num [mulVec, vec2_dotProduct]
  · have hentry := (hasSlopes_around_iff.mp hslopes).apply 0 1
    norm_num at hentry

end NormalConstraint

end FitSession
