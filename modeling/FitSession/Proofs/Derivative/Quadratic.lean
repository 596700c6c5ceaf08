import FitSession.Proofs.Dense.Spectral
import FitSession.Proofs.Derivative.Samples

/-!
# Curvatures of quadratic polynomials

In exact arithmetic second differences of a polynomial of degree two are its second derivatives,
whatever the steps.

* `DiffersByCurvature`: the values around a point on two axes, or twice on one;
* `secondDerivatives`: the matrix of second derivatives;
* `secondDifferences_quadratic`: differences with any positive steps;
* **`hessian_from_samples`**: what is asked for, how it ends, and what is found.
-/

namespace FitSession

open MvPolynomial
open Exact (real)

variable {n : ℕ} {τ : Type}

/-! ## Polynomials of degree two -/

/-- The values of a polynomial around each point, on any two axes, differ by its second
derivative. -/
def DiffersByCurvature (p : MvPolynomial (Fin n) ℝ) : Prop :=
  ∀ (x : Fin n → ℝ) (i j : Fin n) (h k : ℝ),
    eval (x + Pi.single i h + Pi.single j k) p - eval (x + Pi.single i h - Pi.single j k) p -
      eval (x - Pi.single i h + Pi.single j k) p + eval (x - Pi.single i h - Pi.single j k) p =
    4 * h * k * eval x (pderiv i (pderiv j p))

theorem DiffersByCurvature.add {p q : MvPolynomial (Fin n) ℝ} (hp : DiffersByCurvature p)
    (hq : DiffersByCurvature q) : DiffersByCurvature (p + q) := by
  intro x i j h k
  simp only [map_add, mul_add, ← hp x i j h k, ← hq x i j h k]
  ring

theorem differsByCurvature_C (c : ℝ) : DiffersByCurvature (C c : MvPolynomial (Fin n) ℝ) := by
  intro x i j h k
  simp

theorem differsByCurvature_C_mul_X (c : ℝ) (a : Fin n) : DiffersByCurvature (C c * X a) := by
  intro x i j h k
  have hslope : pderiv i (pderiv j (C c * X a : MvPolynomial (Fin n) ℝ)) = 0 := by
    rw [pderiv_C_mul, pderiv_X, Pi.single_apply]
    split_ifs <;> simp
  rw [hslope]
  simp
  ring

theorem differsByCurvature_C_mul_X_mul_X (c : ℝ) (a b : Fin n) :
    DiffersByCurvature (C c * (X a * X b)) := by
  intro x i j h k
  have hX (l a : Fin n) : pderiv l (X a : MvPolynomial (Fin n) ℝ) =
      C ((Pi.single l 1 : Fin n → ℝ) a) := by
    rw [pderiv_X, Pi.single_apply, Pi.single_apply]
    by_cases hal : a = l <;> simp [hal]
  have hstep (l a : Fin n) (h : ℝ) : (Pi.single l h : Fin n → ℝ) a =
      h * (Pi.single l 1 : Fin n → ℝ) a := by
    rw [Pi.single_apply, Pi.single_apply]
    by_cases hal : a = l <;> simp [hal]
  simp only [pderiv_mul, hX, map_add, map_mul, eval_C, eval_X, Pi.add_apply,
    Pi.sub_apply, hstep _ _ h, hstep _ _ k, pderiv_C]
  simp
  ring

theorem exists_single_add {d : Fin n →₀ ℕ} (hd : d ≠ 0) :
    ∃ (a : Fin n) (e : Fin n →₀ ℕ), d = Finsupp.single a 1 + e ∧ e.degree + 1 = d.degree := by
  obtain ⟨a, ha⟩ := Finsupp.ne_iff.mp hd
  have hsum : Finsupp.single a 1 + (d - Finsupp.single a 1) = d := by
    rw [add_comm, Finsupp.sub_add_single_one_cancel ha]
  refine ⟨a, d - Finsupp.single a 1, hsum.symm, ?_⟩
  rw [← congrArg Finsupp.degree hsum, map_add, Finsupp.degree_single, add_comm]

/-- A monomial of degree two at most is a multiple of one, of a variable or of a product of two. -/
theorem differsByCurvature_monomial {d : Fin n →₀ ℕ} (hd : d.degree ≤ 2) (c : ℝ) :
    DiffersByCurvature (monomial d c) := by
  by_cases h0 : d = 0
  · subst h0
    exact differsByCurvature_C c
  obtain ⟨a, e, rfl, he⟩ := exists_single_add h0
  by_cases h1 : e = 0
  · subst h1
    have hlinear : monomial (Finsupp.single a 1 + 0) c = C c * X a := by
      rw [X, C_mul_monomial, mul_one, add_zero]
    exact hlinear ▸ differsByCurvature_C_mul_X c a
  obtain ⟨b, e, rfl, he'⟩ := exists_single_add h1
  have h2 : e = 0 := Finsupp.degree_eq_zero_iff _ |>.mp (by omega)
  subst h2
  have hproduct : monomial (Finsupp.single a 1 + (Finsupp.single b 1 + 0)) c =
      C c * (X a * X b) := by
    rw [X, X, monomial_mul, C_mul_monomial, mul_one, mul_one, add_zero]
  exact hproduct ▸ differsByCurvature_C_mul_X_mul_X c a b

theorem differsByCurvature_of_totalDegree_le {p : MvPolynomial (Fin n) ℝ}
    (hp : p.totalDegree ≤ 2) : DiffersByCurvature p := by
  rw [p.as_sum]
  refine Finset.sum_induction _ DiffersByCurvature (fun _ _ => .add) ?_ fun d hd => ?_
  · exact C_0 (R := ℝ) (σ := Fin n) ▸ differsByCurvature_C 0
  · exact differsByCurvature_monomial ((le_totalDegree hd).trans hp) _

/-- On one axis, half a step is taken twice. -/
theorem DiffersByCurvature.axis {p : MvPolynomial (Fin n) ℝ} (hp : DiffersByCurvature p)
    (x : Fin n → ℝ) (i : Fin n) (h : ℝ) :
    eval (x + Pi.single i h) p - 2 * eval x p + eval (x - Pi.single i h) p =
      h * h * eval x (pderiv i (pderiv i p)) := by
  have hhalf : (Pi.single i h : Fin n → ℝ) = Pi.single i (h / 2) + Pi.single i (h / 2) := by
    rw [← Pi.single_add, add_halves]
  have hahead : x + Pi.single i (h / 2) + Pi.single i (h / 2) = x + Pi.single i h := by
    rw [add_assoc, ← hhalf]
  have hbehind : x - Pi.single i (h / 2) - Pi.single i (h / 2) = x - Pi.single i h := by
    rw [sub_sub, ← hhalf]
  have hboth := hp x i i (h / 2) (h / 2)
  rw [add_sub_cancel_right, sub_add_cancel, hahead, hbehind] at hboth
  linear_combination hboth

/-- Second derivatives may be taken in either order. -/
theorem DiffersByCurvature.comm {p : MvPolynomial (Fin n) ℝ} (hp : DiffersByCurvature p)
    (x : Fin n → ℝ) (i j : Fin n) :
    eval x (pderiv i (pderiv j p)) = eval x (pderiv j (pderiv i p)) := by
  have hij := hp x i j 1 1
  have hji := hp x j i 1 1
  rw [add_right_comm x, add_sub_right_comm x, sub_add_eq_add_sub x (Pi.single j 1),
    sub_right_comm x] at hji
  linear_combination (hji - hij) / 4

/-! ## Differences of their values -/

theorem isSquare_ofMatrix (M : Matrix (Fin n) (Fin n) ℝ) : (DenseMatrix.ofMatrix M).IsSquare n where
  rows := List.length_ofFn
  entries row hrow := by
    obtain ⟨i, rfl⟩ := List.mem_ofFn.mp hrow
    exact List.length_ofFn

/-- The matrix of second derivatives at a point. -/
noncomputable def secondDerivatives (p : MvPolynomial (Fin n) ℝ) (x : Fin n → ℝ) :
    Matrix (Fin n) (Fin n) ℝ :=
  .of fun i j => eval x (pderiv i (pderiv j p))

section Reals

variable (θ : Fin n → ℝ) (i j : Fin n) (x y : ℝ)

theorem shifted_reals : shifted (reals θ) i (real x) = reals (θ + Pi.single i x) := by
  refine eq_reals (by rw [shifted, List.length_modify, length_reals]) fun k => ?_
  rw [shifted, List.getElem?_modify, getElem?_reals]
  by_cases hki : i = k
  · subst hki
    simp
  · simp [Fin.val_ne_of_ne hki, Pi.single_eq_of_ne' hki]

theorem cornerPoint_reals : cornerPoint (reals θ) i j (real x) (real y) =
    reals (θ + Pi.single i x + Pi.single j y) :=
  (congrArg (fun l => shifted l j (real y)) (shifted_reals θ i x)).trans (shifted_reals _ j y)

variable {θ}

/-- All points are finite. -/
theorem exists_reals_of_mem {h : Fin n → ℝ} {p : List Exact}
    (hp : p ∈ differencePoints (reals θ) (reals h)) : ∃ x : Fin n → ℝ, p = reals x := by
  have hstep {k : Fin n} {x : Exact} (hx : x = (reals h)[(k : ℕ)]?.getD 1 ∨
      x = -((reals h)[(k : ℕ)]?.getD 1)) : ∃ r, x = real r := by
    rw [getElem?_reals, Option.getD_some, Exact.neg_real] at hx
    rcases hx with rfl | rfl <;> exact ⟨_, rfl⟩
  rcases mem_differencePoints.mp hp with rfl | ⟨i, hi, hp⟩
  · exact ⟨θ, rfl⟩
  rw [length_reals] at hi
  rcases hp with hp | ⟨j, hj, hp⟩
  · obtain ⟨x, hx, rfl⟩ := mem_axisPoints.mp hp
    obtain ⟨x, rfl⟩ := hstep (k := ⟨i, hi⟩) hx
    exact ⟨_, shifted_reals θ ⟨i, hi⟩ x⟩
  · obtain ⟨x, y, hx, hy, rfl⟩ := mem_cornerPoints.mp hp
    obtain ⟨x, rfl⟩ := hstep (k := ⟨i, hi⟩) hx
    obtain ⟨y, rfl⟩ := hstep (k := ⟨j, hj.trans hi⟩) hy
    exact ⟨_, cornerPoint_reals θ ⟨i, hi⟩ ⟨j, hj.trans hi⟩ x y⟩

end Reals

section Exactness

variable {p : MvPolynomial (Fin n) ℝ} {v : List Exact → Exact} {θ h : Fin n → ℝ}

/-- The entries are second derivatives. -/
theorem differenceEntry_reals (hp : DiffersByCurvature p) (hv : ∀ x, v (reals x) = real (eval x p))
    (hh : ∀ i, 0 < h i) (i j : Fin n) :
    differenceEntry v (reals θ) (reals h) i j = real (secondDerivatives p θ i j) := by
  unfold differenceEntry
  by_cases hij : i = j
  · subst hij
    have hne : h i * h i ≠ 0 := (mul_pos (hh i) (hh i)).ne'
    rw [if_pos rfl, getElem?_reals, Option.getD_some]
    simp only [axisDifference, Exact.neg_real, shifted_reals, hv, Exact.ofNat_eq, Nat.cast_ofNat,
      Exact.real_mul_real, Exact.real_sub_real, Exact.real_add_real, Exact.real_div_real hne]
    rw [Pi.single_neg, ← sub_eq_add_neg, hp.axis, mul_div_cancel_left₀ _ hne]
    rfl
  · have hne : 4 * h i * h j ≠ 0 := (mul_pos (mul_pos four_pos (hh i)) (hh j)).ne'
    rw [if_neg (Fin.val_ne_of_ne hij), getElem?_reals, getElem?_reals, Option.getD_some,
      Option.getD_some]
    simp only [cornerDifference, Exact.neg_real, cornerPoint_reals, hv, Exact.ofNat_eq,
      Nat.cast_ofNat, Exact.real_mul_real, Exact.real_sub_real, Exact.real_add_real,
      Exact.real_div_real hne]
    rw [Pi.single_neg, Pi.single_neg, ← sub_eq_add_neg, ← sub_eq_add_neg, ← sub_eq_add_neg, hp,
      mul_div_cancel_left₀ _ hne]
    rfl

variable {f : List Exact → EStateM (FitError Exact) τ Exact}

/-- **Exactness of second differences.** Those of a polynomial of degree two are its second
derivatives, for any positive steps. -/
theorem secondDifferences_quadratic (hp : p.totalDegree ≤ 2)
    (hf : ∀ x, Answers (real (eval x p)) (f (reals x))) (hh : ∀ i, 0 < h i) :
    Answers (.ofMatrix (secondDerivatives p θ)) (secondDifferences f (reals θ) (reals h)) := by
  have hcurved := differsByCurvature_of_totalDegree_le hp
  let v : List Exact → Exact := Function.extend reals (fun x => real (eval x p)) fun _ => Scalar.nan
  have hv (x : Fin n → ℝ) : v (reals x) = real (eval x p) := reals_injective.extend_apply _ _ x
  have hknown : ∀ q ∈ differencePoints (reals θ) (reals h), Answers (v q) (f q) := by
    intro q hq
    obtain ⟨x, rfl⟩ := exists_reals_of_mem hq
    rw [hv]
    exact hf x
  have hanswers := answers_secondDifferences hknown
  rw [length_reals] at hanswers
  refine DenseMatrix.ofFn_eq_ofMatrix (fun i j => ?_) ▸ hanswers
  rw [differenceEntry_reals hcurved hv hh, differenceEntry_reals hcurved hv hh]
  split_ifs
  · rfl
  · exact congrArg real (hcurved.comm θ j i)

/-- So is the curvature, whose steps are positive. -/
theorem hessianOfValues_quadratic (hp : p.totalDegree ≤ 2)
    (hf : ∀ x, Answers (real (eval x p)) (f (reals x))) :
    Answers (.ofMatrix (secondDerivatives p θ)) (hessianOfValues f (reals θ)) := by
  have hsteps : (reals θ).map curvatureStep = reals fun i => 1 / 8192 * max |θ i| 1 := by
    simp [reals, List.map_ofFn, Function.comp_def, curvatureStep, Exact.ofNat_eq, Exact.maxNum_real]
  have hpos (i : Fin n) : 0 < 1 / 8192 * max |θ i| 1 := by positivity
  have hcheck : checkHessian (.ofMatrix (secondDerivatives p θ)) (reals θ).length = .ok () := by
    rw [length_reals]
    refine checkHessian_eq_ok (isSquare_ofMatrix _) fun i hi j hj => ?_
    exact congrArg Scalar.isFinite (DenseMatrix.get_ofMatrix ⟨i, hi⟩ ⟨j, hj⟩)
  have hanswers := secondDifferences_quadratic (θ := θ) hp hf hpos
  rw [← hsteps] at hanswers
  refine hanswers.bind ?_
  rw [hcheck]
  exact Answers.pure _

end Exactness

/-- **Curvatures from samples.** For any number of coordinates and any objective, second
differences call it at the point, on both sides on each axis and at the corners on each pair of
axes, `1 + 2 n + 2 n (n - 1)` times in all, with all other coordinates as they are. They end at the
first failure, and what is found is square, symmetric and finite. In exact arithmetic it is the
matrix of second derivatives if the objective is a polynomial of degree two, for any positive
steps. -/
theorem hessian_from_samples :
    (∀ (α τ : Type) [Scalar α] (f : List α → EStateM (FitError α) τ α) (theta steps : List α),
      (differencePoints theta steps).length =
        1 + 2 * theta.length + 2 * theta.length * (theta.length - 1) ∧
      (∀ (i : ℕ) (x : α), ∀ p ∈ axisPoints theta i x,
        p.length = theta.length ∧ ∀ k, k ≠ i → p[k]? = theta[k]?) ∧
      (∀ (i j : ℕ) (x y : α), ∀ p ∈ cornerPoints theta i j x y,
        p.length = theta.length ∧ ∀ k, k ≠ i → k ≠ j → p[k]? = theta[k]?) ∧
      Visits f (differencePoints theta steps) (secondDifferences f theta steps) ∧
      ∀ s, HessianEnds f theta s (hessianOfValues f theta s)) ∧
    ∀ (n : ℕ) (p : MvPolynomial (Fin n) ℝ) (τ : Type)
      (f : List Exact → EStateM (FitError Exact) τ Exact), p.totalDegree ≤ 2 →
      (∀ x, Answers (real (eval x p)) (f (reals x))) → ∀ θ : Fin n → ℝ,
        (∀ h : Fin n → ℝ, (∀ i, 0 < h i) → Answers (.ofMatrix (secondDerivatives p θ))
          (secondDifferences f (reals θ) (reals h))) ∧
        Answers (.ofMatrix (secondDerivatives p θ)) (hessianOfValues f (reals θ)) := by
  constructor
  · intro α τ _ f theta steps
    exact ⟨length_differencePoints theta steps, fun i x p => getElem?_of_mem_axisPoints,
      fun i j x y p => getElem?_of_mem_cornerPoints, visits_secondDifferences f theta steps,
      hessianEnds_hessianOfValues f theta⟩
  · intro n p τ f hp hf θ
    exact ⟨fun h hh => secondDifferences_quadratic hp hf hh, hessianOfValues_quadratic hp hf⟩

/-- The product of two coordinates. -/
noncomputable def productOfTwo : List Exact → EStateM (FitError Exact) Unit Exact
  | [x, y] => pure (x * y)
  | _ => pure Scalar.nan

/-- Its curvature. -/
theorem hessian_from_samples_product :
    Answers (.ofMatrix !![0, 1; 1, 0]) (hessianOfValues productOfTwo (reals ![1, 2])) := by
  let p : MvPolynomial (Fin 2) ℝ := X 0 * X 1
  have hdegree : p.totalDegree ≤ 2 :=
    (totalDegree_mul _ _).trans (by rw [totalDegree_X, totalDegree_X])
  have hf (x : Fin 2 → ℝ) : Answers (real (eval x p)) (productOfTwo (reals x)) := by
    have hproduct : productOfTwo (reals x) = pure (real (eval x p)) := by
      simp [productOfTwo, p, reals]
    exact hproduct ▸ Answers.pure _
  have hessian : secondDerivatives p ![1, 2] = !![0, 1; 1, 0] := by
    ext i j
    fin_cases i <;> fin_cases j <;> simp [secondDerivatives, p]
  exact hessian ▸ (hessian_from_samples.2 2 p Unit productOfTwo hdegree hf ![1, 2]).2

end FitSession
