import FitSession.Proofs.Coordinates.Gradient
import FitSession.Proofs.Covariance.Forced
import FitSession.Proofs.Covariance.Inverted
import FitSession.Proofs.Derivative.Quadratic
import FitSession.Proofs.Engine.Contour

/-!
# Semidefinite covariances

A curvature that bends downwards, or hardly at all, in some direction still has an inverse, since
its small eigenvalues are lifted. In exact arithmetic that inverse is a covariance, whatever the
decomposition found, because it is composed of the reciprocals of positive numbers.

* `DenseMatrix.IsSemidefinite`: symmetric matrices of real numbers without a negative direction;
* `Eigen.length_values_ofSymmetric`: a decomposition has an eigenvalue for each row;
* `Inversion.parts_of_ofEigen?`, `Inversion.exists_compose`: what an inverse is composed of;
* `Inversion.exists_semidefinite`: **every inverse is semidefinite**;
* `Curvature.IsSound`, `Problem.isSound_curvature`: what the engine makes of an inverse;
* **`forced_inverses_semidefinite`**: inverses, distances to the minimum and carried covariances.
-/

namespace FitSession

open Matrix
open Exact (real)

variable {n : ℕ}

/-- The entries are those of a real matrix that is symmetric and has neither a negative direction
nor a negative entry on its diagonal. -/
structure DenseMatrix.IsSemidefinite (m : DenseMatrix Exact) (V : Matrix (Fin n) (Fin n) ℝ) :
    Prop where
  entries : m = .ofMatrix V
  symmetric : V.IsSymm
  semidefinite : V.PosSemidef
  variances : ∀ i, 0 ≤ V i i

theorem isSemidefinite_ofMatrix {V : Matrix (Fin n) (Fin n) ℝ} (h : V.PosSemidef) :
    (DenseMatrix.ofMatrix V).IsSemidefinite V where
  entries := rfl
  symmetric := (conjTranspose_eq_transpose_of_trivial V).symm.trans h.isHermitian
  semidefinite := h
  variances _ := h.diag_nonneg

/-! ## Sizes -/

namespace Tridiagonal

variable {α : Type} [Scalar α]

theorem length_reduce (m : DenseMatrix α) : (reduce n m).diagonal.length = n := by
  fun_induction reduce n m with
  | case1 => rfl
  | case2 => rfl
  | case3 n m below rest r t ih => exact congrArg (· + 1) ih

theorem length_sweep (t : Tridiagonal α) (count i : ℕ) (isFirst : Bool) (x y : α) :
    (t.sweep count i isFirst x y).diagonal.length = t.diagonal.length := by
  induction count generalizing t i isFirst x y with
  | zero => rfl
  | succ count ih =>
    unfold sweep
    split
    · rfl
    · dsimp only
      rw [ih]
      simp

theorem length_decouple (fuel last : ℕ) (t : Tridiagonal α) :
    (decouple fuel last t).diagonal.length = t.diagonal.length := by
  induction fuel generalizing last t with
  | zero => rfl
  | succ fuel ih =>
    unfold decouple
    split
    · rfl
    · extract_lets start split swept cleared
      have hsplit : split.diagonal.length = t.diagonal.length := by
        unfold split
        split_ifs <;> rfl
      split
      · rw [ih, ← hsplit]
        simp [solvePair]
      · rw [ih, length_sweep, hsplit]

end Tridiagonal

/-- A decomposition has an eigenvalue for each row. -/
theorem Eigen.length_values_ofSymmetric {α : Type} [Scalar α] (m : DenseMatrix α) :
    (Eigen.ofSymmetric m).values.length = m.nrows := by
  have hscaled (c : Prop) [Decidable c] (f : α → α) :
      (if c then m else m.map f).nrows = m.nrows := by
    split_ifs
    · rfl
    · exact List.length_map _
  unfold Eigen.ofSymmetric
  dsimp only
  rw [List.length_map, Tridiagonal.length_decouple, Tridiagonal.ofSymmetric,
    Tridiagonal.length_reduce, hscaled]

/-! ## Inverses -/

namespace Exact

/-- The number by which a quotient is a product; zero for an infinite divisor. -/
noncomputable def weight : Exact → ℝ
  | real x => x⁻¹
  | _ => 0

variable {a b c : Exact}

theorem zero_le_inf : (0 : Exact) ≤ Scalar.inf := trivial

theorem lt_trans (h : a < b) (h' : b < c) : a < c := by
  rw [lt_iff] at h h' ⊢
  exact ⟨h.1, h'.2.1, h.2.2.trans h'.2.2⟩

theorem real_div_eq (h : real 0 < a) (x : ℝ) : real x / a = real (x * a.weight) := by
  cases a with
  | real y =>
    exact (real_div_real (real_lt_real.mp h).ne').trans (congrArg real (div_eq_mul_inv x y))
  | inf => exact congrArg real (mul_zero x).symm
  | negInf | nan => cases h

theorem weight_nonneg (h : real 0 < a) : 0 ≤ a.weight := by
  cases a with
  | real y => exact inv_nonneg.mpr (real_lt_real.mp h).le
  | inf => exact le_rfl
  | negInf | nan => cases h

/-- What is divided by a positive number is finite if the quotient is. -/
theorem isFinite_of_div (hb : real 0 < b) (h : Scalar.isFinite (a / b) = true) :
    Scalar.isFinite a = true := by
  cases a with
  | real x => rfl
  | inf | negInf =>
    cases b with
    | real y =>
      change Scalar.isFinite (ite _ _ _) = true at h
      split_ifs at h
    | inf | negInf | nan => cases h
  | nan => cases h

end Exact

namespace Inversion

theorem lift_pos {floor x : Exact} (h : real 0 < floor) : real 0 < lift floor x := by
  unfold lift
  split_ifs with hx
  · exact Exact.lt_trans h hx
  · exact h

/-- What is composed of the reciprocals of positive numbers is semidefinite if it is finite. -/
theorem exists_compose {l : Fin n → Exact} {q : DenseMatrix Exact} (hpos : ∀ k, real 0 < l k)
    (hfinite : (compose (List.ofFn l) q).rows.all (·.all Scalar.isFinite) = true) :
    ∃ V : Matrix (Fin n) (Fin n) ℝ, (compose (List.ofFn l) q).IsSemidefinite V := by
  have hterms (i : Fin n) : Scalar.isFinite
      (Scalar.sum (List.ofFn fun k : Fin n => q.get i k * q.get i k / l k)) = true := by
    rw [List.all_eq_true] at hfinite
    unfold compose at hfinite
    simp only [DenseMatrix.ofFn, List.length_ofFn, List.mem_map, List.mem_range,
      forall_exists_index, and_imp, forall_apply_eq_imp_iff₂, List.all_eq_true] at hfinite
    have hentry := hfinite i i.2 i i.2
    rwa [map_zipIdx_ofFn] at hentry
  have hvectors (i k : Fin n) : ∃ x, q.get i k = real x := by
    have hterm := Exact.isFinite_of_sum (hterms i) _ (List.mem_ofFn.mpr ⟨k, rfl⟩)
    exact Exact.exists_real_of_isFinite
      (Exact.isFinite_of_mul (Exact.isFinite_of_div (hpos k) hterm)).1
  choose Q hQ using hvectors
  have hweights : (diagonal fun k => (l k).weight).PosSemidef :=
    posSemidef_diagonal_iff.mpr fun k => Exact.weight_nonneg (hpos k)
  have hsemidefinite := hweights.mul_mul_conjTranspose_same (Matrix.of Q)
  rw [conjTranspose_eq_transpose_of_trivial] at hsemidefinite
  rw [compose_ofFn (Q := Matrix.of Q) hQ fun k x => Exact.real_div_eq (hpos k) x]
  exact ⟨_, isSemidefinite_ofMatrix hsemidefinite⟩

/-- The parts of an inverse that was found. -/
theorem parts_of_ofEigen? {e : Eigen Exact} {inv : Inversion Exact} (h : ofEigen? e = some inv) :
    ∃ top, e.largest = real top ∧ 1e-12 < top ∧
      inv.inverse = compose (e.values.map (lift (real (1e-3 * top)))) e.vectors ∧
      inv.inverse.rows.all (·.all Scalar.isFinite) = true ∧ inv.posdef = !inv.madePosdef ∧
      inv.madePosdef = e.values.any fun x => !decide (real (1e-3 * top) < x) := by
  unfold ofEigen? at h
  dsimp only at h
  split_ifs at h with hflat hfinite
  obtain ⟨hreal, hsteep⟩ : Scalar.isFinite e.largest = true ∧ ¬e.largest ≤ flatFloor := by
    simpa using hflat
  obtain ⟨top, htop⟩ := Exact.exists_real_of_isFinite hreal
  have hfloor : liftFraction * e.largest = real (1e-3 * top) := by
    rw [htop, liftFraction_eq, Exact.real_mul_real]
  rw [htop, flatFloor_eq, Exact.real_le_real, not_le] at hsteep
  rw [hfloor] at h hfinite
  cases h
  exact ⟨top, htop, hsteep, rfl, hfinite, rfl, rfl⟩

/-- **Every inverse is semidefinite**, whatever the decomposition found. -/
theorem exists_semidefinite {e : Eigen Exact} {inv : Inversion Exact} (hlen : e.values.length = n)
    (h : ofEigen? e = some inv) :
    ∃ V : Matrix (Fin n) (Fin n) ℝ, inv.inverse.IsSemidefinite V := by
  subst hlen
  obtain ⟨top, -, hsteep, hinverse, hfinite, -⟩ := parts_of_ofEigen? h
  have hfloor : real 0 < real (1e-3 * top) := by
    rw [Exact.real_lt_real]
    linarith
  have hvalues : e.values.map (lift (real (1e-3 * top))) =
      List.ofFn fun k : Fin e.values.length => lift (real (1e-3 * top)) e.values[k] :=
    List.ext_getElem (by simp) fun k _ _ => by simp
  rw [hinverse, hvalues] at hfinite ⊢
  exact exists_compose (fun k => lift_pos hfloor) hfinite

end Inversion

/-- The inverse of a matrix of `n` rows is semidefinite, for any way to decompose it into `n`
eigenvalues and vectors. -/
theorem exists_semidefinite_of_invertCurvature {decompose : DenseMatrix Exact → Eigen Exact}
    {h : DenseMatrix Exact} {inv : Inversion Exact} (hrows : h.nrows = n)
    (hlen : n ≠ 0 → (decompose h).values.length = n)
    (hinv : invertCurvatureWith decompose h = some inv) :
    ∃ V : Matrix (Fin n) (Fin n) ℝ, inv.inverse.IsSemidefinite V := by
  unfold invertCurvatureWith at hinv
  split_ifs at hinv with hempty
  · cases hinv
    obtain rfl : n = 0 := hrows.symm.trans hempty
    exact ⟨0, isSemidefinite_ofMatrix PosSemidef.zero⟩
  · exact Inversion.exists_semidefinite (hlen fun hn => hempty (hrows.trans hn)) hinv

/-- An inverse is marked as forced if an eigenvalue is at or below a fraction of the largest one,
and else as positive definite. -/
theorem marks_of_ofEigen? {values : Fin n → ℝ} {q : DenseMatrix Exact} {inv : Inversion Exact}
    (h : Inversion.ofEigen? ⟨reals values, q⟩ = some inv) : inv.posdef = !inv.madePosdef ∧
      (inv.madePosdef = true ↔
        ∃ top, IsGreatest (Set.range values) top ∧ ∃ k, values k ≤ 1e-3 * top) := by
  obtain ⟨top, htop, -, -, -, hposdef, hmade⟩ := Inversion.parts_of_ofEigen? h
  have hn : n ≠ 0 := by
    rintro rfl
    cases htop
  obtain ⟨top', htop'⟩ := exists_isGreatest_range hn values
  obtain rfl : top = top' := Exact.real.inj (htop.symm.trans (Eigen.largest_reals htop'))
  have hany : inv.madePosdef = true ↔ ∃ k, values k ≤ 1e-3 * top := by
    rw [hmade]
    simp [reals, List.mem_ofFn]
  refine ⟨hposdef, hany.trans ⟨fun hflat => ⟨top, htop', hflat⟩, ?_⟩⟩
  rintro ⟨_, htop'', hflat⟩
  rwa [htop''.unique htop'] at hflat

theorem marks_of_invertCurvature {decompose : DenseMatrix Exact → Eigen Exact}
    {h : DenseMatrix Exact} {values : Fin n → ℝ} {q : DenseMatrix Exact} {inv : Inversion Exact}
    (hrows : h.nrows = n) (hreturns : decompose h = ⟨reals values, q⟩)
    (hinv : invertCurvatureWith decompose h = some inv) : inv.posdef = !inv.madePosdef ∧
      (inv.madePosdef = true ↔
        ∃ top, IsGreatest (Set.range values) top ∧ ∃ k, values k ≤ 1e-3 * top) := by
  unfold invertCurvatureWith at hinv
  split_ifs at hinv with hempty
  · cases hinv
    obtain rfl : n = 0 := hrows.symm.trans hempty
    refine ⟨rfl, iff_of_false Bool.false_ne_true ?_⟩
    rintro ⟨_, -, k, -⟩
    exact k.elim0
  · rw [hreturns] at hinv
    exact marks_of_ofEigen? hinv

/-! ## Distances and carried covariances -/

theorem mulVec_reals (V : Matrix (Fin n) (Fin n) ℝ) (g : Fin n → ℝ) :
    (DenseMatrix.ofMatrix V).mulVec (reals g) = reals (V *ᵥ g) := by
  have hrow (i : Fin n) : Scalar.dot (List.ofFn fun j => real (V i j)) (reals g) =
      real ((V *ᵥ g) i) := dot_reals (V i) g
  simp only [DenseMatrix.mulVec, DenseMatrix.ofMatrix, List.map_ofFn, Function.comp_def, hrow]
  rfl

theorem distanceToMinimum_reals (V : Matrix (Fin n) (Fin n) ℝ) (g : Fin n → ℝ) :
    distanceToMinimum (.ofMatrix V) (reals g) = real (1 / 2 * (g ⬝ᵥ V *ᵥ g)) := by
  rw [distanceToMinimum, mulVec_reals, dot_reals, Exact.half_eq]
  rfl

namespace DenseMatrix.IsSemidefinite

variable {m : ℕ} {inverse : DenseMatrix Exact} {V : Matrix (Fin n) (Fin n) ℝ}
  (h : inverse.IsSemidefinite V)
include h

/-- The distance to the minimum is half a quadratic form, which has no negative value. -/
theorem distance (g : Fin n → ℝ) :
    distanceToMinimum inverse (reals g) = real (1 / 2 * (g ⬝ᵥ V *ᵥ g)) ∧
      0 ≤ 1 / 2 * (g ⬝ᵥ V *ᵥ g) := by
  have hform : 0 ≤ g ⬝ᵥ V *ᵥ g := by simpa using h.semidefinite.dotProduct_mulVec_nonneg g
  refine ⟨h.entries ▸ distanceToMinimum_reals V g, by positivity⟩

/-- What is carried over from a semidefinite matrix is semidefinite, for any derivatives and any
positive errordef. -/
theorem carried {map : ParameterMap Exact} {theta : List Exact} {J : Fin m → ℝ} {up : ℝ}
    (hjacobian : map.jacobian theta = reals J) (hle : m ≤ n) (hup : 0 < up) :
    ∃ C : Matrix (Fin m) (Fin m) ℝ,
      (map.carriedCovariance theta (inverse.map (2 * real up * ·))).IsSemidefinite C := by
  have hscaled (x : ℝ) : 2 * real up * real x = real (2 * up * x) := by
    rw [Exact.two_eq, Exact.real_mul_real, Exact.real_mul_real]
  have hinner : ((2 * up) • V).PosSemidef := h.semidefinite.smul (by positivity)
  have hcongruent :=
    (hinner.submatrix (Fin.castLE hle)).conjTranspose_mul_mul_same (Matrix.diagonal J)
  rw [diagonal_conjTranspose, star_trivial] at hcongruent
  suffices map.carriedCovariance theta (inverse.map (2 * real up * ·)) = .ofMatrix _ by
    rw [this]
    exact ⟨_, isSemidefinite_ofMatrix hcongruent⟩
  rw [h.entries, DenseMatrix.map_ofMatrix hscaled]
  unfold ParameterMap.carriedCovariance
  rw [hjacobian]
  dsimp only
  rw [length_reals]
  refine DenseMatrix.ofFn_eq_ofMatrix fun i j => ?_
  have hinside := DenseMatrix.get_ofMatrix (M := V.map (2 * up * ·)) (Fin.castLE hle i)
    (Fin.castLE hle j)
  rw [Fin.val_castLE, Fin.val_castLE] at hinside
  rw [hinside]
  simp [reals]

end DenseMatrix.IsSemidefinite

/-! ## What the engine makes of an inverse -/

/-- The distance to the minimum is not negative, and the covariance is semidefinite. -/
structure Curvature.IsSound (n : ℕ) (c : Curvature Exact) : Prop where
  edm : 0 ≤ c.edm
  external : ∃ C : Matrix (Fin n) (Fin n) ℝ, c.external.IsSemidefinite C

theorem Problem.isSound_curvature {μ : Type} [Memory μ Exact] {p : Problem Exact}
    {theta : List Exact} {useGradient : Bool} {b b' : Bench μ Exact} {c : Curvature Exact}
    {J : Fin n → ℝ} {up : ℝ} (hup : b.up = real up) (hpos : 0 < up)
    (hjacobian : p.map.jacobian theta = reals J)
    (h : p.curvature theta useGradient b = .ok (some c) b') : c.IsSound n := by
  obtain ⟨r, b₁, hr, hc⟩ := exists_hessian_of_curvature h
  cases r with
  | error e => cases hc
  | ok hess =>
    obtain ⟨inv, hinv, rfl⟩ := Option.map_eq_some_iff.mp hc.symm
    have hrows : hess.nrows = theta.length := p.returns_hessian useGradient _ _ _ hr hess rfl
    have hle : n ≤ theta.length := by
      have hlen := congrArg List.length hjacobian
      rw [ParameterMap.jacobian, List.length_zipWith, length_reals] at hlen
      omega
    obtain ⟨V, hV⟩ := exists_semidefinite_of_invertCurvature hrows
      (fun _ => (Eigen.length_values_ofSymmetric hess).trans hrows) hinv
    constructor
    · cases hg : p.gradient theta b₁ with
      | error e b₂ => exact Exact.zero_le_inf
      | ok g b₂ =>
        obtain ⟨hlen, hfinite⟩ := p.returns_gradient _ _ _ hg
        obtain ⟨g, rfl⟩ := exists_reals hlen hfinite
        change 0 ≤ distanceToMinimum inv.inverse (reals g)
        rw [(hV.distance g).1, Exact.zero_eq]
        exact (hV.distance g).2
    · have hcarried := hV.carried hjacobian hle hpos
      rwa [← hup] at hcarried

/-- Neither is the distance of a minimum negative, nor has its covariance a negative direction. -/
structure FunctionMinimum.IsSound (n : ℕ) (m : FunctionMinimum Exact) : Prop where
  edm : 0 ≤ m.edm
  covariance : ∀ c, m.state.covariance = some c →
    ∃ C : Matrix (Fin n) (Fin n) ℝ, c.IsSemidefinite C

/-- A minimum with the distance and the covariance of a curvature; without one it has no covariance,
and a distance from before. -/
theorem FunctionMinimum.isSound_of_curvature {m : FunctionMinimum Exact}
    {c : Option (Curvature Exact)} {before : Exact} (hc : ∀ v, c = some v → v.IsSound n)
    (hbefore : 0 ≤ before) (hedm : m.edm = c.elim before (·.edm))
    (hcovariance : m.state.covariance = c.map (·.external)) : m.IsSound n := by
  cases c with
  | none => exact ⟨hedm ▸ hbefore, fun v hv => nomatch hcovariance.symm.trans hv⟩
  | some v =>
    have hsound := hc v rfl
    refine ⟨hedm ▸ hsound.edm, fun w hw => ?_⟩
    obtain rfl : v.external = w := Option.some.inj (hcovariance.symm.trans hw)
    exact hsound.external

section Engine

variable {σ : Type} {cost : Cost Exact} {state : ParameterState Exact}
  {m m' : FunctionMinimum Exact} {b b' : Bench σ Exact} {J : Fin n → ℝ} {up : ℝ}

theorem isSound_of_fit {choose : SolverOptions Exact → Solvers Exact}
    {solver : SolverOptions Exact} {o : EngineOptions Exact} {fval : Exact} {theta : List Exact}
    (hup : b.up = real up) (hpos : 0 < up) (hfree : 0 < state.nFree)
    (h : quasiNewtonFit choose solver cost state o b = .ok m b')
    (hmemory : (afterMinimization choose solver cost state o b (none : Best Exact)).memory =
      some (fval, theta))
    (hjacobian : (ParameterMap.ofState state).jacobian theta = reals J) : m.IsSound n := by
  obtain ⟨theta', c, b₁, b₂, hphase, hmemory', hcurvature, hstate, -, hedm⟩ := parts_of_fit hfree h
  rw [afterMinimization, hphase, endState_ok, hmemory'] at hmemory
  obtain ⟨-, rfl⟩ := Prod.mk.inj (Option.some.inj hmemory)
  have hup₁ : b₁.up = real up := (up_of_minimizationPhase hphase).trans hup
  refine FunctionMinimum.isSound_of_curvature (fun v hv => ?_) Exact.zero_le_inf hedm ?_
  · subst hv
    exact Problem.isSound_curvature hup₁ hpos hjacobian hcurvature
  · rw [hstate, ParameterState.covariance_movedTo]

theorem isSound_of_refineMinimum {callLimit : Option ℕ} (hup : b.up = real up) (hpos : 0 < up)
    (hedm : 0 ≤ m.edm) (h : refineMinimum cost m callLimit b = .ok m' b')
    (hjacobian : (ParameterMap.ofState m.state).jacobian
      ((ParameterMap.ofState m.state).toInternal m.state) = reals J) : m'.IsSound n := by
  unfold refineMinimum at h
  rw [get_bind_apply] at h
  obtain ⟨⟨state, c⟩, b₁, hrefined, h⟩ := bind_eq_ok.mp h
  obtain ⟨b₂, b₃, hup₂, hcurvature, hstate⟩ := exists_curvature_of_refineState hrefined
  cases h
  refine FunctionMinimum.isSound_of_curvature (c := c) (fun v hv => ?_) hedm rfl ?_
  · subst hv
    exact Problem.isSound_curvature (hup₂.trans hup) hpos hjacobian hcurvature
  · exact (congrArg ParameterState.covariance hstate).trans
      (ParameterState.covariance_withCurvature _ _ _)

end Engine

/-- **Forced inverses are covariances.** In exact arithmetic, whatever real eigenvalues and vectors
a decomposition of a curvature returns, an inverse is symmetric and semidefinite. It is marked as
forced if an eigenvalue is at or below a fraction of the largest one, and else as positive definite.
So no gradient has a negative distance to the minimum, and what is carried over is semidefinite, for
any derivatives and any positive errordef. This holds of the curvatures of the engine, and of the
minima of its fits and those that it refines. -/
theorem forced_inverses_semidefinite :
    (∀ {n : ℕ} {decompose : DenseMatrix Exact → Eigen Exact} {h : DenseMatrix Exact}
        {values : Fin n → ℝ} {vectors : Matrix (Fin n) (Fin n) ℝ} {inv : Inversion Exact},
      h.nrows = n → decompose h = ⟨reals values, .ofMatrix vectors⟩ →
      invertCurvatureWith decompose h = some inv →
        ∃ V : Matrix (Fin n) (Fin n) ℝ, inv.inverse.IsSemidefinite V ∧
          inv.posdef = !inv.madePosdef ∧
          (inv.madePosdef = true ↔
            ∃ top, IsGreatest (Set.range values) top ∧ ∃ k, values k ≤ 1e-3 * top) ∧
          (∀ g : Fin n → ℝ, distanceToMinimum inv.inverse (reals g) =
            real (1 / 2 * (g ⬝ᵥ V *ᵥ g)) ∧ 0 ≤ 1 / 2 * (g ⬝ᵥ V *ᵥ g)) ∧
          ∀ {map : ParameterMap Exact} {theta : List Exact} {J : Fin n → ℝ} {up : ℝ},
            map.jacobian theta = reals J → 0 < up → ∃ C : Matrix (Fin n) (Fin n) ℝ,
              (map.carriedCovariance theta (inv.inverse.map (2 * real up * ·))).IsSemidefinite C) ∧
    (∀ {n : ℕ} {μ : Type} [Memory μ Exact] {p : Problem Exact} {theta : List Exact}
        {useGradient : Bool} {b b' : Bench μ Exact} {c : Curvature Exact} {J : Fin n → ℝ} {up : ℝ},
      b.up = real up → 0 < up → p.map.jacobian theta = reals J →
      p.curvature theta useGradient b = .ok (some c) b' → c.IsSound n) ∧
    (∀ {n : ℕ} {σ : Type} {choose : SolverOptions Exact → Solvers Exact}
        {solver : SolverOptions Exact} {cost : Cost Exact} {state : ParameterState Exact}
        {o : EngineOptions Exact} {m : FunctionMinimum Exact} {b b' : Bench σ Exact}
        {J : Fin n → ℝ} {up : ℝ} {fval : Exact} {theta : List Exact},
      b.up = real up → 0 < up → 0 < state.nFree →
      quasiNewtonFit choose solver cost state o b = .ok m b' →
      (afterMinimization choose solver cost state o b (none : Best Exact)).memory =
        some (fval, theta) →
      (ParameterMap.ofState state).jacobian theta = reals J → m.IsSound n) ∧
    ∀ {n : ℕ} {σ : Type} {cost : Cost Exact} {m m' : FunctionMinimum Exact}
        {callLimit : Option ℕ} {b b' : Bench σ Exact} {J : Fin n → ℝ} {up : ℝ},
      b.up = real up → 0 < up → 0 ≤ m.edm → refineMinimum cost m callLimit b = .ok m' b' →
      (ParameterMap.ofState m.state).jacobian
        ((ParameterMap.ofState m.state).toInternal m.state) = reals J → m'.IsSound n := by
  refine ⟨?_, Problem.isSound_curvature, isSound_of_fit, isSound_of_refineMinimum⟩
  intro n decompose h values vectors inv hrows hreturns hinv
  have hlen : (decompose h).values.length = n := by
    rw [hreturns]
    exact length_reals values
  obtain ⟨V, hV⟩ := exists_semidefinite_of_invertCurvature hrows (fun _ => hlen) hinv
  obtain ⟨hposdef, hmade⟩ := marks_of_invertCurvature hrows hreturns hinv
  exact ⟨V, hV, hposdef, hmade, hV.distance, fun hjacobian hup => hV.carried hjacobian le_rfl hup⟩

/-- A cost that bends upwards along one axis and downwards along the other. -/
noncomputable def saddleCost : Cost Exact :=
  { Cost.ofFunction fun args => match args with
      | [x, y] => .ok (x * x - y * y)
      | _ => .error (.lengthMismatch 2 args.length) with
    grad := fun args => match args with
      | [x, y] => .ok [2 * x, -(2 * y)]
      | _ => .error (.lengthMismatch 2 args.length)
    hasGrad := true }

/-- The cost with two parameters that have no limits. -/
noncomputable def saddle : Problem Exact := ⟨saddleCost, .ofState minimumOfTwo.state⟩

/-- Options with which curvatures are taken from values. -/
noncomputable def carefulOptions : EngineOptions Exact :=
  { EngineOptions.default with strategy := .careful }

section Saddle

variable {μ : Type} [Memory μ Exact] (b : Bench μ Exact)

theorem valueAt_saddle (x : Fin 2 → ℝ) :
    saddle.valueAt (reals x) = .ok (real (x 0 * x 0 - x 1 * x 1)) := by
  refine Problem.valueAt_eq_ok.mpr ⟨?_, rfl⟩
  change Except.ok (real (x 0) * real (x 0) - real (x 1) * real (x 1)) = _
  rw [Exact.real_mul_real, Exact.real_mul_real, Exact.real_sub_real]

theorem gradient_saddle : saddle.gradient (reals ![0, 0]) b =
    .ok (reals ![0, 0]) { b with ngrad := b.ngrad + 1 } := by
  have hgrad : saddle.cost.grad (saddle.map.toExternal (reals ![0, 0])) =
      .ok [2 * real 0, -(2 * real 0)] := rfl
  have hcarried : List.zipWith (fun i d => [2 * real 0, -(2 * real 0)][i]?.getD 0 * d)
      saddle.map.free (saddle.map.jacobian (reals ![0, 0])) = reals ![0, 0] := by
    change [2 * real 0 * 1, -(2 * real 0) * 1] = _
    simp [reals, Exact.one_eq, Exact.two_eq]
  have hgiven := Problem.givenGradient_of_size (b := b) hgrad rfl
  rw [hcarried] at hgiven
  exact Problem.gradient_of_given rfl hgiven (checkGradient_eq_ok.mpr ⟨rfl, isFinite_reals _⟩)

open MvPolynomial in
theorem hessian_saddle : ∃ b', saddle.hessian (reals ![0, 0]) false b =
    .ok (.ok (.ofMatrix (Matrix.diagonal ![2, -2]))) b' := by
  let p : MvPolynomial (Fin 2) ℝ := X 0 * X 0 - X 1 * X 1
  have hdegree : p.totalDegree ≤ 2 := by
    refine (totalDegree_sub _ _).trans (max_le ?_ ?_) <;>
      exact (totalDegree_mul _ _).trans (by rw [totalDegree_X])
  have hvalue (x : Fin 2 → ℝ) : Answers (real (eval x p))
      (saddle.value (reals x) : Run μ Exact Exact) := by
    intro b
    have hat : saddle.valueAt (reals x) = .ok (real (eval x p)) := by
      simp [valueAt_saddle, p]
    exact ⟨_, Problem.value_eq_ok hat b⟩
  have hderivatives : secondDerivatives p ![0, 0] = Matrix.diagonal ![2, -2] := by
    ext i j
    fin_cases i <;> fin_cases j <;> norm_num [secondDerivatives, p]
  obtain ⟨b', hb'⟩ := hessianOfValues_quadratic (θ := ![0, 0]) hdegree hvalue b
  rw [hderivatives] at hb'
  exact ⟨b', attempt_of_ok hb'⟩

/-- The inverse at a saddle is forced. -/
theorem exists_inverted_saddle :
    ∃ inv, invertCurvature (.ofMatrix (diagonal ![2, -2])) = some inv ∧ inv.madePosdef = true := by
  classical
  have htop : IsGreatest (Set.range (Spectral.ofDiagonal ![(2 : ℝ), -2]).values) 2 := by
    refine ⟨⟨0, rfl⟩, ?_⟩
    rintro _ ⟨k, rfl⟩
    revert k
    norm_num [Spectral.ofDiagonal, Fin.forall_fin_two]
  have hflat : HasFlatDirection (diagonal ![(2 : ℝ), -2]) :=
    hasFlatDirection_diagonal.mpr ⟨1, 0, by norm_num⟩
  have hinv := (Spectral.ofDiagonal ![(2 : ℝ), -2]).ofEigen?_eq_some htop (by norm_num)
  rw [← invertCurvature_diagonal two_ne_zero, decide_eq_true hflat] at hinv
  exact ⟨_, hinv, rfl⟩

theorem exists_curvature_saddle : ∃ c b', saddle.curvature (reals ![0, 0]) false b =
    .ok (some c) b' ∧ c.madePosdef = true := by
  obtain ⟨inv, hinv, hmade⟩ := exists_inverted_saddle
  obtain ⟨b₁, hhessian⟩ := hessian_saddle b
  unfold Problem.curvature
  rw [bind_of_ok hhessian]
  dsimp only
  rw [hinv]
  dsimp only
  rw [bind_of_ok (attempt_apply _ _), get_bind_apply]
  exact ⟨_, _, rfl, hmade⟩

/-- The gradient tolerance is not negative. -/
theorem tolerance_carefulOptions : real 0 ≤ (SolverOptions.standard.adaptedTo
    (edmGoal carefulOptions.tolerance (real 1)) carefulOptions.precision).gradientTolerance := by
  have hfloor : Scalar.sqrt (Scalar.epsilon : Exact) = real (√(1 / 4503599627370496)) := by
    rw [Scalar.epsilon, Exact.one_eq, Exact.ofNat_eq, Exact.real_div_real (by norm_num)]
    exact Exact.sqrt_real (by norm_num)
  have hgoal : edmGoal (0.1 : Exact) (real 1) = real (0.002 * 0.1 * 1) := by
    rw [edmGoal, Exact.ofScientific_eq, Exact.ofScientific_eq, Exact.real_mul_real,
      Exact.real_mul_real]
    norm_num
  change real 0 ≤ Scalar.minNum (Scalar.maxNum (1e-3 * Scalar.sqrt (edmGoal 0.1 (real 1)))
    (Scalar.sqrt Scalar.epsilon)) (Scalar.maxNum 1e-5 (Scalar.sqrt Scalar.epsilon))
  rw [hfloor, hgoal, Exact.sqrt_real (by norm_num), Exact.ofScientific_eq, Exact.ofScientific_eq,
    Exact.real_mul_real, Exact.maxNum_real, Exact.maxNum_real]
  have hroot (x : ℝ) : real 0 ≤ real (max x (√(1 / 4503599627370496))) :=
    Exact.real_le_real.mpr (le_max_of_le_right (Real.sqrt_nonneg _))
  exact Exact.le_minNum (hroot _) (hroot _)

/-- A fit that starts at the saddle stays there, since the gradient is zero. -/
theorem minimizationPhase_saddle : ∃ b₁ : Bench (Best Exact) Exact,
    minimizationPhase SolverOptions.solvers .standard saddleCost minimumOfTwo.state carefulOptions
      (real 1) (.fresh (real 1) none) = .ok () b₁ ∧
      b₁.memory = some (real 0, reals ![0, 0]) := by
  have hstart : saddle.map.start minimumOfTwo.state = reals ![0, 0] := rfl
  have hvalue : saddle.valueAt (reals ![0, 0]) = .ok (real 0) := by
    simp [valueAt_saddle]
  have hnorm : Scalar.norm (reals ![0, 0]) = real 0 := by
    rw [Scalar.norm, dot_reals]
    simp
  change ∃ b₁, Problem.minimize saddle _ _ (saddle.map.start minimumOfTwo.state) _ _ _ = _ ∧ _
  rw [hstart]
  unfold Problem.minimize
  rw [get_bind_apply, bind_of_ok (Problem.value_eq_ok hvalue _), bind_of_ok (gradient_saddle _),
    hnorm, if_pos tolerance_carefulOptions]
  exact ⟨_, rfl, rfl⟩

end Saddle

/-- The inverse at a saddle is forced, and sound is what the engine makes of it: the curvature, a
fit that starts there, and the minimum that is refined there. -/
theorem forced_inverses_semidefinite_saddle :
    (∃ inv, invertCurvature (.ofMatrix (diagonal ![2, -2])) = some inv ∧ inv.madePosdef = true ∧
      ∃ V : Matrix (Fin 2) (Fin 2) ℝ, inv.inverse.IsSemidefinite V) ∧
    (∃ c b', saddle.curvature (reals ![0, 0]) false (.fresh (real 1) (none : Best Exact)) =
      .ok (some c) b' ∧ c.madePosdef = true ∧ c.IsSound 2) ∧
    (∃ m b', quasiNewtonFit SolverOptions.solvers .standard saddleCost minimumOfTwo.state
      carefulOptions (.fresh (real 1) ()) = .ok m b' ∧ m.hasMadePosdefCovar = true ∧
        m.IsSound 2) ∧
    ∃ m b', refineMinimum saddleCost minimumOfTwo none (.fresh (real 1) ()) = .ok m b' ∧
      m.hasMadePosdefCovar = true ∧ m.IsSound 2 := by
  obtain ⟨inv, hinv, hmade⟩ := exists_inverted_saddle
  obtain ⟨V, hV, -⟩ := forced_inverses_semidefinite.1 DenseMatrix.nrows_ofMatrix
    (Eigen.ofSymmetric_diagonal ![(2 : ℝ), -2]) hinv
  have hjacobian : saddle.map.jacobian (reals ![0, 0]) = reals ![1, 1] := by
    change [(1 : Exact), 1] = _
    simp [reals, Exact.one_eq]
  have hfree : 0 < minimumOfTwo.state.nFree := Nat.two_pos
  refine ⟨⟨inv, hinv, hmade, V, hV⟩, ?_, ?_, ?_⟩
  · obtain ⟨c, b', hc, hforced⟩ := exists_curvature_saddle (.fresh (real 1) (none : Best Exact))
    exact ⟨c, b', hc, hforced, forced_inverses_semidefinite.2.1 rfl one_pos hjacobian hc⟩
  · obtain ⟨b₁, hphase, hmemory⟩ := minimizationPhase_saddle
    obtain ⟨c, b₂, hc, hforced⟩ := exists_curvature_saddle b₁
    obtain ⟨m, b', hm, hmarked⟩ := exists_fit_of_parts (b := .fresh (real 1) ()) hfree hphase
      hmemory hc
    have hafter : (afterMinimization SolverOptions.solvers .standard saddleCost minimumOfTwo.state
        carefulOptions (.fresh (real 1) ()) (none : Best Exact)).memory =
          some (real 0, reals ![0, 0]) :=
      (congrArg (fun r => (endState r).memory) hphase).trans hmemory
    exact ⟨m, b', hm, hmarked.trans hforced,
      forced_inverses_semidefinite.2.2.1 rfl one_pos hfree hm hafter hjacobian⟩
  · have hpoint : saddle.map.toInternal minimumOfTwo.state = reals ![0, 0] := rfl
    have hedm : 0 ≤ minimumOfTwo.edm := by
      rw [Exact.zero_eq]
      exact Exact.real_le_real.mpr le_rfl
    obtain ⟨c, b₁, hc, hforced⟩ := exists_curvature_saddle (.fresh (real 1) (none : Best Exact))
    obtain ⟨m, b', hm, hmarked⟩ := exists_refined_of_curvature (b := .fresh (real 1) ()) none hc
    exact ⟨m, b', hm, hmarked.trans hforced, forced_inverses_semidefinite.2.2.2 rfl one_pos hedm
      hm (hpoint ▸ hjacobian)⟩

end FitSession
