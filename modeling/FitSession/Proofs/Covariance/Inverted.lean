import FitSession.Proofs.Covariance.Errordef
import FitSession.Proofs.Dense.Spectral

/-!
# Curvatures that are inverted

The inverse of a curvature is built from its eigenvalues, of which those at or below a fraction of
the largest one are lifted to it. In exact arithmetic, and with exact eigenvalues, nothing else
happens to it.

* `Inversion.IsTakenFor`, `isTakenFor_of_invertCurvature`: minima take the flag and the covariance
  of the inversion of their second derivatives;
* `HasFlatDirection`: an eigenvalue that is small beside another one;
* `Spectral.ofEigen?_eq_none`, `Spectral.ofEigen?_eq_some`: what is made of a decomposition;
* `steep_curvature_inverted`: **the inverse of a curvature**;
* `curvature_not_inverted`: positive definite curvatures that are not inverted.
-/

namespace FitSession

/-! ## What the engine takes -/

section Engine

variable {σ μ α : Type} [Scalar α] [Memory μ α]

/-- The minimum has the flag of an inversion and, for an errordef, the covariance that is carried
over from an internal point. -/
structure FunctionMinimum.IsInvertedBy (m : FunctionMinimum α) (inv : Inversion α)
    (map : ParameterMap α) (theta : List α) (up : α) : Prop where
  made : m.hasMadePosdefCovar = inv.madePosdef
  covariance : m.state.covariance =
    some (map.carriedCovariance theta (inv.inverse.map (2 * up * ·)))

/-- Wherever the second derivatives are these, the minimum of a fit and a minimum that is refined
take the inversion. -/
structure Inversion.IsTakenFor (inv : Inversion α) (h : DenseMatrix α) : Prop where
  fit : ∀ {σ : Type} {choose : SolverOptions α → Solvers α} {solver : SolverOptions α}
    {cost : Cost α} {state : ParameterState α} {o : EngineOptions α} {b b' : Bench σ α}
    {m : FunctionMinimum α} {fval : α} {theta : List α}, 0 < state.nFree →
      quasiNewtonFit choose solver cost state o b = .ok m b' →
      (afterMinimization choose solver cost state o b (none : Best α)).memory =
        some (fval, theta) →
      Problem.hessianAt ⟨cost, .ofState state⟩ theta (cost.hasGrad && o.strategy != .careful) =
        .ok (.ok h) →
      m.IsInvertedBy inv (.ofState state) theta b.up
  refinement : ∀ {σ : Type} {cost : Cost α} {m m' : FunctionMinimum α} {callLimit : Option Nat}
    {b b' : Bench σ α}, refineMinimum cost m callLimit b = .ok m' b' →
      Problem.hessianAt ⟨cost, .ofState m.state⟩ ((ParameterMap.ofState m.state).toInternal m.state)
        false = .ok (.ok h) →
      m'.IsInvertedBy inv (.ofState m.state) ((ParameterMap.ofState m.state).toInternal m.state)
        b.up

variable {p : Problem α} {theta : List α} {useGradient : Bool} {h : DenseMatrix α}
  {inv : Inversion α}

theorem exists_curvature_of_inverted {b b' : Bench μ α} {c : Option (Curvature α)}
    (hcurvature : p.curvature theta useGradient b = .ok c b')
    (hat : p.hessianAt theta useGradient = .ok (.ok h)) (hinv : invertCurvature h = some inv) :
    ∃ edm, c = some ⟨p.map.carriedCovariance theta (inv.inverse.map (2 * b.up * ·)), edm,
      inv.madePosdef⟩ := by
  obtain ⟨r, hr, hc⟩ := Problem.exists_hessianAt_of_curvature hcurvature
  obtain rfl : r = .ok h := Except.ok.inj (hr.symm.trans hat)
  change c.map _ = (invertCurvature h).map _ at hc
  rw [hinv, Option.map_some] at hc
  obtain ⟨⟨external, edm, made⟩, rfl, hparts⟩ := Option.map_eq_some_iff.mp hc
  obtain ⟨rfl, rfl⟩ := Prod.mk.inj hparts
  exact ⟨edm, rfl⟩

theorem isTakenFor_of_invertCurvature (hinv : invertCurvature h = some inv) :
    inv.IsTakenFor h where
  fit {_ choose solver cost state o b _ m fval theta} hfree hfit hmemory hat := by
    obtain ⟨theta', c, b₁, b₂, hphase, hmemory', hcurvature, hstate, hmade, -⟩ :=
      parts_of_fit hfree hfit
    rw [afterMinimization, hphase, endState_ok, hmemory'] at hmemory
    obtain ⟨-, rfl⟩ := Prod.mk.inj (Option.some.inj hmemory)
    obtain ⟨edm, rfl⟩ := exists_curvature_of_inverted hcurvature hat hinv
    rw [up_of_minimizationPhase hphase] at hstate
    exact ⟨hmade, congrArg ParameterState.covariance hstate⟩
  refinement {_ cost m m' callLimit b b'} hrefined hat := by
    unfold refineMinimum at hrefined
    rw [get_bind_apply] at hrefined
    obtain ⟨⟨state, c⟩, b₁, hstate, hrefined⟩ := bind_eq_ok.mp hrefined
    obtain ⟨b₂, b₃, hup, hcurvature, hmoved⟩ := exists_curvature_of_refineState hstate
    obtain ⟨edm, hc⟩ := exists_curvature_of_inverted hcurvature hat hinv
    dsimp only at hc hmoved
    subst hc
    cases hrefined
    rw [hup] at hmoved
    exact ⟨rfl, congrArg ParameterState.covariance hmoved⟩

end Engine

/-! ## Exact inversion -/

open Matrix

variable {n : ℕ} {H : Matrix (Fin n) (Fin n) ℝ}

/-- Some eigenvalue is at or below a fraction of another one. -/
def HasFlatDirection (H : Matrix (Fin n) (Fin n) ℝ) : Prop :=
  ∃ x ∈ spectrum ℝ H, ∃ y ∈ spectrum ℝ H, x ≤ 1e-3 * y

theorem flatFloor_eq : (flatFloor : Exact) = .real 1e-12 := by
  rw [flatFloor, Exact.ofScientific_eq]
  norm_num

theorem liftFraction_eq : (liftFraction : Exact) = .real 1e-3 := by
  rw [liftFraction, Exact.ofScientific_eq]
  norm_num

theorem lift_real (floor x : ℝ) :
    Inversion.lift (Exact.real floor) (.real x) = .real (max x floor) := by
  unfold Inversion.lift
  simp only [Exact.real_lt_real]
  split_ifs with h
  · rw [max_eq_left h.le]
  · rw [max_eq_right (not_lt.mp h)]

theorem map_zipIdx_ofFn {β γ : Type} (g : Fin n → β) (f : β × ℕ → γ) :
    (List.ofFn g).zipIdx.map f = List.ofFn fun k => f (g k, k) := by
  refine List.ext_getElem (by simp) fun k hk _ => ?_
  simp

/-- What is composed of real vectors and of numbers by which reals are divided as they are
multiplied by weights. -/
theorem compose_ofFn {l : Fin n → Exact} {q : DenseMatrix Exact} {w : Fin n → ℝ}
    {Q : Matrix (Fin n) (Fin n) ℝ} (hq : ∀ i k : Fin n, q.get i k = .real (Q i k))
    (hw : ∀ k x, Exact.real x / l k = .real (x * w k)) :
    Inversion.compose (List.ofFn l) q = .ofMatrix (Q * diagonal w * Qᵀ) := by
  unfold Inversion.compose
  rw [List.length_ofFn]
  refine DenseMatrix.ofFn_eq_ofMatrix fun i j => ?_
  have hterm (k : Fin n) : q.get i k * q.get j k / l k = .real (Q i k * w k * Q j k) := by
    rw [hq, hq, Exact.real_mul_real, hw, mul_right_comm]
  have hentry : (Q * diagonal w * Qᵀ) i j = ∑ k, Q i k * w k * Q j k := by
    simp [Matrix.mul_apply, diagonal_apply]
  rw [map_zipIdx_ofFn, hentry, ← List.sum_ofFn, ← Exact.sum_map_real, List.map_ofFn]
  simp only [hterm]
  rfl

theorem Eigen.largest_reals {v : Fin n → ℝ} {q : DenseMatrix Exact} {top : ℝ}
    (htop : IsGreatest (Set.range v) top) : Eigen.largest ⟨reals v, q⟩ = .real top := by
  have hset : {x | x ∈ List.ofFn v} = Set.range v := by
    ext x
    simp [List.mem_ofFn]
  rw [Eigen.largest, reals_eq_map]
  exact Exact.foldl_maxNum_eq (hset ▸ htop)

namespace Spectral

variable (d : Spectral H) {top : ℝ}

/-- What is composed of other eigenvalues is the inverse of the matrix that has them. -/
theorem compose_eq {f : ℝ → ℝ} (h : ∀ k, f (d.values k) ≠ 0) :
    Inversion.compose (List.ofFn fun k => .real (f (d.values k))) d.toEigen.vectors =
      .ofMatrix (d.mapped fun x => (f x)⁻¹) :=
  compose_ofFn (fun i k => DenseMatrix.get_ofMatrix i k) fun k x => by
    rw [Exact.real_div_real (h k), div_eq_mul_inv]

variable (htop : IsGreatest (Set.range d.values) top)
include htop

theorem largest_toEigen : d.toEigen.largest = .real top := Eigen.largest_reals htop

theorem hasFlatDirection_iff : HasFlatDirection H ↔ ∃ k, d.values k ≤ 1e-3 * top := by
  rw [HasFlatDirection, d.spectrum_eq]
  constructor
  · rintro ⟨_, ⟨k, rfl⟩, y, hy, hle⟩
    have hbound := htop.2 hy
    exact ⟨k, by linarith⟩
  · rintro ⟨k, hk⟩
    exact ⟨_, ⟨k, rfl⟩, top, htop.1, hk⟩

/-- Without an eigenvalue above the least usable one, there is no inverse. -/
theorem ofEigen?_eq_none (hflat : top ≤ 1e-12) : Inversion.ofEigen? d.toEigen = none := by
  unfold Inversion.ofEigen?
  rw [d.largest_toEigen htop, flatFloor_eq]
  exact if_pos (by simp [hflat])

open Classical in
/-- The eigenvalues at or below the fraction of the largest one are lifted to it. -/
theorem ofEigen?_eq_some (hsteep : 1e-12 < top) : Inversion.ofEigen? d.toEigen =
    some ⟨.ofMatrix (d.mapped fun x => (max x (1e-3 * top))⁻¹), !decide (HasFlatDirection H),
      decide (HasFlatDirection H)⟩ := by
  have hfloor : (liftFraction : Exact) * .real top = .real (1e-3 * top) := by
    rw [liftFraction_eq, Exact.real_mul_real]
  have hlift : d.toEigen.values.map (Inversion.lift (.real (1e-3 * top))) =
      List.ofFn fun k => .real (max (d.values k) (1e-3 * top)) := by
    simp [toEigen, List.map_ofFn, Function.comp_def, lift_real]
  have hcompose : Inversion.compose (List.ofFn fun k => .real (max (d.values k) (1e-3 * top)))
      d.toEigen.vectors = .ofMatrix (d.mapped fun x => (max x (1e-3 * top))⁻¹) := by
    refine d.compose_eq (f := fun x => max x (1e-3 * top)) fun k => ?_
    have hpos : 0 < 1e-3 * top := by linarith
    exact (lt_max_of_lt_right hpos).ne'
  have hmade : (d.toEigen.values.any fun x => !decide (Exact.real (1e-3 * top) < x)) =
      decide (HasFlatDirection H) := by
    rw [Bool.eq_iff_iff, decide_eq_true_iff, d.hasFlatDirection_iff htop]
    simp [toEigen, List.any_eq_true, List.mem_ofFn]
  unfold Inversion.ofEigen?
  rw [d.largest_toEigen htop, flatFloor_eq]
  dsimp only
  rw [if_neg (by simp [hsteep]), hfloor, hlift, hmade, hcompose,
    if_pos DenseMatrix.isFinite_ofMatrix]

/-- Unless an eigenvalue is lifted, the matrix is positive definite and this is its inverse. -/
theorem mapped_lifted_mul (hsteep : 1e-12 < top) (hsmall : ¬HasFlatDirection H) :
    H.PosDef ∧ (d.mapped fun x => (max x (1e-3 * top))⁻¹) * H = 1 := by
  have habove (k : Fin n) : 1e-3 * top < d.values k :=
    not_le.mp fun hle => hsmall ((d.hasFlatDirection_iff htop).mpr ⟨k, hle⟩)
  have hpos (k : Fin n) : 0 < d.values k := by
    have := habove k
    linarith
  refine ⟨d.posDef hpos, ?_⟩
  calc (d.mapped fun x => (max x (1e-3 * top))⁻¹) * H
      = (d.mapped fun x => (max x (1e-3 * top))⁻¹) * d.mapped fun x => x :=
        congrArg _ d.mapped_id.symm
    _ = d.mapped fun x => (max x (1e-3 * top))⁻¹ * x := d.mapped_mul _ _
    _ = 1 := by
        refine d.mapped_eq_one fun k => ?_
        rw [max_eq_left (habove k).le, inv_mul_cancel₀ (hpos k).ne']

end Spectral

/-- **The inverse of a curvature**, in exact arithmetic and with an exact decomposition, if some
eigenvalue is above the least usable one. Unless an eigenvalue is at or below a fraction of another
one, the curvature is positive definite, and so is the inverse, which is that of the matrix. If
there is one, the inverse is marked as made positive definite: it divides each eigenvector by its
eigenvalue, or by that fraction of the largest one if this is more. Every minimum with such a
curvature takes its mark and its covariance from there. -/
theorem steep_curvature_inverted {decompose : DenseMatrix Exact → Eigen Exact} (d : Spectral H)
    (hexact : decompose (.ofMatrix H) = d.toEigen)
    (hsteep : n ≠ 0 → ∃ x ∈ spectrum ℝ H, 1e-12 < x) :
    ∃ V made, invertCurvatureWith decompose (.ofMatrix H) = some ⟨.ofMatrix V, !made, made⟩ ∧
      (made = true ↔ HasFlatDirection H) ∧ (made = false → H.PosDef ∧ V * H = 1) ∧
      (∀ top, IsGreatest (spectrum ℝ H) top → ∀ x u, H *ᵥ u = x • u →
        V *ᵥ u = (max x (1e-3 * top))⁻¹ • u) ∧
      (Eigen.ofSymmetric (.ofMatrix H) = decompose (.ofMatrix H) →
        Inversion.IsTakenFor ⟨.ofMatrix V, !made, made⟩ (.ofMatrix H)) := by
  classical
  have htaken {inv : Inversion Exact}
      (hinv : invertCurvatureWith decompose (.ofMatrix H) = some inv)
      (hsame : Eigen.ofSymmetric (.ofMatrix H) = decompose (.ofMatrix H)) :
      inv.IsTakenFor (.ofMatrix H) := by
    refine isTakenFor_of_invertCurvature ?_
    rwa [invertCurvature, invertCurvatureWith, hsame]
  by_cases hn : n = 0
  · subst hn
    have hempty : spectrum ℝ H = ∅ := by rw [d.spectrum_eq, Set.range_eq_empty]
    refine ⟨0, false, rfl, ?_, fun _ => ⟨d.posDef fun k => k.elim0, Subsingleton.elim _ _⟩,
      fun top htop => ?_, htaken rfl⟩
    · simp [HasFlatDirection]
    · exact absurd htop.1 (hempty ▸ Set.notMem_empty top)
  · obtain ⟨top, htop⟩ := exists_isGreatest_range hn d.values
    have hlarge : 1e-12 < top := by
      obtain ⟨x, hx, hlt⟩ := hsteep hn
      exact hlt.trans_le (htop.2 (d.spectrum_eq.subset hx))
    have hinv : invertCurvatureWith decompose (.ofMatrix H) = Inversion.ofEigen? d.toEigen := by
      rw [invertCurvatureWith, if_neg (by simpa using hn), hexact]
    rw [d.ofEigen?_eq_some htop hlarge] at hinv
    refine ⟨_, _, hinv, decide_eq_true_iff, fun hmade => ?_, fun top' htop' x u hu => ?_,
      htaken hinv⟩
    · exact d.mapped_lifted_mul htop hlarge (of_decide_eq_false hmade)
    · obtain rfl : top' = top := IsGreatest.unique (d.spectrum_eq ▸ htop') htop
      exact d.mapped_mulVec _ hu

theorem hasFlatDirection_diagonal {v : Fin n → ℝ} :
    HasFlatDirection (diagonal v) ↔ ∃ i j, v i ≤ 1e-3 * v j := by
  simp [HasFlatDirection, spectrum_diagonal]

theorem invertCurvature_diagonal (hn : n ≠ 0) (v : Fin n → ℝ) :
    invertCurvature (.ofMatrix (diagonal v)) =
      Inversion.ofEigen? (Spectral.ofDiagonal v).toEigen := by
  rw [invertCurvature, invertCurvatureWith, if_neg (by simpa using hn), Eigen.ofSymmetric_diagonal]

/-- Two directions of similar curvature. -/
theorem steep_curvature_inverted_diagonal :
    ∃ V, invertCurvature (.ofMatrix (diagonal ![1 / 2, 2])) = some ⟨.ofMatrix V, true, false⟩ ∧
      V * diagonal ![1 / 2, 2] = 1 := by
  have hsteep : 2 ≠ 0 → ∃ x ∈ spectrum ℝ (diagonal ![(1 / 2 : ℝ), 2]), 1e-12 < x := fun _ =>
    ⟨2, by rw [spectrum_diagonal]; exact ⟨1, rfl⟩, by norm_num⟩
  obtain ⟨V, made, hinv, hmade, hinverse, -⟩ := steep_curvature_inverted
    (Spectral.ofDiagonal ![1 / 2, 2]) (Eigen.ofSymmetric_diagonal _) hsteep
  have hnot : ¬HasFlatDirection (diagonal ![(1 / 2 : ℝ), 2]) := by
    rw [hasFlatDirection_diagonal]
    norm_num [Fin.exists_fin_two]
  obtain rfl : made = false := Bool.eq_false_iff.mpr (hmade.not.mpr hnot)
  exact ⟨V, hinv, (hinverse rfl).2⟩

/-- A positive definite curvature is not inverted exactly if one direction is much flatter than
another, and not at all if all of them are nearly flat. -/
theorem curvature_not_inverted :
    ((diagonal ![1, 1 / 2000] : Matrix _ _ ℝ).PosDef ∧
      Eigen.ofSymmetric (.ofMatrix (diagonal ![1, 1 / 2000])) =
        (Spectral.ofDiagonal ![1, 1 / 2000]).toEigen ∧
      ∃ V, invertCurvature (.ofMatrix (diagonal ![1, 1 / 2000])) = some ⟨.ofMatrix V, false, true⟩ ∧
        V * diagonal ![1, 1 / 2000] ≠ 1) ∧
      (diagonal ![1e-13] : Matrix _ _ ℝ).PosDef ∧
        Eigen.ofSymmetric (.ofMatrix (diagonal ![1e-13])) =
          (Spectral.ofDiagonal ![1e-13]).toEigen ∧
        invertCurvature (.ofMatrix (diagonal ![1e-13])) = none := by
  classical
  refine ⟨⟨posDef_diagonal_iff.mpr ?_, Eigen.ofSymmetric_diagonal _, ?_⟩,
    posDef_diagonal_iff.mpr ?_, Eigen.ofSymmetric_diagonal _, ?_⟩
  · simp [Fin.forall_fin_two]
  · have htop : IsGreatest (Set.range (Spectral.ofDiagonal ![(1 : ℝ), 1 / 2000]).values) 1 := by
      refine ⟨⟨0, rfl⟩, ?_⟩
      rintro _ ⟨k, rfl⟩
      revert k
      norm_num [Spectral.ofDiagonal, Fin.forall_fin_two]
    have hflat : HasFlatDirection (diagonal ![(1 : ℝ), 1 / 2000]) :=
      hasFlatDirection_diagonal.mpr ⟨1, 0, by norm_num⟩
    have hsome := (Spectral.ofDiagonal ![1, 1 / 2000]).ofEigen?_eq_some htop (by norm_num)
    rw [← invertCurvature_diagonal two_ne_zero, decide_eq_true hflat] at hsome
    refine ⟨_, hsome, fun hone => ?_⟩
    have hentry := congrFun (congrFun hone 1) 1
    norm_num [Spectral.mapped, Spectral.ofDiagonal] at hentry
  · norm_num
  · have htop : IsGreatest (Set.range (Spectral.ofDiagonal ![(1e-13 : ℝ)]).values) 1e-13 := by
      refine ⟨⟨0, rfl⟩, ?_⟩
      rintro _ ⟨k, rfl⟩
      exact le_of_eq (congrArg ![(1e-13 : ℝ)] (Subsingleton.elim k 0))
    rw [invertCurvature_diagonal one_ne_zero]
    exact (Spectral.ofDiagonal ![1e-13]).ofEigen?_eq_none htop (by norm_num)

end FitSession
