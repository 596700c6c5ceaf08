import FitSession.Coordinates.Transform
import FitSession.Proofs.Exact

/-!
# Transforms over the real numbers

In exact arithmetic the transform of a limit is a smooth map of all real numbers onto the limit, and
its inverse leads to the nearest point of the limit.

* `Limit.Shape`, `shape_ofLimit`: the transforms of limits, over any scalars;
* `toExternal_lower` and its like: transforms, inverses and slopes as functions of real numbers;
* `roundTrip_lower`, `roundTrip_upper`, `roundTrip_double`: there and back;
* `exists_start_lower` and its like: starts are where a transform is not flat;
* `BoundTransform.Follows`, `exists_follows`: **a slope is the derivative**;
* `BoundTransform.IsChartOf`, `isChartOf_ofLimit`: **a transform and its inverse go together**.
-/

namespace FitSession

open Exact (real)

/-! ## Limits -/

/-- The transforms of limits, by the sides that are bounded. -/
inductive Limit.Shape {α : Type} [Scalar α] (l : Limit α) : BoundTransform α → Prop
  | unbounded (hlo : ¬Scalar.isFinite l.lower) (hhi : ¬Scalar.isFinite l.upper) : l.Shape .unbounded
  | lower (hlo : Scalar.isFinite l.lower) (hhi : ¬Scalar.isFinite l.upper) :
      l.Shape (.lower l.lower)
  | upper (hlo : ¬Scalar.isFinite l.lower) (hhi : Scalar.isFinite l.upper) :
      l.Shape (.upper l.upper)
  | double (hlo : Scalar.isFinite l.lower) (hhi : Scalar.isFinite l.upper) :
      l.Shape (.double l.lower l.upper)

theorem Limit.shape_ofLimit {α : Type} [Scalar α] (l : Limit α) :
    l.Shape (BoundTransform.ofLimit l) := by
  unfold BoundTransform.ofLimit lowerBound upperBound hasLower hasUpper
  by_cases hlo : Scalar.isFinite l.lower = true <;> by_cases hhi : Scalar.isFinite l.upper = true
  · rw [if_pos hlo, if_pos hhi]
    exact .double hlo hhi
  · rw [if_pos hlo, if_neg hhi]
    exact .lower hlo hhi
  · rw [if_neg hlo, if_pos hhi]
    exact .upper hlo hhi
  · rw [if_neg hlo, if_neg hhi]
    exact .unbounded hlo hhi

/-- The real number is within the limit. -/
structure Limit.Allows (l : Limit Exact) (x : ℝ) : Prop where
  lower : l.lower ≤ real x
  upper : real x ≤ l.upper

namespace BoundTransform

/-! ## One bound -/

/-- The root that both transforms with one bound take. -/
theorem sqrt_square_add_one (x : ℝ) :
    Scalar.sqrt (real x * real x + 1) = real (√(x * x + 1)) := by
  have hnonneg : 0 ≤ x * x + 1 := by nlinarith [mul_self_nonneg x]
  rw [Exact.one_eq, Exact.real_mul_real, Exact.real_add_real, Exact.sqrt_real hnonneg]

theorem toExternal_lower (lo x : ℝ) :
    (lower (real lo)).toExternal (real x) = real (lo - 1 + √(x * x + 1)) := by
  rw [toExternal, sqrt_square_add_one, Exact.one_eq, Exact.real_sub_real, Exact.real_add_real]

theorem toExternal_upper (hi x : ℝ) :
    (upper (real hi)).toExternal (real x) = real (hi + 1 - √(x * x + 1)) := by
  rw [toExternal, sqrt_square_add_one, Exact.one_eq, Exact.real_add_real, Exact.real_sub_real]

theorem root_pos (x : ℝ) : 0 < √(x * x + 1) :=
  Real.sqrt_pos.mpr (by nlinarith [mul_self_nonneg x])

theorem slope_lower (lo : Exact) (x : ℝ) :
    (lower lo).slope (real x) = real (x / √(x * x + 1)) := by
  rw [slope, sqrt_square_add_one, Exact.real_div_real (root_pos x).ne']

theorem slope_upper (hi : Exact) (x : ℝ) :
    (upper hi).slope (real x) = real (-x / √(x * x + 1)) := by
  rw [slope, sqrt_square_add_one, Exact.neg_real, Exact.real_div_real (root_pos x).ne']

theorem hasDerivAt_root (x : ℝ) : HasDerivAt (fun y => √(y * y + 1)) (x / √(x * x + 1)) x := by
  have hsquare : HasDerivAt (fun y => y * y + 1) (1 * x + x * 1) x :=
    ((hasDerivAt_id x).mul (hasDerivAt_id x)).add_const 1
  refine (hsquare.sqrt (by nlinarith [mul_self_nonneg x])).congr_deriv ?_
  field_simp
  ring

/-- The internal coordinate of a distance from the only bound. -/
theorem ofDistance_real (d : ℝ) :
    ofDistance (real d) = real (√((max d 0 + 1) * (max d 0 + 1) - 1)) := by
  have hnonneg : 0 ≤ (max d 0 + 1) * (max d 0 + 1) - 1 := by nlinarith [le_max_right d 0]
  rw [ofDistance, Exact.zero_eq, Exact.one_eq, Exact.maxNum_real]
  simp only [Exact.real_add_real, Exact.real_mul_real, Exact.real_sub_real]
  exact Exact.sqrt_real hnonneg

/-- The root takes the coordinate of a distance back to that distance. -/
theorem root_ofDistance (d : ℝ) :
    √(√((max d 0 + 1) * (max d 0 + 1) - 1) * √((max d 0 + 1) * (max d 0 + 1) - 1) + 1) =
      max d 0 + 1 := by
  have hone : 1 ≤ max d 0 + 1 := by linarith [le_max_right d 0]
  rw [Real.mul_self_sqrt (by nlinarith), sub_add_cancel, Real.sqrt_mul_self (by linarith)]

theorem roundTrip_lower (lo y : ℝ) :
    (lower (real lo)).toExternal ((lower (real lo)).toInternal (real y)) = real (max y lo) := by
  rw [toInternal, Exact.real_sub_real, ofDistance_real, toExternal_lower, root_ofDistance,
    ← max_add_add_right, ← max_add_add_left]
  congr 1
  congr 1 <;> ring

theorem roundTrip_upper (hi y : ℝ) :
    (upper (real hi)).toExternal ((upper (real hi)).toInternal (real y)) = real (min y hi) := by
  rw [toInternal, Exact.real_sub_real, ofDistance_real, toExternal_upper, root_ofDistance]
  rcases le_total y hi with h | h
  · rw [max_eq_left (by linarith), min_eq_left h]
    congr 1
    ring
  · rw [max_eq_right (by linarith), min_eq_right h]
    congr 1
    ring

/-! ## Two bounds -/

theorem toExternal_double (lo hi x : ℝ) : (double (real lo) (real hi)).toExternal (real x) =
    real (lo + 1 / 2 * (hi - lo) * (Real.sin x + 1)) := by
  rw [toExternal, Exact.half_eq, Exact.one_eq, Exact.sin_real]
  simp only [Exact.real_sub_real, Exact.real_mul_real, Exact.real_add_real]

theorem slope_double (lo hi x : ℝ) : (double (real lo) (real hi)).slope (real x) =
    real (1 / 2 * (hi - lo) * Real.cos x) := by
  rw [slope, Exact.half_eq, Exact.cos_real]
  simp only [Exact.real_sub_real, Exact.real_mul_real]

theorem hasDerivAt_wave (lo hi x : ℝ) :
    HasDerivAt (fun y => lo + 1 / 2 * (hi - lo) * (Real.sin y + 1))
      (1 / 2 * (hi - lo) * Real.cos x) x :=
  (((Real.hasDerivAt_sin x).add_const 1).const_mul _).const_add lo

theorem toInternal_double {lo hi : ℝ} (h : lo < hi) (y : ℝ) :
    (double (real lo) (real hi)).toInternal (real y) =
      real (Real.arcsin (min (max (2 * (y - lo) / (hi - lo) - 1) (-1)) 1)) := by
  have hclamped (z : ℝ) : |min (max z (-1)) 1| ≤ 1 :=
    abs_le.mpr ⟨le_min (le_max_right _ _) (by norm_num), min_le_right _ _⟩
  rw [toInternal, Exact.one_eq, Exact.two_eq]
  simp only [Exact.real_sub_real, Exact.real_mul_real, Exact.neg_real,
    Exact.real_div_real (sub_pos.mpr h).ne', Exact.clampTo_real, Exact.asin_real (hclamped _)]

theorem roundTrip_double {lo hi : ℝ} (h : lo < hi) (y : ℝ) :
    (double (real lo) (real hi)).toExternal ((double (real lo) (real hi)).toInternal (real y)) =
      real (min (max y lo) hi) := by
  have hwidth : 0 < hi - lo := sub_pos.mpr h
  set z := 2 * (y - lo) / (hi - lo) - 1 with hz
  have hy : y = lo + 1 / 2 * (hi - lo) * (z + 1) := by
    rw [hz]
    field_simp
    ring
  rw [toInternal_double h, ← hz, toExternal_double, Real.sin_arcsin
    (le_min (le_max_right _ _) (by norm_num)) (min_le_right _ _)]
  -- below the lower bound `z` is below -1, and above the upper one it is above 1
  congr 1
  rcases le_total z (-1) with hlow | hlow
  · rw [max_eq_right hlow, min_eq_left (by norm_num), max_eq_right (by nlinarith),
      min_eq_left h.le]
    ring
  · rw [max_eq_left hlow, max_eq_left (by nlinarith)]
    rcases le_total z 1 with hhigh | hhigh
    · rw [min_eq_left hhigh, min_eq_left (by nlinarith)]
      exact hy.symm
    · rw [min_eq_right hhigh, min_eq_right (by nlinarith)]
      ring

/-! ## Starts -/

theorem boundNudge_eq : (boundNudge : Exact) = real (1 / 10) := by
  rw [boundNudge, Exact.ofScientific_eq]
  norm_num

/-- With one bound a start is at a positive coordinate. -/
theorem exists_maxNum_boundNudge (d : ℝ) :
    ∃ x, Scalar.maxNum (ofDistance (real d)) boundNudge = real x ∧ 0 < x := by
  rw [ofDistance_real, boundNudge_eq, Exact.maxNum_real]
  exact ⟨_, rfl, lt_max_of_lt_right (by norm_num)⟩

theorem exists_start_lower (lo y : ℝ) : ∃ x d, (lower (real lo)).startInternal (real y) = real x ∧
    (lower (real lo)).slope (real x) = real d ∧ d ≠ 0 := by
  obtain ⟨x, hx, hpos⟩ := exists_maxNum_boundNudge (y - lo)
  exact ⟨x, _, hx, slope_lower _ x, (div_pos hpos (root_pos x)).ne'⟩

theorem exists_start_upper (hi y : ℝ) : ∃ x d, (upper (real hi)).startInternal (real y) = real x ∧
    (upper (real hi)).slope (real x) = real d ∧ d ≠ 0 := by
  obtain ⟨x, hx, hpos⟩ := exists_maxNum_boundNudge (hi - y)
  exact ⟨x, _, hx, slope_upper _ x, (div_neg_of_neg_of_pos (neg_neg_of_pos hpos) (root_pos x)).ne⟩

theorem exists_start_double {lo hi : ℝ} (h : lo < hi) (y : ℝ) :
    ∃ x d, (double (real lo) (real hi)).startInternal (real y) = real x ∧
      (double (real lo) (real hi)).slope (real x) = real d ∧ d ≠ 0 := by
  set edge := Real.pi / 2 - 1 / 10 with hedge
  have hpos : 0 < edge := by linarith [Real.pi_gt_three]
  obtain ⟨x, hx, hlower, hupper⟩ : ∃ x,
      (double (real lo) (real hi)).startInternal (real y) = real x ∧ -edge ≤ x ∧ x ≤ edge := by
    rw [startInternal, toInternal_double h, Exact.halfPi_eq, boundNudge_eq, Exact.real_sub_real,
      Exact.neg_real, Exact.clampTo_real]
    exact ⟨_, rfl, le_min (le_max_right _ _) (by linarith), min_le_right _ _⟩
  have hcos : 0 < Real.cos x := Real.cos_pos_of_mem_Ioo ⟨by linarith, by linarith⟩
  exact ⟨x, _, hx, slope_double _ _ x, (mul_pos (by linarith) hcos).ne'⟩

/-! ## Any limit -/

/-- Over the real numbers the transform is the function `f`, its slope is `f'`, and that is the
derivative. -/
structure Follows (t : BoundTransform Exact) (f f' : ℝ → ℝ) : Prop where
  toExternal (x : ℝ) : t.toExternal (real x) = real (f x)
  slope (x : ℝ) : t.slope (real x) = real (f' x)
  hasDerivAt (x : ℝ) : HasDerivAt f (f' x) x

/-- Over the real numbers the transform and its inverse go together: a number within the limit
comes back, any other one as the bound that is nearest to it; a start is not where the transform is
flat; and its slope is its derivative. -/
structure IsChartOf (t : BoundTransform Exact) (l : Limit Exact) : Prop where
  within {y : ℝ} (h : l.Allows y) : t.toExternal (t.toInternal (real y)) = real y
  below {lo y : ℝ} (hlo : l.lower = real lo) (h : y < lo) :
    t.toExternal (t.toInternal (real y)) = real lo
  above {hi y : ℝ} (hhi : l.upper = real hi) (h : hi < y) :
    t.toExternal (t.toInternal (real y)) = real hi
  start (y : ℝ) : ∃ x d, t.startInternal (real y) = real x ∧ t.slope (real x) = real d ∧ d ≠ 0
  follows : ∃ f f', t.Follows f f'

theorem exists_follows (l : Limit Exact) : ∃ f f', (ofLimit l).Follows f f' := by
  have hshape := l.shape_ofLimit
  generalize ofLimit l = t at hshape ⊢
  cases hshape with
  | unbounded => exact ⟨id, fun _ => 1, fun _ => rfl, fun _ => Exact.one_eq, hasDerivAt_id⟩
  | lower hlo =>
    obtain ⟨lo, hlo⟩ := Exact.exists_real_of_isFinite hlo
    rw [hlo]
    exact ⟨_, _, toExternal_lower lo, slope_lower _, fun x => (hasDerivAt_root x).const_add _⟩
  | upper _ hhi =>
    obtain ⟨hi, hhi⟩ := Exact.exists_real_of_isFinite hhi
    rw [hhi]
    refine ⟨_, _, toExternal_upper hi, slope_upper _, fun x => ?_⟩
    exact ((hasDerivAt_root x).const_sub _).congr_deriv (neg_div _ _).symm
  | double hlo hhi =>
    obtain ⟨lo, hlo⟩ := Exact.exists_real_of_isFinite hlo
    obtain ⟨hi, hhi⟩ := Exact.exists_real_of_isFinite hhi
    rw [hlo, hhi]
    exact ⟨_, _, toExternal_double lo hi, slope_double lo hi, hasDerivAt_wave lo hi⟩

/-- The transform of a limit that is more than a point is a chart of it. -/
theorem isChartOf_ofLimit {l : Limit Exact} (hle : l.lower ≤ l.upper)
    (hwide : l.isDegenerate = false) : (ofLimit l).IsChartOf l := by
  have hfollows := exists_follows l
  have hshape := l.shape_ofLimit
  generalize ofLimit l = t at hshape hfollows ⊢
  obtain ⟨lower, upper⟩ := l
  cases hshape with
  | unbounded hlo hhi =>
    exact {
      within := fun _ => rfl
      below := fun h => absurd (congrArg Scalar.isFinite h) hlo
      above := fun h => absurd (congrArg Scalar.isFinite h) hhi
      start := fun y => ⟨y, 1, rfl, Exact.one_eq, one_ne_zero⟩
      follows := hfollows }
  | lower hlo hhi =>
    obtain ⟨lo, rfl⟩ := Exact.exists_real_of_isFinite hlo
    refine ⟨fun {y} hy => ?_, fun {lo' y} hlo' hy => ?_, fun h => ?_, exists_start_lower lo,
      hfollows⟩
    · rw [roundTrip_lower, max_eq_left (Exact.real_le_real.mp hy.lower)]
    · cases hlo'
      rw [roundTrip_lower, max_eq_right hy.le]
    · exact absurd (congrArg Scalar.isFinite h) hhi
  | upper hlo hhi =>
    obtain ⟨hi, rfl⟩ := Exact.exists_real_of_isFinite hhi
    refine ⟨fun {y} hy => ?_, fun h => ?_, fun {hi' y} hhi' hy => ?_, exists_start_upper hi,
      hfollows⟩
    · rw [roundTrip_upper, min_eq_left (Exact.real_le_real.mp hy.upper)]
    · exact absurd (congrArg Scalar.isFinite h) hlo
    · cases hhi'
      rw [roundTrip_upper, min_eq_right hy.le]
  | double hlo hhi =>
    obtain ⟨lo, rfl⟩ := Exact.exists_real_of_isFinite hlo
    obtain ⟨hi, rfl⟩ := Exact.exists_real_of_isFinite hhi
    have hlt : lo < hi := by
      refine lt_of_le_of_ne (Exact.real_le_real.mp hle) fun heq => ?_
      have hsame : (real lo == real hi) = true := Exact.real_beq_real.mpr heq
      simp [Limit.isDegenerate, hsame] at hwide
    refine ⟨fun {y} hy => ?_, fun {lo' y} hlo' hy => ?_, fun {hi' y} hhi' hy => ?_,
      exists_start_double hlt, hfollows⟩
    · rw [roundTrip_double hlt, max_eq_left (Exact.real_le_real.mp hy.lower),
        min_eq_left (Exact.real_le_real.mp hy.upper)]
    · cases hlo'
      rw [roundTrip_double hlt, max_eq_right hy.le, min_eq_left hlt.le]
    · cases hhi'
      rw [roundTrip_double hlt, min_eq_right (hy.le.trans (le_max_left _ _))]

end BoundTransform
end FitSession
