import FitSession.Proofs.Double.Error
import FitSession.Proofs.Double.Quotient
import FitSession.Session.Scan

/-!
# Points at even distances

The points between two ends are found from the first one: the distance is rounded, so is every
multiple of it, and so is every sum. They stay in order, but the last but one may come to lie beyond
the end.

* `extended_ofCount`, `ofCount_mono`: natural numbers as doubles;
* `stepOf`, `pointAt`, `evenlySpaced_succ`: the distance, and the points but for the last one;
* `IsGrid`, **`isGrid_iff`**: a grid from end to end, and the one comparison that it hangs on;
* `nearest_mul_le`, `pointAt_le`, **`isGrid_iff_of_normal`**: distances that are not too small leave
  room for all errors of rounding.
-/

namespace FitSession

open Float.Model Float.Model.UnpackedFloat

/-! ## Natural numbers -/

theorem rounded_natCast_of_lt {m : ℕ} (h : m < 2 ^ 53) : rounded m = ((m : ℝ) : EReal) := by
  simpa using rounded_of_dyadic (e := 0) h (by norm_num) (by norm_num)

theorem extended_toFloat (m : UInt64) :
    m.toFloat.isNaN = false ∧ extended m.toFloat = rounded m.toNat := by
  have hnormal := extendedOf_normalize m.toNat 0 .positive
  rw [zpow_zero, mul_one, Int.cast_natCast] at hnormal
  exact ⟨(isNaN_stored _).trans (isNaN_normalize _ _ _), hnormal⟩

/-- A number with few digits is converted, and the product with one does nothing. -/
theorem ofCount_of_lt {m : ℕ} (h : m < 2 ^ 53) :
    (Scalar.ofCount m : Float) = m.toUInt64.toFloat * 1 := by
  have hone : getElem Float.exactlyRepresentablePowersOfTen 0 (by decide) = 1 := by
    decide +kernel
  change Float.ofScientific m false 0 = _
  rw [Float.ofScientific, dif_pos ⟨h, by decide⟩]
  exact congrArg (m.toUInt64.toFloat * ·) hone

theorem ofScientific_eq_round {m : ℕ} (hm : 0 < m) :
    UnpackedFloat.ofScientific Format.binary64 m 0 =
      roundWithAccuracy Format.binary64 .positive (m <<< 53) (-53) .exact := by
  have hpos : (0 : ℤ) ≤ 2 ^ Format.binary64.exponentBits := by positivity
  rw [UnpackedFloat.ofScientific, dif_neg hm.ne', if_neg (not_lt.mpr hpos), if_neg (by omega),
    if_pos le_rfl, UnpackedFloat.mul]
  simp only [Int.toNat_zero, pow_zero, mul_one, add_zero]
  rfl

/-- A number with more digits is rounded. -/
theorem unpack_ofCount_of_le {m : ℕ} (h : 2 ^ 53 ≤ m) : (Scalar.ofCount m : Float).toModel.unpack =
    stored (roundWithAccuracy Format.binary64 .positive (m <<< 53) (-53) .exact) := by
  have hpos : 0 < m := by omega
  change (Float.ofScientific m false 0).toModel.unpack = _
  rw [Float.ofScientific, dif_neg fun hlt => h.not_gt hlt.1]
  exact congrArg stored (ofScientific_eq_round hpos)

theorem extendedOf_round_shifted {m : ℕ} (h : 2 ^ 53 ≤ m) :
    extendedOf (stored (roundWithAccuracy Format.binary64 .positive (m <<< 53) (-53) .exact)) =
      rounded m := by
  have hvalue := shiftLeft_mul_zpow m 53 0
  rw [show (0 : ℤ) - (53 : ℕ) = -53 from rfl, zpow_zero, mul_one] at hvalue
  have hlead : 2 ^ 52 ≤ m <<< 53 := by
    rw [Nat.shiftLeft_eq]
    omega
  have hpos : 0 < m <<< 53 := (Nat.two_pow_pos 52).trans_le hlead
  rw [extendedOf_roundWithAccuracy .positive (.inl hpos) (stands_exact _)
    (le_spacing hpos (stands_exact _) (.inl hlead)), hvalue]
  change rounded (((1 : ℤ) : ℝ) * m) = _
  rw [Int.cast_one, one_mul]

/-- **The scalar of a natural number** is the double next to it. -/
theorem extended_ofCount (m : ℕ) :
    (Scalar.ofCount m : Float).isNaN = false ∧ extended (Scalar.ofCount m) = rounded m := by
  rcases lt_or_ge m (2 ^ 53) with h | h
  · obtain ⟨hnan, hvalue⟩ := extended_toFloat m.toUInt64
    rw [show m.toUInt64.toNat = m from UInt64.toNat_ofNat_of_lt' (h.trans (by decide))] at hvalue
    have hfinite := (isFinite_of_extended_eq hnan (hvalue.trans (rounded_natCast_of_lt h))).1
    have hproduct := isNaN_mul hfinite (y := 1) rfl
    rw [ofCount_of_lt h, extended_mul hnan rfl hproduct, extended_one, mul_one,
      nearestExtended_extended]
    exact ⟨hproduct, hvalue⟩
  · have hunpack := unpack_ofCount_of_le h
    constructor
    · change (Scalar.ofCount m : Float).toModel.unpack.isNaN = false
      rw [hunpack, isNaN_stored, isNaN_roundWithAccuracy]
    · rw [extended, hunpack, extendedOf_round_shifted h]

theorem ofCount_mono {m n : ℕ} (h : m ≤ n) : (Scalar.ofCount m : Float) ≤ Scalar.ofCount n := by
  obtain ⟨hm, hvalue⟩ := extended_ofCount m
  obtain ⟨hn, hvalue'⟩ := extended_ofCount n
  rw [float_le_iff_extended hm hn, hvalue, hvalue']
  exact rounded_mono (by exact_mod_cast h)

theorem ofCount_zero : (Scalar.ofCount 0 : Float) = 0 := by decide +kernel

theorem ofCount_nonneg (m : ℕ) : 0 ≤ (Scalar.ofCount m : Float) :=
  ofCount_zero ▸ ofCount_mono (Nat.zero_le m)

theorem one_le_ofCount {m : ℕ} (h : 1 ≤ m) : 1 ≤ (Scalar.ofCount m : Float) := by
  have hone : (Scalar.ofCount 1 : Float) = 1 := by decide +kernel
  exact hone ▸ ofCount_mono h

theorem one_le_extended_ofCount {m : ℕ} (h : 1 ≤ m) :
    1 ≤ extended (Scalar.ofCount m : Float) := extended_one ▸ extended_le (one_le_ofCount h)

theorem ofCount_pos {m : ℕ} (h : 1 ≤ m) : 0 < (Scalar.ofCount m : Float) := by
  rw [float_lt_iff_extended rfl (extended_ofCount m).1, extended_zero]
  exact zero_lt_one.trans_le (one_le_extended_ofCount h)

/-- Words are finite as doubles. -/
theorem isFinite_ofCount {m : ℕ} (h : m < 2 ^ 64) : (Scalar.ofCount m : Float).isFinite :=
  isFinite_of_between (z := Scalar.ofCount (2 ^ 64)) rfl (by decide +kernel) (ofCount_nonneg m)
    (ofCount_mono h.le)

theorem realValue_ofCount {m : ℕ} (h : m < 2 ^ 53) : realValue (Scalar.ofCount m) = m := by
  obtain ⟨hnan, hvalue⟩ := extended_ofCount m
  exact (isFinite_of_extended_eq hnan (hvalue.trans (rounded_natCast_of_lt h))).2

/-! ## The points -/

section

variable {α : Type} [Scalar α]

/-- The distance of `k` steps from one end to the other. -/
def stepOf (lo hi : α) (k : ℕ) : α := (hi - lo) / Scalar.ofCount k

/-- The point after `i` of `k` steps. -/
def pointAt (lo hi : α) (k i : ℕ) : α := lo + stepOf lo hi k * Scalar.ofCount i

/-- All points but the last one are found from the first one. -/
theorem evenlySpaced_succ (lo hi : α) (k : ℕ) :
    evenlySpaced lo hi (k + 1) = (List.range k).map (pointAt lo hi k) ++ [hi] := by
  unfold evenlySpaced
  rw [List.range_succ, List.map_append, List.map_singleton, if_pos rfl]
  congr 1
  refine List.map_congr_left fun i hi => ?_
  rw [if_neg (by have := List.mem_range.mp hi; omega)]
  rfl

/-- Two ends with something between them. -/
structure IsSpan (lo hi : α) : Prop where
  lower : Scalar.isFinite lo = true
  upper : Scalar.isFinite hi = true
  nonempty : lo < hi

end

/-- Points from one end to the other: as many as are asked for, in order, and all of them numbers
between the ends. -/
structure IsGrid (lo hi : Float) (n : ℕ) (xs : List Float) : Prop where
  length : xs.length = n
  /-- The first point is the lower end, but for the sign of a zero. -/
  first : ∃ x, xs.head? = some x ∧ x ≤ lo ∧ lo ≤ x
  last : xs.getLast? = some hi
  ordered : xs.Pairwise (· ≤ ·)
  finite : ∀ x ∈ xs, x.isFinite
  between : ∀ x ∈ xs, lo ≤ x ∧ x ≤ hi

/-- A part of infinity is infinite. -/
theorem float_inf_div {y : Float} (hy : y.isFinite) (hpos : 0 < y) :
    (Scalar.inf : Float) / y = Scalar.inf := by
  have hvalue := realValue_pos hy hpos
  refine float_eq_of_unpack ?_
  change stored (div Format.binary64 (.infinity .positive) y.toModel.unpack) = .infinity .positive
  change y.toModel.unpack.isFinite = true at hy
  unfold realValue at hvalue
  generalize y.toModel.unpack = u at hy hvalue
  cases u with
  | notANumber => cases hy
  | infinity s => cases hy
  | zero s => exact absurd hvalue (lt_irrefl 0)
  | finite s m e hm =>
    cases s with
    | negative => exact absurd hvalue (realOf_neg m e hm).not_gt
    | positive => exact stored_infinity .positive

/-! ## Where the points lie -/

section

variable {lo hi : Float} {k : ℕ} (hk : 1 ≤ k)

include hk

theorem isNaN_stepOf (hwidth : (hi - lo).isFinite) : (stepOf lo hi k).isNaN = false :=
  isNaN_div hwidth (ofCount_pos hk)

theorem extended_stepOf (hword : k < 2 ^ 64) (hwidth : (hi - lo).isFinite) :
    extended (stepOf lo hi k) = rounded (realValue (hi - lo) / realValue (Scalar.ofCount k)) := by
  rw [stepOf, extended_div hwidth (ofCount_pos hk), extended_eq_realValue hwidth,
    extended_eq_realValue (isFinite_ofCount hword), ← EReal.coe_div]
  rfl

end

namespace IsSpan

variable {lo hi : Float} (h : IsSpan lo hi)

include h

theorem width_nonneg : 0 ≤ hi - lo :=
  float_sub_nonneg (float_le_of_lt h.nonempty)
    (isNaN_sub (isNaN_of_isFinite h.upper) (isNaN_of_isFinite h.lower) (.inl h.upper)) h.lower

variable {k : ℕ} (hk : 1 ≤ k) (hword : k < 2 ^ 64)

include hk hword

/-- Where the ends are too far apart, no point is where it should be: the first one is not a number,
and the next ones are infinite. -/
theorem not_pointAt_le (hover : ¬(hi - lo).isFinite) (i : ℕ) : ¬pointAt lo hi k i ≤ hi := by
  intro hle
  have hstep : stepOf lo hi k = Scalar.inf := by
    rw [stepOf, float_eq_inf (x := 0) rfl h.width_nonneg hover,
      float_inf_div (isFinite_ofCount hword) (ofCount_pos hk)]
  have hsum := (isNaN_of_le hle).1
  rw [pointAt, hstep] at hle hsum
  have hproduct := (isNaN_of_add hsum).2
  rcases Nat.eq_zero_or_pos i with rfl | hi'
  · have hnan : ((Scalar.inf : Float) * Scalar.ofCount 0).isNaN = true := by decide +kernel
    rw [hnan] at hproduct
    cases hproduct
  · have htop : extended ((Scalar.inf : Float) * Scalar.ofCount i) = ⊤ := by
      rw [extended_mul rfl (extended_ofCount i).1 hproduct]
      change nearestExtended (⊤ * _) = ⊤
      rw [EReal.top_mul_of_pos (zero_lt_one.trans_le (one_le_extended_ofCount hi'))]
      rfl
    have hle := extended_le hle
    rw [extended_add (isNaN_of_isFinite h.lower) hproduct hsum, htop,
      extended_eq_realValue h.lower, EReal.coe_add_top, extended_eq_realValue h.upper] at hle
    exact absurd hle (EReal.coe_lt_top _).not_ge

omit hk hword in
theorem realValue_width_nonneg (hwidth : (hi - lo).isFinite) : 0 ≤ realValue (hi - lo) :=
  realValue_mono (x := 0) rfl hwidth h.width_nonneg

section Width

variable (hwidth : (hi - lo).isFinite)

include hwidth

theorem stepOf_mem : 0 ≤ stepOf lo hi k ∧ stepOf lo hi k ≤ hi - lo := by
  have hnan := isNaN_stepOf hk hwidth
  have hvalue := extended_stepOf hk hword hwidth
  have hnonneg := h.realValue_width_nonneg hwidth
  have hone : 1 ≤ realValue (Scalar.ofCount k : Float) := by
    have hle := one_le_extended_ofCount hk
    rwa [extended_eq_realValue (isFinite_ofCount hword), ← EReal.coe_one,
      EReal.coe_le_coe_iff] at hle
  constructor
  · rw [float_le_iff_extended rfl hnan, extended_zero, hvalue, ← rounded_zero]
    exact rounded_mono (by positivity)
  · rw [float_le_iff_extended hnan (isNaN_of_isFinite hwidth), hvalue,
      extended_eq_realValue hwidth, ← nearestExtended_realValue hwidth]
    exact rounded_mono (div_le_self hnonneg hone)

theorem isFinite_stepOf : (stepOf lo hi k).isFinite :=
  have ⟨hnonneg, hle⟩ := h.stepOf_mem hk hword hwidth
  isFinite_of_between rfl hwidth hnonneg hle

theorem realValue_stepOf_nonneg : 0 ≤ realValue (stepOf lo hi k) :=
  realValue_mono (x := 0) rfl (h.isFinite_stepOf hk hword hwidth)
    (h.stepOf_mem hk hword hwidth).1

/-- The points are numbers from the lower end on. -/
theorem le_pointAt {i : ℕ} (hi' : i < 2 ^ 64) : lo ≤ pointAt lo hi k i := by
  have hnan := isNaN_of_isFinite h.lower
  have hproduct := isNaN_mul (h.isFinite_stepOf hk hword hwidth) (isFinite_ofCount hi')
  exact float_le_add_of_nonneg
    (float_mul_nonneg (h.stepOf_mem hk hword hwidth).1 (ofCount_nonneg i) hproduct)
    (isNaN_add hnan hproduct (.inl h.lower)) hnan

/-- The points are in order. -/
theorem pointAt_mono {i j : ℕ} (hij : i ≤ j) (hj : j < 2 ^ 64) :
    pointAt lo hi k i ≤ pointAt lo hi k j := by
  have hnan := isNaN_of_isFinite h.lower
  have hstep := h.isFinite_stepOf hk hword hwidth
  have hfinite := isFinite_ofCount (hij.trans_lt hj)
  have hfinite' := isFinite_ofCount hj
  have hproduct := float_mul_le_mul_left hfinite hfinite' hstep
    (h.stepOf_mem hk hword hwidth).1 (ofCount_mono hij)
  exact float_add_le_add (float_le_refl hnan) hproduct
    (isNaN_add hnan (isNaN_mul hstep hfinite) (.inl h.lower))
    (isNaN_add hnan (isNaN_mul hstep hfinite') (.inl h.lower))

/-- The first point is the lower end. -/
theorem pointAt_zero_le : pointAt lo hi k 0 ≤ lo := by
  have hnan := isNaN_of_isFinite h.lower
  have hstep := h.isFinite_stepOf hk hword hwidth
  have hproduct : (stepOf lo hi k * Scalar.ofCount 0).isNaN = false :=
    isNaN_mul hstep (isFinite_ofCount (by norm_num))
  have hsum := isNaN_add hnan hproduct (.inl h.lower)
  have hzero : extended (stepOf lo hi k * Scalar.ofCount 0) = 0 := by
    rw [extended_mul (isNaN_of_isFinite hstep) (extended_ofCount 0).1 hproduct, ofCount_zero,
      extended_zero, mul_zero]
    exact rounded_zero
  rw [pointAt, float_le_iff_extended hsum hnan, extended_add hnan hproduct hsum, hzero, add_zero,
    nearestExtended_extended]

end Width

/-- **The points are a grid** exactly if the last but one is not beyond the end. -/
theorem isGrid_iff :
    IsGrid lo hi (k + 1) (evenlySpaced lo hi (k + 1)) ↔ pointAt lo hi k (k - 1) ≤ hi := by
  rw [evenlySpaced_succ]
  constructor
  · intro hgrid
    have hlast : pointAt lo hi k (k - 1) ∈ (List.range k).map (pointAt lo hi k) :=
      List.mem_map_of_mem (List.mem_range.mpr (by omega))
    exact (hgrid.between _ (List.mem_append_left _ hlast)).2
  intro hle
  have hwidth : (hi - lo).isFinite := by
    by_contra hover
    exact h.not_pointAt_le hk hword hover _ hle
  have hpoint {i : ℕ} (hi' : i < k) : lo ≤ pointAt lo hi k i ∧ pointAt lo hi k i ≤ hi :=
    ⟨h.le_pointAt hk hword hwidth (hi'.trans hword),
      float_le_trans (h.pointAt_mono hk hword hwidth (by omega) (by omega)) hle⟩
  have hbetween : ∀ x ∈ (List.range k).map (pointAt lo hi k) ++ [hi], lo ≤ x ∧ x ≤ hi := by
    simp only [List.mem_append, List.mem_map, List.mem_range, List.mem_singleton]
    rintro x (⟨i, hi', rfl⟩ | rfl)
    · exact hpoint hi'
    · exact ⟨float_le_of_lt h.nonempty, float_le_refl (isNaN_of_isFinite h.upper)⟩
  refine {
    length := by simp
    first := ⟨pointAt lo hi k 0, ?_, h.pointAt_zero_le hk hword hwidth, (hpoint hk).1⟩
    last := by simp
    ordered := List.pairwise_append.mpr ⟨?_, List.pairwise_singleton _ _, fun x hx y hy => ?_⟩
    finite := fun x hx => isFinite_of_between h.lower h.upper (hbetween x hx).1 (hbetween x hx).2
    between := hbetween }
  · obtain ⟨k, rfl⟩ := Nat.exists_eq_succ_of_ne_zero (Nat.one_le_iff_ne_zero.mp hk)
    simp [List.range_succ_eq_map]
  · refine List.pairwise_map.mpr (List.pairwise_lt_range.imp_of_mem fun _ hj hij => ?_)
    exact h.pointAt_mono hk hword hwidth (Nat.le_of_lt hij) ((List.mem_range.mp hj).trans hword)
  · rw [List.mem_singleton.mp hy]
    exact (hbetween x (List.mem_append_left _ hx)).2

end IsSpan

/-! ## Room for rounding -/

/-- A number that is rounded to a normal one is hardly smaller than that. -/
theorem nearest_mul_le {x : ℝ} (hx : 0 < x) (h : 2 ^ (-1022 : ℤ) ≤ nearest x) :
    nearest x * (1 - 2 ^ (-53 : ℤ)) ≤ x := by
  have hpart : (0 : ℝ) < 2 ^ (-53 : ℤ) := by positivity
  rcases le_or_gt (nearest x) x with hle | hgt
  · nlinarith [nearest_nonneg x]
  · have hspacing : (2 : ℝ) ^ spacing x ≤ 2 ^ (-52 : ℤ) * nearest x :=
      (zpow_le_zpow_right₀ one_le_two (spacing_mono hx hgt.le)).trans (zpow_spacing_le h)
    have herror := (abs_le.mp (abs_nearest_sub_le hx.le)).2
    have hhalf : (2 : ℝ) ^ (-52 : ℤ) = 2 * 2 ^ (-53 : ℤ) := by norm_num
    rw [hhalf] at hspacing
    linarith

/-- One step less than all of them leaves room for three errors of rounding. -/
theorem nearest_steps_le {d w s : ℝ} {k : ℕ} (hd : 0 < d) (hw : nearest d = w)
    (hs : nearest (w / k) = s) (hnormal : 2 ^ (-1022 : ℤ) ≤ s) (hsw : s ≤ w) (hk : 2 ≤ k)
    (hk' : k ≤ 2 ^ 51) : nearest (s * (k - 1)) ≤ d := by
  have hspos : 0 < s := (by positivity : (0 : ℝ) < 2 ^ (-1022 : ℤ)).trans_le hnormal
  have hcount : (2 : ℝ) ≤ k := by exact_mod_cast hk
  have hcount' : (k : ℝ) ≤ 2 ^ 51 := by exact_mod_cast hk'
  have hsteps : s ≤ s * (k - 1) := le_mul_of_one_le_right hspos.le (by linarith)
  have hlast : 2 ^ (-1022 : ℤ) ≤ nearest (s * (k - 1)) :=
    (nearest_two_zpow (by norm_num)).symm.le.trans
      (nearest_mono (by positivity) (hnormal.trans hsteps))
  have hwidth : w * (1 - 2 ^ (-53 : ℤ)) ≤ d := by
    have hle := nearest_mul_le hd (hw ▸ hnormal.trans hsw)
    rwa [hw] at hle
  have hstep : s * (1 - 2 ^ (-53 : ℤ)) ≤ w / k := by
    have hle := nearest_mul_le (div_pos (hspos.trans_le hsw) (by linarith)) (hs ▸ hnormal)
    rwa [hs] at hle
  have hproduct := nearest_mul_le (hspos.trans_le hsteps) hlast
  generalize nearest (s * (k - 1)) = p at hproduct ⊢
  have hk : (0 : ℝ) < k := by linarith
  obtain ⟨u, hu⟩ : ∃ u : ℝ, u = 1 - 2 ^ (-53 : ℤ) := ⟨_, rfl⟩
  rw [← hu] at hwidth hstep hproduct
  have hpos : 0 < u := by
    rw [hu]
    norm_num
  have hroom : (k - 1) / k ≤ u ^ 3 := by
    have hpart : 1 / (2 ^ 51 : ℝ) ≤ 1 / k := one_div_le_one_div_of_le hk hcount'
    rw [sub_div, div_self hk.ne', hu]
    norm_num at hpart ⊢
    linarith
  refine le_of_mul_le_mul_right ?_ (pow_pos hpos 3)
  calc p * u ^ 3 = p * u * u ^ 2 := by ring
    _ ≤ s * (k - 1) * u ^ 2 := mul_le_mul_of_nonneg_right hproduct (sq_nonneg u)
    _ = s * u * (u * (k - 1)) := by ring
    _ ≤ w / k * (u * (k - 1)) :=
      mul_le_mul_of_nonneg_right hstep (mul_nonneg hpos.le (by linarith))
    _ = w * u * ((k - 1) / k) := by ring
    _ ≤ d * ((k - 1) / k) :=
      mul_le_mul_of_nonneg_right hwidth (div_nonneg (by linarith) hk.le)
    _ ≤ d * u ^ 3 := mul_le_mul_of_nonneg_left hroom hd.le

theorem eq_of_overflow_eq {x y : ℝ} (h : overflow x = (y : EReal)) : x = y := by
  unfold overflow at h
  split_ifs at h
  · exact absurd h.symm (EReal.coe_ne_top y)
  · exact absurd h.symm (EReal.coe_ne_bot y)
  · exact EReal.coe_injective h

theorem realValue_leastNormal : realValue Scalar.leastNormal = 2 ^ (-1022 : ℤ) := by
  have hunpack : (Scalar.leastNormal : Float).toModel.unpack =
    .finite .positive (2 ^ 52) (-1074) (by decide) := rfl
  rw [realValue_of_unpack hunpack, Nat.cast_pow, Nat.cast_ofNat, ← zpow_natCast,
    ← zpow_add₀ two_ne_zero]
  rfl

namespace IsSpan

variable {lo hi : Float} (h : IsSpan lo hi) {k : ℕ}

include h

theorem realValue_lt : realValue lo < realValue hi := by
  have hlt := (float_lt_iff_extended (isNaN_of_isFinite h.lower) (isNaN_of_isFinite h.upper)).mp
    h.nonempty
  rwa [extended_eq_realValue h.lower, extended_eq_realValue h.upper, EReal.coe_lt_coe_iff] at hlt

/-- The width is the exact one, rounded. -/
theorem nearest_width (hwidth : (hi - lo).isFinite) :
    nearest (realValue hi - realValue lo) = realValue (hi - lo) := by
  have hsub := extended_sub (isNaN_of_isFinite h.upper) (isNaN_of_isFinite h.lower)
    (isNaN_of_isFinite hwidth)
  rw [extended_eq_realValue hwidth, extended_eq_realValue h.upper, extended_eq_realValue h.lower,
    ← EReal.coe_sub] at hsub
  refine eq_of_overflow_eq ?_
  rw [← rounded_of_nonneg (sub_nonneg.mpr h.realValue_lt.le)]
  exact hsub.symm

section

variable (hk : 1 ≤ k) (hk' : k ≤ 2 ^ 51) (hwidth : (hi - lo).isFinite)

include hk hk' hwidth

theorem nearest_step : nearest (realValue (hi - lo) / k) = realValue (stepOf lo hi k) := by
  have hword : k < 2 ^ 64 := by omega
  have hstep := extended_stepOf hk hword hwidth
  rw [extended_eq_realValue (h.isFinite_stepOf hk hword hwidth), realValue_ofCount (by omega),
    rounded_of_nonneg (div_nonneg (h.realValue_width_nonneg hwidth) (Nat.cast_nonneg k))] at hstep
  exact eq_of_overflow_eq hstep.symm

/-- All steps but one are no longer than the exact width. -/
theorem steps_le (hnormal : Scalar.leastNormal ≤ stepOf lo hi k) :
    nearest (realValue (stepOf lo hi k) * (k - 1)) ≤ realValue hi - realValue lo := by
  have hword : k < 2 ^ 64 := by omega
  have hd := sub_pos.mpr h.realValue_lt
  rcases hk.eq_or_lt with rfl | hk₂
  · simpa using hd.le
  have hstep := h.isFinite_stepOf hk hword hwidth
  refine nearest_steps_le hd (h.nearest_width hwidth) (h.nearest_step hk hk' hwidth) ?_ ?_ hk₂ hk'
  · exact realValue_leastNormal ▸ realValue_mono rfl hstep hnormal
  · exact realValue_mono hstep hwidth (h.stepOf_mem hk hword hwidth).2

/-- Where the step is a normal number, the last point but one is not beyond the end. -/
theorem pointAt_le (hnormal : Scalar.leastNormal ≤ stepOf lo hi k) :
    pointAt lo hi k (k - 1) ≤ hi := by
  have hword : k < 2 ^ 64 := by omega
  have hlo := isNaN_of_isFinite h.lower
  have hstep := h.isFinite_stepOf hk hword hwidth
  have hcount : (Scalar.ofCount (k - 1) : Float).isFinite := isFinite_ofCount (by omega)
  have hproduct := isNaN_mul hstep hcount
  have hsum := isNaN_add hlo hproduct (.inl h.lower)
  have hwidthLt : realValue hi - realValue lo < 2 ^ (1024 : ℤ) := by
    by_contra hge
    have hmono := nearest_mono (by positivity) (not_lt.mp hge)
    rw [nearest_two_zpow (by norm_num), h.nearest_width hwidth] at hmono
    exact hmono.not_gt (realOf_lt (isStorable_toModel _))
  have hsteps := h.steps_le hk hk' hwidth hnormal
  have hcount' : (0 : ℝ) ≤ k - 1 := sub_nonneg.mpr (by exact_mod_cast hk)
  have hvalue : extended (stepOf lo hi k * Scalar.ofCount (k - 1)) ≤
      ((realValue hi - realValue lo : ℝ) : EReal) := by
    rw [extended_mul (isNaN_of_isFinite hstep) (extended_ofCount _).1 hproduct,
      extended_eq_realValue hstep, extended_eq_realValue hcount, realValue_ofCount (by omega),
      ← EReal.coe_mul, Nat.cast_sub hk, Nat.cast_one]
    change rounded (realValue (stepOf lo hi k) * (k - 1)) ≤ _
    rw [rounded_of_nonneg (mul_nonneg (h.realValue_stepOf_nonneg hk hword hwidth) hcount'),
      overflow_of_abs_lt ?_]
    · exact EReal.coe_le_coe_iff.mpr hsteps
    · rw [abs_of_nonneg (nearest_nonneg _)]
      exact hsteps.trans_lt hwidthLt
  rw [pointAt, float_le_iff_extended hsum (isNaN_of_isFinite h.upper),
    extended_add hlo hproduct hsum, ← nearestExtended_extended hi]
  refine nearestExtended_mono ((add_le_add_right hvalue _).trans ?_)
  rw [extended_eq_realValue h.lower, extended_eq_realValue h.upper, ← EReal.coe_add]
  simp

end

/-- **Where the step is a normal number**, the points are a grid exactly if the ends are not too far
apart. -/
theorem isGrid_iff_of_normal (hk : 1 ≤ k) (hk' : k ≤ 2 ^ 51)
    (hnormal : Scalar.leastNormal ≤ stepOf lo hi k) :
    IsGrid lo hi (k + 1) (evenlySpaced lo hi (k + 1)) ↔ (hi - lo).isFinite := by
  have hword : k < 2 ^ 64 := by omega
  rw [h.isGrid_iff hk hword]
  constructor
  · intro hle
    by_contra hover
    exact h.not_pointAt_le hk hword hover _ hle
  · exact fun hwidth => h.pointAt_le hk hk' hwidth hnormal

end IsSpan

end FitSession
