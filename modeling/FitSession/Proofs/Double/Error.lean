import FitSession.Proofs.Double.Arithmetic

/-!
# Errors of rounding

Rounding moves a number by half of the spacing at most, which is a small part of the number as long
as the spacing is not the least one. The error of a square is so small that its root is rounded back
to the number that was squared.

* `abs_nearest_sub_le`, `abs_nearest_sub_le_mul`: the error, absolute and as a part of the number;
* `nearest_sqrt_nearest_sq`: the root of a square;
* `realValue`, `exists_mantissa`: finite numbers as real numbers;
* `roundedRoot`, `roundedRoot_sq`, `roundedRoot_sq_of_le`: **roots of squares**, as far as the
  square is neither too small nor too large.
-/

namespace FitSession

/-! ## How far a number is moved -/

theorem nearest_two_zpow {e : ℤ} (he : -1074 ≤ e) : nearest (2 ^ e) = 2 ^ e := by
  simpa using nearest_of_dyadic (m := 1) (by norm_num) he

theorem abs_halfEven_sub_le {x : ℝ} (hx : 0 ≤ x) : |(halfEven x : ℝ) - x| ≤ 1 / 2 := by
  have hlo := Nat.floor_le hx
  have hhi := Nat.lt_floor_add_one x
  rw [abs_le]
  unfold halfEven
  split_ifs with hbelow habove
  · constructor <;> linarith
  · push_cast
    constructor <;> linarith
  · have hbit : ((⌊x⌋₊ % 2 : ℕ) : ℝ) ≤ 1 := by exact_mod_cast (by omega : ⌊x⌋₊ % 2 ≤ 1)
    have hbit' : (0 : ℝ) ≤ ((⌊x⌋₊ % 2 : ℕ) : ℝ) := Nat.cast_nonneg _
    push_cast at hbit hbit' ⊢
    constructor <;> linarith

/-- Rounding moves a number by half of the spacing at most. -/
theorem abs_nearest_sub_le {x : ℝ} (hx : 0 ≤ x) : |nearest x - x| ≤ 2 ^ spacing x / 2 := by
  have hpos : (0 : ℝ) < 2 ^ spacing x := by positivity
  have herror := abs_halfEven_sub_le (div_nonneg hx hpos.le)
  have hscaled : nearest x - x =
      (halfEven (x / 2 ^ spacing x) - x / 2 ^ spacing x) * 2 ^ spacing x := by
    rw [nearest, sub_mul, div_mul_cancel₀ _ hpos.ne']
  rw [hscaled, abs_mul, abs_of_pos hpos]
  linarith [mul_le_mul_of_nonneg_right herror hpos.le]

/-- The spacing is a small part of a number that is not too small. -/
theorem zpow_spacing_le {x : ℝ} (hx : 2 ^ (-1022 : ℤ) ≤ x) :
    (2 : ℝ) ^ spacing x ≤ 2 ^ (-52 : ℤ) * x := by
  have hpos : 0 < x := (by positivity : (0 : ℝ) < 2 ^ (-1022 : ℤ)).trans_le hx
  have hlog : -1022 ≤ Int.log 2 x :=
    (Int.zpow_le_iff_le_log (by norm_num) hpos).mp (by exact_mod_cast hx)
  have hspacing : spacing x = -52 + Int.log 2 x := by
    unfold spacing
    omega
  rw [hspacing, zpow_add₀ two_ne_zero]
  exact mul_le_mul_of_nonneg_left (Int.zpow_log_le_self (by norm_num) hpos) (by positivity)

/-- Rounding moves a number that is not too small by a small part of it. -/
theorem abs_nearest_sub_le_mul {x : ℝ} (hx : 2 ^ (-1022 : ℤ) ≤ x) :
    |nearest x - x| ≤ 2 ^ (-53 : ℤ) * x := by
  have hnonneg : 0 ≤ x := (by positivity : (0 : ℝ) ≤ 2 ^ (-1022 : ℤ)).trans hx
  have hspacing := zpow_spacing_le hx
  calc |nearest x - x| ≤ 2 ^ spacing x / 2 := abs_nearest_sub_le hnonneg
    _ ≤ 2 ^ (-52 : ℤ) * x / 2 := div_le_div_of_nonneg_right hspacing two_pos.le
    _ = 2 ^ (-53 : ℤ) * x := by norm_num; ring

/-- What is within half a unit of a natural number is rounded to it. -/
theorem halfEven_eq_of_abs_lt {x : ℝ} {n : ℕ} (hx : 0 ≤ x) (h : |x - n| < 1 / 2) :
    halfEven x = n := by
  have herror := abs_halfEven_sub_le hx
  have hlt : |(halfEven x : ℝ) - n| < 1 := by
    calc |(halfEven x : ℝ) - n| ≤ |(halfEven x : ℝ) - x| + |x - n| := abs_sub_le _ _ _
      _ < 1 := by linarith
  have hint : |(halfEven x : ℤ) - n| < 1 := by exact_mod_cast hlt
  rw [Int.abs_lt_one_iff] at hint
  omega

/-- What is within half a unit of a mantissa with all its places is rounded to it. -/
theorem nearest_eq_of_abs_lt {x : ℝ} {m : ℕ} {e : ℤ} (hm : m < 2 ^ 53) (he : -1074 ≤ e)
    (hlo : 2 ^ (52 + e) ≤ x) (h : |x - m * 2 ^ e| < 2 ^ e / 2) : nearest x = m * 2 ^ e := by
  have hpos : (0 : ℝ) < 2 ^ e := by positivity
  have hnonneg : 0 ≤ x := (by positivity : (0 : ℝ) ≤ 2 ^ (52 + e)).trans hlo
  have hm' : (m : ℝ) + 1 ≤ 2 ^ 53 := by exact_mod_cast hm
  have hlog : Int.log 2 x = 52 + e := by
    refine log_of_bounds hlo ?_
    calc x < (m + 1) * 2 ^ e := by linarith [(abs_lt.mp h).2]
      _ ≤ 2 ^ 53 * 2 ^ e := mul_le_mul_of_nonneg_right hm' hpos.le
      _ = 2 ^ (52 + e + 1) := by
        rw [← zpow_natCast, ← zpow_add₀ two_ne_zero]
        congr 1
        push_cast
        ring
  have hspacing : spacing x = e := by
    unfold spacing
    omega
  have hhalf : |x / 2 ^ e - m| < 1 / 2 := by
    rw [show x / 2 ^ e - m = (x - m * 2 ^ e) / 2 ^ e by field_simp, abs_div, abs_of_pos hpos,
      div_lt_iff₀ hpos]
    linarith
  rw [nearest, hspacing, halfEven_eq_of_abs_lt (div_nonneg hnonneg hpos.le) hhalf]

/-! ## Numbers up to one -/

/-- A number up to one is moved by half a unit in its last place at most. -/
theorem abs_nearest_sub_le_of_le_one {x : ℝ} (hx : 0 ≤ x) (h : x ≤ 1) :
    |nearest x - x| ≤ 2 ^ (-53 : ℤ) := by
  rcases hx.eq_or_lt with rfl | hpos
  · simp
  have hspacing : spacing x ≤ -52 := (spacing_mono hpos h).trans_eq (by simp [spacing])
  calc |nearest x - x| ≤ 2 ^ spacing x / 2 := abs_nearest_sub_le hx
    _ ≤ 2 ^ (-52 : ℤ) / 2 :=
      div_le_div_of_nonneg_right (zpow_le_zpow_right₀ one_le_two hspacing) two_pos.le
    _ = 2 ^ (-53 : ℤ) := by norm_num

theorem abs_signedNearest_le_one {x : ℝ} (h : |x| ≤ 1) : |signedNearest x| ≤ 1 := by
  obtain ⟨hlo, hhi⟩ := abs_le.mp h
  have hone : signedNearest 1 = 1 := by
    rw [signedNearest, if_neg (by norm_num), ← zpow_zero (2 : ℝ), nearest_two_zpow (by norm_num)]
  have hle := signedNearest_mono hhi
  have hge := signedNearest_mono hlo
  rw [signedNearest_neg, hone] at hge
  exact abs_le.mpr ⟨hge, hone ▸ hle⟩

/-- A number of magnitude up to one does not become infinite. -/
theorem rounded_of_abs_le_one {x : ℝ} (h : |x| ≤ 1) : rounded x = (signedNearest x : ℝ) :=
  overflow_of_abs_lt ((abs_signedNearest_le_one h).trans_lt (one_lt_zpow₀ one_lt_two (by norm_num)))

/-! ## Roots of squares -/

/-- The root of a number near a square is near what was squared. -/
theorem abs_sqrt_sub_le {x y u : ℝ} (hx : 0 ≤ x) (hu : 0 ≤ u) (hu' : u ≤ 1)
    (h : |y - x ^ 2| ≤ u * x ^ 2) : |√y - x| ≤ u / 2 * (1 + u) * x := by
  obtain ⟨hlo, hhi⟩ := abs_le.mp h
  rw [abs_le]
  constructor
  · have hfactor : (1 - u / 2 * (1 + u)) ^ 2 ≤ 1 - u := by
      have hfour : (1 + u) ^ 2 ≤ 4 := by nlinarith
      nlinarith [mul_nonneg (sq_nonneg u) (sub_nonneg.mpr hfour)]
    have hroot : (1 - u / 2 * (1 + u)) * x ≤ √y := by
      refine Real.le_sqrt_of_sq_le ?_
      calc ((1 - u / 2 * (1 + u)) * x) ^ 2 = (1 - u / 2 * (1 + u)) ^ 2 * x ^ 2 := mul_pow ..
        _ ≤ (1 - u) * x ^ 2 := mul_le_mul_of_nonneg_right hfactor (sq_nonneg x)
        _ ≤ y := by linarith
    linarith
  · have hfactor : 1 + u ≤ (1 + u / 2) ^ 2 := by nlinarith [sq_nonneg u]
    have hroot : √y ≤ (1 + u / 2) * x := by
      refine Real.sqrt_le_iff.mpr ⟨by positivity, ?_⟩
      calc y ≤ (1 + u) * x ^ 2 := by linarith
        _ ≤ (1 + u / 2) ^ 2 * x ^ 2 := mul_le_mul_of_nonneg_right hfactor (sq_nonneg x)
        _ = ((1 + u / 2) * x) ^ 2 := (mul_pow ..).symm
    nlinarith [mul_nonneg (mul_nonneg hu hu) hx]

/-- The root of a square is the number that was squared, although the square is rounded. -/
theorem nearest_sqrt_nearest_sq {m : ℕ} {e : ℤ} (hm : m < 2 ^ 53) (hlead : 2 ^ 52 ≤ m)
    (he : -563 ≤ e) : nearest √(nearest ((m * 2 ^ e) ^ 2)) = m * 2 ^ e := by
  have hpos : (0 : ℝ) < 2 ^ e := by positivity
  have hm' : (m : ℝ) + 1 ≤ 2 ^ 53 := by exact_mod_cast hm
  have hx : (2 : ℝ) ^ (52 + e) ≤ m * 2 ^ e := by
    rw [zpow_add₀ two_ne_zero]
    exact mul_le_mul_of_nonneg_right (by exact_mod_cast hlead) hpos.le
  have hsquare : 2 ^ (2 * (52 + e)) ≤ (m * 2 ^ e : ℝ) ^ 2 := by
    rw [mul_comm, zpow_mul]
    exact pow_le_pow_left₀ (by positivity) hx 2
  have hnormal : 2 ^ (-1022 : ℤ) ≤ (m * 2 ^ e : ℝ) ^ 2 :=
    (zpow_le_zpow_right₀ one_le_two (by omega)).trans hsquare
  have hroot : 2 ^ (52 + e) ≤ √(nearest ((m * 2 ^ e) ^ 2)) := by
    refine Real.le_sqrt_of_sq_le ?_
    rw [← zpow_natCast, ← zpow_mul, mul_comm, Nat.cast_ofNat, ← nearest_two_zpow (by omega)]
    exact nearest_mono (by positivity) hsquare
  refine nearest_eq_of_abs_lt hm (by omega) hroot ?_
  refine (abs_sqrt_sub_le (by positivity) (by positivity) (by norm_num)
    (abs_nearest_sub_le_mul hnormal)).trans_lt ?_
  rw [← mul_assoc, div_eq_inv_mul (2 ^ e) (2 : ℝ)]
  refine mul_lt_mul_of_pos_right ?_ hpos
  norm_num at hm' ⊢
  linarith

/-! ## Finite numbers -/

/-- The real number that a finite number stands for. -/
noncomputable def realValue (x : Float) : ℝ := realOf x.toModel.unpack

@[simp] theorem realValue_zero : realValue 0 = 0 := rfl

/-- A positive number by its mantissa and exponent. -/
theorem realValue_of_unpack {x : Float} {m : ℕ} {e : ℤ} {h : 0 < m}
    (hx : x.toModel.unpack = .finite .positive m e h) : realValue x = m * 2 ^ e := by
  rw [realValue, hx, realOf_finite]
  simp [Float.Model.UnpackedFloat.Sign.apply]

section

variable {x : Float} (hx : x.isFinite)

include hx

theorem extended_eq_realValue : extended x = realValue x := extended_of_isFinite hx

omit hx in
/-- What stands for a real number is finite. -/
theorem isFinite_of_extended_eq (hnan : x.isNaN = false) {y : ℝ} (h : extended x = y) :
    x.isFinite ∧ realValue x = y := by
  have hfinite : x.isFinite := by
    by_contra hinf
    rcases extended_of_not_isFinite hnan hinf with hbot | htop
    · exact EReal.coe_ne_bot y (h.symm.trans hbot)
    · exact EReal.coe_ne_top y (h.symm.trans htop)
  exact ⟨hfinite, EReal.coe_injective ((extended_eq_realValue hfinite).symm.trans h)⟩

theorem realValue_pos (h : 0 < x) : 0 < realValue x := by
  rw [float_lt_iff_extended rfl (isNaN_of_isFinite hx), extended_eq_realValue hx] at h
  exact EReal.coe_pos.mp h

theorem realValue_mono {y : Float} (hy : y.isFinite) (h : x ≤ y) : realValue x ≤ realValue y := by
  have hle := extended_le h
  rwa [extended_eq_realValue hx, extended_eq_realValue hy, EReal.coe_le_coe_iff] at hle

theorem nearestExtended_realValue : nearestExtended (realValue x) = realValue x := by
  rw [← extended_eq_realValue hx, nearestExtended_extended]

/-- The mantissa and the exponent of a number. -/
theorem exists_mantissa (h : realValue x ≠ 0) :
    ∃ m e, IsCanonical m e ∧ e ≤ 971 ∧ |realValue x| = m * 2 ^ e := by
  have hs := isStorable_toModel x
  change x.toModel.unpack.isFinite = true at hx
  unfold realValue at h ⊢
  generalize x.toModel.unpack = u at hs hx h ⊢
  cases u with
  | notANumber => cases hx
  | infinity s => cases hx
  | zero s => exact absurd rfl h
  | finite s m e hm =>
    refine ⟨m, e, hs.1, hs.2, ?_⟩
    cases s <;> simp [Float.Model.UnpackedFloat.Sign.apply, abs_mul]

/-- The magnitude of a number needs no rounding. -/
theorem nearestExtended_abs_realValue :
    nearestExtended (|realValue x| : ℝ) = (|realValue x| : ℝ) := by
  rcases eq_or_ne (realValue x) 0 with h | h
  · rw [h, abs_zero]
    exact rounded_zero
  · obtain ⟨m, e, hc, he, hvalue⟩ := exists_mantissa hx h
    rw [hvalue]
    exact rounded_of_dyadic hc.lt hc.least he

end

/-! ## Roots of products -/

/-- The root of a rounded number, rounded. -/
noncomputable def roundedRoot (x : ℝ) : EReal := nearestExtended (extendedRoot (rounded x))

theorem roundedRoot_mono : Monotone roundedRoot :=
  nearestExtended_mono.comp (extendedRoot_mono.comp rounded_mono)

theorem roundedRoot_nonneg (x : ℝ) : 0 ≤ roundedRoot x := by
  have hzero : nearestExtended 0 = 0 := rounded_zero
  rw [← hzero]
  exact nearestExtended_mono (extendedRoot_nonneg _)

/-- A square does not reach the bound, if one factor is below its root: the other factor has all
its places. -/
theorem nearest_sq_lt {m : ℕ} {e : ℤ} (hm : m < 2 ^ 53) (he : e ≤ 459)
    (h : m * 2 ^ e < (2 : ℝ) ^ (512 : ℤ)) : nearest ((m * 2 ^ e) ^ 2) < 2 ^ (1024 : ℤ) := by
  have hm' : (m : ℝ) ≤ ((2 ^ 53 - 1 : ℕ) : ℝ) := by exact_mod_cast Nat.le_sub_one_of_lt hm
  have hsquare : (m * 2 ^ e : ℝ) ^ 2 ≤ ((2 ^ 53 - 1 : ℕ) : ℝ) * 2 ^ (971 : ℤ) := by
    calc (m * 2 ^ e : ℝ) ^ 2 = m * 2 ^ e * (m * 2 ^ e) := sq _
      _ ≤ ((2 ^ 53 - 1 : ℕ) : ℝ) * 2 ^ e * 2 ^ (512 : ℤ) := mul_le_mul
        (mul_le_mul_of_nonneg_right hm' (by positivity)) h.le (by positivity) (by positivity)
      _ = ((2 ^ 53 - 1 : ℕ) : ℝ) * 2 ^ (e + 512) := by rw [zpow_add₀ two_ne_zero, mul_assoc]
      _ ≤ ((2 ^ 53 - 1 : ℕ) : ℝ) * 2 ^ (971 : ℤ) :=
        mul_le_mul_of_nonneg_left (zpow_le_zpow_right₀ one_le_two (by omega)) (by positivity)
  refine (nearest_mono (by positivity) hsquare).trans_lt ?_
  rw [nearest_of_dyadic (by norm_num) (by norm_num)]
  exact dyadic_lt (by norm_num) le_rfl

/-- A square that is too large is infinite, and so is its root. -/
theorem roundedRoot_sq_of_le {x : ℝ} (h : 2 ^ (512 : ℤ) ≤ |x|) : roundedRoot (x ^ 2) = ⊤ := by
  have hsquare : (2 : ℝ) ^ (1024 : ℤ) ≤ x ^ 2 := by
    calc (2 : ℝ) ^ (1024 : ℤ) = (2 ^ (512 : ℤ)) ^ 2 := by
          rw [← zpow_natCast, ← zpow_mul]
          rfl
      _ ≤ |x| ^ 2 := pow_le_pow_left₀ (by positivity) h 2
      _ = x ^ 2 := sq_abs x
  have hrounded : rounded (x ^ 2) = ⊤ := by
    rw [rounded_of_nonneg (sq_nonneg x)]
    exact overflow_of_le ((nearest_two_zpow (by norm_num)).symm.le.trans
      (nearest_mono (by positivity) hsquare))
  rw [roundedRoot, hrounded]
  rfl

section

variable {x : Float} (hx : x.isFinite) (hlo : 2 ^ (-511 : ℤ) ≤ |realValue x|)

include hx hlo

/-- **The root of a square** is the magnitude of what was squared, if the square is neither too
small nor too large. -/
theorem roundedRoot_sq (hhi : |realValue x| < 2 ^ (512 : ℤ)) :
    roundedRoot (realValue x ^ 2) = |realValue x| := by
  have hne : realValue x ≠ 0 :=
    abs_pos.mp ((by positivity : (0 : ℝ) < 2 ^ (-511 : ℤ)).trans_le hlo)
  obtain ⟨m, e, hc, he, hvalue⟩ := exists_mantissa hx hne
  rw [← sq_abs]
  rw [hvalue] at hlo hhi ⊢
  have hpos : (0 : ℝ) < 2 ^ e := by positivity
  have hleast : -563 ≤ e := by
    have hlt : (2 : ℝ) ^ (-511 : ℤ) < 2 ^ (53 + e) := by
      rw [zpow_add₀ two_ne_zero]
      exact hlo.trans_lt (mul_lt_mul_of_pos_right (by exact_mod_cast hc.lt) hpos)
    have := (zpow_lt_zpow_iff_right₀ one_lt_two).mp hlt
    omega
  have hlead : 2 ^ 52 ≤ m := hc.leading.resolve_right (by omega)
  have hmost : e ≤ 459 := by
    have hlt : (2 : ℝ) ^ (52 + e) < 2 ^ (512 : ℤ) := by
      rw [zpow_add₀ two_ne_zero]
      exact (mul_le_mul_of_nonneg_right (by exact_mod_cast hlead) hpos.le).trans_lt hhi
    have := (zpow_lt_zpow_iff_right₀ one_lt_two).mp hlt
    omega
  have hbound := nearest_sq_lt hc.lt hmost hhi
  have hrounded : rounded ((m * 2 ^ e) ^ 2) = (nearest ((m * 2 ^ e) ^ 2) : ℝ) := by
    rw [rounded_of_nonneg (by positivity), overflow_of_abs_lt]
    rwa [abs_of_nonneg (nearest_nonneg _)]
  have hmagnitude : |(m * 2 ^ e : ℝ)| < 2 ^ (1024 : ℤ) := by
    rw [abs_of_nonneg (by positivity)]
    exact dyadic_lt hc.lt he
  rw [roundedRoot, hrounded]
  change rounded √(nearest ((m * 2 ^ e) ^ 2)) = _
  rw [rounded_of_nonneg (Real.sqrt_nonneg _), nearest_sqrt_nearest_sq hc.lt hlead hleast,
    overflow_of_abs_lt hmagnitude]

/-- The root of a square that is not too small is not below what was squared. -/
theorem abs_le_roundedRoot_sq : (|realValue x| : ℝ) ≤ roundedRoot (realValue x ^ 2) := by
  rcases lt_or_ge |realValue x| (2 ^ (512 : ℤ)) with hhi | hhi
  · exact (roundedRoot_sq hx hlo hhi).ge
  · exact le_top.trans_eq (roundedRoot_sq_of_le hhi).symm

end

end FitSession
