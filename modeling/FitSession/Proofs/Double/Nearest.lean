import Mathlib

/-!
# Rounding to double precision

Double precision numbers are the multiples of a power of two that grows with their size. A real
number is rounded to the nearest of them, and one that is too large becomes infinite.

* `halfEven`: the nearest natural number, of two the even one;
* `spacing`, `nearest`: the exponent of the power of two, and the nearest multiple of it;
* `rounded`: the nearest double precision number, with its sign and the infinities;
* `rounded_mono`: **rounding keeps the order**;
* `rounded_of_dyadic`: **what is a double precision number is not rounded**;
* `extendedOf`, `Stands`: the numbers that unpacked ones and mantissas with residual bits stand for.
-/

namespace FitSession

/-! ## Natural numbers -/

/-- The natural number nearest to a real number that is not negative; of two the even one. -/
noncomputable def halfEven (x : ℝ) : ℕ :=
  if x - ⌊x⌋₊ < 1 / 2 then ⌊x⌋₊
  else if 1 / 2 < x - ⌊x⌋₊ then ⌊x⌋₊ + 1
  else ⌊x⌋₊ + ⌊x⌋₊ % 2

theorem floor_le_halfEven (x : ℝ) : ⌊x⌋₊ ≤ halfEven x := by
  unfold halfEven
  split_ifs <;> omega

theorem halfEven_le_succ_floor (x : ℝ) : halfEven x ≤ ⌊x⌋₊ + 1 := by
  unfold halfEven
  split_ifs <;> omega

theorem halfEven_mono : Monotone halfEven := by
  intro x y h
  rcases (Nat.floor_mono h).lt_or_eq with hlt | heq
  · exact (halfEven_le_succ_floor x).trans (Nat.succ_le_of_lt hlt |>.trans (floor_le_halfEven y))
  · unfold halfEven
    rw [heq]
    split_ifs <;> first | omega | linarith

@[simp] theorem halfEven_natCast (n : ℕ) : halfEven (n : ℝ) = n := by
  simp [halfEven]

@[simp] theorem halfEven_zero : halfEven 0 = 0 := by
  simpa using halfEven_natCast 0

/-! ## Multiples of powers of two -/

/-- The exponent of the spacing of double precision numbers around `x`. -/
noncomputable def spacing (x : ℝ) : ℤ := max (Int.log 2 x - 52) (-1074)

/-- The double precision number nearest to a real number that is not negative, without a bound on
its size. -/
noncomputable def nearest (x : ℝ) : ℝ := halfEven (x / 2 ^ spacing x) * 2 ^ spacing x

theorem nearest_nonneg (x : ℝ) : 0 ≤ nearest x := by
  unfold nearest
  positivity

@[simp] theorem nearest_zero : nearest 0 = 0 := by
  simp [nearest]

theorem spacing_mono {x y : ℝ} (hx : 0 < x) (h : x ≤ y) : spacing x ≤ spacing y :=
  max_le_max (sub_le_sub_right (Int.log_mono_right hx h) 52) le_rfl

/-- A natural multiple of the spacing bounds the rounding from above. -/
theorem nearest_le {x : ℝ} {n : ℕ} (h : x ≤ n * 2 ^ spacing x) :
    nearest x ≤ n * 2 ^ spacing x := by
  have hpos : (0 : ℝ) < 2 ^ spacing x := by positivity
  have hdiv : halfEven (x / 2 ^ spacing x) ≤ n := by
    rw [← halfEven_natCast n]
    exact halfEven_mono ((div_le_iff₀ hpos).mpr h)
  exact mul_le_mul_of_nonneg_right (by exact_mod_cast hdiv) hpos.le

theorem le_nearest {x : ℝ} {n : ℕ} (h : n * 2 ^ spacing x ≤ x) :
    n * 2 ^ spacing x ≤ nearest x := by
  have hpos : (0 : ℝ) < 2 ^ spacing x := by positivity
  have hdiv : n ≤ halfEven (x / 2 ^ spacing x) := by
    rw [← halfEven_natCast n]
    exact halfEven_mono ((le_div_iff₀ hpos).mpr h)
  exact mul_le_mul_of_nonneg_right (by exact_mod_cast hdiv) hpos.le

/-- Between numbers of different spacing there is the least number of the larger one, which is a
multiple of both. -/
theorem nearest_mono_of_spacing_lt {x y : ℝ} (hx : 0 < x) (hxy : x ≤ y)
    (h : spacing x < spacing y) : nearest x ≤ nearest y := by
  have hy : 0 < y := hx.trans_le hxy
  have hlog : spacing y = Int.log 2 y - 52 := by
    have := h.trans_le' (le_max_right _ _ : (-1074 : ℤ) ≤ spacing x)
    unfold spacing at this ⊢
    omega
  have hedge : (2 : ℝ) ^ (52 : ℕ) * 2 ^ spacing y ≤ y := by
    rw [hlog, ← zpow_natCast, ← zpow_add₀ two_ne_zero]
    simpa using Int.zpow_log_le_self (b := 2) (by norm_num) hy
  obtain ⟨k, hk⟩ : ∃ k : ℕ, spacing y = spacing x + k := ⟨(spacing y - spacing x).toNat, by omega⟩
  have hbelow : x ≤ ((2 ^ (52 + k) : ℕ) : ℝ) * 2 ^ spacing x := by
    have hlt : x < 2 ^ (Int.log 2 x + 1) := Int.lt_zpow_succ_log_self (b := 2) (by norm_num) x
    refine hlt.le.trans ?_
    push_cast
    rw [← zpow_natCast, ← zpow_add₀ two_ne_zero]
    refine zpow_le_zpow_right₀ one_le_two ?_
    have : Int.log 2 x - 52 ≤ spacing x := le_max_left _ _
    push_cast
    omega
  calc nearest x ≤ ((2 ^ (52 + k) : ℕ) : ℝ) * 2 ^ spacing x := nearest_le hbelow
    _ = ((2 ^ 52 : ℕ) : ℝ) * 2 ^ spacing y := by
      rw [hk, zpow_add₀ two_ne_zero, zpow_natCast]
      push_cast
      ring
    _ ≤ nearest y := le_nearest (by exact_mod_cast hedge)

theorem nearest_mono {x y : ℝ} (hx : 0 ≤ x) (hxy : x ≤ y) : nearest x ≤ nearest y := by
  rcases hx.eq_or_lt with rfl | hx
  · simpa using nearest_nonneg y
  rcases (spacing_mono hx hxy).lt_or_eq with hlt | heq
  · exact nearest_mono_of_spacing_lt hx hxy hlt
  · unfold nearest
    rw [heq]
    have hpos : (0 : ℝ) < 2 ^ spacing y := by positivity
    have hdiv := halfEven_mono (div_le_div_of_nonneg_right hxy hpos.le)
    exact mul_le_mul_of_nonneg_right (by exact_mod_cast hdiv) hpos.le

/-- A number between two powers of two has the exponent of the lower one. -/
theorem log_of_bounds {x : ℝ} {k : ℤ} (hlo : (2 : ℝ) ^ k ≤ x) (hhi : x < 2 ^ (k + 1)) :
    Int.log 2 x = k := by
  have hx : 0 < x := (by positivity : (0 : ℝ) < 2 ^ k).trans_le hlo
  apply le_antisymm
  · have hlt := (Int.lt_zpow_iff_log_lt (b := 2) (by norm_num) hx).mp (by exact_mod_cast hhi)
    exact Int.lt_add_one_iff.mp hlt
  · exact (Int.zpow_le_iff_le_log (by norm_num) hx).mp (by exact_mod_cast hlo)

/-- A mantissa of at most 53 binary places, with an exponent that is not too small, needs no
rounding. -/
theorem nearest_of_dyadic {m : ℕ} {e : ℤ} (hm : m < 2 ^ 53) (he : -1074 ≤ e) :
    nearest (m * 2 ^ e) = m * 2 ^ e := by
  rcases Nat.eq_zero_or_pos m with rfl | hpos
  · simp
  have hspacing : spacing ((m : ℝ) * 2 ^ e) ≤ e := by
    refine max_le ?_ he
    have hlt : (m : ℝ) * 2 ^ e < 2 ^ (53 + e) := by
      rw [zpow_add₀ two_ne_zero]
      exact mul_lt_mul_of_pos_right (by exact_mod_cast hm) (by positivity)
    have := (Int.lt_zpow_iff_log_lt (b := 2) (by norm_num)
      (by positivity : (0 : ℝ) < m * 2 ^ e)).mp (by exact_mod_cast hlt)
    omega
  obtain ⟨k, hk⟩ : ∃ k : ℕ, e = spacing ((m : ℝ) * 2 ^ e) + k :=
    ⟨(e - spacing ((m : ℝ) * 2 ^ e)).toNat, by omega⟩
  have hmultiple : (m : ℝ) * 2 ^ e = ((m * 2 ^ k : ℕ) : ℝ) * 2 ^ spacing ((m : ℝ) * 2 ^ e) := by
    conv_lhs => rw [hk, zpow_add₀ two_ne_zero, zpow_natCast]
    push_cast
    ring
  exact le_antisymm ((nearest_le hmultiple.le).trans hmultiple.ge)
    (hmultiple.le.trans (le_nearest hmultiple.ge))

/-- The mantissa of a rounded number has at most 53 places, or has just carried into one more. -/
theorem halfEven_le_carry (x : ℝ) : halfEven (x / 2 ^ spacing x) ≤ 2 ^ 53 := by
  have hlog : Int.log 2 x + 1 ≤ 53 + spacing x := by
    have : Int.log 2 x - 52 ≤ spacing x := le_max_left _ _
    omega
  have hlt : x < 2 ^ (53 : ℤ) * 2 ^ spacing x := by
    rw [← zpow_add₀ two_ne_zero]
    exact (Int.lt_zpow_succ_log_self (b := 2) (by norm_num) x).trans_le
      (zpow_le_zpow_right₀ one_le_two hlog)
  rw [← halfEven_natCast (2 ^ 53)]
  refine halfEven_mono ((div_le_iff₀ (by positivity)).mpr ?_)
  exact_mod_cast hlt.le

/-- The mantissa of a rounded number has a leading digit, unless the spacing is the least one. -/
theorem leading_le_halfEven {x : ℝ} (hx : 0 < x) :
    2 ^ 52 ≤ halfEven (x / 2 ^ spacing x) ∨ spacing x = -1074 := by
  rcases le_or_gt (Int.log 2 x - 52) (-1074) with hsmall | hlarge
  · exact .inr (max_eq_right hsmall)
  · left
    have hspacing : spacing x = Int.log 2 x - 52 := max_eq_left hlarge.le
    have hle : 2 ^ (52 : ℤ) * 2 ^ spacing x ≤ x := by
      rw [hspacing, ← zpow_add₀ two_ne_zero]
      simpa using Int.zpow_log_le_self (b := 2) (by norm_num) hx
    rw [← halfEven_natCast (2 ^ 52)]
    refine halfEven_mono ((le_div_iff₀ (by positivity)).mpr ?_)
    exact_mod_cast hle

/-! ## Signs and infinities -/

/-- The double precision number nearest to a real number, without a bound on its size. -/
noncomputable def signedNearest (x : ℝ) : ℝ := if x < 0 then -nearest (-x) else nearest x

theorem signedNearest_neg (x : ℝ) : signedNearest (-x) = -signedNearest x := by
  rcases lt_trichotomy x 0 with h | rfl | h
  · simp [signedNearest, h, h.le]
  · simp [signedNearest]
  · simp [signedNearest, h, h.le]

theorem signedNearest_mono : Monotone signedNearest := by
  intro x y h
  unfold signedNearest
  split_ifs with hx hy hy
  · exact neg_le_neg (nearest_mono (by linarith) (by linarith))
  · exact (neg_nonpos.mpr (nearest_nonneg _)).trans (nearest_nonneg y)
  · linarith
  · exact nearest_mono (not_lt.mp hx) h

/-- A number from `2¹⁰²⁴` on becomes infinite. -/
noncomputable def overflow (x : ℝ) : EReal :=
  if 2 ^ (1024 : ℤ) ≤ x then ⊤ else if x ≤ -2 ^ (1024 : ℤ) then ⊥ else x

theorem overflow_of_abs_lt {x : ℝ} (h : |x| < 2 ^ (1024 : ℤ)) : overflow x = x := by
  obtain ⟨hlo, hhi⟩ := abs_lt.mp h
  rw [overflow, if_neg (not_le.mpr hhi), if_neg (not_le.mpr hlo)]

@[simp] theorem overflow_zero : overflow 0 = 0 := by
  rw [overflow_of_abs_lt (by rw [abs_zero]; positivity)]
  rfl

theorem overflow_of_le {x : ℝ} (h : 2 ^ (1024 : ℤ) ≤ x) : overflow x = ⊤ := if_pos h

theorem le_overflow {x : ℝ} (h : 0 ≤ x) : (x : EReal) ≤ overflow x := by
  have hpos : (0 : ℝ) < 2 ^ (1024 : ℤ) := by positivity
  unfold overflow
  split_ifs with htop hbot
  · exact le_top
  · exact absurd (hbot.trans_lt (neg_neg_of_pos hpos)) (not_lt.mpr h)
  · exact le_rfl

/-- A number below the bound is not above one that does not reach it after rounding. -/
theorem le_of_coe_le_overflow {x y : ℝ} (hx : x < 2 ^ (1024 : ℤ)) (h : (x : EReal) ≤ overflow y) :
    x ≤ y := by
  unfold overflow at h
  split_ifs at h with htop hbot
  · exact hx.le.trans htop
  · exact absurd h (by simp)
  · exact EReal.coe_le_coe_iff.mp h

theorem overflow_mono : Monotone overflow := by
  intro x y h
  have hpos : (0 : ℝ) < 2 ^ (1024 : ℤ) := by positivity
  unfold overflow
  generalize (2 : ℝ) ^ (1024 : ℤ) = bound at hpos ⊢
  split_ifs <;> first | exact le_top | exact bot_le | exact_mod_cast h | (exfalso; linarith)

theorem overflow_neg (x : ℝ) : overflow (-x) = -overflow x := by
  have hpos : (0 : ℝ) < 2 ^ (1024 : ℤ) := by positivity
  unfold overflow
  generalize (2 : ℝ) ^ (1024 : ℤ) = bound at hpos ⊢
  split_ifs <;> first | rfl | simp; done | (exfalso; linarith)

/-- The double precision number nearest to a real number. -/
noncomputable def rounded (x : ℝ) : EReal := overflow (signedNearest x)

/-- **Rounding keeps the order.** -/
theorem rounded_mono : Monotone rounded := overflow_mono.comp signedNearest_mono

theorem rounded_neg (x : ℝ) : rounded (-x) = -rounded x := by
  rw [rounded, signedNearest_neg, overflow_neg, rounded]

theorem rounded_of_nonneg {x : ℝ} (hx : 0 ≤ x) : rounded x = overflow (nearest x) := by
  rw [rounded, signedNearest, if_neg (not_lt.mpr hx)]

/-- The double precision number nearest to an extended real number. -/
noncomputable def nearestExtended : EReal → EReal
  | ⊥ => ⊥
  | ⊤ => ⊤
  | (x : ℝ) => rounded x

theorem nearestExtended_mono : Monotone nearestExtended := by
  intro x y h
  induction x with
  | bot => exact bot_le
  | top => rw [top_le_iff.mp h]
  | coe x =>
    induction y with
    | bot => exact absurd h (by simp)
    | top => exact le_top
    | coe y => exact rounded_mono (EReal.coe_le_coe_iff.mp h)

/-- A mantissa of at most 53 binary places and an exponent of at most 971 make no infinity. -/
theorem dyadic_lt {m : ℕ} {e : ℤ} (hm : m < 2 ^ 53) (he : e ≤ 971) :
    (m : ℝ) * 2 ^ e < 2 ^ (1024 : ℤ) := by
  calc (m : ℝ) * 2 ^ e < 2 ^ (53 : ℤ) * 2 ^ e :=
        mul_lt_mul_of_pos_right (by exact_mod_cast hm) (by positivity)
    _ ≤ 2 ^ (53 : ℤ) * 2 ^ (971 : ℤ) :=
        mul_le_mul_of_nonneg_left (zpow_le_zpow_right₀ one_le_two he) (by positivity)
    _ = 2 ^ (1024 : ℤ) := by rw [← zpow_add₀ two_ne_zero]; rfl

/-- **What is a double precision number is not rounded.** -/
theorem rounded_of_dyadic {m : ℕ} {e : ℤ} (hm : m < 2 ^ 53) (hlo : -1074 ≤ e) (hhi : e ≤ 971) :
    rounded (m * 2 ^ e) = ((m * 2 ^ e : ℝ) : EReal) := by
  have hnonneg : (0 : ℝ) ≤ m * 2 ^ e := by positivity
  rw [rounded_of_nonneg hnonneg, nearest_of_dyadic hm hlo, overflow_of_abs_lt]
  rw [abs_of_nonneg hnonneg]
  exact dyadic_lt hm hhi

/-! ## What is stored -/

open Float.Model Float.Model.UnpackedFloat

/-- The extended real number that an unpacked number stands for; a NaN stands for none. -/
noncomputable def extendedOf : UnpackedFloat → EReal
  | .infinity .positive => ⊤
  | .infinity .negative => ⊥
  | .finite s m e _ => ((s.apply m * 2 ^ e : ℝ) : EReal)
  | _ => 0

/-- The mantissa with its residual bits stands for `y`. -/
def Stands (em : ExtendedMantissa) (y : ℝ) : Prop :=
  match em.roundBit, em.stickyBit with
  | false, false => y = em.mantissa
  | false, true => (em.mantissa : ℝ) < y ∧ y < em.mantissa + 1 / 2
  | true, false => y = em.mantissa + 1 / 2
  | true, true => (em.mantissa : ℝ) + 1 / 2 < y ∧ y < em.mantissa + 1

end FitSession
