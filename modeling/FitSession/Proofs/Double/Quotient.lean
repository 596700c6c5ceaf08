import FitSession.Proofs.Double.Arithmetic

/-!
# Quotients

A quotient of double precision numbers is the exact quotient, rounded. It is computed from the
mantissas by a division with remainder, and the remainder tells on which side of the middle of two
numbers the exact quotient is.

* `stands_div`: the integer quotient with its remainder stands for the quotient;
* `divCore_eq`: the exponent of the quotient;
* `extended_div`: **a quotient of numbers is the exact quotient, rounded**.
-/

namespace FitSession

open Float.Model (Format UnpackedFloat totalExponent)
open Float.Model.UnpackedFloat

theorem stands_div (n : ℕ) {d : ℕ} (hd : 0 < d) :
    Stands (ExtendedMantissa.ofMantissaAndAccuracy (n / d) (accuracyOfFraction (n % d) d))
      ((n : ℝ) / d) := by
  have hd' : (0 : ℝ) < d := by exact_mod_cast hd
  have hdivision : (n : ℝ) / d = (n / d : ℕ) + (n % d : ℕ) / d := by
    rw [div_eq_iff hd'.ne', add_mul, div_mul_cancel₀ _ hd'.ne']
    exact_mod_cast (Nat.div_add_mod' n d).symm
  have hlt : n % d < d := Nat.mod_lt n hd
  rw [hdivision]
  unfold accuracyOfFraction
  generalize n / d = q at *
  generalize n % d = r at *
  have hlt' : (r : ℝ) / d < 1 := (div_lt_one hd').mpr (by exact_mod_cast hlt)
  split_ifs with hzero
  · subst hzero
    change (q : ℝ) + _ = q
    simp
  · have hr : (0 : ℝ) < r / d := div_pos (by exact_mod_cast Nat.pos_of_ne_zero hzero) hd'
    rcases lt_trichotomy (2 * r) d with hcmp | hcmp | hcmp
    · have hhalf : (r : ℝ) / d < 1 / 2 := by
        rw [div_lt_div_iff₀ hd' two_pos]
        exact_mod_cast (by omega)
      rw [compare_lt_iff_lt.mpr hcmp]
      change (q : ℝ) < _ ∧ _ < (q : ℝ) + 1 / 2
      exact ⟨by linarith, by linarith⟩
    · have hhalf : (r : ℝ) / d = 1 / 2 := by
        rw [div_eq_div_iff hd'.ne' two_ne_zero]
        exact_mod_cast (by omega)
      rw [compare_eq_iff_eq.mpr hcmp]
      change (q : ℝ) + _ = q + 1 / 2
      rw [hhalf]
    · have hhalf : 1 / 2 < (r : ℝ) / d := by
        rw [div_lt_div_iff₀ two_pos hd']
        exact_mod_cast (by omega)
      rw [compare_gt_iff_gt.mpr hcmp]
      change (q : ℝ) + 1 / 2 < _ ∧ _ < (q : ℝ) + 1
      exact ⟨by linarith, by linarith⟩

/-- The exponent of a quotient, but for one place. -/
theorem le_log_div {m m' : ℕ} (hm : 0 < m) (hm' : 0 < m') (e e' : ℤ) :
    (m.log2 : ℤ) + e - (m'.log2 + 1) - e' ≤ Int.log 2 ((m : ℝ) * 2 ^ e / (m' * 2 ^ e')) := by
  refine (Int.zpow_le_iff_le_log (b := 2) (by norm_num) (by positivity)).mp ?_
  have hlo : (2 : ℝ) ^ m.log2 ≤ m := by exact_mod_cast Nat.log2_self_le hm.ne'
  have hhi : (m' : ℝ) ≤ 2 ^ (m'.log2 + 1) := by exact_mod_cast (Nat.lt_log2_self (n := m')).le
  rw [le_div_iff₀ (by positivity)]
  calc ((2 : ℕ) : ℝ) ^ ((m.log2 : ℤ) + e - (m'.log2 + 1) - e') * (m' * 2 ^ e')
      ≤ 2 ^ ((m.log2 : ℤ) + e - (m'.log2 + 1) - e') * (2 ^ (m'.log2 + 1) * 2 ^ e') :=
        mul_le_mul_of_nonneg_left (mul_le_mul_of_nonneg_right hhi (by positivity)) (by positivity)
    _ = 2 ^ m.log2 * 2 ^ e := by
        rw [← zpow_natCast, ← zpow_natCast, ← zpow_add₀ two_ne_zero, ← zpow_add₀ two_ne_zero,
          ← zpow_add₀ two_ne_zero]
        congr 1
        push_cast
        ring
    _ ≤ m * 2 ^ e := mul_le_mul_of_nonneg_right hlo (by positivity)

/-- The dividend is scaled by a power of two, until the integer quotient has enough places. -/
theorem divCore_eq {m m' : ℕ} (hm : 0 < m) (hm' : 0 < m') (e e' : ℤ) :
    ∃ n t, divCore Format.binary64 m e m' e' = (n / m', t, accuracyOfFraction (n % m') m') ∧
      0 < n ∧ (m : ℝ) * 2 ^ e / (m' * 2 ^ e') = n / m' * 2 ^ t ∧
      t ≤ spacing ((n : ℝ) / m' * 2 ^ t) ∧ (0 < n / m' ∨ t ≤ -1074) := by
  obtain ⟨t, ht⟩ : ∃ t, t = min (e - e')
    (Format.binary64.targetExponent (totalExponent m e - totalExponent m' e')) := ⟨_, rfl⟩
  have htarget : t ≤ max (((m.log2 : ℤ) + 1 + e) - ((m'.log2 : ℤ) + 1 + e') - 53) (-1074) :=
    ht ▸ min_le_right _ _
  have hle : t ≤ e - e' := ht ▸ min_le_left _ _
  obtain ⟨k, hk⟩ : ∃ k : ℕ, e - e' = t + k := ⟨(e - e' - t).toNat, by omega⟩
  have hvalue : (m : ℝ) * 2 ^ e / (m' * 2 ^ e') = ((m <<< k : ℕ) : ℝ) / m' * 2 ^ t := by
    rw [Nat.shiftLeft_eq, mul_div_mul_comm, ← zpow_sub₀ two_ne_zero, hk, zpow_add₀ two_ne_zero,
      zpow_natCast]
    push_cast
    ring
  have hlog := le_log_div hm hm' e e'
  refine ⟨m <<< k, t, ?_, ?_, hvalue, ?_, ?_⟩
  · rw [show k = (e - e' - t).toNat by omega, ht]
    rfl
  · rw [Nat.shiftLeft_eq]
    positivity
  · rw [← hvalue, spacing]
    omega
  · rcases le_max_iff.mp htarget with hlarge | hsmall
    · left
      refine Nat.div_pos ?_ hm'
      calc m' ≤ 2 ^ (m'.log2 + 1) := Nat.lt_log2_self.le
        _ ≤ 2 ^ (m.log2 + k) := Nat.pow_le_pow_right two_pos (by omega)
        _ ≤ m <<< k := by
          rw [pow_add, Nat.shiftLeft_eq]
          exact Nat.mul_le_mul_right _ (Nat.log2_self_le hm.ne')
    · exact .inr hsmall

theorem sign_div (s s' : Sign) : s / s' = s * s' := by
  cases s <;> cases s' <;> rfl

section

variable {a b : UnpackedFloat} (hfa : a.isFinite)

include hfa

/-- A quotient by a finite number other than zero is the exact quotient, rounded. -/
theorem extendedOf_div (hfb : b.isFinite) (hb : realOf b ≠ 0) :
    extendedOf (stored (div Format.binary64 a b)) = rounded (realOf a / realOf b) := by
  cases b with
  | notANumber => cases hfb
  | infinity s' => cases hfb
  | zero s' => exact absurd rfl hb
  | finite s' m' e' hm' =>
    cases a with
    | notANumber => cases hfa
    | infinity s => cases hfa
    | zero s =>
      rw [realOf_zero, zero_div, rounded_zero]
      exact extendedOf_stored_zero (s / s')
    | finite s m e hm =>
      obtain ⟨n, t, hcore, hn, hvalue, hspacing, hplaces⟩ := divCore_eq hm hm' e e'
      have hpos : (0 : ℝ) < (n : ℝ) / m' := by positivity
      change extendedOf (stored (roundWithAccuracy Format.binary64 (s / s')
        (divCore Format.binary64 m e m' e').1 (divCore Format.binary64 m e m' e').2.1
        (divCore Format.binary64 m e m' e').2.2)) = _
      rw [hcore]
      refine (extendedOf_roundWithAccuracy (s / s') (hplaces.imp_right fun h => ⟨hpos, h⟩)
        (stands_div n hm') hspacing).trans (congrArg rounded ?_)
      rw [← hvalue, realOf_finite, realOf_finite, sign_div]
      cases s <;> cases s' <;> simp [Sign.apply, div_neg, neg_div]

/-- A quotient by an infinity is zero. -/
theorem extendedOf_div_infinity (s : Sign) :
    extendedOf (stored (div Format.binary64 a (.infinity s))) = 0 := by
  cases a with
  | notANumber => cases hfa
  | infinity s' => cases hfa
  | zero s' => exact extendedOf_stored_zero (s' / s)
  | finite s' m e hm => exact extendedOf_stored_zero (s' / s)

end

section

variable {x y : Float}

/-- A quotient of a finite number by a positive one is a number. -/
theorem isNaN_div (hx : x.isFinite) (hy : 0 < y) : (x / y).isNaN = false := by
  refine (isNaN_stored _).trans ?_
  change x.toModel.unpack.isFinite = true at hx
  have hnan := (isNaN_of_lt hy).2
  have hpos := (float_lt_iff_extended rfl hnan).mp hy
  change y.toModel.unpack.isNaN = false at hnan
  change (0 : EReal) < extendedOf y.toModel.unpack at hpos
  generalize x.toModel.unpack = a at hx ⊢
  generalize y.toModel.unpack = b at hnan hpos ⊢
  cases b with
  | notANumber => cases hnan
  | zero s => exact absurd hpos (lt_irrefl _)
  | infinity s => cases a <;> first | rfl | cases hx
  | finite s m e hm => cases a <;> first | rfl | exact isNaN_roundWithAccuracy .. | cases hx

/-- **A quotient of a finite number by a positive one is the exact quotient, rounded.** -/
theorem extended_div (hx : x.isFinite) (hy : 0 < y) :
    extended (x / y) = nearestExtended (extended x / extended y) := by
  have hnan := (isNaN_of_lt hy).2
  have hpos := (float_lt_iff_extended rfl hnan).mp hy
  rw [extended_zero] at hpos
  by_cases hfy : y.isFinite
  · rw [extended_of_isFinite hfy] at hpos ⊢
    rw [extended_of_isFinite hx, ← EReal.coe_div]
    exact extendedOf_div hx hfy (EReal.coe_pos.mp hpos).ne'
  · obtain ⟨s, hs⟩ := eq_infinity_of_not_isFinite (a := y.toModel.unpack) hfy hnan
    have hzero : extended (x / y) = 0 := by
      refine Eq.trans ?_ (extendedOf_div_infinity (a := x.toModel.unpack) hx s)
      rw [← hs]
      rfl
    rcases extended_of_not_isFinite hnan hfy with hbot | htop
    · rw [hbot] at hpos
      exact absurd hpos not_lt_bot
    · rw [hzero, htop, EReal.div_top]
      exact rounded_zero.symm

end

end FitSession
