import FitSession.Proofs.Double.Nearest

/-!
# Arithmetic that rounds

The operations on double precision numbers are defined on their sign, mantissa and exponent. What
they give is the exact result, rounded.

* `stored`, `IsCanonical`, `isCanonical_unpack`: a number packed and unpacked again, and the
  mantissas and exponents of packed numbers;
* `Stands.roundedMantissa_eq`, `Stands.shiftRight`: a mantissa with residual bits, rounded and
  shifted;
* `extendedOf_round`, `extendedOf_normalize`: **the last step of every operation rounds**;
* `extendedOf_add`, `extendedOf_sub`, `extendedOf_mul`, `extendedOf_sqrt`: the operations.
-/

namespace FitSession

open Float.Model (Format UnpackedFloat totalExponent)
open Float.Model.UnpackedFloat

/-! ## Packing -/

theorem toNat_one_append (m : BitVec 52) : (1#1 ++ m).toNat = 2 ^ 52 + m.toNat := by
  rw [BitVec.toNat_append, ← Nat.shiftLeft_add_eq_or_of_lt m.isLt]
  rfl

/-- The number of a sign, an exponent field and a mantissa field. -/
theorem unpack_packComponents (s : Sign) (e : BitVec 11) (m : BitVec 52) :
    unpack Format.binary64 (packComponents Format.binary64 s e m) =
      if e = -1#11 then if m = 0#52 then .infinity s else .notANumber
      else if e = 0#11 then
        if h : m = 0#52 then .zero s
        else .finite s m.toNat (-1074) (by simpa [BitVec.toNat_pos, BitVec.pos_iff_ne_zero])
      else .finite s (1#1 ++ m).toNat ((e.toNat : ℤ) - 1075)
        (by rw [toNat_one_append]; omega) := by
  unfold unpack
  simp only [unpackExponent_packComponents, unpackMantissa_packComponents,
    unpackSign_packComponents, Sign.ofBitVec_toBitVec]
  split_ifs with h₁ h₂ h₃
  · rfl
  · rfl
  · rfl
  · subst h₃
    rfl
  · rfl

theorem pack_finite (s : Sign) (m : ℕ) (e : ℤ) (h : 0 < m) :
    pack Format.binary64 (.finite s m e h) =
      if 2048 ≤ (e + 1075).toNat + 1 then packedInfinity Format.binary64 s
      else if m.log2 + 1 = 53 then
        packComponents Format.binary64 s (BitVec.ofNat 11 (e + 1075).toNat) (BitVec.ofNat 52 m)
      else packComponents Format.binary64 s 0#11 (BitVec.ofNat 52 m) := by
  have hbias : e + (Format.binary64.exponentBias : ℤ)
      + (Format.binary64.mantissaBitsWithoutImplicit : ℤ) = e + 1075 := by
    rw [add_assoc]
    rfl
  unfold pack
  simp only [hbias]
  rfl

/-- An unpacked number that has been packed and unpacked again. -/
def stored (u : UnpackedFloat) : UnpackedFloat :=
  unpack Format.binary64 (pack Format.binary64 u)

/-- The mantissas and exponents of rounded numbers, but for the bound on the exponent. -/
structure IsCanonical (m : ℕ) (e : ℤ) : Prop where
  lt : m < 2 ^ 53
  least : -1074 ≤ e
  leading : 2 ^ 52 ≤ m ∨ e = -1074

/-- Packing keeps a number whose exponent is not too large, and makes the others infinite. -/
theorem stored_finite {s : Sign} {m : ℕ} {e : ℤ} (h : 0 < m) (hc : IsCanonical m e) :
    stored (.finite s m e h) = if e ≤ 971 then .finite s m e h else .infinity s := by
  obtain ⟨hlt, hleast, hleading⟩ := hc
  rw [stored, pack_finite]
  by_cases he : e ≤ 971
  · rw [if_neg (by omega), if_pos he]
    by_cases hnormal : 2 ^ 52 ≤ m
    · -- the leading digit is left out when a normal number is packed
      have hlog : m.log2 = 52 := (Nat.log2_eq_iff h.ne').mpr ⟨hnormal, hlt⟩
      have hexp : (BitVec.ofNat 11 (e + 1075).toNat).toNat = (e + 1075).toNat :=
        Nat.mod_eq_of_lt (by omega)
      have hmantissa : (1#1 ++ BitVec.ofNat 52 m).toNat = m := by
        rw [toNat_one_append, BitVec.toNat_ofNat]
        omega
      rw [if_pos (by omega), unpack_packComponents, if_neg, if_neg]
      · simp only [hmantissa, hexp]
        congr 1
        omega
      · intro hz
        have := congrArg BitVec.toNat hz
        rw [hexp] at this
        change _ = 0 at this
        omega
      · intro hz
        have := congrArg BitVec.toNat hz
        rw [hexp] at this
        change _ = 2047 at this
        omega
    · obtain rfl : e = -1074 := hleading.resolve_left hnormal
      have hlog : m.log2 < 52 := (Nat.log2_lt h.ne').mpr (not_le.mp hnormal)
      have hmantissa : (BitVec.ofNat 52 m).toNat = m := Nat.mod_eq_of_lt (by omega)
      rw [if_neg (by omega), unpack_packComponents, if_neg (by decide), if_pos rfl, dif_neg]
      · simp only [hmantissa]
      · intro hz
        have := congrArg BitVec.toNat hz
        rw [hmantissa] at this
        change _ = 0 at this
        omega
  · rw [if_pos (by omega), if_neg he]
    cases s <;> rfl

/-- Packing makes no NaN. -/
theorem isNaN_stored (u : UnpackedFloat) : (stored u).isNaN = u.isNaN := by
  cases u with
  | notANumber => rfl
  | infinity s => cases s <;> rfl
  | zero s => cases s <;> rfl
  | finite s m e hm =>
    rw [stored, pack_finite]
    split_ifs with hlarge hnormal
    · cases s <;> rfl
    · have hexp : BitVec.ofNat 11 (e + 1075).toNat ≠ -1#11 := by
        intro hz
        have := congrArg BitVec.toNat hz
        rw [BitVec.toNat_ofNat, Nat.mod_eq_of_lt (by omega)] at this
        change _ = 2047 at this
        omega
      rw [unpack_packComponents, if_neg hexp]
      split_ifs <;> rfl
    · rw [unpack_packComponents, if_neg (by decide)]
      split_ifs <;> rfl

theorem isFinite_of_stored {u : UnpackedFloat} (h : (stored u).isFinite) : u.isFinite := by
  cases u with
  | notANumber => cases h
  | infinity s => cases s <;> cases h
  | zero s => rfl
  | finite s m e hm => rfl

/-- A packed number is in canonical form. -/
theorem isCanonical_unpack {b : BitVec 64} {s : Sign} {m : ℕ} {e : ℤ} {h : 0 < m}
    (hb : unpack Format.binary64 b = .finite s m e h) : IsCanonical m e ∧ e ≤ 971 := by
  have hm := (@unpackMantissa Format.binary64 b).isLt
  have he := (@unpackExponent Format.binary64 b).isLt
  change _ < 2 ^ 52 at hm
  change _ < 2 ^ 11 at he
  unfold unpack at hb
  dsimp only at hb
  split_ifs at hb with h₁ h₂ h₃ h₄
  · cases hb
    rw [h₃]
    exact ⟨⟨by omega, by decide, .inr rfl⟩, by decide⟩
  · have hne : (@unpackExponent Format.binary64 b).toNat ≠ 2047 :=
      fun hz => h₁ (BitVec.eq_of_toNat_eq hz)
    have hne' : (@unpackExponent Format.binary64 b).toNat ≠ 0 :=
      fun hz => h₃ (BitVec.eq_of_toNat_eq hz)
    cases hb
    rw [toNat_one_append]
    change IsCanonical _ (_ - (1023 + 52 : ℤ)) ∧ _ - (1023 + 52 : ℤ) ≤ 971
    exact ⟨⟨by omega, by omega, .inl (by omega)⟩, by omega⟩

/-! ## Values -/

@[simp] theorem extendedOf_positive : extendedOf (.infinity .positive) = ⊤ := rfl

@[simp] theorem extendedOf_negative : extendedOf (.infinity .negative) = ⊥ := rfl

theorem IsCanonical.le_of_gt {m : ℕ} {e : ℤ} (h : IsCanonical m e) (he : 971 < e) :
    (2 : ℝ) ^ (1024 : ℤ) ≤ m * 2 ^ e := by
  have hm : 2 ^ 52 ≤ m := h.leading.resolve_right (by omega)
  calc (2 : ℝ) ^ (1024 : ℤ) = 2 ^ (52 : ℤ) * 2 ^ (972 : ℤ) := by rw [← zpow_add₀ two_ne_zero]; rfl
    _ ≤ m * 2 ^ e := mul_le_mul (by exact_mod_cast hm) (zpow_le_zpow_right₀ one_le_two (by omega))
      (by positivity) (by positivity)

/-- A number that is packed keeps its value, unless it is too large. -/
theorem extendedOf_stored_finite {s : Sign} {m : ℕ} {e : ℤ} (h : 0 < m) (hc : IsCanonical m e) :
    extendedOf (stored (.finite s m e h)) = overflow (s.apply m * 2 ^ e) := by
  rw [stored_finite h hc]
  have hnonneg : (0 : ℝ) ≤ m * 2 ^ e := by positivity
  split_ifs with he
  · have habs : |((s.apply m : ℤ) : ℝ) * 2 ^ e| < 2 ^ (1024 : ℤ) := by
      cases s <;> simpa [Sign.apply, abs_mul] using dyadic_lt hc.lt he
    exact (overflow_of_abs_lt habs).symm
  · have hlarge := overflow_of_le (hc.le_of_gt (not_le.mp he))
    cases s with
    | positive => simpa [Sign.apply, extendedOf] using hlarge.symm
    | negative =>
      have hneg := overflow_neg ((m : ℝ) * 2 ^ e)
      rw [hlarge] at hneg
      simpa [Sign.apply, extendedOf] using hneg.symm

/-! ## Residual bits -/

namespace Stands

variable {em : ExtendedMantissa} {y : ℝ}

theorem le (h : Stands em y) : em.mantissa ≤ y := by
  obtain ⟨m, r, t⟩ := em
  cases r <;> cases t <;> simp only [Stands] at h ⊢ <;> linarith

theorem lt_succ (h : Stands em y) : y < em.mantissa + 1 := by
  obtain ⟨m, r, t⟩ := em
  cases r <;> cases t <;> simp only [Stands] at h ⊢ <;> linarith

theorem floor_eq (h : Stands em y) : ⌊y⌋₊ = em.mantissa :=
  (Nat.floor_eq_iff ((Nat.cast_nonneg _).trans h.le)).mpr ⟨h.le, h.lt_succ⟩

/-- The residual bits tell how to round. -/
theorem roundedMantissa_eq (h : Stands em y) : em.roundedMantissa = halfEven y := by
  have hfloor := h.floor_eq
  unfold halfEven
  rw [hfloor]
  obtain ⟨m, r, t⟩ := em
  -- one case for each pair of residual bits; the other branches of the rounding contradict it
  cases r <;> cases t <;> simp only [Stands] at h <;>
    simp only [ExtendedMantissa.roundedMantissa, ExtendedMantissa.accuracy,
      Accuracy.roundToNearestEven] <;>
    split_ifs <;> first | rfl | (exfalso; linarith)

theorem shiftRightOne (h : Stands em y) : Stands em.shiftRightOne (y / 2) := by
  obtain ⟨m, r, t⟩ := em
  have hm : ((m % 2 : ℕ) : ℝ) + 2 * ((m / 2 : ℕ) : ℝ) = m := by exact_mod_cast Nat.mod_add_div m 2
  rcases Nat.mod_two_eq_zero_or_one m with hbit | hbit <;> rw [hbit] at hm <;> push_cast at hm <;>
    cases r <;> cases t <;> simp [Stands, ExtendedMantissa.shiftRightOne, hbit] at h ⊢ <;>
    first | linarith | (constructor <;> linarith)

theorem shiftRight (h : Stands em y) (k : ℕ) : Stands (em >>> k) (y / 2 ^ k) := by
  change Stands (k.repeat ExtendedMantissa.shiftRightOne em) _
  induction k with
  | zero => simpa [Nat.repeat] using h
  | succ k ih =>
    have hnext := ih.shiftRightOne
    rwa [div_div, ← pow_succ] at hnext

end Stands

/-! ## Rounding -/

section Rounding

variable {m : ℕ} {e : ℤ} {acc : Accuracy} {y : ℝ}

theorem mantissa_ofMantissaAndAccuracy :
    (ExtendedMantissa.ofMantissaAndAccuracy m acc).mantissa = m := by
  cases acc with
  | exact => rfl
  | inexact o => cases o <;> rfl

/-- A number that a mantissa stands for is positive, if there is a digit. -/
theorem pos_of_stands (hm : 0 < m ∨ 0 < y ∧ e ≤ -1074)
    (h : Stands (ExtendedMantissa.ofMantissaAndAccuracy m acc) y) : 0 < y := by
  rcases hm with hm | hm
  · exact lt_of_lt_of_le (by exact_mod_cast hm) (@mantissa_ofMantissaAndAccuracy m acc ▸ h.le)
  · exact hm.1

theorem targetExponent_of_pos (hm : 0 < m)
    (h : Stands (ExtendedMantissa.ofMantissaAndAccuracy m acc) y) :
    Format.binary64.targetExponent (totalExponent m e) = spacing (y * 2 ^ e) := by
  have hle := h.le
  have hlt := h.lt_succ
  rw [mantissa_ofMantissaAndAccuracy] at hle hlt
  have hlog : Int.log 2 (y * 2 ^ e) = m.log2 + e := by
    apply log_of_bounds
    · have hpow : (2 : ℝ) ^ m.log2 ≤ y :=
        le_trans (by exact_mod_cast Nat.log2_self_le hm.ne') hle
      rw [zpow_add₀ two_ne_zero, zpow_natCast]
      exact mul_le_mul_of_nonneg_right hpow (by positivity)
    · have hpow : y < (2 : ℝ) ^ (m.log2 + 1) :=
        hlt.trans_le (by exact_mod_cast Nat.lt_log2_self)
      rw [show (m.log2 : ℤ) + e + 1 = ((m.log2 + 1 : ℕ) : ℤ) + e by push_cast; ring,
        zpow_add₀ two_ne_zero, zpow_natCast]
      exact mul_lt_mul_of_pos_right hpow (by positivity)
  rw [spacing, hlog]
  change max ((m.log2 : ℤ) + 1 + e - 53) (-1074) = _
  congr 1
  omega

/-- The target exponent of a mantissa is the spacing around what it stands for. -/
theorem targetExponent_eq (hm : 0 < m ∨ 0 < y ∧ e ≤ -1074)
    (h : Stands (ExtendedMantissa.ofMantissaAndAccuracy m acc) y) :
    Format.binary64.targetExponent (totalExponent m e) = spacing (y * 2 ^ e) := by
  rcases Nat.eq_zero_or_pos m with rfl | hpos
  · -- without a digit the number is below the least exponent, and both sides are that exponent
    obtain ⟨hy, he⟩ := hm.resolve_left (lt_irrefl 0)
    have hlt := h.lt_succ
    rw [mantissa_ofMantissaAndAccuracy, Nat.cast_zero, zero_add] at hlt
    have hx : y * 2 ^ e < 2 ^ e := mul_lt_of_lt_one_left (by positivity) hlt
    have hlog : Int.log 2 (y * 2 ^ e) < e :=
      (Int.lt_zpow_iff_log_lt (by norm_num) (by positivity)).mp (by exact_mod_cast hx)
    rw [spacing]
    change max (((0 : ℕ).log2 : ℤ) + 1 + e - 53) (-1074) = _
    rw [show Nat.log2 0 = 0 from rfl]
    omega
  · exact targetExponent_of_pos hpos h

/-- A mantissa with enough places, or the least exponent, need not be shifted left. -/
theorem le_spacing (hm : 0 < m) (h : Stands (ExtendedMantissa.ofMantissaAndAccuracy m acc) y)
    (hplaces : 2 ^ 52 ≤ m ∨ e ≤ -1074) : e ≤ spacing (y * 2 ^ e) := by
  rw [← targetExponent_of_pos hm h]
  change e ≤ max ((m.log2 : ℤ) + 1 + e - 53) (-1074)
  rcases hplaces with hlarge | hsmall
  · have hlog : 52 ≤ m.log2 := (Nat.le_log2 hm.ne').mpr hlarge
    omega
  · exact hsmall.trans (le_max_right _ _)

/-- The first shift of a rounding brings the number to the spacing of double precision. -/
theorem shiftToTargetExponent_eq (hm : 0 < m ∨ 0 < y ∧ e ≤ -1074)
    (h : Stands (ExtendedMantissa.ofMantissaAndAccuracy m acc) y)
    (he : e ≤ spacing (y * 2 ^ e)) :
    ∃ em, shiftToTargetExponent Format.binary64 m e acc = (em, spacing (y * 2 ^ e)) ∧
      Stands em (y * 2 ^ e / 2 ^ spacing (y * 2 ^ e)) := by
  obtain ⟨k, hk⟩ : ∃ k : ℕ, spacing (y * 2 ^ e) = e + k :=
    ⟨(spacing (y * 2 ^ e) - e).toNat, by omega⟩
  refine ⟨ExtendedMantissa.ofMantissaAndAccuracy m acc >>> k, ?_, ?_⟩
  · rw [shiftToTargetExponent, targetExponent_eq hm h, hk, shiftToExponent]
    simp
  · have hshift := h.shiftRight k
    rw [hk, zpow_add₀ two_ne_zero, zpow_natCast, mul_comm ((2 : ℝ) ^ e),
      mul_div_mul_right _ _ (by positivity)]
    exact hshift

/-- The second shift only does something when rounding has carried into a further place. -/
theorem shiftToTargetExponent_exact {r : ℕ} {t : ℤ} (hr : r ≤ 2 ^ 53) (ht : -1074 ≤ t) :
    shiftToTargetExponent Format.binary64 r t .exact =
      if r < 2 ^ 53 then (⟨r, false, false⟩, t) else (⟨2 ^ 52, false, false⟩, t + 1) := by
  have htarget : Format.binary64.targetExponent (totalExponent r t) =
      max ((r.log2 : ℤ) + 1 + t - 53) (-1074) := rfl
  rw [shiftToTargetExponent, htarget, shiftToExponent]
  split_ifs with hlt
  · have hlog : r.log2 ≤ 52 := by
      rcases Nat.eq_zero_or_pos r with rfl | hpos
      · decide
      · exact Nat.lt_succ_iff.mp ((Nat.log2_lt hpos.ne').mpr hlt)
    rw [show (max ((r.log2 : ℤ) + 1 + t - 53) (-1074) - t).toNat = 0 by omega]
    simp [ExtendedMantissa.ofMantissaAndAccuracy, HShiftRight.hShiftRight, Nat.repeat]
  · obtain rfl : r = 2 ^ 53 := by omega
    rw [Nat.log2_two_pow, show (max (((53 : ℕ) : ℤ) + 1 + t - 53) (-1074) - t).toNat = 1 by omega]
    rfl

theorem rounded_sign (s : Sign) {x : ℝ} (hx : 0 ≤ x) :
    rounded (s.apply 1 * x) = overflow (s.apply 1 * nearest x) := by
  cases s with
  | positive => simpa [Sign.apply] using rounded_of_nonneg hx
  | negative => simp [Sign.apply, rounded_neg, overflow_neg, rounded_of_nonneg hx]

/-- **Rounding with residual bits gives the nearest number.** -/
theorem extendedOf_roundWithAccuracy (s : Sign) (hm : 0 < m ∨ 0 < y ∧ e ≤ -1074)
    (h : Stands (ExtendedMantissa.ofMantissaAndAccuracy m acc) y)
    (he : e ≤ spacing (y * 2 ^ e)) :
    extendedOf (stored (roundWithAccuracy Format.binary64 s m e acc)) =
      rounded (s.apply 1 * (y * 2 ^ e)) := by
  obtain ⟨em, hfirst, hstands⟩ := shiftToTargetExponent_eq hm h he
  have hy : 0 < y := pos_of_stands hm h
  have hx : 0 < y * 2 ^ e := by positivity
  generalize y * 2 ^ e = x at *
  have hspacing : -1074 ≤ spacing x := le_max_right _ _
  have hrounded : em.roundedMantissa = halfEven (x / 2 ^ spacing x) := hstands.roundedMantissa_eq
  have hbound : em.roundedMantissa ≤ 2 ^ 53 := hrounded ▸ halfEven_le_carry x
  have hleading : 2 ^ 52 ≤ em.roundedMantissa ∨ spacing x = -1074 :=
    hrounded ▸ leading_le_halfEven hx
  rw [rounded_sign s hx.le, nearest, ← hrounded, roundWithAccuracy, hfirst]
  dsimp only
  generalize em.roundedMantissa = r at *
  rw [shiftToTargetExponent_exact hbound hspacing]
  rcases hbound.lt_or_eq with hlt | rfl
  · simp only [if_pos hlt]
    by_cases hzero : r = 0
    · subst hzero
      cases s <;> simp [Sign.apply] <;> rfl
    · rw [dif_neg hzero, extendedOf_stored_finite _ ⟨hlt, hspacing, hleading⟩]
      cases s <;> simp [Sign.apply]
  · -- rounding has carried: the mantissa is a power of two, and the exponent grows by one
    simp only [lt_irrefl, if_false]
    rw [dif_neg (by decide), extendedOf_stored_finite _ ⟨by decide, by omega, .inl le_rfl⟩,
      zpow_add₀ two_ne_zero]
    congr 1
    cases s <;> simp [Sign.apply] <;> ring

end Rounding

@[simp] theorem rounded_zero : rounded 0 = 0 := by
  simp [rounded_of_nonneg]

theorem stands_exact (m : ℕ) : Stands (ExtendedMantissa.ofMantissaAndAccuracy m .exact) m := rfl

theorem shiftLeft_mul_zpow (m k : ℕ) (e : ℤ) :
    ((m <<< k : ℕ) : ℝ) * 2 ^ (e - k) = m * 2 ^ e := by
  rw [Nat.shiftLeft_eq, zpow_sub₀ two_ne_zero, zpow_natCast]
  push_cast
  field_simp

theorem extendedOf_round (s : Sign) {m : ℕ} (hm : 0 < m) (e : ℤ) :
    extendedOf (stored (UnpackedFloat.round Format.binary64 s m e)) =
      rounded (s.apply 1 * (m * 2 ^ e)) := by
  have htarget : Format.binary64.targetExponent (totalExponent m e) = spacing (m * 2 ^ e) :=
    targetExponent_of_pos hm (stands_exact m)
  have hvalue := shiftLeft_mul_zpow m (e - spacing (m * 2 ^ e)).toNat e
  have hpos : 0 < m <<< (e - spacing (m * 2 ^ e)).toNat := by
    rw [Nat.shiftLeft_eq]
    positivity
  unfold UnpackedFloat.round
  rw [htarget]
  change extendedOf (stored (roundWithAccuracy _ s
    (m <<< (e - spacing (m * 2 ^ e)).toNat) (e - (e - spacing (m * 2 ^ e)).toNat) .exact)) = _
  rw [extendedOf_roundWithAccuracy s (.inl hpos) (stands_exact _), hvalue]
  rw [hvalue]
  omega

/-- **Normalizing gives the nearest number.** -/
theorem extendedOf_normalize (m e : ℤ) (z : Sign) :
    extendedOf (stored (UnpackedFloat.normalize Format.binary64 m e z)) =
      rounded (m * 2 ^ e) := by
  unfold UnpackedFloat.normalize
  rcases lt_trichotomy m 0 with hm | rfl | hm
  · rw [Int.compare_eq_lt.mpr hm]
    obtain ⟨n, rfl⟩ : ∃ n : ℕ, m = -n := ⟨(-m).toNat, by omega⟩
    simpa [Sign.apply] using extendedOf_round .negative (by omega : 0 < n) e
  · rw [Int.compare_eq_eq.mpr rfl]
    cases z <;> simp [rounded_of_nonneg] <;> rfl
  · rw [Int.compare_eq_gt.mpr hm]
    obtain ⟨n, rfl⟩ : ∃ n : ℕ, m = n := ⟨m.toNat, by omega⟩
    simpa [Sign.apply] using extendedOf_round .positive (by omega : 0 < n) e

/-- How the integer square root differs from the square root. -/
def rootAccuracy (n : ℕ) : Accuracy :=
  if n - n.sqrt * n.sqrt = 0 then .exact
  else .inexact (if n - n.sqrt * n.sqrt ≤ n.sqrt then .lt else .gt)

theorem stands_sqrt (n : ℕ) :
    Stands (ExtendedMantissa.ofMantissaAndAccuracy n.sqrt (rootAccuracy n)) √n := by
  have hlo := Nat.sqrt_le n
  have hhi := Nat.lt_succ_sqrt n
  have hroot : √(n : ℝ) * √n = n := Real.mul_self_sqrt (Nat.cast_nonneg n)
  have hnonneg := Real.sqrt_nonneg (n : ℝ)
  unfold rootAccuracy
  generalize n.sqrt = r at *
  generalize √(n : ℝ) = y at *
  have hr : (0 : ℝ) ≤ r := Nat.cast_nonneg r
  split_ifs with hexact hhalf
  · have hn : (n : ℝ) = r * r := by exact_mod_cast (by omega : n = r * r)
    change y = r
    nlinarith
  · have hn : (n : ℝ) ≤ r * r + r := by exact_mod_cast (by omega : n ≤ r * r + r)
    have hn' : (r * r + 1 : ℝ) ≤ n := by exact_mod_cast (by omega : r * r + 1 ≤ n)
    change (r : ℝ) < y ∧ y < r + 1 / 2
    exact ⟨by nlinarith, by nlinarith⟩
  · have hn : (r * r + r + 1 : ℝ) ≤ n := by exact_mod_cast (by omega : r * r + r + 1 ≤ n)
    have hn' : (n : ℝ) < (r + 1) * (r + 1) := by exact_mod_cast hhi
    change (r : ℝ) + 1 / 2 < y ∧ y < r + 1
    exact ⟨by nlinarith, by nlinarith⟩

/-- The number is scaled by an even power of two, until its integer square root has enough
places. -/
theorem sqrtCore_eq {m : ℕ} (hm : 0 < m) (e : ℤ) :
    ∃ n t, sqrtCore Format.binary64 m e = (n.sqrt, t, rootAccuracy n) ∧ 0 < n ∧
      (m : ℝ) * 2 ^ e = n * (2 ^ t) ^ 2 ∧ (2 ^ 52 ≤ n.sqrt ∨ t ≤ -1074) := by
  obtain ⟨t, ht⟩ : ∃ t,
    t = min (e / 2) (Format.binary64.targetExponent ((totalExponent m e + 1) / 2)) := ⟨_, rfl⟩
  have htarget : t ≤ max (((m.log2 : ℤ) + 1 + e + 1) / 2 - 53) (-1074) := ht ▸ min_le_right _ _
  have hhalf : t ≤ e / 2 := ht ▸ min_le_left _ _
  obtain ⟨k, hk⟩ : ∃ k : ℕ, e = 2 * t + k := ⟨(e - 2 * t).toNat, by omega⟩
  refine ⟨m <<< k, t, ?_, ?_, ?_, ?_⟩
  · rw [show k = (e - 2 * t).toNat by omega, ht]
    rfl
  · rw [Nat.shiftLeft_eq]
    positivity
  · rw [hk, zpow_add₀ two_ne_zero, zpow_natCast, ← zpow_natCast (2 ^ t : ℝ) 2, ← zpow_mul,
      Nat.shiftLeft_eq]
    push_cast
    ring_nf
  · rcases le_max_iff.mp htarget with hlarge | hsmall
    · left
      rw [Nat.le_sqrt', ← pow_mul, Nat.shiftLeft_eq]
      calc 2 ^ (52 * 2) ≤ 2 ^ (m.log2 + k) := Nat.pow_le_pow_right two_pos (by omega)
        _ ≤ m * 2 ^ k := by
          rw [pow_add]
          exact Nat.mul_le_mul_right _ (Nat.log2_self_le hm.ne')
    · exact .inr hsmall

/-! ## Operations -/

/-- The unpacked numbers that can be packed as they are. -/
def IsStorable : UnpackedFloat → Prop
  | .finite _ m e _ => IsCanonical m e ∧ e ≤ 971
  | _ => True

/-- The real number that a finite number stands for. -/
noncomputable def realOf (u : UnpackedFloat) : ℝ := (extendedOf u).toReal

@[simp] theorem realOf_zero (s : Sign) : realOf (.zero s) = 0 := rfl

@[simp] theorem realOf_finite (s : Sign) (m : ℕ) (e : ℤ) (h : 0 < m) :
    realOf (.finite s m e h) = s.apply m * 2 ^ e := rfl

theorem realOf_pos (m : ℕ) (e : ℤ) (h : 0 < m) : 0 < realOf (.finite .positive m e h) := by
  rw [realOf_finite]
  simp only [Sign.apply, Int.cast_natCast]
  positivity

theorem realOf_neg (m : ℕ) (e : ℤ) (h : 0 < m) : realOf (.finite .negative m e h) < 0 := by
  rw [realOf_finite]
  simp only [Sign.apply, Int.cast_natCast, Int.cast_neg, neg_mul, neg_lt_zero]
  positivity

theorem isStorable_unpack (b : BitVec 64) : IsStorable (unpack Format.binary64 b) := by
  cases h : unpack Format.binary64 b with
  | finite s m e hm => exact isCanonical_unpack h
  | _ => trivial

theorem stored_of_isStorable {u : UnpackedFloat} (h : IsStorable u) : stored u = u := by
  cases u with
  | finite s m e hm => rw [stored_finite hm h.1, if_pos h.2]
  | notANumber => rfl
  | infinity s => cases s <;> rfl
  | zero s => cases s <;> rfl

theorem stored_infinity (s : Sign) : stored (.infinity s) = .infinity s :=
  stored_of_isStorable trivial

theorem extendedOf_eq_realOf {u : UnpackedFloat} (h : u.isFinite) : extendedOf u = realOf u := by
  cases u with
  | finite s m e hm => rfl
  | zero s => rfl
  | notANumber => cases h
  | infinity s => cases h

/-- A number that can be stored is not rounded. -/
theorem rounded_realOf {u : UnpackedFloat} (h : IsStorable u) (hu : u.isFinite) :
    rounded (realOf u) = extendedOf u := by
  cases u with
  | zero s => simp [rounded_of_nonneg, extendedOf]
  | finite s m e hm =>
    have hdyadic := rounded_of_dyadic h.1.lt h.1.least h.2
    cases s with
    | positive => simpa [Sign.apply, extendedOf] using hdyadic
    | negative => simp [Sign.apply, extendedOf, rounded_neg, hdyadic]
  | notANumber => cases hu
  | infinity s => cases hu

theorem extendedOf_stored_zero (s : Sign) : extendedOf (stored (.zero s)) = 0 := by
  cases s <;> rfl

/-- Stored numbers have a bound. -/
theorem realOf_lt {u : UnpackedFloat} (h : IsStorable u) : realOf u < 2 ^ (1024 : ℤ) := by
  have hpos : (0 : ℝ) < 2 ^ (1024 : ℤ) := by positivity
  cases u with
  | notANumber => exact hpos
  | infinity s => cases s <;> exact hpos
  | zero s => exact hpos
  | finite s m e hm =>
    rw [realOf_finite]
    cases s with
    | positive => simpa [Sign.apply] using dyadic_lt h.1.lt h.2
    | negative =>
      have hnonneg : (0 : ℝ) ≤ m * 2 ^ e := by positivity
      simp only [Sign.apply, Int.cast_neg, Int.cast_natCast, neg_mul]
      exact (neg_nonpos.mpr hnonneg).trans_lt hpos

/-- Twice a stored number needs no rounding, but may be too large. -/
theorem rounded_two_mul {u : UnpackedFloat} (h : IsStorable u) (hu : u.isFinite)
    (hnonneg : 0 ≤ realOf u) : rounded (2 * realOf u) = overflow (2 * realOf u) := by
  rw [rounded_of_nonneg (by positivity)]
  congr 1
  cases u with
  | notANumber => cases hu
  | infinity s => cases hu
  | zero s => simp
  | finite s m e hm =>
    cases s with
    | negative => exact absurd (realOf_neg m e hm) (not_lt.mpr hnonneg)
    | positive =>
      have hdouble : 2 * realOf (.finite .positive m e hm) = m * 2 ^ (e + 1) := by
        rw [realOf_finite, zpow_add₀ two_ne_zero]
        simp only [Sign.apply, Int.cast_natCast, zpow_one]
        ring
      rw [hdouble]
      exact nearest_of_dyadic h.1.lt (by have := h.1.least; omega)

section

variable {a b : UnpackedFloat} (ha : IsStorable a) (hb : IsStorable b)

theorem decreased_mul_zpow (s : Sign) (m : ℕ) {e t : ℤ} (h : t ≤ e) :
    ((s.apply (decreaseExponent m e t).1 : ℤ) : ℝ) * 2 ^ t = s.apply m * 2 ^ e := by
  have hvalue := shiftLeft_mul_zpow m (e - t).toNat e
  rw [show e - ((e - t).toNat : ℤ) = t by omega] at hvalue
  change ((s.apply ((m <<< (e - t).toNat : ℕ) : ℤ) : ℤ) : ℝ) * 2 ^ t = _
  cases s with
  | negative =>
    simpa only [Sign.apply, Int.cast_neg, Int.cast_natCast, neg_mul] using congrArg Neg.neg hvalue
  | positive => simpa only [Sign.apply, Int.cast_natCast] using hvalue

include ha hb

/-- **A sum is the exact sum, rounded.** -/
theorem extendedOf_add (hfa : a.isFinite) (hfb : b.isFinite) :
    extendedOf (stored (add Format.binary64 a b)) =
      rounded (realOf a + realOf b) := by
  cases a with
  | notANumber => cases hfa
  | infinity s => cases hfa
  | zero s =>
    cases b with
    | notANumber => cases hfb
    | infinity s' => cases hfb
    | zero s' =>
      rw [realOf_zero, realOf_zero, zero_add, rounded_zero]
      cases s <;> cases s' <;> exact extendedOf_stored_zero _
    | finite s' m' e' hm' =>
      rw [realOf_zero, zero_add, rounded_realOf hb hfb]
      exact congrArg extendedOf (stored_of_isStorable hb)
  | finite s m e hm =>
    cases b with
    | notANumber => cases hfb
    | infinity s' => cases hfb
    | zero s' =>
      rw [realOf_zero, add_zero, rounded_realOf ha hfa]
      exact congrArg extendedOf (stored_of_isStorable ha)
    | finite s' m' e' hm' =>
      rw [realOf_finite, realOf_finite, ← decreased_mul_zpow s m (min_le_left e e'),
        ← decreased_mul_zpow s' m' (min_le_right e e'), ← add_mul, ← Int.cast_add]
      exact extendedOf_normalize _ _ _

/-- **A difference is the exact difference, rounded.** -/
theorem extendedOf_sub (hfa : a.isFinite) (hfb : b.isFinite) :
    extendedOf (stored (sub Format.binary64 a b)) =
      rounded (realOf a - realOf b) := by
  cases a with
  | notANumber => cases hfa
  | infinity s => cases hfa
  | zero s =>
    cases b with
    | notANumber => cases hfb
    | infinity s' => cases hfb
    | zero s' =>
      rw [realOf_zero, realOf_zero, sub_zero, rounded_zero]
      cases s <;> cases s' <;> exact extendedOf_stored_zero _
    | finite s' m' e' hm' =>
      rw [realOf_zero, zero_sub, rounded_neg, rounded_realOf hb hfb]
      have hneg : IsStorable (.finite (-s') m' e' hm') := hb
      refine (congrArg extendedOf (stored_of_isStorable hneg)).trans ?_
      cases s' <;> simp [extendedOf, Sign.apply]
  | finite s m e hm =>
    cases b with
    | notANumber => cases hfb
    | infinity s' => cases hfb
    | zero s' =>
      rw [realOf_zero, sub_zero, rounded_realOf ha hfa]
      exact congrArg extendedOf (stored_of_isStorable ha)
    | finite s' m' e' hm' =>
      rw [realOf_finite, realOf_finite, ← decreased_mul_zpow s m (min_le_left e e'),
        ← decreased_mul_zpow s' m' (min_le_right e e'), ← sub_mul, ← Int.cast_sub]
      exact extendedOf_normalize _ _ _

/-- **A product is the exact product, rounded.** -/
theorem extendedOf_mul (hfa : a.isFinite) (hfb : b.isFinite) :
    extendedOf (stored (mul Format.binary64 a b)) =
      rounded (realOf a * realOf b) := by
  cases a with
  | notANumber => cases hfa
  | infinity s => cases hfa
  | zero s =>
    rw [realOf_zero, zero_mul, rounded_zero]
    cases b with
    | notANumber => cases hfb
    | infinity s' => cases hfb
    | zero s' => exact extendedOf_stored_zero (s * s')
    | finite s' m' e' hm' => exact extendedOf_stored_zero (s * s')
  | finite s m e hm =>
    cases b with
    | notANumber => cases hfb
    | infinity s' => cases hfb
    | zero s' =>
      rw [realOf_zero, mul_zero, rounded_zero]
      exact extendedOf_stored_zero (s * s')
    | finite s' m' e' hm' =>
      have hproduct : 0 < m * m' := Nat.mul_pos hm hm'
      have hexponent : e + e' ≤ spacing (((m * m' : ℕ) : ℝ) * 2 ^ (e + e')) := by
        refine le_spacing hproduct (stands_exact _) ?_
        rcases ha.1.leading with hlead | rfl
        · exact .inl (hlead.trans (Nat.le_mul_of_pos_right m hm'))
        rcases hb.1.leading with hlead' | rfl
        · exact .inl (hlead'.trans (Nat.le_mul_of_pos_left m' hm))
        · exact .inr (by omega)
      refine (extendedOf_roundWithAccuracy (s * s') (.inl hproduct) (stands_exact _) hexponent).trans
        (congrArg rounded ?_)
      rw [realOf_finite, realOf_finite, zpow_add₀ two_ne_zero]
      push_cast
      cases s <;> cases s' <;> simp [Sign.apply] <;> ring

omit hb in
/-- **A square root is the exact square root, rounded.** -/
theorem extendedOf_sqrt (hfa : a.isFinite) (hnonneg : 0 ≤ realOf a) :
    extendedOf (stored (sqrt Format.binary64 a)) =
      rounded √(realOf a) := by
  cases a with
  | notANumber => cases hfa
  | infinity s => cases hfa
  | zero s =>
    rw [realOf_zero, Real.sqrt_zero, rounded_zero]
    exact extendedOf_stored_zero s
  | finite s m e hm =>
    cases s with
    | negative =>
      have hneg : (0 : ℝ) < m * 2 ^ e := by positivity
      simp [Sign.apply] at hnonneg
      linarith
    | positive =>
      obtain ⟨n, t, hcore, hn, hvalue, hplaces⟩ := sqrtCore_eq hm e
      have hroot : 0 < n.sqrt := Nat.sqrt_pos.mpr hn
      change extendedOf (stored (roundWithAccuracy Format.binary64 .positive
        (sqrtCore Format.binary64 m e).1 (sqrtCore Format.binary64 m e).2.1
        (sqrtCore Format.binary64 m e).2.2)) = _
      rw [hcore, realOf_finite]
      refine (extendedOf_roundWithAccuracy .positive (.inl hroot) (stands_sqrt n)
        (le_spacing hroot (stands_sqrt n) hplaces)).trans (congrArg rounded ?_)
      simp only [Sign.apply, Int.cast_one, one_mul, Int.cast_natCast]
      rw [hvalue, Real.sqrt_mul (Nat.cast_nonneg n), Real.sqrt_sq (by positivity)]

end

end FitSession
