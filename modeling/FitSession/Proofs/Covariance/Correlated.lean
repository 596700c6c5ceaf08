import FitSession.Covariance.Labelled
import FitSession.Proofs.Double.Error
import FitSession.Proofs.Double.Quotient

/-!
# Entries of a correlation

An entry of a correlation is an entry of the covariance, divided by the root of the product of two
variances with a guard added. Every step is rounded: the product may be infinite, and the guard,
which is the same for all variances, is lost in a large root and hides a small one.

* `divisor`, `abs_le_divisor`: the divisor is not below the entry;
* `correlated`, `realValue_correlated`: the value of an entry, with every step rounded;
* `abs_correlated_le_one`: **an entry has a magnitude up to one**;
* `abs_correlated_sub_le`, `correlated_of_le`: **the diagonal**, for variances of every size.
-/

namespace FitSession

namespace LabelledMatrix

/-! ## The divisor -/

/-- The guard of a correlation as a real number. -/
noncomputable def guardValue : ℝ := realValue correlationGuard

theorem isFinite_correlationGuard : (correlationGuard : Float).isFinite := by decide +kernel

theorem guardValue_eq : guardValue = 7880401239278896 * 2 ^ (-385 : ℤ) := by
  have hbits : (correlationGuard : Float) = Float.ofBits 3110860544497550640 := by decide +kernel
  have hunpack : (Float.ofBits 3110860544497550640).toModel.unpack =
    .finite .positive 7880401239278896 (-385) (by decide) := rfl
  rw [guardValue, hbits, realValue_of_unpack hunpack, Nat.cast_ofNat]

theorem le_guardValue : (2 : ℝ) ^ (-385 : ℤ) ≤ guardValue := by
  rw [guardValue_eq]
  exact le_mul_of_one_le_left (by positivity) (by norm_num)

theorem guardValue_pos : 0 < guardValue := by
  rw [guardValue_eq]
  positivity

/-- The guard is not quite a power of ten. -/
theorem abs_guardValue_sub_le : |guardValue - 1e-100| ≤ 2 ^ (-55 : ℤ) * 1e-100 := by
  have hsplit : (2 : ℝ) ^ (-385 : ℤ) = (2 ^ 185)⁻¹ * (2 ^ 200)⁻¹ := by
    rw [show (-385 : ℤ) = -(185 : ℕ) + -(200 : ℕ) by rfl, zpow_add₀ two_ne_zero, zpow_neg,
      zpow_neg, zpow_natCast, zpow_natCast]
  rw [guardValue_eq, hsplit, abs_le]
  constructor <;> norm_num

/-- What an entry is divided by, from the product of two diagonal entries. -/
noncomputable def divisor (x : ℝ) : EReal := nearestExtended (roundedRoot x + guardValue)

theorem guardValue_le_divisor (x : ℝ) : guardValue ≤ divisor x := by
  change (realValue correlationGuard : EReal) ≤ _
  rw [← nearestExtended_realValue isFinite_correlationGuard]
  exact nearestExtended_mono (le_add_of_nonneg_left (roundedRoot_nonneg x))

theorem divisor_pos (x : ℝ) : 0 < divisor x :=
  (EReal.coe_pos.mpr guardValue_pos).trans_le (guardValue_le_divisor x)

/-- An entry is not above what it is divided by, if its square is not above the product. -/
theorem abs_le_divisor {x : Float} (hx : x.isFinite) {p : ℝ} (h : realValue x ^ 2 ≤ p) :
    (|realValue x| : ℝ) ≤ divisor p := by
  rcases le_or_gt |realValue x| guardValue with hsmall | hlarge
  · exact (EReal.coe_le_coe_iff.mpr hsmall).trans (guardValue_le_divisor p)
  · have hlo : 2 ^ (-511 : ℤ) ≤ |realValue x| :=
      (zpow_le_zpow_right₀ one_le_two (by norm_num)).trans (le_guardValue.trans hlarge.le)
    have hroot := (abs_le_roundedRoot_sq hx hlo).trans (roundedRoot_mono h)
    rw [← nearestExtended_abs_realValue hx]
    refine nearestExtended_mono (hroot.trans (le_add_of_nonneg_right ?_))
    exact EReal.coe_nonneg.mpr guardValue_pos.le

/-! ## Entries -/

section

variable {x a b : Float}

/-- What an entry is divided by is computed with every step rounded. -/
theorem extended_divisor (ha : a.isFinite) (hb : b.isFinite)
    (hab : 0 ≤ realValue a * realValue b) :
    (Float.sqrt (a * b) + correlationGuard).isNaN = false ∧
      extended (Float.sqrt (a * b) + correlationGuard) = divisor (realValue a * realValue b) := by
  have hproduct := isNaN_mul ha hb
  have hvalue : extended (a * b) = rounded (realValue a * realValue b) := by
    rw [extended_mul (isNaN_of_isFinite ha) (isNaN_of_isFinite hb) hproduct,
      extended_eq_realValue ha, extended_eq_realValue hb, ← EReal.coe_mul]
    rfl
  have hnonneg : 0 ≤ a * b := by
    rw [float_le_iff_extended rfl hproduct, hvalue, extended_zero, ← rounded_zero]
    exact rounded_mono hab
  have hguard := isNaN_of_isFinite isFinite_correlationGuard
  have hsum := isNaN_add (isNaN_sqrt hnonneg) hguard (.inr isFinite_correlationGuard)
  refine ⟨hsum, ?_⟩
  rw [extended_add (isNaN_sqrt hnonneg) hguard hsum, extended_float_sqrt hnonneg, hvalue,
    extended_eq_realValue isFinite_correlationGuard]
  rfl

/-- An entry of a correlation with every step rounded; it is zero if the divisor is infinite. -/
noncomputable def correlated (x p : ℝ) : ℝ := signedNearest (x / (divisor p).toReal)

/-- An entry is not above what it is divided by. -/
theorem abs_div_divisor_le (hx : x.isFinite) {p : ℝ} (h : realValue x ^ 2 ≤ p) :
    |realValue x / (divisor p).toReal| ≤ 1 := by
  have hle := abs_le_divisor hx h
  have hpos := divisor_pos p
  generalize divisor p = d at hle hpos ⊢
  induction d with
  | bot => exact absurd hpos not_lt_bot
  | top => simp
  | coe d =>
    rw [EReal.toReal_coe, abs_div, abs_of_pos (EReal.coe_pos.mp hpos),
      div_le_one (EReal.coe_pos.mp hpos)]
    exact EReal.coe_le_coe_iff.mp hle

/-- Whatever the divisor is, it is not below the guard. -/
theorem div_divisor_mem {y : ℝ} (hy : 0 ≤ y) (p : ℝ) :
    0 ≤ y / (divisor p).toReal ∧ y / (divisor p).toReal ≤ y / guardValue := by
  have hle := guardValue_le_divisor p
  have hpos := guardValue_pos
  generalize divisor p = d at hle ⊢
  induction d with
  | bot => exact absurd hle (by simp)
  | top => simpa using div_nonneg hy hpos.le
  | coe d =>
    have hle := EReal.coe_le_coe_iff.mp hle
    rw [EReal.toReal_coe]
    exact ⟨div_nonneg hy (hpos.trans_le hle).le, div_le_div_of_nonneg_left hy hpos hle⟩

/-- Every step of an entry is rounded. -/
theorem realValue_correlated (hx : x.isFinite) (ha : a.isFinite) (hb : b.isFinite)
    (h : realValue x ^ 2 ≤ realValue a * realValue b) :
    (x / (Float.sqrt (a * b) + correlationGuard)).isFinite ∧
      realValue (x / (Float.sqrt (a * b) + correlationGuard)) =
        correlated (realValue x) (realValue a * realValue b) := by
  obtain ⟨hnan, hdivisor⟩ := extended_divisor ha hb ((sq_nonneg _).trans h)
  have hpos : 0 < Float.sqrt (a * b) + correlationGuard := by
    rw [float_lt_iff_extended rfl hnan, hdivisor]
    exact divisor_pos _
  refine isFinite_of_extended_eq (isNaN_div hx hpos) ?_
  rw [extended_div hx hpos, hdivisor, extended_eq_realValue hx, correlated,
    ← rounded_of_abs_le_one (abs_div_divisor_le hx h)]
  have hpos := divisor_pos (realValue a * realValue b)
  generalize divisor (realValue a * realValue b) = d at hpos ⊢
  induction d with
  | bot => exact absurd hpos not_lt_bot
  | top => rw [EReal.div_top, EReal.toReal_top, div_zero]; rfl
  | coe d => rw [EReal.toReal_coe, ← EReal.coe_div]; rfl

theorem abs_correlated_le_one (hx : x.isFinite) {p : ℝ} (h : realValue x ^ 2 ≤ p) :
    |correlated (realValue x) p| ≤ 1 :=
  abs_signedNearest_le_one (abs_div_divisor_le hx h)

theorem correlated_zero (p : ℝ) : correlated 0 p = 0 := by
  simp [correlated, signedNearest]

end

/-! ## The diagonal -/

theorem abs_div_sub_div_le {v a b : ℝ} (hv : 0 ≤ v) (ha : 0 < a) (hva : v ≤ a) (hb : 0 < b) :
    |v / a - v / b| ≤ |a - b| / b := by
  have hpart : v / a ≤ 1 := (div_le_one ha).mpr hva
  have hpart' : 0 ≤ v / a := by positivity
  rw [show v / a - v / b = v / a * ((b - a) / b) by field_simp, abs_mul, abs_of_nonneg hpart',
    abs_div, abs_of_pos hb, abs_sub_comm b a]
  exact mul_le_of_le_one_left (by positivity) hpart

theorem guardValue_le_one : guardValue ≤ 1 := by
  have hhi := (abs_le.mp abs_guardValue_sub_le).2
  norm_num at hhi
  linarith

theorem two_zpow_le_guard : (2 : ℝ) ^ (-386 : ℤ) ≤ 1e-100 := by
  have hlo := (abs_le.mp abs_guardValue_sub_le).2
  have hle := le_guardValue
  rw [show (-386 : ℤ) = -385 + -1 by rfl, zpow_add₀ two_ne_zero]
  generalize (2 : ℝ) ^ (-385 : ℤ) = p at hle ⊢
  norm_num at hlo ⊢
  linarith

/-- A variance whose square is infinite has no correlation with itself. -/
theorem correlated_of_le {v : ℝ} (h : 2 ^ (512 : ℤ) ≤ v) : correlated v (v * v) = 0 := by
  have hv : 0 ≤ v := (by positivity : (0 : ℝ) ≤ 2 ^ (512 : ℤ)).trans h
  have hroot : roundedRoot (v * v) = ⊤ := by
    rw [← sq]
    exact roundedRoot_sq_of_le (by rwa [abs_of_nonneg hv])
  have htop : divisor (v * v) = ⊤ := by
    rw [divisor, hroot, EReal.top_add_coe]
    rfl
  simp [correlated, htop, signedNearest]

/-- A variance far below the guard has next to no correlation with itself. -/
theorem abs_correlated_sub_le_of_lt {v : ℝ} (hpos : 0 < v) (hlo : v < 2 ^ (-511 : ℤ)) :
    |correlated v (v * v) - v / (v + 1e-100)| ≤ 2 ^ (-51 : ℤ) := by
  obtain ⟨hquotient, hle⟩ := div_divisor_mem hpos.le (v * v)
  have hsmall : v / guardValue ≤ 2 ^ (-126 : ℤ) := by
    rw [div_le_iff₀ guardValue_pos]
    calc v ≤ 2 ^ (-511 : ℤ) := hlo.le
      _ = 2 ^ (-126 : ℤ) * 2 ^ (-385 : ℤ) := by rw [← zpow_add₀ two_ne_zero]; rfl
      _ ≤ 2 ^ (-126 : ℤ) * guardValue := mul_le_mul_of_nonneg_left le_guardValue (by positivity)
  have hsmall' : v / (v + 1e-100) ≤ 2 ^ (-125 : ℤ) := by
    rw [div_le_iff₀ (by positivity)]
    calc v ≤ 2 ^ (-511 : ℤ) := hlo.le
      _ = 2 ^ (-125 : ℤ) * 2 ^ (-386 : ℤ) := by rw [← zpow_add₀ two_ne_zero]; rfl
      _ ≤ 2 ^ (-125 : ℤ) * (v + 1e-100) := mul_le_mul_of_nonneg_left
        (two_zpow_le_guard.trans (le_add_of_nonneg_left hpos.le)) (by positivity)
  have hnonneg : 0 ≤ v / (v + 1e-100) := by positivity
  have hrounded : nearest (v / (divisor (v * v)).toReal) ≤ 2 ^ (-126 : ℤ) :=
    (nearest_mono hquotient (hle.trans hsmall)).trans_eq (nearest_two_zpow (by norm_num))
  have hnonneg' := nearest_nonneg (v / (divisor (v * v)).toReal)
  rw [correlated, signedNearest, if_neg (not_lt.mpr hquotient), abs_le]
  norm_num at hsmall' hrounded ⊢
  constructor <;> linarith

/-- A quotient by a rounded sum, rounded, is near the one by the exact sum. -/
theorem abs_nearest_div_sub_le {v g d : ℝ} (hv : 0 < v) (hg : 0 < g) (hle : v ≤ d)
    (hsum : |d - (v + g)| ≤ 2 ^ (-53 : ℤ) * (v + g))
    (hguard : |g - 1e-100| ≤ 2 ^ (-55 : ℤ) * 1e-100) :
    |nearest (v / d) - v / (v + 1e-100)| ≤ 2 ^ (-51 : ℤ) := by
  have hd : 0 < d := hv.trans_le hle
  have hquotient : |nearest (v / d) - v / d| ≤ 2 ^ (-53 : ℤ) :=
    abs_nearest_sub_le_of_le_one (by positivity) ((div_le_one hd).mpr hle)
  have hsum' : |v / d - v / (v + g)| ≤ 2 ^ (-53 : ℤ) := by
    refine (abs_div_sub_div_le hv.le hd hle (by positivity)).trans ?_
    rwa [div_le_iff₀ (by positivity)]
  have hguard' : |v / (v + g) - v / (v + 1e-100)| ≤ 2 ^ (-55 : ℤ) := by
    refine (abs_div_sub_div_le hv.le (by positivity) (by linarith) (by positivity)).trans ?_
    rw [div_le_iff₀ (by positivity), add_sub_add_left_eq_sub]
    exact hguard.trans (mul_le_mul_of_nonneg_left (by linarith) (by positivity))
  calc |nearest (v / d) - v / (v + 1e-100)|
      ≤ |nearest (v / d) - v / d| + |v / d - v / (v + g)| + |v / (v + g) - v / (v + 1e-100)| := by
        refine (abs_sub_le _ (v / (v + g)) _).trans (add_le_add_left (abs_sub_le _ _ _) _)
    _ ≤ 2 ^ (-53 : ℤ) + 2 ^ (-53 : ℤ) + 2 ^ (-55 : ℤ) :=
        add_le_add (add_le_add hquotient hsum') hguard'
    _ ≤ 2 ^ (-51 : ℤ) := by norm_num

section

variable {x : Float} (hx : x.isFinite) (hpos : 0 < realValue x)

include hx hpos

/-- Nothing but the guard is added to a variance that is neither too small nor too large. -/
theorem divisor_mul_self (hlo : 2 ^ (-511 : ℤ) ≤ realValue x)
    (hhi : realValue x < 2 ^ (512 : ℤ)) :
    divisor (realValue x * realValue x) = (nearest (realValue x + guardValue) : ℝ) := by
  have habs : |realValue x| = realValue x := abs_of_pos hpos
  have hroot : roundedRoot (realValue x * realValue x) = realValue x := by
    rw [← sq, roundedRoot_sq hx (habs.symm ▸ hlo) (habs.symm ▸ hhi), habs]
  have hsum : 0 ≤ realValue x + guardValue := add_nonneg hpos.le guardValue_pos.le
  have hbound : realValue x + guardValue ≤ 2 ^ (513 : ℤ) := by
    rw [show (513 : ℤ) = 512 + 1 by rfl, zpow_add₀ two_ne_zero, zpow_one, mul_two]
    exact add_le_add hhi.le (guardValue_le_one.trans (one_le_zpow₀ one_le_two (by norm_num)))
  have hlt : nearest (realValue x + guardValue) < 2 ^ (1024 : ℤ) := by
    refine (nearest_mono hsum hbound).trans_lt ?_
    rw [nearest_two_zpow (by norm_num)]
    exact zpow_lt_zpow_right₀ one_lt_two (by norm_num)
  rw [divisor, hroot, ← EReal.coe_add]
  change rounded _ = _
  rw [rounded_of_nonneg hsum, overflow_of_abs_lt]
  rwa [abs_of_nonneg (nearest_nonneg _)]

/-- The correlation of a parameter with itself only misses one by what the guard adds. -/
theorem abs_correlated_sub_le (hhi : realValue x < 2 ^ (512 : ℤ)) :
    |correlated (realValue x) (realValue x * realValue x) -
      realValue x / (realValue x + 1e-100)| ≤ 2 ^ (-51 : ℤ) := by
  rcases lt_or_ge (realValue x) (2 ^ (-511 : ℤ)) with hlo | hlo
  · exact abs_correlated_sub_le_of_lt hpos hlo
  have hle := abs_le_divisor hx (sq (realValue x)).le
  rw [divisor_mul_self hx hpos hlo hhi, abs_of_pos hpos, EReal.coe_le_coe_iff] at hle
  have hquotient : 0 ≤ realValue x / nearest (realValue x + guardValue) :=
    div_nonneg hpos.le (nearest_nonneg _)
  have hsum : 2 ^ (-1022 : ℤ) ≤ realValue x + guardValue :=
    (zpow_le_zpow_right₀ one_le_two (by norm_num)).trans
      (le_guardValue.trans (le_add_of_nonneg_left hpos.le))
  rw [correlated, divisor_mul_self hx hpos hlo hhi, EReal.toReal_coe, signedNearest,
    if_neg (not_lt.mpr hquotient)]
  exact abs_nearest_div_sub_le hpos guardValue_pos hle (abs_nearest_sub_le_mul hsum)
    abs_guardValue_sub_le

end

end LabelledMatrix
end FitSession
