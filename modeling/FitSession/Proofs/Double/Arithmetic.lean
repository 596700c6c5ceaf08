import FitSession.Proofs.Double.Rounded
import FitSession.Proofs.Scalar

/-!
# Order and arithmetic of double precision numbers

Every double precision number but NaN stands for an extended real number. Comparisons are those of
the extended real numbers, and a result that is not NaN is the exact result, rounded. As rounding
keeps the order, so do the operations.

* `extended`, `float_le_iff_extended`, `float_lt_iff_extended`: the values, and the comparisons;
* `extended_add`, `extended_sub`, `extended_mul`: **results are rounded**;
* `float_add_le_add`, `float_sub_le_sub`, `float_mul_le_mul_left`: **operations keep the order**;
* `float_half_add_mem`: **the middle of two numbers is between them**;
* `float_abs_nonneg`, `float_sqrt_le_sqrt`: magnitudes and roots;
* `minNum_le`, `le_minNum`, `le_clampTo`: order operations.
-/

namespace FitSession

open Float.Model (Format UnpackedFloat)
open Float.Model.UnpackedFloat

/-! ## Order -/

theorem IsCanonical.value_lt {m m' : ℕ} {e e' : ℤ} (h : IsCanonical m e) (h' : IsCanonical m' e')
    (hlt : e < e' ∨ e = e' ∧ m < m') : (m : ℝ) * 2 ^ e < m' * 2 ^ e' := by
  rcases hlt with hlt | ⟨rfl, hlt⟩
  · have hm' : 2 ^ 52 ≤ m' := h'.leading.resolve_right (by have := h.least; omega)
    calc (m : ℝ) * 2 ^ e < 2 ^ (53 : ℤ) * 2 ^ e :=
          mul_lt_mul_of_pos_right (by exact_mod_cast h.lt) (by positivity)
      _ = 2 ^ (52 : ℤ) * 2 ^ (e + 1) := by
          rw [← zpow_add₀ two_ne_zero, ← zpow_add₀ two_ne_zero]
          ring_nf
      _ ≤ m' * 2 ^ e' := mul_le_mul (by exact_mod_cast hm')
          (zpow_le_zpow_right₀ one_le_two (by omega)) (by positivity) (by positivity)
  · exact mul_lt_mul_of_pos_right (by exact_mod_cast hlt) (by positivity)

section

variable {a b : UnpackedFloat} (ha : IsStorable a) (hb : IsStorable b)

/-- Values are in the order of the places. -/
theorem realOf_lt_of_place_lt (ha : IsStorable a) (hb : IsStorable b) (hfa : a.isFinite)
    (hfb : b.isFinite) (h : place a < place b) : realOf a < realOf b := by
  cases a with
  | notANumber => cases hfa
  | infinity s => cases hfa
  | zero s =>
    cases b with
    | notANumber => cases hfb
    | infinity s => cases hfb
    | zero s' => exact absurd h (lt_irrefl _)
    | finite s' m' e' hm' =>
      cases s' with
      | negative => exact absurd h (by simp [place, Prod.Lex.lt_iff])
      | positive => exact realOf_pos m' e' hm'
  | finite s m e hm =>
    cases b with
    | notANumber => cases hfb
    | infinity s => cases hfb
    | zero s' =>
      cases s with
      | negative => exact realOf_neg m e hm
      | positive => exact absurd h (by simp [place, Prod.Lex.lt_iff])
    | finite s' m' e' hm' =>
      cases s <;> cases s'
      · -- of two negative numbers, the one with the larger magnitude is the smaller
        have hswap : e' < e ∨ e' = e ∧ m' < m := by
          simpa [place, Prod.Lex.lt_iff, eq_comm] using h
        simpa [Sign.apply] using hb.1.value_lt ha.1 hswap
      · exact (realOf_neg m e hm).trans (realOf_pos m' e' hm')
      · exact absurd h (by simp [place, Prod.Lex.lt_iff])
      · have hlex : e < e' ∨ e = e' ∧ m < m' := by
          simpa [place, Prod.Lex.lt_iff] using h
        simpa [Sign.apply] using ha.1.value_lt hb.1 hlex

theorem realOf_eq_of_place_eq (hfa : a.isFinite) (hfb : b.isFinite) (h : place a = place b) :
    realOf a = realOf b := by
  cases a with
  | notANumber => cases hfa
  | infinity s => cases hfa
  | zero s =>
    cases b with
    | notANumber => cases hfb
    | infinity s => cases hfb
    | zero s' => rfl
    | finite s' m' e' hm' => cases s' <;> simp [place] at h
  | finite s m e hm =>
    cases b with
    | notANumber => cases hfb
    | infinity s => cases hfb
    | zero s' => cases s <;> simp [place] at h
    | finite s' m' e' hm' =>
      cases s <;> cases s' <;> simp [place] at h <;> obtain ⟨rfl, rfl⟩ := h <;> rfl

theorem eq_infinity_of_not_isFinite (hf : ¬a.isFinite) (hn : a.isNaN = false) :
    ∃ s, a = .infinity s := by
  cases a with
  | notANumber => cases hn
  | infinity s => exact ⟨s, rfl⟩
  | zero s => exact absurd rfl hf
  | finite s m e hm => exact absurd rfl hf

theorem compare_infinity_left (s : Sign) (hfb : b.isFinite) :
    (UnpackedFloat.infinity s).compare b =
      some (compare (extendedOf (.infinity s)) (extendedOf b)) := by
  rw [extendedOf_eq_realOf hfb]
  cases s with
  | negative =>
    rw [extendedOf_negative, compare_lt_iff_lt.mpr (EReal.bot_lt_coe _)]
    cases b <;> first | rfl | cases hfb
  | positive =>
    rw [extendedOf_positive, compare_gt_iff_gt.mpr (EReal.coe_lt_top _)]
    cases b <;> first | rfl | cases hfb

theorem compare_infinity_right (s : Sign) (hfa : a.isFinite) :
    a.compare (.infinity s) = some (compare (extendedOf a) (extendedOf (.infinity s))) := by
  rw [extendedOf_eq_realOf hfa]
  cases s with
  | negative =>
    rw [extendedOf_negative, compare_gt_iff_gt.mpr (EReal.bot_lt_coe _)]
    cases a <;> first | rfl | cases hfa
  | positive =>
    rw [extendedOf_positive, compare_lt_iff_lt.mpr (EReal.coe_lt_top _)]
    cases a <;> first | rfl | cases hfa

theorem compare_infinity_infinity (s s' : Sign) :
    (UnpackedFloat.infinity s).compare (.infinity s') =
      some (compare (extendedOf (.infinity s)) (extendedOf (.infinity s'))) := by
  have hlt : (⊥ : EReal) < ⊤ := bot_lt_top
  cases s <;> cases s'
  · rw [compare_eq_iff_eq.mpr rfl]
    rfl
  · rw [extendedOf_negative, extendedOf_positive, compare_lt_iff_lt.mpr hlt]
    rfl
  · rw [extendedOf_negative, extendedOf_positive, compare_gt_iff_gt.mpr hlt]
    rfl
  · rw [compare_eq_iff_eq.mpr rfl]
    rfl

include ha hb

/-- Comparisons are those of the values. -/
theorem compare_eq_extendedOf (hna : a.isNaN = false) (hnb : b.isNaN = false) :
    a.compare b = some (compare (extendedOf a) (extendedOf b)) := by
  by_cases hfa : a.isFinite <;> by_cases hfb : b.isFinite
  · rw [compare_eq_place hfa hfb, extendedOf_eq_realOf hfa, extendedOf_eq_realOf hfb]
    congr 1
    rcases lt_trichotomy (place a) (place b) with h | h | h
    · have hlt := realOf_lt_of_place_lt ha hb hfa hfb h
      rw [compare_lt_iff_lt.mpr h, compare_lt_iff_lt.mpr (EReal.coe_lt_coe_iff.mpr hlt)]
    · rw [compare_eq_iff_eq.mpr h, compare_eq_iff_eq.mpr (by rw [realOf_eq_of_place_eq hfa hfb h])]
    · have hlt := realOf_lt_of_place_lt hb ha hfb hfa h
      rw [compare_gt_iff_gt.mpr h, compare_gt_iff_gt.mpr (EReal.coe_lt_coe_iff.mpr hlt)]
  · obtain ⟨s, rfl⟩ := eq_infinity_of_not_isFinite hfb hnb
    exact compare_infinity_right s hfa
  · obtain ⟨s, rfl⟩ := eq_infinity_of_not_isFinite hfa hna
    exact compare_infinity_left s hfb
  · obtain ⟨s, rfl⟩ := eq_infinity_of_not_isFinite hfa hna
    obtain ⟨s', rfl⟩ := eq_infinity_of_not_isFinite hfb hnb
    exact compare_infinity_infinity s s'

end

/-! ## Results -/

theorem nearestExtended_infinity (s : Sign) :
    nearestExtended (extendedOf (.infinity s)) = extendedOf (.infinity s) := by
  cases s <;> rfl

theorem isNaN_roundWithAccuracy (s : Sign) (m : ℕ) (e : ℤ) (acc : Accuracy) :
    (roundWithAccuracy Format.binary64 s m e acc).isNaN = false := by
  unfold roundWithAccuracy
  dsimp only
  split <;> rfl

theorem isNaN_normalize (m e : ℤ) (z : Sign) :
    (UnpackedFloat.normalize Format.binary64 m e z).isNaN = false := by
  unfold UnpackedFloat.normalize
  cases compare m 0
  · exact isNaN_roundWithAccuracy ..
  · rfl
  · exact isNaN_roundWithAccuracy ..

theorem finite_mul_infinity (s s' : Sign) (m : ℕ) (e : ℤ) (hm : 0 < m) :
    extendedOf (.finite s m e hm) * extendedOf (.infinity s') =
      extendedOf (.infinity (s * s')) := by
  rw [extendedOf_eq_realOf rfl]
  cases s with
  | negative =>
    have hneg := realOf_neg m e hm
    cases s'
    · exact EReal.coe_mul_bot_of_neg hneg
    · exact EReal.coe_mul_top_of_neg hneg
  | positive =>
    have hpos := realOf_pos m e hm
    cases s'
    · exact EReal.coe_mul_bot_of_pos hpos
    · exact EReal.coe_mul_top_of_pos hpos

section

variable {a b : UnpackedFloat} (ha : IsStorable a) (hb : IsStorable b)
include ha hb

theorem extendedOf_add_extended (hna : a.isNaN = false) (hnb : b.isNaN = false)
    (h : (add Format.binary64 a b).isNaN = false) :
    extendedOf (stored (add Format.binary64 a b)) =
      nearestExtended (extendedOf a + extendedOf b) := by
  by_cases hfa : a.isFinite <;> by_cases hfb : b.isFinite
  · rw [extendedOf_add ha hb hfa hfb, extendedOf_eq_realOf hfa, extendedOf_eq_realOf hfb,
      ← EReal.coe_add]
    rfl
  · obtain ⟨s, rfl⟩ := eq_infinity_of_not_isFinite hfb hnb
    have hadd : add Format.binary64 a (.infinity s) = .infinity s := by
      cases a <;> first | rfl | cases hfa
    rw [hadd, stored_infinity, extendedOf_eq_realOf hfa]
    cases s <;> simp <;> rfl
  · obtain ⟨s, rfl⟩ := eq_infinity_of_not_isFinite hfa hna
    have hadd : add Format.binary64 (.infinity s) b = .infinity s := by
      cases b <;> first | rfl | cases hfb
    rw [hadd, stored_infinity, extendedOf_eq_realOf hfb]
    cases s <;> simp <;> rfl
  · obtain ⟨s, rfl⟩ := eq_infinity_of_not_isFinite hfa hna
    obtain ⟨s', rfl⟩ := eq_infinity_of_not_isFinite hfb hnb
    cases s <;> cases s' <;> first | rfl | cases h

theorem extendedOf_sub_extended (hna : a.isNaN = false) (hnb : b.isNaN = false)
    (h : (sub Format.binary64 a b).isNaN = false) :
    extendedOf (stored (sub Format.binary64 a b)) =
      nearestExtended (extendedOf a - extendedOf b) := by
  by_cases hfa : a.isFinite <;> by_cases hfb : b.isFinite
  · rw [extendedOf_sub ha hb hfa hfb, extendedOf_eq_realOf hfa, extendedOf_eq_realOf hfb,
      ← EReal.coe_sub]
    rfl
  · obtain ⟨s, rfl⟩ := eq_infinity_of_not_isFinite hfb hnb
    have hsub : sub Format.binary64 a (.infinity s) = .infinity (-s) := by
      cases a <;> first | rfl | cases hfa
    rw [hsub, stored_infinity, extendedOf_eq_realOf hfa]
    cases s <;> simp <;> rfl
  · obtain ⟨s, rfl⟩ := eq_infinity_of_not_isFinite hfa hna
    have hsub : sub Format.binary64 (.infinity s) b = .infinity s := by
      cases b <;> first | rfl | cases hfb
    rw [hsub, stored_infinity, extendedOf_eq_realOf hfb]
    cases s <;> simp <;> rfl
  · obtain ⟨s, rfl⟩ := eq_infinity_of_not_isFinite hfa hna
    obtain ⟨s', rfl⟩ := eq_infinity_of_not_isFinite hfb hnb
    cases s <;> cases s' <;> first | rfl | cases h

theorem extendedOf_mul_extended (hna : a.isNaN = false) (hnb : b.isNaN = false)
    (h : (mul Format.binary64 a b).isNaN = false) :
    extendedOf (stored (mul Format.binary64 a b)) =
      nearestExtended (extendedOf a * extendedOf b) := by
  by_cases hfa : a.isFinite <;> by_cases hfb : b.isFinite
  · rw [extendedOf_mul ha hb hfa hfb, extendedOf_eq_realOf hfa, extendedOf_eq_realOf hfb,
      ← EReal.coe_mul]
    rfl
  · obtain ⟨s, rfl⟩ := eq_infinity_of_not_isFinite hfb hnb
    cases a with
    | notANumber => cases hfa
    | infinity s' => cases hfa
    | zero s' => cases h
    | finite s' m e hm =>
      rw [finite_mul_infinity, nearestExtended_infinity]
      exact congrArg extendedOf (stored_infinity (s' * s))
  · obtain ⟨s, rfl⟩ := eq_infinity_of_not_isFinite hfa hna
    cases b with
    | notANumber => cases hfb
    | infinity s' => cases hfb
    | zero s' => cases h
    | finite s' m e hm =>
      rw [mul_comm, finite_mul_infinity, nearestExtended_infinity]
      refine (congrArg extendedOf (stored_infinity (s * s'))).trans ?_
      cases s <;> cases s' <;> rfl
  · obtain ⟨s, rfl⟩ := eq_infinity_of_not_isFinite hfa hna
    obtain ⟨s', rfl⟩ := eq_infinity_of_not_isFinite hfb hnb
    cases s <;> cases s' <;> rfl

end

/-- The extended real number that a double precision number stands for. -/
noncomputable def extended (x : Float) : EReal := extendedOf x.toModel.unpack

section

variable {x y z w : Float}

theorem isStorable_toModel (x : Float) : IsStorable x.toModel.unpack := isStorable_unpack _

theorem float_le_iff_extended (hx : x.isNaN = false) (hy : y.isNaN = false) :
    x ≤ y ↔ extended x ≤ extended y := by
  rw [float_le_iff_compare,
    compare_eq_extendedOf (isStorable_toModel x) (isStorable_toModel y) hx hy,
    Option.any_some, Ordering.isLE_iff_ne_gt]
  exact compare_le_iff_le

theorem float_lt_iff_extended (hx : x.isNaN = false) (hy : y.isNaN = false) :
    x < y ↔ extended x < extended y := by
  rw [float_lt_iff_compare,
    compare_eq_extendedOf (isStorable_toModel x) (isStorable_toModel y) hx hy,
    beq_iff_eq, Option.some.injEq, compare_lt_iff_lt]
  rfl

/-- What is compared is not NaN. -/
theorem isNaN_of_le (h : x ≤ y) : x.isNaN = false ∧ y.isNaN = false := by
  rw [float_le_iff_compare] at h
  change x.toModel.unpack.isNaN = false ∧ y.toModel.unpack.isNaN = false
  generalize x.toModel.unpack = a at h ⊢
  generalize y.toModel.unpack = b at h ⊢
  cases a <;> cases b <;> first | exact ⟨rfl, rfl⟩ | cases h

theorem isNaN_of_lt (h : x < y) : x.isNaN = false ∧ y.isNaN = false := by
  rw [float_lt_iff_compare] at h
  change x.toModel.unpack.isNaN = false ∧ y.toModel.unpack.isNaN = false
  generalize x.toModel.unpack = a at h ⊢
  generalize y.toModel.unpack = b at h ⊢
  cases a <;> cases b <;> first | exact ⟨rfl, rfl⟩ | cases h

theorem extended_le (h : x ≤ y) : extended x ≤ extended y :=
  (float_le_iff_extended (isNaN_of_le h).1 (isNaN_of_le h).2).mp h

theorem float_le_refl (hx : x.isNaN = false) : x ≤ x := (float_le_iff_extended hx hx).mpr le_rfl

theorem float_le_trans (h : x ≤ y) (h' : y ≤ z) : x ≤ z :=
  (float_le_iff_extended (isNaN_of_le h).1 (isNaN_of_le h').2).mpr
    ((extended_le h).trans (extended_le h'))

theorem float_le_of_lt (h : x < y) : x ≤ y :=
  have ⟨hx, hy⟩ := isNaN_of_lt h
  (float_le_iff_extended hx hy).mpr ((float_lt_iff_extended hx hy).mp h).le

theorem float_not_lt (hx : x.isNaN = false) (hy : y.isNaN = false) : ¬x < y ↔ y ≤ x := by
  rw [float_lt_iff_extended hx hy, float_le_iff_extended hy hx, not_lt]

theorem isNaN_of_isFinite (hx : x.isFinite) : x.isNaN = false := by
  change x.toModel.unpack.isFinite = true at hx
  change x.toModel.unpack.isNaN = false
  generalize x.toModel.unpack = a at hx ⊢
  cases a <;> first | rfl | cases hx

/-! ## Operations -/

theorem extended_add (hx : x.isNaN = false) (hy : y.isNaN = false) (h : (x + y).isNaN = false) :
    extended (x + y) = nearestExtended (extended x + extended y) :=
  extendedOf_add_extended (isStorable_toModel x) (isStorable_toModel y) hx hy
    (isNaN_stored _ ▸ h)

theorem extended_sub (hx : x.isNaN = false) (hy : y.isNaN = false) (h : (x - y).isNaN = false) :
    extended (x - y) = nearestExtended (extended x - extended y) :=
  extendedOf_sub_extended (isStorable_toModel x) (isStorable_toModel y) hx hy
    (isNaN_stored _ ▸ h)

theorem extended_mul (hx : x.isNaN = false) (hy : y.isNaN = false) (h : (x * y).isNaN = false) :
    extended (x * y) = nearestExtended (extended x * extended y) :=
  extendedOf_mul_extended (isStorable_toModel x) (isStorable_toModel y) hx hy
    (isNaN_stored _ ▸ h)

theorem nearestExtended_extended (x : Float) : nearestExtended (extended x) = extended x := by
  have hx := isStorable_toModel x
  unfold extended
  generalize x.toModel.unpack = u at hx ⊢
  by_cases hfu : u.isFinite
  · rw [extendedOf_eq_realOf hfu]
    exact (rounded_realOf hx hfu).trans (extendedOf_eq_realOf hfu)
  · by_cases hnu : u.isNaN = false
    · obtain ⟨s, rfl⟩ := eq_infinity_of_not_isFinite hfu hnu
      exact nearestExtended_infinity s
    · cases u with
      | notANumber => exact rounded_zero
      | _ => exact absurd rfl hnu

theorem isNaN_add (hx : x.isNaN = false) (hy : y.isNaN = false) (h : x.isFinite ∨ y.isFinite) :
    (x + y).isNaN = false := by
  refine (isNaN_stored _).trans ?_
  change x.toModel.unpack.isFinite = true ∨ y.toModel.unpack.isFinite = true at h
  change x.toModel.unpack.isNaN = false at hx
  change y.toModel.unpack.isNaN = false at hy
  generalize x.toModel.unpack = a at hx h ⊢
  generalize y.toModel.unpack = b at hy h ⊢
  cases a <;> cases b <;> first
    | cases hx; done
    | cases hy; done
    | (rcases h with h | h <;> cases h; done)
    | rfl
    | exact isNaN_normalize ..
    | (rename_i s s'; cases s <;> cases s' <;> rfl)

theorem isNaN_sub (hx : x.isNaN = false) (hy : y.isNaN = false) (h : x.isFinite ∨ y.isFinite) :
    (x - y).isNaN = false := by
  refine (isNaN_stored _).trans ?_
  change x.toModel.unpack.isFinite = true ∨ y.toModel.unpack.isFinite = true at h
  change x.toModel.unpack.isNaN = false at hx
  change y.toModel.unpack.isNaN = false at hy
  generalize x.toModel.unpack = a at hx h ⊢
  generalize y.toModel.unpack = b at hy h ⊢
  cases a <;> cases b <;> first
    | cases hx; done
    | cases hy; done
    | (rcases h with h | h <;> cases h; done)
    | rfl
    | exact isNaN_normalize ..
    | (rename_i s s'; cases s <;> cases s' <;> rfl)

theorem isNaN_mul (hx : x.isFinite) (hy : y.isFinite) : (x * y).isNaN = false := by
  refine (isNaN_stored _).trans ?_
  change x.toModel.unpack.isFinite = true at hx
  change y.toModel.unpack.isFinite = true at hy
  generalize x.toModel.unpack = a at hx ⊢
  generalize y.toModel.unpack = b at hy ⊢
  cases a <;> cases b <;> first
    | cases hx; done
    | cases hy; done
    | rfl
    | exact isNaN_roundWithAccuracy ..

@[simp] theorem extended_zero : extended 0 = 0 := rfl

@[simp] theorem extended_one : extended 1 = 1 := by
  have h : (1 : Float).toModel.unpack = .finite .positive (2 ^ 52) (-52) (by decide) := rfl
  rw [extended, h, extendedOf]
  norm_num [Sign.apply]

theorem extended_half : extended 0.5 = ((1 / 2 : ℝ) : EReal) := by
  have h : (0.5 : Float).toModel.unpack = .finite .positive (2 ^ 52) (-53) (by decide) := rfl
  rw [extended, h, extendedOf]
  norm_num [Sign.apply]

/-- Sums keep the order, as far as they are numbers. -/
theorem float_add_le_add (h : x ≤ y) (h' : z ≤ w) (hxz : (x + z).isNaN = false)
    (hyw : (y + w).isNaN = false) : x + z ≤ y + w := by
  rw [float_le_iff_extended hxz hyw, extended_add (isNaN_of_le h).1 (isNaN_of_le h').1 hxz,
    extended_add (isNaN_of_le h).2 (isNaN_of_le h').2 hyw]
  exact nearestExtended_mono (add_le_add (extended_le h) (extended_le h'))

/-- Differences keep the order on the left and turn it around on the right, as far as they are
numbers. -/
theorem float_sub_le_sub (h : x ≤ y) (h' : z ≤ w) (hxw : (x - w).isNaN = false)
    (hyz : (y - z).isNaN = false) : x - w ≤ y - z := by
  rw [float_le_iff_extended hxw hyz, extended_sub (isNaN_of_le h).1 (isNaN_of_le h').2 hxw,
    extended_sub (isNaN_of_le h).2 (isNaN_of_le h').1 hyz]
  exact nearestExtended_mono (EReal.sub_le_sub (extended_le h) (extended_le h'))

/-- Multiplying both by the same number that is not negative keeps the order. -/
theorem float_mul_le_mul_left (hx : x.isFinite) (hy : y.isFinite) (hz : z.isFinite) (hpos : 0 ≤ z)
    (h : x ≤ y) : z * x ≤ z * y := by
  have hzx := isNaN_mul hz hx
  have hzy := isNaN_mul hz hy
  have hz' := isNaN_of_isFinite hz
  rw [float_le_iff_extended hzx hzy, extended_mul hz' (isNaN_of_isFinite hx) hzx,
    extended_mul hz' (isNaN_of_isFinite hy) hzy]
  exact nearestExtended_mono (mul_le_mul_of_nonneg_left (extended_le h) (extended_le hpos))

/-- A product of numbers that are not negative is not negative, if it is a number. -/
theorem float_mul_nonneg (hx : 0 ≤ x) (hy : 0 ≤ y) (h : (x * y).isNaN = false) : 0 ≤ x * y := by
  rw [float_le_iff_extended (isNaN_of_le hx).1 h,
    extended_mul (isNaN_of_le hx).2 (isNaN_of_le hy).2 h, ← nearestExtended_extended 0]
  exact nearestExtended_mono (mul_nonneg (extended_le hx) (extended_le hy))

/-- A number does not shrink when one is added that is not negative. -/
theorem float_le_add_of_nonneg (hy : 0 ≤ y) (h : (x + y).isNaN = false)
    (hx : x.isNaN = false) : x ≤ x + y := by
  rw [float_le_iff_extended hx h, extended_add hx (isNaN_of_le hy).2 h]
  calc extended x = nearestExtended (extended x) := (nearestExtended_extended x).symm
    _ ≤ nearestExtended (extended x + extended y) :=
      nearestExtended_mono (le_add_of_nonneg_right (extended_le hy))

/-- A number that is not negative does not shrink when it is multiplied by one that is at least
one. -/
theorem float_le_mul_of_one_le (hx : 0 ≤ x) (hy : 1 ≤ y) (h : (x * y).isNaN = false) :
    x ≤ x * y := by
  have hone : 1 ≤ extended y := extended_one ▸ extended_le hy
  rw [float_le_iff_extended (isNaN_of_le hx).2 h]
  calc extended x = nearestExtended (extended x) := (nearestExtended_extended x).symm
    _ ≤ nearestExtended (extended x * extended y) :=
      nearestExtended_mono (le_mul_of_one_le_right (extended_le hx) hone)
    _ = extended (x * y) := (extended_mul (isNaN_of_le hx).2 (isNaN_of_le hy).2 h).symm

/-! ## Operands -/

theorem isNaN_of_mul (h : (x * y).isNaN = false) : x.isNaN = false ∧ y.isNaN = false := by
  replace h := (isNaN_stored _).symm.trans h
  change x.toModel.unpack.isNaN = false ∧ y.toModel.unpack.isNaN = false
  generalize x.toModel.unpack = a at h ⊢
  generalize y.toModel.unpack = b at h ⊢
  cases a <;> cases b <;> first | exact ⟨rfl, rfl⟩ | cases h

theorem isNaN_of_add (h : (x + y).isNaN = false) : x.isNaN = false ∧ y.isNaN = false := by
  replace h := (isNaN_stored _).symm.trans h
  change x.toModel.unpack.isNaN = false ∧ y.toModel.unpack.isNaN = false
  generalize x.toModel.unpack = a at h ⊢
  generalize y.toModel.unpack = b at h ⊢
  cases a <;> cases b <;> first | exact ⟨rfl, rfl⟩ | cases h

theorem isNaN_of_sub (h : (x - y).isNaN = false) : x.isNaN = false ∧ y.isNaN = false := by
  replace h := (isNaN_stored _).symm.trans h
  change x.toModel.unpack.isNaN = false ∧ y.toModel.unpack.isNaN = false
  generalize x.toModel.unpack = a at h ⊢
  generalize y.toModel.unpack = b at h ⊢
  cases a <;> cases b <;> first | exact ⟨rfl, rfl⟩ | cases h

theorem isFinite_of_add (h : (x + y).isFinite) : x.isFinite ∧ y.isFinite := by
  replace h := isFinite_of_stored h
  change x.toModel.unpack.isFinite = true ∧ y.toModel.unpack.isFinite = true
  generalize x.toModel.unpack = a at h ⊢
  generalize y.toModel.unpack = b at h ⊢
  cases a <;> cases b <;> first
    | exact ⟨rfl, rfl⟩
    | cases h
    | (rename_i s s'; cases s <;> cases s' <;> cases h)

theorem isFinite_of_mul (h : (x * y).isFinite) : x.isFinite ∧ y.isFinite := by
  replace h := isFinite_of_stored h
  change x.toModel.unpack.isFinite = true ∧ y.toModel.unpack.isFinite = true
  generalize x.toModel.unpack = a at h ⊢
  generalize y.toModel.unpack = b at h ⊢
  cases a <;> cases b <;> first | exact ⟨rfl, rfl⟩ | cases h

/-- A square is not negative, if it is a number. -/
theorem float_mul_self_nonneg (h : (x * x).isNaN = false) : 0 ≤ x * x := by
  have hx := (isNaN_of_mul h).1
  have hsquare : 0 ≤ extended x * extended x := by
    rcases le_total 0 (extended x) with hpos | hneg
    · exact mul_nonneg hpos hpos
    · rw [← neg_mul_neg]
      exact mul_nonneg (EReal.neg_nonneg.mpr hneg) (EReal.neg_nonneg.mpr hneg)
  rw [float_le_iff_extended rfl h, extended_mul hx hx h, ← nearestExtended_extended 0]
  exact nearestExtended_mono hsquare

/-! ## Between two numbers -/

theorem extended_of_isFinite (hx : x.isFinite) :
    extended x = (realOf x.toModel.unpack : EReal) := extendedOf_eq_realOf hx

theorem extended_of_not_isFinite (hx : x.isNaN = false) (h : ¬x.isFinite) :
    extended x = ⊥ ∨ extended x = ⊤ := by
  obtain ⟨s, hs⟩ := eq_infinity_of_not_isFinite h hx
  rw [extended, hs]
  cases s with
  | negative => exact .inl rfl
  | positive => exact .inr rfl

/-- A number between finite ones is finite. -/
theorem isFinite_of_between (hx : x.isFinite) (hz : z.isFinite) (h : x ≤ y) (h' : y ≤ z) :
    y.isFinite := by
  by_contra hy
  rcases extended_of_not_isFinite (isNaN_of_le h).2 hy with hbot | htop
  · have hle := extended_le h
    rw [hbot, extended_of_isFinite hx] at hle
    exact absurd hle (by simp)
  · have hle := extended_le h'
    rw [htop, extended_of_isFinite hz] at hle
    exact absurd hle (by simp)

theorem float_eq_of_unpack (h : x.toModel.unpack = y.toModel.unpack) : x = y := by
  obtain ⟨⟨b, hb⟩⟩ := x
  obtain ⟨⟨b', hb'⟩⟩ := y
  obtain rfl : b = b' := UInt64.eq_of_toBitVec_eq ((unpack_inj_of_valid hb hb').mp h)
  rfl

/-- What is above a finite number is finite, or the infinity. -/
theorem float_eq_inf (hx : x.isFinite) (h : x ≤ y) (hy : ¬y.isFinite) : y = Scalar.inf := by
  obtain ⟨s, hs⟩ := eq_infinity_of_not_isFinite (a := y.toModel.unpack) hy (isNaN_of_le h).2
  cases s with
  | negative =>
    have hle := extended_le h
    rw [extended_of_isFinite hx, extended, hs, extendedOf_negative] at hle
    exact absurd hle (by simp)
  | positive => exact float_eq_of_unpack hs

/-- What is below a finite number is finite, or the negative infinity. -/
theorem float_eq_negInf (hy : y.isFinite) (h : x ≤ y) (hx : ¬x.isFinite) :
    x = Scalar.negInf := by
  obtain ⟨s, hs⟩ := eq_infinity_of_not_isFinite (a := x.toModel.unpack) hx (isNaN_of_le h).1
  cases s with
  | negative => exact float_eq_of_unpack hs
  | positive =>
    have hle := extended_le h
    rw [extended_of_isFinite hy, extended, hs, extendedOf_positive] at hle
    exact absurd hle (by simp)

theorem float_sub_nonneg (h : x ≤ y) (hyx : (y - x).isNaN = false) (hx : x.isFinite) :
    0 ≤ y - x := by
  rw [float_le_iff_extended rfl hyx, extended_sub (isNaN_of_le h).2 (isNaN_of_le h).1 hyx,
    ← nearestExtended_extended 0]
  refine nearestExtended_mono ((EReal.sub_nonneg ?_ ?_).mpr (extended_le h))
  · exact .inr (by rw [extended_of_isFinite hx]; exact EReal.coe_ne_top _)
  · exact .inr (by rw [extended_of_isFinite hx]; exact EReal.coe_ne_bot _)

/-- A part of a number is between zero and that number. -/
theorem float_part_mem (hy : 0 ≤ y) (hone : y ≤ 1) (hx : 0 ≤ x) (hfin : x.isFinite) :
    0 ≤ y * x ∧ y * x ≤ x := by
  have hfiny : y.isFinite := isFinite_of_between rfl (by rfl) hy hone
  have hpart := isNaN_mul hfiny hfin
  have hnan := isNaN_of_isFinite hfin
  refine ⟨float_mul_nonneg hy hx hpart, ?_⟩
  have hle : extended y * extended x ≤ 1 * extended x :=
    mul_le_mul_of_nonneg_right (extended_one ▸ extended_le hone) (extended_le hx)
  rw [one_mul] at hle
  rw [float_le_iff_extended hpart hnan, extended_mul (isNaN_of_isFinite hfiny) hnan hpart]
  exact (nearestExtended_mono hle).trans_eq (nearestExtended_extended x)

/-- Half of a number is between zero and that number. -/
theorem float_half_mem (hx : 0 ≤ x) (hfin : x.isFinite) : 0 ≤ 0.5 * x ∧ 0.5 * x ≤ x :=
  float_part_mem (by decide +kernel) (by decide +kernel) hx hfin

/-- Numbers that are equal have a finite difference. -/
theorem isFinite_sub_of_eq (hx : x.isFinite) (hle : x ≤ y) (hge : y ≤ x) : (y - x).isFinite := by
  have hnan := isNaN_of_isFinite hx
  have hsub := isNaN_sub (isNaN_of_le hle).2 hnan (.inr hx)
  have heq : extended (y - x) = 0 := by
    rw [extended_sub (isNaN_of_le hle).2 hnan hsub,
      le_antisymm (extended_le hge) (extended_le hle), extended_of_isFinite hx, ← EReal.coe_sub,
      sub_self]
    exact rounded_zero
  by_contra hinf
  rcases extended_of_not_isFinite hsub hinf with h | h <;> rw [heq] at h <;> cases h

/-- The middle of two numbers is between them, if their sum is not too large. -/
theorem float_half_add_mem (hx : 0 ≤ x) (h : x ≤ y) (hsum : (x + y).isFinite) :
    x ≤ 0.5 * (x + y) ∧ 0.5 * (x + y) ≤ y := by
  obtain ⟨hfx, hfy⟩ := isFinite_of_add hsum
  have hhalf : (0.5 * (x + y)).isNaN = false := isNaN_mul (by rfl) hsum
  have hbound := realOf_lt (isStorable_toModel (x + y))
  have hdoubleX := rounded_two_mul (isStorable_toModel x) hfx
  have hdoubleY := rounded_two_mul (isStorable_toModel y) hfy
  have hroundX := nearestExtended_extended x
  have hroundY := nearestExtended_extended y
  have hadd := extended_add (isNaN_of_isFinite hfx) (isNaN_of_isFinite hfy) (isNaN_of_isFinite hsum)
  have hmul := extended_mul (by rfl) (isNaN_of_isFinite hsum) hhalf
  have hx := extended_le hx
  have h := extended_le h
  rw [extended_zero] at hx
  rw [extended_of_isFinite hfx] at hroundX
  rw [extended_of_isFinite hfy] at hroundY
  rw [extended_half] at hmul
  rw [extended_of_isFinite hfx, extended_of_isFinite hfy, EReal.coe_le_coe_iff] at h
  rw [extended_of_isFinite hfx, EReal.coe_nonneg] at hx
  rw [extended_of_isFinite hsum, extended_of_isFinite hfx, extended_of_isFinite hfy,
    ← EReal.coe_add] at hadd
  rw [extended_of_isFinite hsum, ← EReal.coe_mul] at hmul
  rw [float_le_iff_extended (isNaN_of_isFinite hfx) hhalf,
    float_le_iff_extended hhalf (isNaN_of_isFinite hfy), hmul,
    extended_of_isFinite hfx, extended_of_isFinite hfy, ← hroundX, ← hroundY]
  generalize realOf x.toModel.unpack = a at *
  generalize realOf y.toModel.unpack = b at *
  generalize realOf (x + y).toModel.unpack = s at *
  change (s : EReal) = rounded (a + b) at hadd
  have hlo : 2 * a ≤ s := by
    have hle : overflow (2 * a) ≤ s := by
      rw [hadd, ← hdoubleX hx]
      exact rounded_mono (by linarith)
    exact EReal.coe_le_coe_iff.mp ((le_overflow (by positivity)).trans hle)
  have hhi : s ≤ 2 * b := by
    have hle : (s : EReal) ≤ overflow (2 * b) := by
      rw [hadd, ← hdoubleY (hx.trans h)]
      exact rounded_mono (by linarith)
    exact le_of_coe_le_overflow hbound hle
  constructor
  · exact nearestExtended_mono (EReal.coe_le_coe_iff.mpr (by linarith))
  · exact nearestExtended_mono (EReal.coe_le_coe_iff.mpr (by linarith))

/-! ## Magnitudes and roots -/

theorem isNaN_abs (x : Float) : x.abs.isNaN = x.isNaN := by
  refine (isNaN_stored _).trans ?_
  change _ = x.toModel.unpack.isNaN
  cases x.toModel.unpack <;> rfl

theorem float_abs_nonneg (hx : x.isNaN = false) : 0 ≤ x.abs := by
  rw [float_le_iff_extended rfl (isNaN_abs x ▸ hx), extended_zero]
  have hs := isStorable_toModel x
  change 0 ≤ extendedOf (stored x.toModel.unpack.abs)
  generalize x.toModel.unpack = a at hs ⊢
  cases a with
  | notANumber => exact le_rfl
  | infinity s =>
    change 0 ≤ extendedOf (stored (.infinity .positive))
    rw [stored_infinity]
    exact le_top
  | zero s => exact (extendedOf_stored_zero .positive).ge
  | finite s m e hm =>
    have hstored : IsStorable (.finite .positive m e hm) := hs
    change 0 ≤ extendedOf (stored (.finite .positive m e hm))
    rw [stored_of_isStorable hstored, extendedOf_eq_realOf rfl]
    exact EReal.coe_nonneg.mpr (realOf_pos m e hm).le

theorem isFinite_abs (hx : x.isFinite) : x.abs.isFinite := by
  have hs := isStorable_toModel x
  change (stored x.toModel.unpack.abs).isFinite = true
  change x.toModel.unpack.isFinite = true at hx
  generalize x.toModel.unpack = a at hs hx ⊢
  cases a with
  | notANumber => cases hx
  | infinity s => cases hx
  | zero s =>
    change (stored (.zero .positive)).isFinite = true
    decide +kernel
  | finite s m e hm =>
    have hstored : IsStorable (.finite .positive m e hm) := hs
    change (stored (.finite .positive m e hm)).isFinite = true
    rw [stored_of_isStorable hstored]
    rfl

/-- The square root of a number that is not negative is one again. -/
theorem isNaN_sqrt (h : 0 ≤ x) : x.sqrt.isNaN = false := by
  have hx := (isNaN_of_le h).2
  have hnonneg := extended_le h
  refine (isNaN_stored _).trans ?_
  change x.toModel.unpack.isNaN = false at hx
  change 0 ≤ extendedOf x.toModel.unpack at hnonneg
  generalize x.toModel.unpack = a at hx hnonneg ⊢
  cases a with
  | notANumber => cases hx
  | infinity s =>
    cases s with
    | negative => exact absurd hnonneg (by simp)
    | positive => rfl
  | zero s => rfl
  | finite s m e hm =>
    cases s with
    | negative => exact absurd (EReal.coe_nonneg.mp hnonneg) (not_le.mpr (realOf_neg m e hm))
    | positive => exact isNaN_roundWithAccuracy ..

/-- The square root of an extended real number that is not negative. -/
noncomputable def extendedRoot : EReal → EReal
  | ⊥ => 0
  | ⊤ => ⊤
  | (x : ℝ) => (√x : ℝ)

theorem extendedRoot_nonneg (x : EReal) : 0 ≤ extendedRoot x := by
  induction x with
  | bot => exact le_rfl
  | top => exact le_top
  | coe x => exact EReal.coe_nonneg.mpr (Real.sqrt_nonneg x)

theorem extendedRoot_mono : Monotone extendedRoot := by
  intro x y h
  induction x with
  | bot => exact extendedRoot_nonneg y
  | top => rw [top_le_iff.mp h]
  | coe x =>
    induction y with
    | bot => exact absurd h (by simp)
    | top => exact le_top
    | coe y => exact EReal.coe_le_coe_iff.mpr (Real.sqrt_le_sqrt (EReal.coe_le_coe_iff.mp h))

/-- A square root is the exact square root, rounded. -/
theorem extended_float_sqrt (h : 0 ≤ x) :
    extended x.sqrt = nearestExtended (extendedRoot (extended x)) := by
  have hx := (isNaN_of_le h).2
  have hnonneg := extended_le h
  have hs := isStorable_toModel x
  change extendedOf (stored (sqrt _ x.toModel.unpack)) =
    nearestExtended (extendedRoot (extendedOf _))
  change x.toModel.unpack.isNaN = false at hx
  change 0 ≤ extendedOf x.toModel.unpack at hnonneg
  generalize x.toModel.unpack = a at hx hnonneg hs ⊢
  by_cases hfa : a.isFinite
  · rw [extendedOf_eq_realOf hfa] at hnonneg ⊢
    exact extendedOf_sqrt hs hfa (EReal.coe_nonneg.mp hnonneg)
  · obtain ⟨s, rfl⟩ := eq_infinity_of_not_isFinite hfa hx
    cases s with
    | negative => exact absurd hnonneg (by simp)
    | positive => rfl

/-- Square roots keep the order. -/
theorem float_sqrt_le_sqrt (hx : 0 ≤ x) (h : x ≤ y) : x.sqrt ≤ y.sqrt := by
  have hy := float_le_trans hx h
  rw [float_le_iff_extended (isNaN_sqrt hx) (isNaN_sqrt hy), extended_float_sqrt hx,
    extended_float_sqrt hy]
  exact nearestExtended_mono (extendedRoot_mono (extended_le h))

theorem float_sqrt_nonneg (h : 0 ≤ x) : 0 ≤ x.sqrt := by
  have hzero : Float.sqrt 0 = 0 := by decide +kernel
  have hle := float_sqrt_le_sqrt (float_le_refl rfl) h
  rwa [hzero] at hle

theorem float_one_le_sqrt (h : 1 ≤ x) : 1 ≤ x.sqrt := by
  have hone : Float.sqrt 1 = 1 := by decide +kernel
  have hle := float_sqrt_le_sqrt (by decide +kernel) h
  rwa [hone] at hle

/-- Only numbers that are not negative have a square root. -/
theorem nonneg_of_sqrt (h : x.sqrt.isNaN = false) : 0 ≤ x := by
  replace h := (isNaN_stored _).symm.trans h
  rw [float_le_iff_compare]
  change (UnpackedFloat.compare (.zero .positive) x.toModel.unpack).any (·.isLE) = true
  generalize x.toModel.unpack = a at h ⊢
  cases a with
  | notANumber => cases h
  | infinity s => cases s <;> first | rfl | cases h
  | zero s => rfl
  | finite s m e hm => cases s <;> first | rfl | cases h

end

/-! ## Order operations -/

section

variable {x y z : Float}

theorem minNum_le (hy : y.isNaN = false) : Scalar.minNum x y ≤ y := by
  unfold Scalar.minNum
  split_ifs with hx hlt
  · exact float_le_refl hy
  · exact float_le_refl hy
  · exact (float_not_lt hy (Bool.eq_false_iff.mpr hx)).mp hlt

theorem le_minNum (hx : x.isNaN = false → z ≤ x) (hy : z ≤ y) : z ≤ Scalar.minNum x y := by
  unfold Scalar.minNum
  split_ifs with hnan hlt
  · exact hy
  · exact hy
  · exact hx (Bool.eq_false_iff.mpr hnan)

theorem le_maxNum_right (hy : z ≤ y) : z ≤ Scalar.maxNum x y := by
  unfold Scalar.maxNum
  split_ifs with hnan hlt
  · exact hy
  · exact hy
  · exact float_le_trans hy
      ((float_not_lt (Bool.eq_false_iff.mpr hnan) (isNaN_of_le hy).2).mp hlt)

theorem isFinite_maxNum (hx : x.isFinite) (hy : y.isFinite) : (Scalar.maxNum x y).isFinite := by
  unfold Scalar.maxNum
  split_ifs
  · exact hy
  · exact hy
  · exact hx

theorem minNum_of_le (h : x ≤ y) : Scalar.minNum x y = x := by
  unfold Scalar.minNum
  split_ifs with hnan hlt
  · exact absurd hnan (Bool.eq_false_iff.mp (isNaN_of_le h).1)
  · exact absurd hlt ((float_not_lt (isNaN_of_le h).2 (isNaN_of_le h).1).mpr h)
  · rfl

theorem maxNum_of_le (h : y ≤ x) : Scalar.maxNum x y = x := by
  unfold Scalar.maxNum
  split_ifs with hnan hlt
  · exact absurd hnan (Bool.eq_false_iff.mp (isNaN_of_le h).2)
  · exact absurd hlt ((float_not_lt (isNaN_of_le h).2 (isNaN_of_le h).1).mpr h)
  · rfl

/-- What is moved into an interval is not below it. -/
theorem le_clampTo (h : x ≤ y) (hz : (Scalar.clampTo x y z).isNaN = false) :
    x ≤ Scalar.clampTo x y z := by
  unfold Scalar.clampTo at hz ⊢
  dsimp only at hz ⊢
  split_ifs at hz ⊢ with hlt hgt hgt
  · exact h
  · exact float_le_refl hz
  · exact h
  · exact (float_not_lt hz (isNaN_of_le h).1).mp hlt

end

end FitSession
