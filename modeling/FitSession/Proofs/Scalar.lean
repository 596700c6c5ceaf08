import FitSession.Derivative.Checks
import Mathlib.Data.Prod.Lex
import Mathlib.Order.Compare

/-!
# The order of finite numbers

Comparisons with a NaN are false, so that the numbers of a scalar type are not in a linear order.
The finite ones are.

* `OrderedScalar`: the rules for comparisons of finite numbers;
* `place`, `compare_eq_place`: where a double precision number stands among the finite ones;
* `instOrderedScalarFloat`: **double precision numbers keep the rules**.
-/

namespace FitSession

/-- Finite numbers are compared as in a linear order, and one is positive. -/
class OrderedScalar (α : Type) [Scalar α] : Prop where
  not_lt : ∀ {a b : α}, Scalar.isFinite a → Scalar.isFinite b → (¬b < a ↔ a ≤ b)
  le_total : ∀ {a b : α}, Scalar.isFinite a → Scalar.isFinite b → a ≤ b ∨ b ≤ a
  le_trans : ∀ {a b c : α}, Scalar.isFinite a → Scalar.isFinite b → Scalar.isFinite c →
    a ≤ b → b ≤ c → a ≤ c
  isPositive_one : isPositive (1 : α) = true

/-! ## Double precision numbers -/

open Float.Model

/-- Where a finite number stands: its sign decides, then its exponent, then its mantissa. -/
def place : UnpackedFloat → ℤ ×ₗ ℤ ×ₗ ℤ
  | .finite .negative m e _ => toLex (-1, toLex (-e, -m))
  | .finite .positive m e _ => toLex (1, toLex (e, m))
  | _ => toLex (0, toLex (0, 0))

theorem compare_neg_neg (x y : ℤ) : compare (-x) (-y) = (compare x y).swap := by
  rcases lt_trichotomy x y with h | rfl | h
  · rw [compare_lt_iff_lt.mpr h, compare_gt_iff_gt.mpr (by omega)]
    rfl
  · simp
  · rw [compare_gt_iff_gt.mpr h, compare_lt_iff_lt.mpr (by omega)]
    rfl

theorem compare_natCast (m n : ℕ) : compare (m : ℤ) (n : ℤ) = compare m n := by
  rcases lt_trichotomy m n with h | rfl | h
  · rw [compare_lt_iff_lt.mpr h, compare_lt_iff_lt.mpr (by omega)]
  · simp
  · rw [compare_gt_iff_gt.mpr h, compare_gt_iff_gt.mpr (by omega)]

/-- Finite numbers are compared by their places. -/
theorem compare_eq_place {a b : UnpackedFloat} (ha : a.isFinite) (hb : b.isFinite) :
    a.compare b = some (compare (place a) (place b)) := by
  cases a with
  | infinity s => cases ha
  | notANumber => cases ha
  | zero s =>
    cases b with
    | infinity s => cases hb
    | notANumber => cases hb
    | zero s => rfl
    | finite s m e hm => cases s <;> rfl
  | finite s m e hm =>
    cases b with
    | infinity s => cases hb
    | notANumber => cases hb
    | zero s' => cases s <;> rfl
    | finite s' m' e' hm' =>
      -- of two negative numbers, the one with the larger magnitude is the smaller
      cases s <;> cases s'
      · change some (((compare e e').then (compare m m')).swap) =
          some (compare (toLex ((-1 : ℤ), toLex (-e, -(m : ℤ)))) (toLex (-1, toLex (-e', -m'))))
        simp [Prod.Lex.compare_def, compareLex, compareOn, compare_neg_neg, compare_natCast,
          Ordering.swap_then]
      · rfl
      · rfl
      · change some ((compare e e').then (compare m m')) =
          some (compare (toLex ((1 : ℤ), toLex (e, (m : ℤ)))) (toLex (1, toLex (e', m'))))
        simp [Prod.Lex.compare_def, compareLex, compareOn, compare_natCast]

theorem float_le_iff_compare {x y : Float} :
    x ≤ y ↔ (x.toModel.unpack.compare y.toModel.unpack).any (·.isLE) = true := by
  change decide (x.toModel.le y.toModel = true) = true ↔ _
  exact decide_eq_true_iff

theorem float_lt_iff_compare {x y : Float} :
    x < y ↔ (x.toModel.unpack.compare y.toModel.unpack == some .lt) = true := by
  change decide (x.toModel.lt y.toModel = true) = true ↔ _
  exact decide_eq_true_iff

section

variable {x y : Float} (hx : x.isFinite) (hy : y.isFinite)
include hx hy

theorem float_le_iff : x ≤ y ↔ place x.toModel.unpack ≤ place y.toModel.unpack := by
  rw [float_le_iff_compare, compare_eq_place hx hy, Option.any_some, Ordering.isLE_iff_ne_gt]
  exact compare_le_iff_le

theorem float_lt_iff : x < y ↔ place x.toModel.unpack < place y.toModel.unpack := by
  rw [float_lt_iff_compare, compare_eq_place hx hy, beq_iff_eq, Option.some.injEq,
    compare_lt_iff_lt]

end

/-- Double precision numbers keep the rules. -/
instance instOrderedScalarFloat : OrderedScalar Float where
  not_lt hx hy := by rw [float_lt_iff hy hx, float_le_iff hx hy, not_lt]
  le_total hx hy := by
    rw [float_le_iff hx hy, float_le_iff hy hx]
    exact le_total _ _
  le_trans hx hy hz := by
    rw [float_le_iff hx hy, float_le_iff hy hz, float_le_iff hx hz]
    exact le_trans
  isPositive_one := by decide +kernel

end FitSession
