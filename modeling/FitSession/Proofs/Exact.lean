import FitSession.Scalar
import Mathlib

/-!
# Exact arithmetic

Real numbers with both infinities and a NaN. Finite numbers are added, multiplied and divided
without rounding, so that nothing overflows; the special values follow the same rules as those of
double precision numbers, except that there is only one zero.

* `Exact`: the numbers, with their `Scalar` instance;
* `Exact.real_add_real` and its like: operations on finite numbers are those on the reals;
* `Exact.le_iff`, `Exact.lt_iff`: the order is that of the extended real numbers, without a NaN;
* `Exact.sum_map_real`, `Exact.foldl_maxNum_eq`: sums and greatest elements of lists;
* `reals`: lists of finite numbers.
-/

namespace FitSession

/-- A real number, an infinity, or not a number. -/
inductive Exact
  | real (x : ℝ)
  | inf
  | negInf
  | nan

namespace Exact

open Classical in
/-- An infinity with the sign of a number. -/
noncomputable def infinityOf (x : ℝ) : Exact :=
  if 0 < x then inf else if x < 0 then negInf else nan

/-- The sum; infinities of different signs have none. -/
noncomputable def add : Exact → Exact → Exact
  | real x, real y => real (x + y)
  | nan, _ | _, nan | inf, negInf | negInf, inf => nan
  | inf, _ | _, inf => inf
  | negInf, _ | _, negInf => negInf

/-- The number with the other sign. -/
noncomputable def neg : Exact → Exact
  | real x => real (-x)
  | inf => negInf
  | negInf => inf
  | nan => nan

/-- The product; an infinity and zero have none. -/
noncomputable def mul : Exact → Exact → Exact
  | real x, real y => real (x * y)
  | nan, _ | _, nan => nan
  | inf, inf | negInf, negInf => inf
  | inf, negInf | negInf, inf => negInf
  | inf, real x | real x, inf => infinityOf x
  | negInf, real x | real x, negInf => infinityOf (-x)

open Classical in
/-- The quotient; what is divided by zero becomes infinite. -/
noncomputable def div : Exact → Exact → Exact
  | real x, real y => if y = 0 then infinityOf x else real (x / y)
  | real _, inf | real _, negInf => real 0
  | inf, real y => if y < 0 then negInf else inf
  | negInf, real y => if y < 0 then inf else negInf
  | _, _ => nan

/-- The order; a NaN is not comparable. -/
def lt : Exact → Exact → Prop
  | real x, real y => x < y
  | negInf, real _ | negInf, inf | real _, inf => True
  | _, _ => False

/-- The order or equality; a NaN is not comparable, not even to itself. -/
def le : Exact → Exact → Prop
  | real x, real y => x ≤ y
  | negInf, real _ | negInf, inf | real _, inf | negInf, negInf | inf, inf => True
  | _, _ => False

open Classical in
/-- Numbers with exact arithmetic. -/
noncomputable instance : Scalar Exact where
  add := add
  sub a b := add a (neg b)
  mul := mul
  div := div
  neg := neg
  lt := lt
  le := le
  beq a b := decide (a ≠ nan ∧ a = b)
  ofDecimal m below e := real (if below then m / 10 ^ e else m * 10 ^ e)
  decLt _ _ := Classical.propDecidable _
  decLe _ _ := Classical.propDecidable _
  inf := inf
  nan := nan
  pi := real Real.pi
  leastNormal := real ((2 ^ 1022 : ℕ) : ℝ)⁻¹
  isNaN
    | nan => true
    | _ => false
  isFinite
    | real _ => true
    | _ => false
  abs
    | real x => real |x|
    | negInf => inf
    | x => x
  sqrt
    | real x => if x < 0 then nan else real (√x)
    | negInf => nan
    | x => x
  sin
    | real x => real (Real.sin x)
    | _ => nan
  cos
    | real x => real (Real.cos x)
    | _ => nan
  asin
    | real x => if |x| ≤ 1 then real (Real.arcsin x) else nan
    | _ => nan
  exp
    | real x => real (Real.exp x)
    | negInf => real 0
    | x => x
  log
    | real x => if 0 < x then real (Real.log x) else if x < 0 then nan else negInf
    | negInf => nan
    | x => x

/-! ## Finite numbers -/

variable {x y : ℝ}

@[simp] theorem real_add_real : real x + real y = real (x + y) := rfl
@[simp] theorem real_mul_real : real x * real y = real (x * y) := rfl
@[simp] theorem neg_real : -real x = real (-x) := rfl
@[simp] theorem real_sub_real : real x - real y = real (x - y) :=
  congrArg real (sub_eq_add_neg x y).symm
@[simp] theorem isFinite_real : Scalar.isFinite (real x) = true := rfl
@[simp] theorem isNaN_real : Scalar.isNaN (real x) = false := rfl
@[simp] theorem real_lt_real : real x < real y ↔ x < y := Iff.rfl
@[simp] theorem real_le_real : real x ≤ real y ↔ x ≤ y := Iff.rfl

@[simp] theorem real_div_real (hy : y ≠ 0) : real x / real y = real (x / y) := if_neg hy

@[simp] theorem abs_real : Scalar.abs (real x) = real |x| := rfl

@[simp] theorem sqrt_real (hx : 0 ≤ x) : Scalar.sqrt (real x) = real (√x) := if_neg hx.not_gt

@[simp] theorem sin_real : Scalar.sin (real x) = real (Real.sin x) := rfl
@[simp] theorem cos_real : Scalar.cos (real x) = real (Real.cos x) := rfl

@[simp] theorem asin_real (hx : |x| ≤ 1) : Scalar.asin (real x) = real (Real.arcsin x) :=
  if_pos hx

/-- What is finite is a real number. -/
theorem exists_real_of_isFinite {z : Exact} (h : Scalar.isFinite z = true) : ∃ x, z = real x := by
  cases z with
  | real x => exact ⟨x, rfl⟩
  | inf | negInf | nan => cases h

theorem isFinite_infinityOf : Scalar.isFinite (infinityOf x) = false := by
  unfold infinityOf
  split_ifs <;> rfl

theorem isFinite_of_add {a b : Exact} (h : Scalar.isFinite (a + b) = true) :
    Scalar.isFinite a = true ∧ Scalar.isFinite b = true := by
  change Scalar.isFinite (add a b) = true at h
  cases a <;> cases b <;> first | exact ⟨rfl, rfl⟩ | cases h

theorem isFinite_of_mul {a b : Exact} (h : Scalar.isFinite (a * b) = true) :
    Scalar.isFinite a = true ∧ Scalar.isFinite b = true := by
  change Scalar.isFinite (mul a b) = true at h
  cases a <;> cases b <;>
    first | exact ⟨rfl, rfl⟩ | cases h | cases h.symm.trans isFinite_infinityOf

theorem beq_iff {a b : Exact} : (a == b) = true ↔ a ≠ nan ∧ a = b := by
  classical
  exact decide_eq_true_iff

theorem real_beq_real : (real x == real y) = true ↔ x = y := by
  rw [beq_iff]
  simp

theorem ofNat_eq (n : ℕ) : (OfNat.ofNat n : Exact) = real n := by
  change real (n * 10 ^ 0) = real n
  simp

theorem real_beq_zero : (real x == 0) = true ↔ x = 0 := by
  rw [ofNat_eq, real_beq_real, Nat.cast_zero]

theorem ofCount_eq (n : ℕ) : (Scalar.ofCount n : Exact) = real n := by
  change real (n * 10 ^ 0) = real n
  simp

theorem zero_eq : (0 : Exact) = real 0 := (ofNat_eq 0).trans (congrArg real Nat.cast_zero)
theorem one_eq : (1 : Exact) = real 1 := (ofNat_eq 1).trans (congrArg real Nat.cast_one)
theorem two_eq : (2 : Exact) = real 2 := (ofNat_eq 2).trans (congrArg real Nat.cast_two)

/-- A decimal fraction. -/
theorem ofScientific_eq (m e : ℕ) : (OfScientific.ofScientific m true e : Exact) =
    real (m / 10 ^ e) := rfl

theorem half_eq : (0.5 : Exact) = real (1 / 2) := by
  rw [ofScientific_eq]
  norm_num

theorem halfPi_eq : (Scalar.halfPi : Exact) = real (Real.pi / 2) := by
  rw [Scalar.halfPi, two_eq]
  exact real_div_real two_ne_zero

/-! ## Order -/

/-- The extended real number, which only a NaN is not. -/
noncomputable def extended : Exact → EReal
  | real x => x
  | inf => ⊤
  | negInf => ⊥
  | nan => 0

section Order

variable {a b c : Exact}

theorem extended_inj (ha : a ≠ nan) (hb : b ≠ nan) (h : a.extended = b.extended) : a = b := by
  cases a <;> cases b <;> simp_all [extended]

theorem le_iff : a ≤ b ↔ a ≠ nan ∧ b ≠ nan ∧ a.extended ≤ b.extended := by
  change le a b ↔ _
  cases a <;> cases b <;> simp [le, extended]

theorem lt_iff : a < b ↔ a ≠ nan ∧ b ≠ nan ∧ a.extended < b.extended := by
  change lt a b ↔ _
  cases a <;> cases b <;> simp [lt, extended]

theorem isNaN_eq_true : Scalar.isNaN a = true ↔ a = nan := by
  cases a <;> simp [Scalar.isNaN]

instance : IsTrans Exact (· ≤ ·) where
  trans a b c h h' := by
    rw [le_iff] at h h' ⊢
    exact ⟨h.1, h'.2.1, h.2.2.trans h'.2.2⟩

theorem le_antisymm (h : a ≤ b) (h' : b ≤ a) : a = b := by
  rw [le_iff] at h h'
  exact extended_inj h.1 h'.1 (h.2.2.antisymm h'.2.2)

theorem le_of_lt (h : a < b) : a ≤ b := by
  rw [lt_iff] at h
  exact le_iff.mpr ⟨h.1, h.2.1, h.2.2.le⟩

theorem not_lt_of_le (h : a ≤ b) : ¬b < a := by
  rw [le_iff] at h
  rw [lt_iff]
  exact fun h' => h.2.2.not_gt h'.2.2

theorem le_minNum (ha : c ≤ a) (hb : c ≤ b) : c ≤ Scalar.minNum a b := by
  unfold Scalar.minNum
  split_ifs
  · exact hb
  · exact hb
  · exact ha

/-- What is between two finite numbers is finite. -/
theorem exists_real_of_mem (h : real x ≤ a) (h' : a ≤ real y) : ∃ z, a = real z := by
  cases a with
  | real z => exact ⟨z, rfl⟩
  | inf => cases h'
  | negInf | nan => cases h

theorem minNum_of_le (h : a ≤ b) : Scalar.minNum a b = a := by
  unfold Scalar.minNum
  rw [if_neg (isNaN_eq_true.not.mpr (le_iff.mp h).1), if_neg (not_lt_of_le h)]

theorem maxNum_of_le (h : b ≤ a) : Scalar.maxNum a b = a := by
  unfold Scalar.maxNum
  rw [if_neg (isNaN_eq_true.not.mpr (le_iff.mp h).2.1), if_neg (not_lt_of_le h)]

theorem minNum_le (ha : c ≤ a) (hb : c ≤ b) :
    Scalar.minNum a b ≤ a ∧ Scalar.minNum a b ≤ b := by
  have hna := (le_iff.mp ha).2.1
  have hnb := (le_iff.mp hb).2.1
  unfold Scalar.minNum
  rw [if_neg (isNaN_eq_true.not.mpr hna)]
  split_ifs with h
  · exact ⟨le_of_lt h, le_iff.mpr ⟨hnb, hnb, le_rfl⟩⟩
  · refine ⟨le_iff.mpr ⟨hna, hna, le_rfl⟩, le_iff.mpr ⟨hna, hnb, not_lt.mp fun hlt => h ?_⟩⟩
    exact lt_iff.mpr ⟨hnb, hna, hlt⟩

/-- What is moved into an interval. -/
theorem clampTo_real {lo hi : ℝ} :
    Scalar.clampTo (real lo) (real hi) (real x) = real (min (max x lo) hi) := by
  have hlower : (if real x < real lo then real lo else real x) = real (max x lo) := by
    simp only [real_lt_real]
    split_ifs with h
    · rw [max_eq_right h.le]
    · rw [max_eq_left (not_lt.mp h)]
  unfold Scalar.clampTo
  dsimp only
  rw [hlower]
  simp only [real_lt_real]
  split_ifs with h
  · rw [min_eq_right h.le]
  · rw [min_eq_left (not_lt.mp h)]

end Order

/-! ## Lists of finite numbers -/

theorem foldl_add_map_real (xs : List ℝ) (x : ℝ) :
    (xs.map real).foldl (· + ·) (real x) = real (x + xs.sum) := by
  induction xs generalizing x with
  | nil => simp
  | cons y xs ih => simp [ih, add_assoc]

theorem sum_map_real (xs : List ℝ) : Scalar.sum (xs.map real) = real xs.sum := by
  rw [Scalar.sum, ofNat_eq, foldl_add_map_real]
  simp

theorem isFinite_of_foldl_add {xs : List Exact} {a : Exact}
    (h : Scalar.isFinite (xs.foldl (· + ·) a) = true) :
    Scalar.isFinite a = true ∧ ∀ x ∈ xs, Scalar.isFinite x = true := by
  induction xs generalizing a with
  | nil => exact ⟨h, by simp⟩
  | cons x xs ih =>
    obtain ⟨hsum, hrest⟩ := ih h
    obtain ⟨ha, hx⟩ := isFinite_of_add hsum
    exact ⟨ha, List.forall_mem_cons.mpr ⟨hx, hrest⟩⟩

/-- A sum is only finite if all its terms are. -/
theorem isFinite_of_sum {xs : List Exact} (h : Scalar.isFinite (Scalar.sum xs) = true) :
    ∀ x ∈ xs, Scalar.isFinite x = true := (isFinite_of_foldl_add h).2

theorem maxNum_real : Scalar.maxNum (real x) (real y) = real (max x y) := by
  unfold Scalar.maxNum
  simp only [isNaN_real, Bool.false_eq_true, if_false, real_lt_real]
  split_ifs with h
  · rw [max_eq_right h.le]
  · rw [max_eq_left (not_lt.mp h)]

theorem foldl_maxNum_map_real (xs : List ℝ) (x : ℝ) :
    (xs.map real).foldl Scalar.maxNum (real x) = real (xs.foldl max x) := by
  induction xs generalizing x with
  | nil => rfl
  | cons y xs ih => simp [maxNum_real, ih]

/-- The greatest number of a list is found from below all of them. -/
theorem foldl_maxNum_eq {xs : List ℝ} {top : ℝ} (h : IsGreatest {x | x ∈ xs} top) :
    (xs.map real).foldl Scalar.maxNum Scalar.negInf = real top := by
  cases xs with
  | nil => exact absurd h.1 List.not_mem_nil
  | cons x xs =>
    have hfirst : Scalar.maxNum Scalar.negInf (real x) = real x := by
      unfold Scalar.maxNum
      exact (if_neg Bool.false_ne_true).trans (if_pos trivial)
    have hmax : (x :: xs).max? = some top := List.max?_eq_some_iff.mpr h
    rw [List.map_cons, List.foldl_cons, hfirst, foldl_maxNum_map_real]
    exact congrArg real (Option.some.inj hmax)

end Exact

/-- A list of finite numbers. -/
noncomputable def reals {n : ℕ} (x : Fin n → ℝ) : List Exact := List.ofFn fun i => .real (x i)

section Reals

variable {n : ℕ} (x y : Fin n → ℝ)

theorem length_reals : (reals x).length = n := List.length_ofFn

theorem isFinite_reals : ∀ y ∈ reals x, Scalar.isFinite y = true := by
  intro y hy
  obtain ⟨i, rfl⟩ := List.mem_ofFn.mp hy
  rfl

theorem reals_eq_map : reals x = (List.ofFn x).map .real := by
  rw [List.map_ofFn]
  rfl

theorem getElem?_reals (i : Fin n) : (reals x)[(i : ℕ)]? = some (.real (x i)) := by
  simp [reals]

variable {x} in
/-- A list of finite numbers is known by what stands at each place. -/
theorem eq_reals {xs : List Exact} (hlen : xs.length = n)
    (h : ∀ i : Fin n, xs[(i : ℕ)]? = some (.real (x i))) : xs = reals x := by
  refine List.ext_getElem? fun i => ?_
  by_cases hi : i < n
  · exact (h ⟨i, hi⟩).trans (getElem?_reals x ⟨i, hi⟩).symm
  · rw [List.getElem?_eq_none (hlen.trans_le (not_lt.mp hi)),
      List.getElem?_eq_none ((length_reals x).trans_le (not_lt.mp hi))]

theorem exists_reals {xs : List Exact} (hlen : xs.length = n)
    (h : ∀ x ∈ xs, Scalar.isFinite x = true) : ∃ x : Fin n → ℝ, xs = reals x := by
  subst hlen
  choose x hx using fun i : Fin xs.length =>
    Exact.exists_real_of_isFinite (h xs[i] (List.getElem_mem i.2))
  refine ⟨x, eq_reals rfl fun i => ?_⟩
  exact (List.getElem?_eq_getElem i.2).trans (congrArg some (hx i))

variable {x y} in
theorem zipWith_reals {f : Exact → Exact → Exact} {z : Fin n → ℝ}
    (hf : ∀ i, f (.real (x i)) (.real (y i)) = .real (z i)) :
    List.zipWith f (reals x) (reals y) = reals z := by
  refine eq_reals (by rw [List.length_zipWith, length_reals, length_reals, Nat.min_self])
    fun i => ?_
  rw [List.getElem?_zipWith, getElem?_reals, getElem?_reals]
  exact congrArg some (hf i)

theorem dot_reals : Scalar.dot (reals x) (reals y) = .real (∑ i, x i * y i) := by
  rw [Scalar.dot, zipWith_reals fun _ => Exact.real_mul_real, reals_eq_map, Exact.sum_map_real,
    List.sum_ofFn]

end Reals

theorem reals_injective {n : ℕ} : Function.Injective (reals (n := n)) := by
  intro x y h
  funext i
  exact Exact.real.inj (congrFun (List.ofFn_injective h) i)

end FitSession
