import FitSession.Proofs.Coordinates.Map
import FitSession.Proofs.Coordinates.Transform
import FitSession.Proofs.Double.Arithmetic

/-!
# Bounded parameters and their limits

A transform comes nearest to a bound where it turns. In double precision it may turn on the wrong
side: at a lower bound of 0.1 it turns at `0.1 - 1 + 1`, which is less. Where a transform turns
inside its limit, rounding never leads out of it, as it keeps the order.

* `Limit.Holds`, `Limit.TurnsInside`: being within a limit, and what is asked of its transform;
* `Limit.holds_toExternal`, `Limit.turnsInside_iff`: **a transform that turns inside stays inside**,
  and with one bound no other does;
* `Limit.IsSafe`, `ParameterState.KeepsLimits`: states that are within their limits, where a
  transform does not lead out of these;
* `ParameterState.KeepsLimits.toExternal`: **so are the arguments of the cost**.
-/

namespace FitSession

/-- The number is within the limit. -/
structure Limit.Holds (l : Limit Float) (x : Float) : Prop where
  lower : l.lower ≤ x
  upper : x ≤ l.upper

/-- What is asked of the sine. -/
structure SineInRange : Prop where
  isNaN : ∀ x : Float, x.isFinite → (Scalar.sin x).isNaN = false
  range : ∀ x : Float, (Scalar.sin x).isNaN = false → -1 ≤ Scalar.sin x ∧ Scalar.sin x ≤ 1

/-- The transform of the limit turns inside of it. Between two bounds this needs a width that is a
number, and a sine in its range. -/
def Limit.TurnsInside (l : Limit Float) : Prop :=
  match BoundTransform.ofLimit l with
  | .unbounded => l.lower < l.upper
  | .lower lo => lo ≤ lo - 1 + 1
  | .upper hi => hi + 1 - 1 ≤ hi
  | .double lo hi => (hi - lo).isFinite ∧ lo + 0.5 * (hi - lo) * (1 + 1) ≤ hi ∧ SineInRange

variable {l : Limit Float} {lo hi x : Float}

/-! ## Limits -/

theorem Limit.ofBounds_eq_ok : Limit.ofBounds lo hi = .ok l ↔ lo ≤ hi ∧ l = ⟨lo, hi⟩ := by
  unfold ofBounds
  constructor
  · intro h
    split_ifs at h with hnan hlt
    cases h
    simp only [Bool.or_eq_true, not_or, Bool.not_eq_true] at hnan
    exact ⟨(float_not_lt hnan.2 hnan.1).mp hlt, rfl⟩
  · rintro ⟨hle, rfl⟩
    obtain ⟨hlo, hhi⟩ := isNaN_of_le hle
    have hnan : ¬(Scalar.isNaN lo || Scalar.isNaN hi) = true := by
      simp [show Scalar.isNaN lo = false from hlo, show Scalar.isNaN hi = false from hhi]
    rw [if_neg hnan, if_neg ((float_not_lt hhi hlo).mpr hle)]

theorem Limit.holds_clamp (h : l.lower ≤ l.upper) (x : Float) : l.Holds (l.clamp x) := by
  have hlower : l.lower ≤ Scalar.maxNum x l.lower :=
    le_maxNum_right (float_le_refl (isNaN_of_le h).1)
  exact ⟨le_minNum (fun _ => hlower) h, minNum_le (isNaN_of_le h).2⟩

theorem Limit.clamp_of_holds (h : l.Holds x) : l.clamp x = x := by
  rw [clamp, maxNum_of_le h.lower, minNum_of_le h.upper]

/-- A side without a bound lets all numbers pass. -/
theorem le_of_not_isFinite (hhi : ¬hi.isFinite) (hnan : hi.isNaN = false) (hbot : ⊥ < extended hi)
    (hx : x.isNaN = false) : x ≤ hi := by
  rw [float_le_iff_extended hx hnan, (extended_of_not_isFinite hnan hhi).resolve_left hbot.ne']
  exact le_top

theorem ge_of_not_isFinite (hlo : ¬lo.isFinite) (hnan : lo.isNaN = false) (htop : extended lo < ⊤)
    (hx : x.isNaN = false) : lo ≤ x := by
  rw [float_le_iff_extended hnan hx, (extended_of_not_isFinite hnan hlo).resolve_right htop.ne]
  exact bot_le

/-! ## One bound -/

section Root

theorem one_le_root (h : (x * x + 1).sqrt.isNaN = false) : 1 ≤ (x * x + 1).sqrt := by
  have hsum := (isNaN_of_le (nonneg_of_sqrt h)).2
  have hsquare := float_mul_self_nonneg (isNaN_of_add hsum).1
  have hone : (0 : Float) + 1 = 1 := by decide +kernel
  refine float_one_le_sqrt ?_
  have hle := float_add_le_add hsquare (float_le_refl (x := 1) rfl) (by rw [hone]; rfl) hsum
  rwa [hone] at hle

theorem isNaN_root (hx : x.isFinite) : (x * x + 1).sqrt.isNaN = false := by
  have hsquare := isNaN_mul hx hx
  have hsum : (x * x + 1).isNaN = false := isNaN_add hsquare rfl (.inr rfl)
  exact isNaN_sqrt (float_le_trans (float_mul_self_nonneg hsquare)
    (float_le_add_of_nonneg (by decide +kernel) hsum hsquare))

theorem le_toExternal_lower (hturn : lo ≤ lo - 1 + 1)
    (hx : ((BoundTransform.lower lo).toExternal x).isNaN = false) :
    lo ≤ (BoundTransform.lower lo).toExternal x := by
  obtain ⟨hbase, hroot⟩ := isNaN_of_add (x := lo - 1) hx
  exact float_le_trans hturn (float_add_le_add (float_le_refl hbase) (one_le_root hroot)
    (isNaN_of_le hturn).2 hx)

theorem toExternal_upper_le (hturn : hi + 1 - 1 ≤ hi)
    (hx : ((BoundTransform.upper hi).toExternal x).isNaN = false) :
    (BoundTransform.upper hi).toExternal x ≤ hi := by
  obtain ⟨hbase, hroot⟩ := isNaN_of_sub (x := hi + 1) hx
  exact float_le_trans (float_sub_le_sub (float_le_refl hbase) (one_le_root hroot) hx
    (isNaN_of_le hturn).1) hturn

/-- One less than a bound is finite, if adding one leads back. -/
theorem isFinite_sub_one (hlo : lo.isFinite) (hturn : lo ≤ lo - 1 + 1) : (lo - 1).isFinite := by
  have hnan := isNaN_of_isFinite hlo
  have hbase : (lo - 1).isNaN = false := isNaN_sub hnan rfl (.inl hlo)
  have hreal := extended_of_isFinite hlo
  by_contra hinf
  rcases extended_of_not_isFinite hbase hinf with hbot | htop
  · have hle := extended_le hturn
    rw [extended_add hbase rfl (isNaN_of_le hturn).2, hbot, EReal.bot_add, hreal] at hle
    exact absurd hle (EReal.bot_lt_coe _).not_ge
  · have hle : nearestExtended (extended lo - extended 1) ≤ nearestExtended (extended lo) := by
      rw [hreal, extended_one, ← EReal.coe_one, ← EReal.coe_sub]
      exact nearestExtended_mono (EReal.coe_le_coe_iff.mpr (by linarith))
    rw [← extended_sub hnan rfl hbase, nearestExtended_extended, htop, hreal] at hle
    exact absurd hle (EReal.coe_lt_top _).not_ge

/-- One more than a bound is finite, if taking one leads back. -/
theorem isFinite_add_one (hhi : hi.isFinite) (hturn : hi + 1 - 1 ≤ hi) : (hi + 1).isFinite := by
  have hnan := isNaN_of_isFinite hhi
  have hbase : (hi + 1).isNaN = false := isNaN_add hnan rfl (.inl hhi)
  have hreal := extended_of_isFinite hhi
  by_contra hinf
  rcases extended_of_not_isFinite hbase hinf with hbot | htop
  · have hle := extended_le (float_le_add_of_nonneg (y := 1) (by decide +kernel) hbase hnan)
    rw [hbot, hreal] at hle
    exact absurd hle (EReal.bot_lt_coe _).not_ge
  · have hle := extended_le hturn
    rw [extended_sub hbase rfl (isNaN_of_le hturn).1, htop, extended_one, ← EReal.coe_one,
      EReal.top_sub_coe, hreal] at hle
    exact absurd hle (EReal.coe_lt_top _).not_ge

theorem isNaN_toExternal_lower (hlo : lo.isFinite) (hturn : lo ≤ lo - 1 + 1) (hx : x.isFinite) :
    ((BoundTransform.lower lo).toExternal x).isNaN = false := by
  have hbase := isFinite_sub_one hlo hturn
  exact isNaN_add (isNaN_of_isFinite hbase) (isNaN_root hx) (.inl hbase)

theorem isNaN_toExternal_upper (hhi : hi.isFinite) (hturn : hi + 1 - 1 ≤ hi) (hx : x.isFinite) :
    ((BoundTransform.upper hi).toExternal x).isNaN = false := by
  have hbase := isFinite_add_one hhi hturn
  exact isNaN_sub (isNaN_of_isFinite hbase) (isNaN_root hx) (.inl hbase)

end Root

/-! ## Two bounds -/

section Wave

theorem half_width (h : lo ≤ hi) (hlo : lo.isFinite) (hwidth : (hi - lo).isFinite) :
    0 ≤ 0.5 * (hi - lo) ∧ (0.5 * (hi - lo)).isFinite := by
  have hhalf := float_half_mem (float_sub_nonneg h (isNaN_of_isFinite hwidth) hlo) hwidth
  exact ⟨hhalf.1, isFinite_of_between rfl hwidth hhalf.1 hhalf.2⟩

theorem raised_sine (hsine : SineInRange) (hx : (Scalar.sin x).isNaN = false) :
    0 ≤ Scalar.sin x + 1 ∧ Scalar.sin x + 1 ≤ 1 + 1 := by
  obtain ⟨hlower, hupper⟩ := hsine.range x hx
  have hsum : (Scalar.sin x + 1).isNaN = false := isNaN_add hx rfl (.inr rfl)
  have hzero : (-1 : Float) + 1 = 0 := by decide +kernel
  have hraised := float_add_le_add hlower (float_le_refl (x := 1) rfl) (by rw [hzero]; rfl) hsum
  rw [hzero] at hraised
  exact ⟨hraised, float_add_le_add hupper (float_le_refl rfl) hsum (by decide +kernel)⟩

theorem toExternal_double_mem (h : lo ≤ hi) (hlo : lo.isFinite) (hwidth : (hi - lo).isFinite)
    (hturn : lo + 0.5 * (hi - lo) * (1 + 1) ≤ hi) (hsine : SineInRange)
    (hx : ((BoundTransform.double lo hi).toExternal x).isNaN = false) :
    lo ≤ (BoundTransform.double lo hi).toExternal x ∧
      (BoundTransform.double lo hi).toExternal x ≤ hi := by
  obtain ⟨hhalf, hfinite⟩ := half_width h hlo hwidth
  have hproduct := (isNaN_of_add (x := lo) hx).2
  have hsin := (isNaN_of_add (isNaN_of_mul hproduct).2).1
  obtain ⟨hnonneg, hle⟩ := raised_sine hsine hsin
  have hraised : (Scalar.sin x + 1).isFinite :=
    isFinite_of_between rfl (by decide +kernel) hnonneg hle
  refine ⟨float_le_add_of_nonneg (float_mul_nonneg hhalf hnonneg hproduct) hx
    (isNaN_of_isFinite hlo), float_le_trans ?_ hturn⟩
  exact float_add_le_add (float_le_refl (isNaN_of_isFinite hlo))
    (float_mul_le_mul_left hraised (by decide +kernel) hfinite hhalf hle) hx (isNaN_of_le hturn).1

theorem isNaN_toExternal_double (h : lo ≤ hi) (hlo : lo.isFinite) (hwidth : (hi - lo).isFinite)
    (hsine : SineInRange) (hx : x.isFinite) :
    ((BoundTransform.double lo hi).toExternal x).isNaN = false := by
  obtain ⟨hnonneg, hle⟩ := raised_sine hsine (hsine.isNaN x hx)
  have hraised : (Scalar.sin x + 1).isFinite :=
    isFinite_of_between rfl (by decide +kernel) hnonneg hle
  exact isNaN_add (isNaN_of_isFinite hlo) (isNaN_mul (half_width h hlo hwidth).2 hraised)
    (.inl hlo)

end Wave

/-! ## Any limit -/

namespace Limit

/-- A transform that turns inside its limit stays inside, wherever it gives a number. -/
theorem holds_of_turnsInside (h : l.lower ≤ l.upper) (hturn : l.TurnsInside)
    (hx : ((BoundTransform.ofLimit l).toExternal x).isNaN = false) :
    l.Holds ((BoundTransform.ofLimit l).toExternal x) := by
  have hshape := l.shape_ofLimit
  obtain ⟨hlower, hupper⟩ := isNaN_of_le h
  have hle := extended_le h
  unfold TurnsInside at hturn
  generalize BoundTransform.ofLimit l = t at hturn hx hshape ⊢
  cases hshape with
  | unbounded hlo hhi =>
    have hlt := (float_lt_iff_extended hlower hupper).mp hturn
    exact ⟨ge_of_not_isFinite hlo hlower (lt_top_of_lt hlt) hx,
      le_of_not_isFinite hhi hupper (bot_lt_of_lt hlt) hx⟩
  | lower hlo hhi =>
    rw [extended_of_isFinite hlo] at hle
    exact ⟨le_toExternal_lower hturn hx,
      le_of_not_isFinite hhi hupper ((EReal.bot_lt_coe _).trans_le hle) hx⟩
  | upper hlo hhi =>
    rw [extended_of_isFinite hhi] at hle
    exact ⟨ge_of_not_isFinite hlo hlower (hle.trans_lt (EReal.coe_lt_top _)) hx,
      toExternal_upper_le hturn hx⟩
  | double hlo hhi =>
    obtain ⟨hwidth, hturn, hsine⟩ := hturn
    obtain ⟨hlower, hupper⟩ := toExternal_double_mem h hlo hwidth hturn hsine hx
    exact ⟨hlower, hupper⟩

theorem isNaN_toExternal (h : l.lower ≤ l.upper) (hturn : l.TurnsInside) (hx : x.isFinite) :
    ((BoundTransform.ofLimit l).toExternal x).isNaN = false := by
  have hshape := l.shape_ofLimit
  unfold TurnsInside at hturn
  generalize BoundTransform.ofLimit l = t at hturn hshape ⊢
  cases hshape with
  | unbounded hlo hhi => exact isNaN_of_isFinite hx
  | lower hlo hhi => exact isNaN_toExternal_lower hlo hturn hx
  | upper hlo hhi => exact isNaN_toExternal_upper hhi hturn hx
  | double hlo hhi => exact isNaN_toExternal_double h hlo hturn.1 hturn.2.2 hx

/-- **A transform that turns inside its limit stays inside.** -/
theorem holds_toExternal (h : l.lower ≤ l.upper) (hturn : l.TurnsInside) (hx : x.isFinite) :
    l.Holds ((BoundTransform.ofLimit l).toExternal x) :=
  holds_of_turnsInside h hturn (isNaN_toExternal h hturn hx)

/-- **With a bound on one side, this is the only way to stay inside.** -/
theorem turnsInside_iff (h : l.lower ≤ l.upper) (hside : l.hasLower ≠ l.hasUpper) :
    l.TurnsInside ↔
      ∀ x : Float, x.isFinite → l.Holds ((BoundTransform.ofLimit l).toExternal x) := by
  refine ⟨fun hturn x hx => holds_toExternal h hturn hx, fun hinside => ?_⟩
  have hzero := hinside 0 rfl
  have hroot : ((0 : Float) * 0 + 1).sqrt = 1 := by decide +kernel
  have hshape := l.shape_ofLimit
  unfold TurnsInside
  generalize BoundTransform.ofLimit l = t at hzero hshape ⊢
  cases hshape with
  | unbounded hlo hhi =>
    exact absurd ((Bool.eq_false_iff.mpr hlo).trans (Bool.eq_false_iff.mpr hhi).symm) hside
  | lower hlo hhi =>
    have hle : l.lower ≤ l.lower - 1 + ((0 : Float) * 0 + 1).sqrt := hzero.lower
    rwa [hroot] at hle
  | upper hlo hhi =>
    have hle : l.upper + 1 - ((0 : Float) * 0 + 1).sqrt ≤ l.upper := hzero.upper
    rwa [hroot] at hle
  | double hlo hhi => exact absurd (hlo.trans hhi.symm) hside

/-- At a lower bound of 0.1 the transform turns below the bound. -/
example : (BoundTransform.ofLimit ⟨0.1, Scalar.inf⟩).toExternal (0 : Float) < 0.1 := by
  decide +kernel

/-- The limit is accepted, and its transform turns inside unless it leaves a single point. -/
structure IsSafe (l : Limit Float) : Prop where
  accepted : Limit.ofBounds l.lower l.upper = .ok l
  turns : l.isDegenerate = false → l.TurnsInside

/-- A limit with a lower bound only, where the transform turns. -/
theorem isSafe_of_lower (h : l.lower ≤ l.upper) (hlower : l.hasLower) (hupper : ¬l.hasUpper)
    (hturn : l.lower ≤ l.lower - 1 + 1) : l.IsSafe := by
  refine ⟨ofBounds_eq_ok.mpr ⟨h, rfl⟩, fun _ => ?_⟩
  have hshape := l.shape_ofLimit
  unfold TurnsInside
  generalize BoundTransform.ofLimit l = t at hshape ⊢
  cases hshape with
  | unbounded hlo hhi => exact absurd hlower hlo
  | lower hlo hhi => exact hturn
  | upper hlo hhi => exact absurd hlower hlo
  | double hlo hhi => exact absurd hhi hupper

end Limit

/-! ## States -/

/-- The value is within the limit if the limit is safe, or it is not a number. -/
def Entry.KeepsLimit (e : Entry Float) : Prop :=
  e.limit.IsSafe → e.value.isNaN = false → e.limit.Holds e.value

/-- All values of the state are within the limits that are safe. -/
def ParameterState.KeepsLimits (s : ParameterState Float) : Prop :=
  ∀ e ∈ s.entries, e.KeepsLimit

theorem Entry.keepsLimit_of_clamp {e : Entry Float} {x : Float} (h : e.value = e.limit.clamp x) :
    e.KeepsLimit := fun hsafe _ =>
  h ▸ Limit.holds_clamp (Limit.ofBounds_eq_ok.mp hsafe.accepted).1 x

/-- **The arguments of a cost are within the limits that are safe**, as far as they are numbers. -/
theorem ParameterState.KeepsLimits.toExternal {s : ParameterState Float} (hs : s.KeepsLimits)
    {theta : List Float} {i : Nat} {e : Entry Float} (he : s.entries[i]? = some e)
    (hsafe : e.limit.IsSafe) (hx : ((ParameterMap.ofState s).toExternal theta)[i]? = some x)
    (hnan : x.isNaN = false) : e.limit.Holds x := by
  rcases ParameterMap.toExternal_cases he hx with rfl | ⟨hfree, y, rfl⟩
  · exact hs e (List.mem_of_getElem? he) hsafe hnan
  · have hturn := hsafe.turns (by simp_all [Entry.isFixed])
    exact Limit.holds_of_turnsInside (Limit.ofBounds_eq_ok.mp hsafe.accepted).1 hturn hnan

end FitSession
