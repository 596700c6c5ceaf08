import FitSession.Proofs.Derivative.Samples
import FitSession.Proofs.Engine.Contour
import FitSession.Proofs.Engine.FiniteObjective

/-!
# Crossings on parabolas

On a parabola, the rules for the next trial of a search are exact: one between two posts is where
the parabola has risen by the amount, and one beyond a post goes there unless that is less than a
tenth or more than four times as far.

* `Parabola`, `Parabola.distance`, `Parabola.Accepts`: rises on a parabola;
* `Parabola.between_posts`, `Parabola.beyond_post`: **the next trial**;
* `Parabola.GivesUp`: when a bracket counts as closed before the crossing is tried;
* `Finds`, `finds_trial`: how a search ends, from how it goes on after one trial;
* `finds_overshot`, `finds_growing`: searches that overshoot, and that have stayed below so far;
* `nfcn_searchCrossing_le`: how many evaluations a search uses;
* **`crossingAt_parabola`**: the search finds the crossing at every scale, but does not always say
  so at very small ones.
-/

namespace FitSession

open Exact (real)

variable {σ : Type}

/-! ## Rises on a parabola -/

/-- A parabola in one parameter that opens upwards. -/
structure Parabola where
  bottom : ℝ
  center : ℝ
  steepness : ℝ
  opens : 0 < steepness

namespace Parabola

/-- The value at a point. -/
def valueAt (p : Parabola) (x : ℝ) : ℝ := p.bottom + p.steepness * (x - p.center) ^ 2

/-- The rise at a distance from the center. -/
def riseAt (p : Parabola) (t : ℝ) : ℝ := p.steepness * t ^ 2

/-- The distance at which the parabola has risen by an amount. -/
noncomputable def distance (p : Parabola) (up : ℝ) : ℝ := √(up / p.steepness)

/-- The rise at a distance is the amount within a thousandth. -/
def Accepts (p : Parabola) (up t : ℝ) : Prop := |p.riseAt t - up| ≤ up / 1000

/-- The post of a trial. -/
def post (p : Parabola) (t : ℝ) : Post Exact := ⟨real t, real (p.riseAt t)⟩

variable {p : Parabola} {up t lo hi : ℝ}

theorem riseAt_nonneg (t : ℝ) : 0 ≤ p.riseAt t := mul_nonneg p.opens.le (sq_nonneg t)

theorem riseAt_pos (ht : 0 < t) : 0 < p.riseAt t := mul_pos p.opens (pow_pos ht 2)

theorem riseAt_lt_iff (ht : 0 ≤ t) : p.riseAt t < up ↔ t < p.distance up := by
  unfold riseAt distance
  rw [Real.lt_sqrt ht, lt_div_iff₀' p.opens]

theorem sqrt_riseAt (ht : 0 ≤ t) : √(p.riseAt t) = √p.steepness * t := by
  rw [riseAt, Real.sqrt_mul p.opens.le, Real.sqrt_sq ht]

section

variable (hup : 0 < up)
include hup

theorem distance_pos : 0 < p.distance up := Real.sqrt_pos.mpr (div_pos hup p.opens)

theorem riseAt_distance : p.riseAt (p.distance up) = up := by
  unfold riseAt distance
  rw [Real.sq_sqrt (div_pos hup p.opens).le, mul_div_cancel₀ up p.opens.ne']

theorem accepts_distance : p.Accepts up (p.distance up) := by
  rw [Accepts, riseAt_distance hup, sub_self, abs_zero]
  positivity

theorem ne_distance_of_not_accepts (h : ¬p.Accepts up t) : t ≠ p.distance up := by
  rintro rfl
  exact h (accepts_distance hup)

/-- A trial that is accepted is not four times too near. -/
theorem distance_lt_of_accepts (ht : 0 ≤ t) (h : p.Accepts up t) : p.distance up < 4 * t := by
  by_contra hfar
  have hrise : p.riseAt (4 * t) ≤ up := by
    rcases (not_lt.mp hfar).lt_or_eq with hlt | heq
    · exact ((riseAt_lt_iff (by positivity)).mpr hlt).le
    · rw [heq, riseAt_distance hup]
  have hnear := (abs_le.mp h).1
  unfold riseAt at hrise hnear
  linarith

/-- The trial between two posts is where the parabola has risen by the amount. -/
theorem between_posts (hlo : 0 ≤ lo) (hbelow : lo < p.distance up) (habove : p.distance up < hi) :
    Fence.between (real up) (p.post lo) (p.post hi) = real (p.distance up) := by
  have hroot : √up = √p.steepness * p.distance up := by
    rw [← sqrt_riseAt (distance_pos hup).le, riseAt_distance hup]
  have hsteep : 0 < √p.steepness := Real.sqrt_pos.mpr p.opens
  have hwidth : √(p.riseAt hi) - √(p.riseAt lo) = √p.steepness * (hi - lo) := by
    rw [sqrt_riseAt (hlo.trans (hbelow.trans habove).le), sqrt_riseAt hlo]
    ring
  have hapart : hi - lo ≠ 0 := (sub_pos.mpr (hbelow.trans habove)).ne'
  have hguess : lo + (hi - lo) * (√up - √(p.riseAt lo)) / (√(p.riseAt hi) - √(p.riseAt lo)) =
      p.distance up := by
    rw [hwidth, hroot, sqrt_riseAt hlo]
    field_simp
    ring
  unfold Fence.between
  dsimp only [post]
  rw [Exact.sqrt_real (riseAt_nonneg lo), Exact.sqrt_real (riseAt_nonneg hi),
    Exact.sqrt_real hup.le]
  simp only [Exact.real_sub_real, Exact.real_mul_real]
  rw [Exact.real_div_real (hwidth ▸ mul_ne_zero hsteep.ne' hapart), Exact.real_add_real, hguess]
  exact if_pos (by simp [hbelow, habove])

/-- The trial beyond a post goes there too, as far as the growth is within its bounds. -/
theorem beyond_post (ht : 0 < t) :
    Fence.beyond (real up) .inf (real t) (real (p.riseAt t)) =
      real (t * min (max (p.distance up / t) (11 / 10)) 4) := by
  have hquotient : √(up / p.riseAt t) = p.distance up / t := by
    rw [riseAt, ← div_div, Real.sqrt_div (div_pos hup p.opens).le, Real.sqrt_sq ht.le, distance]
  have hpos : (0 : Exact) < real (p.riseAt t) := by
    simpa [Exact.ofNat_eq] using riseAt_pos ht
  have hroom (x : ℝ) : Scalar.minNum (real x) .inf = real x := Exact.minNum_of_le trivial
  unfold Fence.beyond
  dsimp only
  rw [if_pos hpos, Exact.real_div_real (riseAt_pos ht).ne',
    Exact.sqrt_real (div_pos hup (riseAt_pos ht)).le, hquotient, Exact.ofScientific_eq,
    Exact.ofNat_eq, Exact.clampTo_real, Exact.real_mul_real, hroom]
  norm_num

theorem beyond_near (ht : 0 < t) (h : p.distance up ≤ 11 / 10 * t) :
    Fence.beyond (real up) .inf (real t) (real (p.riseAt t)) = real (11 / 10 * t) := by
  have hgrowth : p.distance up / t ≤ 11 / 10 := (div_le_iff₀ ht).mpr h
  rw [beyond_post hup ht, max_eq_right hgrowth, min_eq_left (by norm_num), mul_comm]

theorem beyond_between (ht : 0 < t) (hnear : 11 / 10 * t ≤ p.distance up)
    (hfar : p.distance up ≤ 4 * t) :
    Fence.beyond (real up) .inf (real t) (real (p.riseAt t)) = real (p.distance up) := by
  have hleast : 11 / 10 ≤ p.distance up / t := (le_div_iff₀ ht).mpr hnear
  have hmost : p.distance up / t ≤ 4 := (div_le_iff₀ ht).mpr hfar
  rw [beyond_post hup ht, max_eq_left hleast, min_eq_left hmost, mul_div_cancel₀ _ ht.ne']

theorem beyond_far (ht : 0 < t) (h : 4 * t ≤ p.distance up) :
    Fence.beyond (real up) .inf (real t) (real (p.riseAt t)) = real (4 * t) := by
  have hgrowth : 4 ≤ p.distance up / t := (le_div_iff₀ ht).mpr h
  rw [beyond_post hup ht, min_eq_right (hgrowth.trans (le_max_left _ _)), mul_comm]

end

theorem isRise_iff : isRise (real up) (real (p.riseAt t)) = true ↔ p.Accepts up t := by
  unfold isRise riseTolerance Accepts
  rw [Exact.ofScientific_eq, Exact.real_sub_real, Exact.abs_real, Exact.real_mul_real,
    decide_eq_true_eq, Exact.real_le_real]
  have hamount : ((1 : ℕ) : ℝ) / 10 ^ 3 * up = up / 1000 := by
    push_cast
    ring
  rw [hamount]

/-! ## Fences on a parabola -/

/-- The two ends have come together, as seen from one unit or further. -/
def IsClosed (lo hi : ℝ) : Prop := (10 ^ 12 : ℕ) * |hi - lo| ≤ max |hi| 1

theorem isClosed_posts : (⟨p.post lo, some (p.post hi)⟩ : Fence Exact).isClosed = true ↔
    IsClosed lo hi := by
  change decide (Scalar.abs (real hi - real lo) ≤
    1e-12 * Scalar.maxNum (Scalar.abs (real hi)) 1) = true ↔ _
  rw [decide_eq_true_eq, Exact.ofScientific_eq, Exact.ofNat_eq, Exact.real_sub_real,
    Exact.abs_real, Exact.abs_real, Exact.maxNum_real, Exact.real_mul_real, Exact.real_le_real,
    Nat.cast_one, one_div_mul_eq_div, le_div_iff₀' (by positivity), IsClosed]
  norm_num

theorem place_below (fence : Fence Exact) (h : p.riseAt t < up) :
    fence.place (real up) (real t) (real (p.riseAt t)) = ⟨p.post t, fence.above⟩ := by
  have hzero : Scalar.maxNum (real (p.riseAt t)) 0 = real (p.riseAt t) := by
    rw [Exact.ofNat_eq, Exact.maxNum_real, Nat.cast_zero, max_eq_left (riseAt_nonneg t)]
  unfold Fence.place
  rw [if_pos (Exact.real_lt_real.mpr h), hzero]
  rfl

theorem place_above (fence : Fence Exact) (h : up ≤ p.riseAt t) :
    fence.place (real up) (real t) (real (p.riseAt t)) = ⟨fence.below, some (p.post t)⟩ := by
  unfold Fence.place
  exact if_neg (Exact.real_lt_real.not.mpr h.not_gt)

/-- An overshoot from the minimum. -/
theorem isClosed_zero_iff (ht : 0 < t) : IsClosed 0 t ↔ t ≤ 1 / 10 ^ 12 := by
  rw [IsClosed, sub_zero, abs_of_pos ht]
  push_cast
  constructor
  · intro h
    rcases max_choice t 1 with hmax | hmax <;> rw [hmax] at h <;> linarith
  · intro h
    nlinarith [le_max_right t 1]

/-- An overshoot by the least growth. -/
theorem isClosed_growth_iff (ht : 0 < t) : IsClosed t (11 / 10 * t) ↔ t ≤ 1 / 10 ^ 11 := by
  have hapart : 11 / 10 * t - t = t / 10 := by ring
  rw [IsClosed, hapart, abs_of_pos (by positivity), abs_of_pos (by positivity)]
  push_cast
  constructor
  · intro h
    rcases max_choice (11 / 10 * t) 1 with hmax | hmax <;> rw [hmax] at h <;> linarith
  · intro h
    nlinarith [le_max_right (11 / 10 * t) 1]

/-! ## Searches that give up -/

/-- The least growth leads from one trial that is not accepted past the crossing to another. -/
structure Overshoots (p : Parabola) (up t : ℝ) : Prop where
  before : t < p.distance up
  behind : p.distance up < 11 / 10 * t
  rejected : ¬p.Accepts up t
  rejectedNext : ¬p.Accepts up (11 / 10 * t)

/-- A search that grows from a distance overshoots, and the two ends have come together. -/
inductive GivesUpFrom (p : Parabola) (up : ℝ) : ℝ → Prop
  | here {t : ℝ} (overshot : p.Overshoots up t) (tiny : t ≤ 1 / 10 ^ 11) : GivesUpFrom p up t
  | later {t : ℝ} (growing : GivesUpFrom p up (4 * t)) : GivesUpFrom p up t

/-- A search gives up when the first trial, or one after it, is past the crossing and the two ends
have come together. -/
inductive GivesUp (p : Parabola) (up t : ℝ) : Prop
  | first (past : p.distance up ≤ t) (rejected : ¬p.Accepts up t) (tiny : t ≤ 1 / 10 ^ 12)
  | growing (h : p.GivesUpFrom up t)

theorem givesUpFrom_iff :
    p.GivesUpFrom up t ↔ p.Overshoots up t ∧ t ≤ 1 / 10 ^ 11 ∨ p.GivesUpFrom up (4 * t) := by
  constructor
  · rintro (⟨overshot, tiny⟩ | later)
    · exact .inl ⟨overshot, tiny⟩
    · exact .inr later
  · rintro (⟨overshot, tiny⟩ | later)
    · exact .here overshot tiny
    · exact .later later

theorem not_givesUpFrom_of_le (ht : 0 < t) (h : p.distance up ≤ t) : ¬p.GivesUpFrom up t := by
  intro hgives
  induction hgives with
  | here overshot _ => exact overshot.before.not_ge h
  | later _ ih => exact ih (by positivity) (h.trans (by linarith))

theorem givesUp_iff_of_past (ht : 0 < t) (h : p.distance up ≤ t) :
    p.GivesUp up t ↔ ¬p.Accepts up t ∧ t ≤ 1 / 10 ^ 12 := by
  constructor
  · rintro (⟨-, rejected, tiny⟩ | growing)
    · exact ⟨rejected, tiny⟩
    · exact absurd growing (not_givesUpFrom_of_le ht h)
  · exact fun ⟨rejected, tiny⟩ => .first h rejected tiny

theorem not_givesUpFrom_of_accepts (hup : 0 < up) (ht : 0 < t) (h : p.Accepts up t) :
    ¬p.GivesUpFrom up t := by
  rw [givesUpFrom_iff]
  rintro (⟨hover, -⟩ | hlater)
  · exact hover.rejected h
  · exact not_givesUpFrom_of_le (by positivity) (distance_lt_of_accepts hup ht.le h).le hlater

theorem givesUpFrom_iff_of_near (hup : 0 < up) (ht : 0 < t) (hlt : t < p.distance up)
    (hnear : p.distance up ≤ 11 / 10 * t) (hrejected : ¬p.Accepts up t) :
    p.GivesUpFrom up t ↔ ¬p.Accepts up (11 / 10 * t) ∧ t ≤ 1 / 10 ^ 11 := by
  have hlater : ¬p.GivesUpFrom up (4 * t) :=
    not_givesUpFrom_of_le (by positivity) (hnear.trans (by linarith))
  rw [givesUpFrom_iff, or_iff_left hlater]
  refine and_congr_left fun _ => ⟨Overshoots.rejectedNext, fun hnext => ?_⟩
  have hbehind := hnear.lt_of_ne' (ne_distance_of_not_accepts hup hnext)
  exact ⟨hlt, hbehind, hrejected, hnext⟩

theorem not_givesUpFrom_of_between (ht : 0 < t) (hnear : 11 / 10 * t ≤ p.distance up)
    (hfar : p.distance up ≤ 4 * t) : ¬p.GivesUpFrom up t := by
  rw [givesUpFrom_iff]
  rintro (⟨hover, -⟩ | hlater)
  · exact hover.behind.not_ge hnear
  · exact not_givesUpFrom_of_le (by positivity) hfar hlater

theorem givesUpFrom_iff_of_far (ht : 0 < t) (hfar : 4 * t ≤ p.distance up) :
    p.GivesUpFrom up t ↔ p.GivesUpFrom up (4 * t) := by
  rw [givesUpFrom_iff]
  refine or_iff_right fun ⟨hover, _⟩ => ?_
  have := hover.behind
  linarith

theorem distance_lt_of_givesUpFrom (h : p.GivesUpFrom up t) : p.distance up < 11 / 10 ^ 12 := by
  induction h with
  | here overshot tiny =>
    have := overshot.behind
    linarith
  | later _ ih => exact ih

/-- Only at very small scales does a search give up. -/
theorem distance_lt_of_givesUp (h : p.GivesUp up t) : p.distance up < 11 / 10 ^ 12 := by
  rcases h with ⟨past, -, tiny⟩ | growing
  · linarith
  · exact distance_lt_of_givesUpFrom growing

end Parabola

/-! ## Searches -/

/-- No rise is below a tolerance. -/
theorem Exact.not_lt_neg_maxNum {a x : ℝ} (ha : 0 ≤ a) (b : Exact) (hx : 0 ≤ x) :
    ¬real x < -Scalar.maxNum (real a) b := by
  unfold Scalar.maxNum
  rw [if_neg (by simp)]
  split_ifs with h
  · cases b with
    | real y =>
      rw [real_lt_real] at h
      rw [neg_real, real_lt_real, not_lt]
      linarith
    | inf => exact id
    | negInf | nan => cases h
  · rw [neg_real, real_lt_real, not_lt]
    linarith

/-- What a search for an amount has to go by, where there is no bound. -/
structure CrossingGoal.IsUnbounded (goal : CrossingGoal Exact) (up : ℝ) : Prop where
  up : goal.up = real up
  room : goal.room = .inf
  noNewMin : ∀ x : ℝ, 0 ≤ x → ¬real x < -goal.newMinTolerance

/-- The search ends where the parabola has risen by the amount. It sets no flag but `valid`, and
that one if `marked` holds. Only a search that has used up what it may use ends otherwise. -/
def Finds (p : Parabola) (up : ℝ) (goal : CrossingGoal Exact) (marked : Prop)
    (search : Run σ Exact (Crossing Exact)) : Prop :=
  ∀ s, ∃ c b, search s = .ok c b ∧ (callsSince goal.nfcn b.nfcn < goal.callLimit →
    ∃ (d : ℝ) (valid : Bool), c = ⟨real d, valid, false, false, false⟩ ∧ p.Accepts up d ∧
      (valid = true ↔ marked))

section Search

open Parabola

variable {p : Parabola} {up t lo : ℝ} {goal : CrossingGoal Exact} {marked marked' : Prop}
  {rise : Exact → Run σ Exact Exact} {fence : Fence Exact} {fuel : ℕ}

theorem Finds.of_iff {search : Run σ Exact (Crossing Exact)} (h : Finds p up goal marked search)
    (hiff : marked ↔ marked') : Finds p up goal marked' search := by
  rwa [← propext hiff]

variable (hgoal : goal.IsUnbounded up)
include hgoal

/-- One trial: it is accepted, or the bracket has closed, or the search goes on. -/
theorem finds_trial (hrise : Answers (real (p.riseAt t)) (rise (real t)))
    (haccepts : p.Accepts up t → marked)
    (hrejects : ¬p.Accepts up t → ∃ placed d,
      fence.place (real up) (real t) (real (p.riseAt t)) = placed ∧
      placed.next (real up) .inf (real t) (real (p.riseAt t)) = real d ∧
      (placed.isClosed = true → p.Accepts up d ∧ ¬marked) ∧
      (placed.isClosed = false →
        Finds p up goal marked (searchCrossing rise goal fuel placed (real d)))) :
    Finds p up goal marked (searchCrossing rise goal (fuel + 1) fence (real t)) := by
  intro s
  obtain ⟨s', hs⟩ := hrise s
  rw [searchCrossing, bind_of_ok hs, get_bind_apply, hgoal.up, hgoal.room,
    if_neg (hgoal.noNewMin _ (riseAt_nonneg t))]
  dsimp only
  split_ifs with hlimit haccepted hroom hclosed
  · exact ⟨_, s', rfl, fun hused => absurd hlimit hused.not_ge⟩
  · have haccepted := isRise_iff.mp haccepted
    exact ⟨_, s', rfl, fun _ => ⟨t, true, rfl, haccepted, iff_of_true rfl (haccepts haccepted)⟩⟩
  · simp [isAtRoom, Scalar.isFinite] at hroom
  · obtain ⟨placed, d, rfl, hnext, hends, -⟩ := hrejects (isRise_iff.not.mp haccepted)
    obtain ⟨hd, hmarked⟩ := hends hclosed
    rw [hnext]
    exact ⟨_, s', rfl, fun _ => ⟨d, false, rfl, hd, iff_of_false Bool.false_ne_true hmarked⟩⟩
  · obtain ⟨placed, d, rfl, hnext, -, hgoes⟩ := hrejects (isRise_iff.not.mp haccepted)
    rw [hnext]
    exact hgoes (Bool.eq_false_iff.mpr hclosed) s'

theorem finds_of_accepts (hrise : Answers (real (p.riseAt t)) (rise (real t)))
    (h : p.Accepts up t) :
    Finds p up goal True (searchCrossing rise goal (fuel + 1) fence (real t)) :=
  finds_trial hgoal hrise (fun _ => trivial) fun hrejected => absurd h hrejected

variable (hup : 0 < up) (hrise : ∀ t : ℝ, Answers (real (p.riseAt t)) (rise (real t)))
include hup hrise

/-- A search that overshoots finds the crossing with the next trial, but does not make that one if
the bracket has closed. -/
theorem finds_overshot (hlo : 0 ≤ lo) (hbelow : lo < p.distance up) (hover : p.distance up ≤ t) :
    Finds p up goal (p.Accepts up t ∨ ¬IsClosed lo t)
      (searchCrossing rise goal (fuel + 2) ⟨p.post lo, none⟩ (real t)) := by
  refine finds_trial hgoal (hrise t) .inl fun hrejected => ?_
  have hlt := hover.lt_of_ne' (ne_distance_of_not_accepts hup hrejected)
  have habove : up ≤ p.riseAt t :=
    not_lt.mp ((riseAt_lt_iff ((distance_pos hup).le.trans hover)).not.mpr hover.not_gt)
  refine ⟨_, p.distance up, place_above _ habove, between_posts hup hlo hbelow hlt,
    fun hclosed => ⟨accepts_distance hup, ?_⟩, fun hopen => ?_⟩
  · rw [isClosed_posts] at hclosed
    exact fun h => h.elim hrejected (· hclosed)
  · rw [Bool.eq_false_iff, Ne, isClosed_posts] at hopen
    exact (finds_of_accepts hgoal (hrise _) (accepts_distance hup)).of_iff
      (iff_of_true trivial (.inr hopen))

/-- A search that has stayed below grows until it meets the crossing or overshoots. By induction on
how many times it may grow by the largest factor. -/
theorem finds_growing (k : ℕ) : ∀ {t : ℝ} {below : Post Exact}, 0 < t → t ≤ p.distance up →
    p.distance up ≤ 4 ^ k * t →
      Finds p up goal (¬p.GivesUpFrom up t)
        (searchCrossing rise goal (k + 2) ⟨below, none⟩ (real t)) := by
  induction k with
  | zero =>
    intro t below ht hle hreach
    rw [pow_zero, one_mul] at hreach
    obtain rfl := hle.antisymm hreach
    exact (finds_of_accepts hgoal (hrise _) (accepts_distance hup)).of_iff
      (iff_of_true trivial (not_givesUpFrom_of_le ht le_rfl))
  | succ k ih =>
    intro t below ht hle hreach
    refine finds_trial hgoal (hrise t) (not_givesUpFrom_of_accepts hup ht) fun hrejected => ?_
    have hlt := hle.lt_of_ne (ne_distance_of_not_accepts hup hrejected)
    have hplace := place_below ⟨below, none⟩ ((riseAt_lt_iff ht.le).mpr hlt)
    -- whether the growth to the crossing is below its bounds, within them or above
    rcases le_or_gt (p.distance up) (11 / 10 * t) with hnear | hnear
    · refine ⟨_, _, hplace, beyond_near hup ht hnear, nofun, fun _ => ?_⟩
      refine (finds_overshot hgoal hup hrise ht.le hlt hnear).of_iff ?_
      rw [givesUpFrom_iff_of_near hup ht hlt hnear hrejected, isClosed_growth_iff ht, not_and_or,
        not_not]
    rcases le_or_gt (p.distance up) (4 * t) with hfar | hfar
    · refine ⟨_, _, hplace, beyond_between hup ht hnear.le hfar, nofun, fun _ => ?_⟩
      exact (finds_of_accepts hgoal (hrise _) (accepts_distance hup)).of_iff
        (iff_of_true trivial (not_givesUpFrom_of_between ht hnear.le hfar))
    · refine ⟨_, _, hplace, beyond_far hup ht hfar.le, nofun, fun _ => ?_⟩
      have hreach' : p.distance up ≤ 4 ^ k * (4 * t) := hreach.trans_eq (by ring)
      exact (ih (by positivity) hfar.le hreach').of_iff
        (not_congr (givesUpFrom_iff_of_far ht hfar.le).symm)

/-- A whole search, from the first trial on. -/
theorem finds_searchCrossing (ht : 0 < t) (hreach : p.distance up ≤ 4 ^ 38 * t) :
    Finds p up goal (¬p.GivesUp up t) (searchCrossing rise goal riseTrials .origin (real t)) := by
  have horigin : (.origin : Fence Exact) = ⟨p.post 0, none⟩ := by
    simp [Fence.origin, post, riseAt, Exact.ofNat_eq]
  rw [horigin]
  rcases le_or_gt (p.distance up) t with hpast | hbelow
  · refine (finds_overshot hgoal hup hrise le_rfl (distance_pos hup) hpast).of_iff ?_
    rw [givesUp_iff_of_past ht hpast, isClosed_zero_iff ht, not_and_or, not_not]
  · refine (finds_growing hgoal hup hrise 38 ht hbelow.le hreach).of_iff (not_congr ?_)
    constructor
    · exact .growing
    · rintro (⟨past, -, -⟩ | growing)
      · exact absurd past hbelow.not_ge
      · exact growing

end Search

/-! ## Minimizations -/

section Fixed

variable {α : Type} [Scalar α]

/-- Where nothing is free, the minimum has the value of the cost. -/
def Fit.Evaluates (fit : Fit σ α) : Prop :=
  ∀ (cost : Cost α) (state : ParameterState α) (options : EngineOptions α) (x : α),
    state.nFree = 0 → cost.value state.values = .ok x →
      ∀ b, ∃ m b', fit cost state options b = .ok m b' ∧ m.fval = x

theorem evaluates_quasiNewtonFit (choose : SolverOptions α → Solvers α)
    (solver : SolverOptions α) : (quasiNewtonFit choose solver : Fit σ α).Evaluates := by
  intro cost state options x hfixed hx b
  obtain ⟨m, b', hfit, hfval, -⟩ :=
    exists_fit_of_fixed ((ParameterMap.nFree_ofState state).trans hfixed) hx b
  exact ⟨m, b', hfit, hfval⟩

variable {fit : Fit σ α} {cost : Cost α} {minimum : FunctionMinimum α} {e : Entry α} {sign : α}
  {options : EngineOptions α}

theorem nFree_heldAt (h : minimum.state.entries = [e]) (offset : α) :
    (minimum.state.heldAt 0 e sign offset).nFree = 0 := by
  simp [ParameterState.heldAt, ParameterState.nFree, h, Entry.isFixed]

theorem values_heldAt (h : minimum.state.entries = [e]) (offset : α) :
    (minimum.state.heldAt 0 e sign offset).values =
      [e.limit.clamp (e.value + sign * offset)] := by
  simp [ParameterState.heldAt, ParameterState.values, h]

theorem rise_through_of_fit (h : minimum.state.entry? 0 = some e) {offset : α}
    (hfinite : Scalar.isFinite (e.value + sign * offset) = true) {m : FunctionMinimum α}
    {b b' : Bench σ α}
    (hfit : fit cost (minimum.state.heldAt 0 e sign offset) options.inner b = .ok m b') :
    (Profile.through fit cost minimum 0 e sign options).rise offset b =
      .ok (m.fval - minimum.fval) b' := by
  have hstate := (setValue_pinned h offset).trans (if_pos hfinite)
  unfold Profile.rise
  dsimp only [Profile.through]
  rw [hstate]
  simp only [Run.ofExcept, pure_bind]
  exact bind_of_ok hfit _

/-- A search uses at most as many evaluations as its trials. -/
theorem nfcn_searchCrossing_le {rise : α → Run σ α α} {n : ℕ}
    (hrise : ∀ {t b r b'}, rise t b = .ok r b' → b'.nfcn ≤ b.nfcn + n) (goal : CrossingGoal α) :
    ∀ fuel fence t {b : Bench σ α} {c b'}, searchCrossing rise goal fuel fence t b = .ok c b' →
      b'.nfcn ≤ b.nfcn + fuel * n
  | 0, fence, t, b, c, b', h => by
    cases h
    exact Nat.le_add_right _ _
  | fuel + 1, fence, t, b, c, b', h => by
    obtain ⟨r, b₁, hr, h⟩ := bind_eq_ok.mp h
    have hone := hrise hr
    rw [get_bind_apply] at h
    have hstop : b₁.nfcn ≤ b.nfcn + (fuel + 1) * n := by
      rw [Nat.succ_mul]
      omega
    dsimp only at h
    split_ifs at h
    any_goals
      cases h
      exact hstop
    have hrest := nfcn_searchCrossing_le hrise goal fuel _ _ h
    rw [Nat.succ_mul]
    omega

/-- Where one parameter is all there is, each trial is one evaluation. -/
theorem nfcn_crossingAt_le {choose : SolverOptions α → Solvers α} {solver : SolverOptions α}
    (h : minimum.state.entries = [e]) {callLimit : ℕ} {start : Bench σ α} {c : Crossing α}
    {b : Bench σ α}
    (hrun : crossingAt (quasiNewtonFit choose solver) cost minimum 0 sign options callLimit start =
      .ok c b) : b.nfcn ≤ start.nfcn + riseTrials := by
  have hentry : minimum.state.entry? 0 = some e := by simp [ParameterState.entry?, h]
  rw [crossingAt_eq hentry] at hrun
  have hbound := nfcn_searchCrossing_le (n := 1) (fun {offset b r b'} hr => ?_) _ _ _ _ hrun
  · rwa [mul_one] at hbound
  · obtain ⟨-, found, hfit, -⟩ := rise_through_eq_ok hentry hr
    have hcount := nfcn_quasiNewtonFit choose solver cost
      (minimum.state.heldAt 0 e sign offset) options.inner b
    have hfixed : (ParameterMap.ofState (minimum.state.heldAt 0 e sign offset)).nFree = 0 :=
      (ParameterMap.nFree_ofState _).trans (nFree_heldAt h offset)
    rw [hfit, fitArguments, if_pos hfixed] at hcount
    exact hcount.le

end Fixed

/-! ## The crossing -/

/-- A minimum of a parabola whose parameter has no limits. -/
structure Parabola.HasMinimum (p : Parabola) (minimum : FunctionMinimum Exact)
    (error upOfMinimum : ℝ) : Prop where
  entries : ∃ fixed, minimum.state.entries =
    [⟨real p.center, real error, fixed, .negInf, .inf⟩]
  fval : minimum.fval = real p.bottom
  up : minimum.up = real upOfMinimum

/-- A positive error is taken as it is. -/
theorem parabolicError_of_pos {e : Entry Exact} {error : ℝ} (h : e.error = real error)
    (herror : 0 < error) : parabolicError e = real error := by
  have hpositive : (0 : Exact) < real error := by simpa [Exact.ofNat_eq] using herror
  unfold parabolicError
  rw [h]
  exact if_pos (by simpa using hpositive)

theorem sqrt_upRatio {up upOfMinimum : ℝ} (hup : 0 < up) (hupOfMinimum : 0 < upOfMinimum) :
    Scalar.sqrt (upRatio (real up) (real upOfMinimum)) = real √(up / upOfMinimum) := by
  have hpositive : (0 : Exact) < real upOfMinimum := by
    simpa [Exact.ofNat_eq] using hupOfMinimum
  rw [upRatio, if_pos hpositive, Exact.real_div_real hupOfMinimum.ne',
    Exact.sqrt_real (div_pos hup hupOfMinimum).le]

section Crossing

variable {p : Parabola} {fit : Fit σ Exact} (hfit : fit.Evaluates) {cost : Cost Exact}
  (hcost : ∀ x, cost.value [real x] = .ok (real (p.valueAt x))) {minimum : FunctionMinimum Exact}
  {error upOfMinimum up sign : ℝ} (hminimum : p.HasMinimum minimum error upOfMinimum)
  (hsign : sign = 1 ∨ sign = -1)
include hfit hcost hminimum hsign

/-- The rise of a trial is that of the parabola, on both sides. -/
theorem answers_rise_through {e : Entry Exact} {options : EngineOptions Exact}
    (h : minimum.state.entries = [e]) (hvalue : e.value = real p.center) (hlower : e.lower = .negInf)
    (hupper : e.upper = .inf) (t : ℝ) : Answers (real (p.riseAt t))
      ((Profile.through fit cost minimum 0 e (real sign) options).rise (real t)) := by
  intro b
  have hentry : minimum.state.entry? 0 = some e := by simp [ParameterState.entry?, h]
  have hplace : e.value + real sign * real t = real (p.center + sign * t) := by
    rw [hvalue, Exact.real_mul_real, Exact.real_add_real]
  have hallows : e.Allows (p.center + sign * t) := by
    rw [Entry.Allows, hlower, hupper]
    exact ⟨trivial, trivial⟩
  have hheld : cost.value (minimum.state.heldAt 0 e (real sign) (real t)).values =
      .ok (real (p.valueAt (p.center + sign * t))) := by
    rw [values_heldAt h, hplace, clamp_of_allows hallows]
    exact hcost _
  have hrise : p.valueAt (p.center + sign * t) - p.bottom = p.riseAt t := by
    rcases hsign with rfl | rfl <;> unfold Parabola.valueAt Parabola.riseAt <;> ring
  obtain ⟨m, b', hm, hfval⟩ := hfit cost _ options.inner _ (nFree_heldAt h (real t)) hheld b
  refine ⟨b', (rise_through_of_fit hentry (by rw [hplace]; rfl) hm).trans ?_⟩
  rw [hfval, hminimum.fval, Exact.real_sub_real, hrise]

variable (herror : 0 < error) (hupOfMinimum : 0 < upOfMinimum) (hup : 0 < up)
  (hreach : p.distance up ≤ 4 ^ 38 * (error * √(up / upOfMinimum)))
include herror hupOfMinimum hup hreach

theorem finds_crossingAt (options : EngineOptions Exact) (callLimit : ℕ) (start : Bench σ Exact)
    (hstart : start.up = real up) : ∃ c b,
      crossingAt fit cost minimum 0 (real sign) options callLimit start = .ok c b ∧
      (callsSince start.nfcn b.nfcn < callLimit →
        ∃ (d : ℝ) (valid : Bool), c = ⟨real d, valid, false, false, false⟩ ∧ p.Accepts up d ∧
          (valid = true ↔ ¬p.GivesUp up (error * √(up / upOfMinimum)))) := by
  obtain ⟨fixed, hentries⟩ := hminimum.entries
  have hentry : minimum.state.entry? 0 =
      some ⟨real p.center, real error, fixed, .negInf, .inf⟩ := by
    simp [ParameterState.entry?, hentries]
  have hroom : Entry.roomTowards ⟨real p.center, real error, fixed, .negInf, .inf⟩ (real sign) =
      .inf := by
    unfold Entry.roomTowards Entry.boundTowards
    split_ifs <;> rfl
  have hfirst (x : ℝ) : Scalar.minNum (real x) .inf = real x := Exact.minNum_of_le trivial
  have hgoal : CrossingGoal.IsUnbounded ⟨real up, .inf,
      Scalar.maxNum (riseTolerance * real up) (2 * minimum.edm), start.nfcn, callLimit⟩ up :=
    ⟨rfl, rfl, fun x hx => Exact.not_lt_neg_maxNum (by positivity) _ hx⟩
  rw [crossingAt_eq hentry, hstart, hroom, parabolicError_of_pos rfl herror, hminimum.up,
    sqrt_upRatio hup hupOfMinimum, Exact.real_mul_real, hfirst]
  exact finds_searchCrossing hgoal hup
    (answers_rise_through hfit hcost hminimum hsign hentries rfl rfl rfl) (by positivity) hreach
    start

end Crossing

/-- **Crossings on parabolas.** In exact arithmetic, from a minimum of a parabola in one parameter
without limits, for any errordef and any positive error that is not `4 ^ 38` times too small, a
search that has not used up what it may use ends on both sides where the parabola has risen by the
errordef within a thousandth. It sets no flag but `valid`, and that one unless it gives up, which it
only does at distances below `1.1e-11`. -/
theorem crossingAt_parabola {fit : Fit σ Exact} (hfit : fit.Evaluates) (p : Parabola)
    {cost : Cost Exact} (hcost : ∀ x, cost.value [real x] = .ok (real (p.valueAt x)))
    {minimum : FunctionMinimum Exact} {error upOfMinimum up sign : ℝ}
    (hminimum : p.HasMinimum minimum error upOfMinimum) (herror : 0 < error)
    (hupOfMinimum : 0 < upOfMinimum) (hup : 0 < up) (hsign : sign = 1 ∨ sign = -1)
    (hreach : p.distance up ≤ 4 ^ 38 * (error * √(up / upOfMinimum)))
    (options : EngineOptions Exact) (callLimit : ℕ) (start : Bench σ Exact)
    (hstart : start.up = real up) : ∃ c b,
      crossingAt fit cost minimum 0 (real sign) options callLimit start = .ok c b ∧
      (callsSince start.nfcn b.nfcn < callLimit →
        (∃ d, c.offset = real d ∧ |p.steepness * d ^ 2 - up| ≤ up / 1000) ∧
        c.atLimit = false ∧ c.atMaxFcn = false ∧ c.newMin = false ∧
        (c.valid = true ↔ ¬p.GivesUp up (error * √(up / upOfMinimum))) ∧
        (11 / 10 ^ 12 ≤ p.distance up → c.valid = true)) := by
  obtain ⟨c, b, hrun, hfinds⟩ := finds_crossingAt hfit hcost hminimum hsign herror hupOfMinimum hup
    hreach options callLimit start hstart
  refine ⟨c, b, hrun, fun hused => ?_⟩
  obtain ⟨d, valid, rfl, hd, hvalid⟩ := hfinds hused
  exact ⟨⟨d, rfl, hd⟩, rfl, rfl, rfl, hvalid,
    fun hscale => hvalid.mpr (hscale.not_gt <| Parabola.distance_lt_of_givesUp ·)⟩

/-- The parabola with its minimum at the origin. -/
def parabolaAtZero (a : ℝ) (ha : 0 < a) : Parabola := ⟨0, 0, a, ha⟩

/-- The cost that it is. -/
noncomputable def parabolicCost (a : ℝ) : Cost Exact :=
  .ofFunction fun xs => .ok (real a * Scalar.dot xs xs)

/-- Its minimum, at the errordef 1. -/
noncomputable def parabolicMinimum (error : ℝ) : FunctionMinimum Exact :=
  { minimumOfTwo with state := ⟨[.free (real 0) (real error)], none⟩ }

theorem parabolicCost_value {a : ℝ} (ha : 0 < a) (x : ℝ) :
    (parabolicCost a).value [real x] = .ok (real ((parabolaAtZero a ha).valueAt x)) := by
  have hsum : Scalar.dot [real x] [real x] = real (0 + x * x) := by
    simp [Scalar.dot, Scalar.sum, Exact.ofNat_eq]
  have hvalue : a * (0 + x * x) = (parabolaAtZero a ha).valueAt x := by
    simp only [Parabola.valueAt, parabolaAtZero]
    ring
  change Except.ok (real a * Scalar.dot [real x] [real x]) = _
  rw [hsum, Exact.real_mul_real, hvalue]

theorem hasMinimum_parabolicMinimum {a : ℝ} (ha : 0 < a) (error : ℝ) :
    (parabolaAtZero a ha).HasMinimum (parabolicMinimum error) error 1 where
  entries := ⟨false, rfl⟩
  fval := rfl
  up := rfl

/-- Below the minimum of the square, from an error that is ten times too small. -/
theorem crossingAt_parabola_below : ∃ c b,
    crossingAt (quasiNewtonFit SolverOptions.solvers .standard) (parabolicCost 1)
      (parabolicMinimum (1 / 10)) 0 (real (-1)) .default 100 (.fresh (real 1) ()) = .ok c b ∧
      b.nfcn < 100 ∧ c.valid = true := by
  have hdistance : (parabolaAtZero 1 one_pos).distance 1 = 1 := by
    simp [Parabola.distance, parabolaAtZero]
  obtain ⟨c, b, hrun, hfinds⟩ := crossingAt_parabola
    (evaluates_quasiNewtonFit SolverOptions.solvers .standard) (parabolaAtZero 1 one_pos)
    (parabolicCost_value one_pos) (hasMinimum_parabolicMinimum one_pos (1 / 10)) (by norm_num)
    one_pos one_pos (.inr rfl) (by rw [hdistance]; norm_num) .default 100 (.fresh (real 1) ()) rfl
  have hcount : b.nfcn ≤ 0 + riseTrials := nfcn_crossingAt_le rfl hrun
  have hused : b.nfcn < 100 := hcount.trans_lt (by decide)
  obtain ⟨-, -, -, -, -, hvalid⟩ := hfinds hused
  exact ⟨c, b, hrun, hused, hvalid (by rw [hdistance]; norm_num)⟩

/-- The bracket between the minimum and a first trial at `2e-13` counts as closed, so that the
crossing half way is found, but not said to be valid. -/
theorem crossingAt_parabola_unflagged : ∃ c b,
    crossingAt (quasiNewtonFit SolverOptions.solvers .standard) (parabolicCost (10 ^ 26))
      (parabolicMinimum (2 / 10 ^ 13)) 0 (real 1) .default 100 (.fresh (real 1) ()) = .ok c b ∧
      b.nfcn < 100 ∧ (∃ d, c.offset = real d ∧ |10 ^ 26 * d ^ 2 - 1| ≤ 1 / 1000) ∧
      c.valid = false := by
  have hsteep : (0 : ℝ) < 10 ^ 26 := by norm_num
  have hdistance : (parabolaAtZero (10 ^ 26) hsteep).distance 1 = 1 / 10 ^ 13 := by
    rw [Parabola.distance, Real.sqrt_eq_iff_mul_self_eq (by positivity) (by positivity)]
    norm_num [parabolaAtZero]
  have hfirst : 2 / 10 ^ 13 * √(1 / 1) = (2 / 10 ^ 13 : ℝ) := by norm_num
  obtain ⟨c, b, hrun, hfinds⟩ := finds_crossingAt
    (evaluates_quasiNewtonFit SolverOptions.solvers .standard) (parabolicCost_value hsteep)
    (hasMinimum_parabolicMinimum hsteep (2 / 10 ^ 13)) (.inl rfl) (by norm_num) one_pos one_pos
    (by rw [hdistance, hfirst]; norm_num) .default 100 (.fresh (real 1) ()) rfl
  have hcount : b.nfcn ≤ 0 + riseTrials := nfcn_crossingAt_le rfl hrun
  have hused : b.nfcn < 100 := hcount.trans_lt (by decide)
  obtain ⟨d, valid, rfl, hd, hvalid⟩ := hfinds hused
  have hgivesUp : (parabolaAtZero (10 ^ 26) hsteep).GivesUp 1 (2 / 10 ^ 13 * √(1 / 1)) := by
    rw [hfirst]
    refine .first (by rw [hdistance]; norm_num) (fun haccepts => ?_) (by norm_num)
    have hrise := (abs_le.mp haccepts).2
    norm_num [Parabola.riseAt, parabolaAtZero] at hrise
  refine ⟨_, b, hrun, hused, ⟨d, rfl, hd⟩, ?_⟩
  exact Bool.eq_false_iff.mpr fun h => hvalid.mp h hgivesUp

end FitSession
