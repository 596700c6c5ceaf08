import FitSession.Proofs.Engine.Crossing
import FitSession.Proofs.Exact

/-!
# Points of contour lines

A contour line is met by rays that leave the minimum at even angles. Along each of them trials are
made as for a crossing: minimizations with both parameters fixed at a point of the ray.

* `ContourRay`, `ContourRay.le_reach_iff`: rays, and how far they lead within the limits;
* `Tried`, `RayEnds`, `isRay_searchRay`: **the trials of one ray and what they end with**;
* `InTurn`: work on one item after the other;
* **`contourPoints_traced`**: a contour line in exact arithmetic, whatever the minimizations give.
-/

namespace FitSession

open Exact (real)

variable {σ : Type}

/-! ## Trials in exact arithmetic -/

namespace Exact

/-- A trial that stayed below is left behind by a tenth at least. -/
theorem exists_growth {up : ℝ} (hup : 0 < up) (rise : Exact) : ∃ g : ℝ, 1 ≤ g ∧
    (if 0 < rise then Scalar.clampTo 1.1 4 (Scalar.sqrt (real up / rise)) else 4) = real g := by
  have hclamp (s : ℝ) : ∃ g : ℝ, 1 ≤ g ∧ Scalar.clampTo 1.1 4 (real s) = real g := by
    refine ⟨min (max s (11 / 10 ^ 1)) 4, ?_, ?_⟩
    · exact le_min (le_max_of_le_right (by norm_num)) (by norm_num)
    · rw [ofScientific_eq, ofNat_eq, clampTo_real]
      norm_num
  split_ifs with hrise
  · cases rise with
    | real r =>
      have hr : 0 < r := by simpa [ofNat_eq] using hrise
      rw [real_div_real hr.ne', sqrt_real (div_nonneg hup.le hr.le)]
      exact hclamp _
    | inf =>
      have hquotient : real up / inf = real 0 := rfl
      rw [hquotient, sqrt_real le_rfl]
      exact hclamp _
    | negInf | nan => cases hrise
  · exact ⟨4, by norm_num, ofNat_eq 4⟩

theorem le_beyond {up offset : ℝ} {room rise : Exact} (hup : 0 < up) (hoffset : 0 ≤ offset)
    (hroom : real offset ≤ room) : real offset ≤ Fence.beyond (real up) room (real offset) rise ∧
      Fence.beyond (real up) room (real offset) rise ≤ room := by
  obtain ⟨g, hg, hgrow⟩ := exists_growth hup rise
  have hfar : real offset ≤ real offset * real g := le_mul_of_one_le_right hoffset hg
  unfold Fence.beyond
  dsimp only
  rw [hgrow]
  exact ⟨le_minNum hfar hroom, (minNum_le hfar hroom).2⟩

theorem half_mem {a b : Exact} (ha : 0 ≤ a) (h : a ≤ b) :
    a ≤ 0.5 * (a + b) ∧ 0.5 * (a + b) ≤ b := by
  have hinf : real (1 / 2) * inf = inf := if_pos one_half_pos
  rw [half_eq]
  cases a with
  | real x =>
    cases b with
    | real y =>
      have hxy : x ≤ y := h
      simp only [real_add_real, real_mul_real, real_le_real]
      constructor <;> linarith
    | inf => exact hinf.symm ▸ ⟨trivial, trivial⟩
    | negInf | nan => cases h
  | inf =>
    cases b with
    | inf => exact hinf.symm ▸ ⟨trivial, trivial⟩
    | real y | negInf | nan => cases h
  | negInf | nan =>
    rw [ofNat_eq] at ha
    cases ha

theorem between_mem {up : Exact} {lo hi : Post Exact} (hlo : 0 ≤ lo.distance)
    (h : lo.distance ≤ hi.distance) :
    lo.distance ≤ Fence.between up lo hi ∧ Fence.between up lo hi ≤ hi.distance := by
  unfold Fence.between
  dsimp only
  split_ifs with hguess
  · simp only [Bool.and_eq_true, decide_eq_true_eq] at hguess
    exact ⟨le_of_lt hguess.1.2, le_of_lt hguess.2⟩
  · exact half_mem hlo h

/-- The posts of the fence are at finite distances. -/
def IsPlaced (f : Fence Exact) : Prop :=
  (∃ x, f.below.distance = real x) ∧ ∀ hi, f.above = some hi → ∃ y, hi.distance = real y

variable {f : Fence Exact} {offset up : ℝ} {room rise : Exact}

theorem IsPlaced.place (h : IsPlaced f) (up rise : Exact) (offset : ℝ) :
    IsPlaced (f.place up (real offset) rise) := by
  unfold Fence.place
  split_ifs
  · exact ⟨⟨offset, rfl⟩, h.2⟩
  · refine ⟨h.1, ?_⟩
    rintro hi ⟨⟩
    exact ⟨offset, rfl⟩

/-- Then the next trial is at a finite distance too. -/
theorem exists_real_next (hup : 0 < up) (hoffset : 0 ≤ offset) (hroom : real offset ≤ room)
    (h : IsPlaced f) : ∃ y, f.next (real up) room (real offset) rise = real y := by
  unfold Fence.next
  cases habove : f.above with
  | some hi =>
    obtain ⟨⟨x, hx⟩, habove'⟩ := h
    obtain ⟨y, hy⟩ := habove' hi habove
    dsimp only
    unfold Fence.between
    dsimp only
    split_ifs with hguess
    · simp only [Bool.and_eq_true] at hguess
      exact exists_real_of_isFinite hguess.1.1
    · rw [hx, hy, real_add_real, ofScientific_eq, real_mul_real]
      exact ⟨_, rfl⟩
  | none =>
    obtain ⟨g, hg, hgrow⟩ := exists_growth hup rise
    have hfar : real offset ≤ real offset * real g := le_mul_of_one_le_right hoffset hg
    dsimp only
    unfold Fence.beyond
    dsimp only
    rw [hgrow]
    exact exists_real_of_mem (le_minNum hfar hroom) (minNum_le hfar hroom).1

end Exact

/-! ## Rays -/

/-- The number is within the bounds of the entry. -/
def Entry.Allows (e : Entry Exact) (x : ℝ) : Prop := e.lower ≤ real x ∧ real x ≤ e.upper

/-- One may go just as far as the limit allows. -/
theorem le_roomAlong_iff {e : Entry Exact} {x d t : ℝ} (hvalue : e.value = real x)
    (hx : e.Allows x) (ht : 0 ≤ t) :
    real t ≤ roomAlong e (real d) ↔ e.Allows (x + t * d) := by
  unfold roomAlong
  rw [hvalue]
  simp only [Exact.ofNat_eq, Exact.real_lt_real, Nat.cast_zero]
  rcases lt_trichotomy 0 d with hd | rfl | hd
  · have hlower : e.lower ≤ real (x + t * d) :=
      IsTrans.trans _ _ _ hx.1 (le_add_of_nonneg_right (mul_nonneg ht hd.le))
    rw [if_pos hd]
    refine Iff.trans ?_ (and_iff_right hlower).symm
    cases hu : e.upper with
    | real u =>
      rw [Exact.real_sub_real, Exact.real_div_real hd.ne', Exact.real_le_real, Exact.real_le_real,
        le_div_iff₀ hd, le_sub_iff_add_le']
    | inf =>
      have hquotient : (Exact.inf - real x) / real d = Exact.inf := if_neg hd.not_gt
      rw [hquotient]
      exact Iff.rfl
    | negInf | nan =>
      have hupper := hx.2
      rw [hu] at hupper
      cases hupper
  · rw [if_neg (lt_irrefl 0), if_neg (lt_irrefl 0), mul_zero, add_zero]
    exact iff_of_true trivial hx
  · have hupper : real (x + t * d) ≤ e.upper :=
      IsTrans.trans _ _ _ (add_le_of_nonpos_right (mul_nonpos_of_nonneg_of_nonpos ht hd.le)) hx.2
    rw [if_neg hd.not_gt, if_pos hd]
    refine Iff.trans ?_ (and_iff_left hupper).symm
    cases hl : e.lower with
    | real l =>
      rw [Exact.real_sub_real, Exact.real_div_real hd.ne, Exact.real_le_real, Exact.real_le_real,
        le_div_iff_of_neg hd, sub_le_iff_le_add']
    | negInf =>
      have hquotient : (Exact.negInf - real x) / real d = Exact.inf := if_pos hd
      rw [hquotient]
      exact Iff.rfl
    | inf | nan =>
      have hlower := hx.1
      rw [hl] at hlower
      cases hlower

/-- A ray in the plane of two parameters. -/
structure ContourRay where
  x : ℝ
  y : ℝ
  dx : ℝ
  dy : ℝ

namespace ContourRay

/-- The point at distance `t`. -/
def pointAt (r : ContourRay) (t : ℝ) : Exact × Exact := (real (r.x + t * r.dx), real (r.y + t * r.dy))

/-- How far the ray leads within the limits of both parameters. -/
noncomputable def reach (r : ContourRay) (ex ey : Entry Exact) : Exact :=
  Scalar.minNum (roomAlong ex (real r.dx)) (roomAlong ey (real r.dy))

variable {r : ContourRay} {ex ey : Entry Exact} (hx : ex.value = real r.x) (hy : ey.value = real r.y)
  (hallowsX : ex.Allows r.x) (hallowsY : ey.Allows r.y)
include hx hy hallowsX hallowsY

theorem le_reach_iff {t : ℝ} (ht : 0 ≤ t) : real t ≤ r.reach ex ey ↔
    ex.Allows (r.x + t * r.dx) ∧ ey.Allows (r.y + t * r.dy) := by
  have hnear : real 0 ≤ roomAlong ex (real r.dx) ∧ real 0 ≤ roomAlong ey (real r.dy) := by
    rw [le_roomAlong_iff hx hallowsX le_rfl, le_roomAlong_iff hy hallowsY le_rfl, zero_mul,
      zero_mul, add_zero, add_zero]
    exact ⟨hallowsX, hallowsY⟩
  rw [← le_roomAlong_iff hx hallowsX ht, ← le_roomAlong_iff hy hallowsY ht]
  constructor
  · intro h
    obtain ⟨hleft, hright⟩ := Exact.minNum_le hnear.1 hnear.2
    exact ⟨IsTrans.trans _ _ _ h hleft, IsTrans.trans _ _ _ h hright⟩
  · exact fun h => Exact.le_minNum h.1 h.2

theorem reach_nonneg : real 0 ≤ r.reach ex ey := by
  rw [le_reach_iff hx hy hallowsX hallowsY le_rfl, zero_mul, zero_mul, add_zero, add_zero]
  exact ⟨hallowsX, hallowsY⟩

end ContourRay

/-! ## The trials of a ray -/

section Trials

variable (inner : ℝ → Run σ Exact (FunctionMinimum Exact)) (fval up room : Exact)
  (start : Bench σ Exact)

/-- Trials one after the other, the latest first. Each is a minimization at a distance that the
trials before it allow. -/
inductive Tried : List (Post Exact) → Bench σ Exact → Prop
  | none : Tried [] start
  | trial {trials b t found after} (tried : Tried trials b)
      (admitted : MayTry up room trials (real t)) (fit : inner t b = .ok found after) :
      Tried (⟨real t, found.fval - fval⟩ :: trials) after

/-- How the search along a ray ends, after at most 40 trials: at the last trial, if the rise there
is the amount, or if it is below the amount and the ray leads no further; or else nowhere. -/
inductive RayEnds : Option ℝ → Bench σ Exact → Prop
  | met {t rise trials b} (tried : Tried inner fval up room start (⟨real t, rise⟩ :: trials) b)
      (few : trials.length < 40) (rises : Scalar.abs (rise - up) ≤ riseTolerance * up) :
      RayEnds (some t) b
  | bound {t rise trials b} (tried : Tried inner fval up room start (⟨real t, rise⟩ :: trials) b)
      (few : trials.length < 40) (atBound : real t = room) (below : rise < up) :
      RayEnds (some t) b
  | dropped {trials b} (tried : Tried inner fval up room start trials b)
      (all : trials.length = 40) : RayEnds none b

/-- How the search along a ray fails: with a minimization. -/
inductive RayFails : FitError Exact → Bench σ Exact → Prop
  | failed {trials b t e after} (tried : Tried inner fval up room start trials b)
      (few : trials.length < 40) (admitted : MayTry up room trials (real t))
      (fit : inner t b = .error e after) : RayFails e after

/-- How the search along a ray ends. -/
def IsRay : EStateM.Result (FitError Exact) (Bench σ Exact) (Option Exact) → Prop
  | .ok found b => ∃ t : Option ℝ, found = t.map real ∧ RayEnds inner fval up room start t b
  | .error e b => RayFails inner fval up room start e b

variable {inner fval up room start}

/-- The end of a ray is on it. -/
theorem RayEnds.within {t : ℝ} {b : Bench σ Exact}
    (h : RayEnds inner fval up room start (some t) b) : 0 ≤ t ∧ real t ≤ room := by
  have hadmitted : ∃ trials, MayTry up room trials (real t) := by
    cases h with
    | met tried _ _ | bound tried _ _ _ =>
      cases tried with
      | trial _ admitted _ => exact ⟨_, admitted⟩
  obtain ⟨trials, hnonneg, hroom, -⟩ := hadmitted
  exact ⟨by simpa [Exact.ofNat_eq] using hnonneg, hroom⟩

variable {up : ℝ} {rise : Exact → Run σ Exact Exact}

/-- The trials that are left end a ray, if those before them are its trials. -/
theorem isRay_searchRay (hup : 0 < up)
    (hrise : ∀ t : ℝ, 0 ≤ t → real t ≤ room → rise (real t) = (do
      let m ← inner t
      pure (m.fval - fval))) :
    ∀ fuel fence (t : ℝ) trials b, Tried inner fval (real up) room start trials b →
      fence.Brackets (real up) room trials → Exact.IsPlaced fence →
      fence.Admits room (real t) → trials.length + fuel = 40 →
      IsRay inner fval (real up) room start (searchRay rise (real up) room fuel fence (real t) b)
  | 0, fence, t, trials, b, htried, hfence, hplaced, hadmits, hlength =>
    ⟨none, rfl, .dropped htried hlength⟩
  | fuel + 1, fence, t, trials, b, htried, hfence, hplaced, hadmits, hlength => by
    have hnonneg : 0 ≤ t := by
      simpa [Exact.ofNat_eq] using (hadmits.mayTry hfence).nonneg
    rw [searchRay, hrise t hnonneg hadmits.le_room, bind_assoc, bind_apply]
    cases hfit : inner t b with
    | error e b₁ => exact .failed htried (by omega) (hadmits.mayTry hfence) hfit
    | ok m b₁ =>
      have htried' := htried.trial (hadmits.mayTry hfence) hfit
      dsimp only
      rw [pure_bind]
      generalize m.fval - fval = r at htried' ⊢
      split_ifs with hmet hbound
      · exact ⟨some t, rfl, .met htried' (by omega) (of_decide_eq_true hmet)⟩
      · simp only [isAtRoom, Bool.and_eq_true, decide_eq_true_eq] at hbound
        have hroom : real t = room := Exact.le_antisymm hadmits.le_room hbound.2.2
        exact ⟨some t, congrArg some hroom.symm, .bound htried' (by omega) hroom hbound.1⟩
      · have hnext : (fence.place (real up) (real t) r).Admits room
            ((fence.place (real up) (real t) r).next (real up) room (real t) r) :=
          Fence.admits_next_of hfence hadmits (fun hi _ => Exact.between_mem)
            (Exact.le_beyond hup hnonneg hadmits.le_room)
        have hplaced' := hplaced.place (real up) r t
        obtain ⟨t', ht'⟩ : ∃ t' : ℝ,
            (fence.place (real up) (real t) r).next (real up) room (real t) r = real t' :=
          Exact.exists_real_next hup hnonneg hadmits.le_room hplaced'
        rw [ht'] at hnext ⊢
        exact isRay_searchRay hup hrise fuel _ t' _ b₁ htried' (hfence.place hadmits) hplaced'
          hnext (by rw [List.length_cons]; omega)

end Trials

/-! ## The minimizations -/

section Plane

variable {α : Type} [Scalar α] {fit : Fit σ α} {cost : Cost α} {minimum : FunctionMinimum α}
  {ix iy : Nat} {ex ey : Entry α} {options : EngineOptions α}

/-- A state with two parameters fixed at a point, and all others as they are. -/
def ParameterState.heldOn (s : ParameterState α) (ix iy : Nat) (ex ey : Entry α) (point : α × α) :
    ParameterState α :=
  ⟨(s.entries.set ix { ex with fixed := true, value := point.1 }).set iy
    { ey with fixed := true, value := point.2 }, none⟩

/-- The plane through a minimum along two parameters. -/
def Plane.through (fit : Fit σ α) (cost : Cost α) (minimum : FunctionMinimum α) (ix iy : Nat)
    (ex ey : Entry α) (options : EngineOptions α) : Plane σ α :=
  ⟨fit, cost, options.inner, ⟨(minimum.state.entries.set ix { ex with fixed := true }).set iy
    { ey with fixed := true }, none⟩, minimum.fval, ix, iy, ex.value, ey.value⟩

/-- The point where the search along a heading ends. -/
def Plane.trace (p : Plane σ α) (ex ey : Entry α) (up : α) (h : Heading α) :
    Run σ α (Option (α × α)) := do
  let room := Scalar.minNum (roomAlong ex h.dx) (roomAlong ey h.dy)
  let t ← searchRay (fun t => p.rise (p.pointOn h t)) up room riseTrials .origin
    (Scalar.minNum room 1)
  pure (t.map (p.pointOn h))

theorem setFixed_second {s : ParameterState α} (hne : ix ≠ iy) (h : s.entry? iy = some ey) :
    (⟨s.entries.set ix { ex with fixed := true }, none⟩ : ParameterState α).setFixed iy true =
      .ok ⟨(s.entries.set ix { ex with fixed := true }).set iy { ey with fixed := true }, none⟩ := by
  have hentry : ParameterState.entry? ⟨s.entries.set ix { ex with fixed := true }, none⟩ iy =
      some ey := (List.getElem?_set_ne hne).trans h
  exact setFixed_withoutCovariance hentry

theorem setValue_of_isFinite {s : ParameterState α} {i : Nat} {e : Entry α} {x : α}
    (he : s.entries[i]? = some e) (hx : Scalar.isFinite x = true) :
    s.setValue i x = .ok { s with entries := s.entries.set i { e with value := e.limit.clamp x } } := by
  have hentry : s.entryOrFail i = .ok e := ParameterState.entryOrFail_eq_ok.mpr he
  unfold ParameterState.setValue checkValue
  rw [if_pos hx, hentry]
  rfl

/-- A rise comes from the minimization at its point. -/
theorem Plane.rise_through (hne : ix ≠ iy) (hx : minimum.state.entry? ix = some ex)
    (hy : minimum.state.entry? iy = some ey) {point : α × α}
    (hfiniteX : Scalar.isFinite point.1 = true) (hfiniteY : Scalar.isFinite point.2 = true) :
    (Plane.through fit cost minimum ix iy ex ey options).rise point = (do
      let m ← fit cost (minimum.state.heldOn ix iy ex ey
        (ex.limit.clamp point.1, ey.limit.clamp point.2)) options.inner
      pure (m.fval - minimum.fval)) := by
  have hltX : ix < minimum.state.entries.length := (List.getElem?_eq_some_iff.mp hx).1
  have hltY : iy < minimum.state.entries.length := (List.getElem?_eq_some_iff.mp hy).1
  unfold Plane.rise
  dsimp only [Plane.through]
  rw [setValue_of_isFinite (e := { ex with fixed := true }) (by simp [hne.symm, hltX]) hfiniteX]
  simp only [Run.ofExcept, pure_bind]
  rw [setValue_of_isFinite (e := { ey with fixed := true }) (by simp [hne, hltY]) hfiniteY]
  simp only [pure_bind]
  rw [List.set_comm _ _ hne.symm, List.set_set, List.set_set]
  rfl

end Plane

/-! ## One item after the other -/

section InTurn

variable {ε τ κ δ : Type}

/-- Work on one item after the other, each from where the one before left off. -/
inductive InTurn (R : κ → τ → δ → τ → Prop) : List κ → τ → List δ → τ → Prop
  | nil {s} : InTurn R [] s [] s
  | cons {a l s y t ys u} (here : R a s y t) (rest : InTurn R l t ys u) :
    InTurn R (a :: l) s (y :: ys) u

variable {R : κ → τ → δ → τ → Prop} {l : List κ} {s t : τ} {ys : List δ}

theorem inTurn_of_mapM {f : κ → EStateM ε τ δ}
    (hf : ∀ a ∈ l, ∀ s y t, f a s = .ok y t → R a s y t) (h : l.mapM f s = .ok ys t) :
    InTurn R l s ys t := by
  induction l generalizing s ys with
  | nil =>
    cases h
    exact .nil
  | cons a l ih =>
    rw [List.mapM_cons] at h
    obtain ⟨y, u, hy, h⟩ := bind_eq_ok.mp h
    obtain ⟨zs, v, hzs, h⟩ := bind_eq_ok.mp h
    cases h
    exact .cons (hf a List.mem_cons_self s y u hy)
      (ih (fun b hb => hf b (List.mem_cons_of_mem a hb)) hzs)

/-- Work that fails on a number does so after all smaller ones. -/
theorem exists_of_mapM_range_eq_error {f : ℕ → EStateM ε τ δ} {R : ℕ → τ → δ → τ → Prop} {n : ℕ}
    {e : ε} (hf : ∀ k s y t, f k s = .ok y t → R k s y t)
    (h : (List.range n).mapM f s = .error e t) :
    ∃ k < n, ∃ ys u, InTurn R (List.range k) s ys u ∧ f k u = .error e t := by
  obtain ⟨pre, k, post, ys, u, hrange, hpre, hk⟩ := exists_of_mapM_eq_error h
  have hlt : pre.length < n := by
    rw [← List.length_range (n := n), hrange]
    simp
  have hpre' : pre = List.range pre.length := by
    have htake := congrArg (List.take pre.length) hrange
    rw [List.take_left, List.take_range, min_eq_left hlt.le] at htake
    exact htake.symm
  have hk' : k = pre.length := by
    have hget := congrArg (fun l : List ℕ => l[pre.length]?) hrange
    rw [List.getElem?_append_right le_rfl] at hget
    simpa [hlt] using hget.symm
  subst hk'
  exact ⟨pre.length, hlt, ys, u, hpre' ▸ inTurn_of_mapM (fun k _ s y t => hf k s y t) hpre, hk⟩

theorem InTurn.length_eq (h : InTurn R l s ys t) : ys.length = l.length := by
  induction h with
  | nil => rfl
  | cons _ _ ih => rw [List.length_cons, List.length_cons, ih]

theorem InTurn.exists_of_mem (h : InTurn R l s ys t) {y : δ} (hy : y ∈ ys) :
    ∃ a ∈ l, ∃ u v, R a u y v := by
  induction h with
  | nil => cases hy
  | cons here rest ih =>
    rcases List.mem_cons.mp hy with rfl | hy
    · exact ⟨_, List.mem_cons_self, _, _, here⟩
    · obtain ⟨a, ha, h⟩ := ih hy
      exact ⟨a, List.mem_cons_of_mem _ ha, h⟩

end InTurn

/-! ## The line -/

section Line

variable {fit : Fit σ Exact} {cost : Cost Exact} {minimum : FunctionMinimum Exact} {ix iy : ℕ}
  {ex ey : Entry Exact} {options : EngineOptions Exact} {up : ℝ}

theorem clamp_of_allows {e : Entry Exact} {x : ℝ} (h : e.Allows x) :
    e.limit.clamp (real x) = real x := by
  change Scalar.minNum (Scalar.maxNum (real x) e.lower) e.upper = real x
  rw [Exact.maxNum_of_le h.1, Exact.minNum_of_le h.2]

namespace ContourRay

/-- The minimization at a distance on a ray. -/
def minimize (r : ContourRay) (fit : Fit σ Exact) (cost : Cost Exact)
    (minimum : FunctionMinimum Exact) (ix iy : ℕ) (ex ey : Entry Exact)
    (options : EngineOptions Exact) (t : ℝ) : Run σ Exact (FunctionMinimum Exact) :=
  fit cost (minimum.state.heldOn ix iy ex ey (r.pointAt t)) options.inner

/-- What a ray adds to the line: the point where it ends, if it does. -/
def Traces (r : ContourRay) (fit : Fit σ Exact) (cost : Cost Exact)
    (minimum : FunctionMinimum Exact) (ix iy : ℕ) (ex ey : Entry Exact)
    (options : EngineOptions Exact) (up : Exact) (start : Bench σ Exact)
    (found : Option (Exact × Exact)) (b : Bench σ Exact) : Prop :=
  ∃ t : Option ℝ, found = t.map r.pointAt ∧
    RayEnds (r.minimize fit cost minimum ix iy ex ey options) minimum.fval up (r.reach ex ey) start
      t b

/-- A minimization on the ray fails. -/
def Fails (r : ContourRay) (fit : Fit σ Exact) (cost : Cost Exact)
    (minimum : FunctionMinimum Exact) (ix iy : ℕ) (ex ey : Entry Exact)
    (options : EngineOptions Exact) (up : Exact) (start : Bench σ Exact)
    (e : FitError Exact) (b : Bench σ Exact) : Prop :=
  RayFails (r.minimize fit cost minimum ix iy ex ey options) minimum.fval up (r.reach ex ey) start
    e b

/-- The point is on the ray, within the limits of both parameters. -/
def Reaches (r : ContourRay) (ex ey : Entry Exact) (point : Exact × Exact) : Prop :=
  ∃ t : ℝ, 0 ≤ t ∧ real t ≤ r.reach ex ey ∧ point = r.pointAt t ∧
    ex.Allows (r.x + t * r.dx) ∧ ey.Allows (r.y + t * r.dy)

/-- The ray number `k` of `count` at even angles, in given units. -/
noncomputable def ofTurn (x y sx sy : ℝ) (count k : ℕ) : ContourRay :=
  ⟨x, y, sx * Real.cos ((2 * k : ℕ) * Real.pi / count),
    sy * Real.sin ((2 * k : ℕ) * Real.pi / count)⟩

variable {r : ContourRay}

theorem pointOn_through (hvalueX : ex.value = real r.x) (hvalueY : ey.value = real r.y) (t : ℝ) :
    (Plane.through fit cost minimum ix iy ex ey options).pointOn ⟨real r.dx, real r.dy⟩ (real t) =
      r.pointAt t := by
  unfold Plane.pointOn pointAt
  dsimp only [Plane.through]
  rw [hvalueX, hvalueY, Exact.real_mul_real, Exact.real_mul_real, Exact.real_add_real,
    Exact.real_add_real]

variable (hne : ix ≠ iy) (hx : minimum.state.entry? ix = some ex)
  (hy : minimum.state.entry? iy = some ey) (hvalueX : ex.value = real r.x)
  (hvalueY : ey.value = real r.y) (hallowsX : ex.Allows r.x) (hallowsY : ey.Allows r.y)
include hne hx hy hvalueX hvalueY hallowsX hallowsY

/-- A rise on a ray is that of the minimization there. -/
theorem rise_pointOn {t : ℝ} (ht : 0 ≤ t) (hreach : real t ≤ r.reach ex ey) :
    (Plane.through fit cost minimum ix iy ex ey options).rise
      ((Plane.through fit cost minimum ix iy ex ey options).pointOn ⟨real r.dx, real r.dy⟩
        (real t)) = (do
      let m ← r.minimize fit cost minimum ix iy ex ey options t
      pure (m.fval - minimum.fval)) := by
  obtain ⟨hwithinX, hwithinY⟩ := (le_reach_iff hvalueX hvalueY hallowsX hallowsY ht).mp hreach
  rw [pointOn_through hvalueX hvalueY, Plane.rise_through hne hx hy rfl rfl]
  dsimp only [pointAt]
  rw [clamp_of_allows hwithinX, clamp_of_allows hwithinY]
  rfl

variable (fit cost options) in
/-- The search along a ray. -/
theorem isRay (hup : 0 < up) (b : Bench σ Exact) :
    IsRay (r.minimize fit cost minimum ix iy ex ey options) minimum.fval (real up)
      (r.reach ex ey) b
      (searchRay (fun t => (Plane.through fit cost minimum ix iy ex ey options).rise
        ((Plane.through fit cost minimum ix iy ex ey options).pointOn ⟨real r.dx, real r.dy⟩ t))
        (real up) (r.reach ex ey) riseTrials .origin (Scalar.minNum (r.reach ex ey) 1) b) := by
  have hzero : (0 : Exact) = real 0 := by simp [Exact.ofNat_eq]
  have hone : (1 : Exact) = real 1 := by simp [Exact.ofNat_eq]
  have hroom := reach_nonneg hvalueX hvalueY hallowsX hallowsY
  have honward : real 0 ≤ real 1 := Exact.real_le_real.mpr zero_le_one
  have hfirst : real 0 ≤ Scalar.minNum (r.reach ex ey) (real 1) := Exact.le_minNum hroom honward
  obtain ⟨hfar, hnear⟩ := Exact.minNum_le hroom honward
  obtain ⟨t, ht⟩ := Exact.exists_real_of_mem hfirst hnear
  rw [ht, ← hzero] at hfirst
  rw [ht] at hfar
  rw [hone, ht]
  refine isRay_searchRay hup (fun t ht hreach => ?_) riseTrials _ t [] b .none
    (Fence.brackets_origin (hzero ▸ Exact.real_le_real.mpr le_rfl) (hzero ▸ hroom))
    ⟨⟨0, hzero⟩, nofun⟩ ⟨hfirst, hfar, nofun⟩ rfl
  exact rise_pointOn hne hx hy hvalueX hvalueY hallowsX hallowsY ht hreach

theorem traces_of_trace (hup : 0 < up) {b b' : Bench σ Exact} {found : Option (Exact × Exact)}
    (h : (Plane.through fit cost minimum ix iy ex ey options).trace ex ey (real up)
      ⟨real r.dx, real r.dy⟩ b = .ok found b') :
    r.Traces fit cost minimum ix iy ex ey options (real up) b found b' := by
  have hray := isRay fit cost options hne hx hy hvalueX hvalueY hallowsX hallowsY hup b
  obtain ⟨t, b₁, hsearch, h⟩ := bind_eq_ok.mp h
  cases h
  dsimp only [reach] at hray
  rw [hsearch] at hray
  obtain ⟨x, rfl, hends⟩ := hray
  refine ⟨x, ?_, hends⟩
  cases x with
  | none => rfl
  | some x => exact congrArg some (pointOn_through hvalueX hvalueY x)

theorem fails_of_trace (hup : 0 < up) {b b' : Bench σ Exact} {e : FitError Exact}
    (h : (Plane.through fit cost minimum ix iy ex ey options).trace ex ey (real up)
      ⟨real r.dx, real r.dy⟩ b = .error e b') :
    r.Fails fit cost minimum ix iy ex ey options (real up) b e b' := by
  have hray := isRay fit cost options hne hx hy hvalueX hvalueY hallowsX hallowsY hup b
  rcases bind_eq_error.mp h with hsearch | ⟨t, b₁, -, h⟩
  · dsimp only [reach] at hray
    rw [hsearch] at hray
    exact hray
  · cases h

omit hne hx hy in
theorem reaches_of_traces {b b' : Bench σ Exact} {point : Exact × Exact} {up : Exact}
    (h : r.Traces fit cost minimum ix iy ex ey options up b (some point) b') :
    r.Reaches ex ey point := by
  obtain ⟨t, hpoint, hends⟩ := h
  cases t with
  | none => cases hpoint
  | some t =>
    obtain ⟨hnonneg, hreach⟩ := hends.within
    exact ⟨t, hnonneg, hreach, Option.some.inj hpoint,
      (le_reach_iff hvalueX hvalueY hallowsX hallowsY hnonneg).mp hreach⟩

end ContourRay

/-- The unit of a ray along one parameter is a number. -/
theorem exists_unit {e : Entry Exact} {x : ℝ} (h : e.value = real x) (hup : 0 < up)
    (upOfMinimum : Exact) : ∃ s : ℝ,
    real s = parabolicError e * Scalar.sqrt (upRatio (real up) upOfMinimum) := by
  have herror : ∃ w : ℝ, parabolicError e = real w := by
    unfold parabolicError
    split_ifs with herror
    · simp only [Bool.and_eq_true] at herror
      exact Exact.exists_real_of_isFinite herror.1
    · rw [h, Exact.abs_real, Exact.ofNat_eq, Exact.maxNum_real, Exact.ofScientific_eq,
        Exact.real_mul_real]
      exact ⟨_, rfl⟩
  have hroot : ∃ q : ℝ, Scalar.sqrt (upRatio (real up) upOfMinimum) = real q := by
    unfold upRatio
    split_ifs with hpos
    · cases upOfMinimum with
      | real m =>
        have hm : 0 < m := by simpa [Exact.ofNat_eq] using hpos
        rw [Exact.real_div_real hm.ne', Exact.sqrt_real (div_nonneg hup.le hm.le)]
        exact ⟨_, rfl⟩
      | inf =>
        have hquotient : real up / Exact.inf = real 0 := rfl
        rw [hquotient, Exact.sqrt_real le_rfl]
        exact ⟨_, rfl⟩
      | negInf | nan => cases hpos
    · rw [Exact.ofNat_eq, Exact.sqrt_real (Nat.cast_nonneg 1)]
      exact ⟨_, rfl⟩
  obtain ⟨w, hw⟩ := herror
  obtain ⟨q, hq⟩ := hroot
  exact ⟨w * q, by rw [hw, hq, Exact.real_mul_real]⟩

/-- The rays at even angles. -/
theorem headings_real (x y sx sy : ℝ) (count : ℕ) : headings (real sx) (real sy) count =
    (List.range count).map fun k =>
      ⟨real (ContourRay.ofTurn x y sx sy count k).dx,
        real (ContourRay.ofTurn x y sx sy count k).dy⟩ := by
  refine List.map_congr_left fun k hk => ?_
  have hcount : (count : ℝ) ≠ 0 :=
    Nat.cast_ne_zero.mpr (Nat.ne_zero_of_lt (List.mem_range.mp hk))
  have hangle : (Scalar.tau * Scalar.ofCount k / Scalar.ofCount count : Exact) =
      real ((2 * k : ℕ) * Real.pi / count) := by
    have htau : (Scalar.tau : Exact) = real (2 * Real.pi) :=
      congrArg (· * real Real.pi) (Exact.ofNat_eq 2)
    rw [htau, Exact.ofCount_eq, Exact.ofCount_eq, Exact.real_mul_real, Exact.real_div_real hcount]
    push_cast
    rw [mul_right_comm]
  rw [hangle]
  rfl

/-- Once both parameters are there, each ray is searched in turn. -/
theorem contourPoints_eq (hne : ix ≠ iy) (hx : minimum.state.entry? ix = some ex)
    (hy : minimum.state.entry? iy = some ey) (count : ℕ) (start : Bench σ Exact) :
    contourPoints fit cost minimum ix iy count options start = (do
      let found ← (headings
        (parabolicError ex * Scalar.sqrt (upRatio start.up minimum.up))
        (parabolicError ey * Scalar.sqrt (upRatio start.up minimum.up)) count).mapM
          ((Plane.through fit cost minimum ix iy ex ey options).trace ex ey start.up)
      pure (found.filterMap id)) start := by
  unfold contourPoints
  rw [hx, hy]
  dsimp only
  rw [get_bind_apply, setFixed_withoutCovariance hx]
  simp only [Run.ofExcept, pure_bind]
  rw [setFixed_second hne hy]
  rfl

theorem contourPoints_of_none
    (h : minimum.state.entry? ix = none ∨ minimum.state.entry? iy = none) (count : ℕ)
    (start : Bench σ Exact) :
    contourPoints fit cost minimum ix iy count options start = .ok [] start := by
  unfold contourPoints
  rcases h with h | h
  · rw [h]
    rfl
  · rw [h]
    cases minimum.state.entry? ix <;> rfl

/-- How a contour line ends: with the points of its rays, one after the other, or at the first
minimization that fails. -/
def IsContour (ray : ℕ → ContourRay) (fit : Fit σ Exact) (cost : Cost Exact)
    (minimum : FunctionMinimum Exact) (ix iy : ℕ) (ex ey : Entry Exact)
    (options : EngineOptions Exact) (up : Exact) (count : ℕ) (start : Bench σ Exact) :
    EStateM.Result (FitError Exact) (Bench σ Exact) (List (Exact × Exact)) → Prop
  | .ok points b => ∃ found, points = found.filterMap id ∧
      InTurn (fun k => (ray k).Traces fit cost minimum ix iy ex ey options up) (List.range count)
        start found b
  | .error e b => ∃ k < count, ∃ found before,
      InTurn (fun k => (ray k).Traces fit cost minimum ix iy ex ey options up) (List.range k)
        start found before ∧
      (ray k).Fails fit cost minimum ix iy ex ey options up before e b

variable (fit cost options) in
theorem isContour_contourPoints {x y : ℝ} (hup : 0 < up) (hne : ix ≠ iy)
    (hx : minimum.state.entry? ix = some ex) (hy : minimum.state.entry? iy = some ey)
    (hvalueX : ex.value = real x) (hvalueY : ey.value = real y) (hallowsX : ex.Allows x)
    (hallowsY : ey.Allows y) {sx sy : ℝ} (count : ℕ) {start : Bench σ Exact}
    (hstart : start.up = real up)
    (hsx : real sx = parabolicError ex * Scalar.sqrt (upRatio start.up minimum.up))
    (hsy : real sy = parabolicError ey * Scalar.sqrt (upRatio start.up minimum.up)) :
    IsContour (ContourRay.ofTurn x y sx sy count) fit cost minimum ix iy ex ey options start.up
      count start (contourPoints fit cost minimum ix iy count options start) := by
  rw [contourPoints_eq hne hx hy, ← hsx, ← hsy, headings_real x y, List.mapM_map, hstart]
  have htraces (k : ℕ) (s : Bench σ Exact) (point : Option (Exact × Exact)) (t : Bench σ Exact)
      (h : (Plane.through fit cost minimum ix iy ex ey options).trace ex ey (real up)
        ⟨real (ContourRay.ofTurn x y sx sy count k).dx,
          real (ContourRay.ofTurn x y sx sy count k).dy⟩ s = .ok point t) :
      (ContourRay.ofTurn x y sx sy count k).Traces fit cost minimum ix iy ex ey options (real up)
        s point t :=
    ContourRay.traces_of_trace hne hx hy hvalueX hvalueY hallowsX hallowsY hup h
  rw [bind_apply]
  split
  case h_1 found b hfound =>
    exact ⟨found, rfl, inTurn_of_mapM (fun k _ => htraces k) hfound⟩
  case h_2 e b hfail =>
    obtain ⟨k, hk, found, before, hbefore, hfail⟩ := exists_of_mapM_range_eq_error htraces hfail
    exact ⟨k, hk, found, before, hbefore,
      ContourRay.fails_of_trace hne hx hy hvalueX hvalueY hallowsX hallowsY hup hfail⟩

/-- **Points of contour lines.** In exact arithmetic, whatever the minimizations give, a contour
line around a minimum with finite values within their limits has at most one point on each of
`count` rays at even angles, in their order. Each is a point of its ray within the limits of both
parameters, where a minimization was made with both parameters fixed there and all others as they
are at the minimum. Either the rise there is the amount, or it is below the amount and the ray leads
no further. Only a minimization that fails makes it fail. -/
theorem contourPoints_traced (fit : Fit σ Exact) (cost : Cost Exact)
    (minimum : FunctionMinimum Exact) (ix iy count : ℕ) (options : EngineOptions Exact)
    (start : Bench σ Exact) (hup : 0 < up) (hstart : start.up = real up) (hne : ix ≠ iy)
    (hvalues : ∀ e ∈ minimum.state.entries, ∃ x, e.value = real x ∧ e.Allows x) :
    (minimum.state.entry? ix = none ∨ minimum.state.entry? iy = none →
      contourPoints fit cost minimum ix iy count options start = .ok [] start) ∧
    ∀ ex ey, minimum.state.entry? ix = some ex → minimum.state.entry? iy = some ey →
      ∃ x y sx sy : ℝ, ex.value = real x ∧ ey.value = real y ∧
        real sx = parabolicError ex * Scalar.sqrt (upRatio start.up minimum.up) ∧
        real sy = parabolicError ey * Scalar.sqrt (upRatio start.up minimum.up) ∧
        IsContour (ContourRay.ofTurn x y sx sy count) fit cost minimum ix iy ex ey options start.up
          count start (contourPoints fit cost minimum ix iy count options start) ∧
        (∀ points b, contourPoints fit cost minimum ix iy count options start = .ok points b →
          points.length ≤ count ∧ ∀ point ∈ points, ∃ k < count,
            (ContourRay.ofTurn x y sx sy count k).Reaches ex ey point) ∧
        ∀ (k : ℕ) (t : ℝ), 0 ≤ t →
          (real t ≤ (ContourRay.ofTurn x y sx sy count k).reach ex ey ↔
            ex.Allows (x + t * (ContourRay.ofTurn x y sx sy count k).dx) ∧
            ey.Allows (y + t * (ContourRay.ofTurn x y sx sy count k).dy)) := by
  refine ⟨fun hnone => contourPoints_of_none hnone count start, fun ex ey hx hy => ?_⟩
  obtain ⟨x, hvalueX, hallowsX⟩ := hvalues ex (List.mem_of_getElem? hx)
  obtain ⟨y, hvalueY, hallowsY⟩ := hvalues ey (List.mem_of_getElem? hy)
  obtain ⟨sx, hsx⟩ := exists_unit hvalueX hup minimum.up
  obtain ⟨sy, hsy⟩ := exists_unit hvalueY hup minimum.up
  rw [← hstart] at hsx hsy
  have hcontour := isContour_contourPoints fit cost options hup hne hx hy hvalueX hvalueY hallowsX
    hallowsY count hstart hsx hsy
  refine ⟨x, y, sx, sy, hvalueX, hvalueY, hsx, hsy, hcontour, fun points b h => ?_, fun k t ht => ?_⟩
  · rw [h] at hcontour
    obtain ⟨found, rfl, hturn⟩ := hcontour
    refine ⟨(List.length_filterMap_le _ _).trans_eq (hturn.length_eq.trans List.length_range),
      fun point hpoint => ?_⟩
    obtain ⟨found', hmem, rfl⟩ := List.mem_filterMap.mp hpoint
    obtain ⟨k, hk, u, v, htraces⟩ := hturn.exists_of_mem hmem
    exact ⟨k, List.mem_range.mp hk,
      ContourRay.reaches_of_traces hvalueX hvalueY hallowsX hallowsY htraces⟩
  · exact ContourRay.le_reach_iff hvalueX hvalueY hallowsX hallowsY ht

/-- A minimum at the origin, where two parameters with unit errors have no limits. -/
noncomputable def minimumOfTwo : FunctionMinimum Exact :=
  { fval := real 0, edm := real 0, up := real 1, edmGoal := real 0, isValid := true,
    hasValidParameters := true, hasAccurateCovar := true, hasPosdefCovar := true,
    hasMadePosdefCovar := false, hesseFailed := false, hasCovariance := false,
    isAboveMaxEdm := false, hasReachedCallLimit := false, hasParametersAtLimit := false, nfcn := 0,
    ngrad := 0, state := ⟨[.free (real 0) (real 1), .free (real 0) (real 1)], none⟩ }

/-- Where nothing is free, a minimization is an evaluation. -/
noncomputable def evaluatingFit : Fit Unit Exact := fun cost state _ => do
  let x ← Run.ofExcept (cost.value state.values)
  pure { minimumOfTwo with fval := x }

/-- The contour line of the sum of squares. -/
theorem contourPoints_traced_squares :
    let squares : Cost Exact := .ofFunction fun xs => .ok (Scalar.dot xs xs)
    ∃ points b, contourPoints evaluatingFit squares minimumOfTwo 0 1 4 .default
        (.fresh (real 1) ()) = .ok points b ∧
      ∀ point ∈ points, ∃ k < 4, ∃ sx sy : ℝ, (ContourRay.ofTurn 0 0 sx sy 4 k).Reaches
        (.free (real 0) (real 1)) (.free (real 0) (real 1)) point := by
  intro squares
  have hvalues : ∀ e ∈ minimumOfTwo.state.entries, ∃ x, e.value = real x ∧ e.Allows x := by
    intro e he
    obtain rfl : e = .free (real 0) (real 1) := by simpa [minimumOfTwo] using he
    exact ⟨0, rfl, trivial, trivial⟩
  obtain ⟨x, y, sx, sy, hx, hy, -, -, hcontour, hpoints, -⟩ :=
    (contourPoints_traced evaluatingFit squares minimumOfTwo 0 1 4 .default (.fresh (real 1) ())
      zero_lt_one rfl zero_ne_one hvalues).2 _ _ rfl rfl
  obtain rfl := Exact.real.inj hx
  obtain rfl := Exact.real.inj hy
  cases hrun : contourPoints evaluatingFit squares minimumOfTwo 0 1 4 .default
      (.fresh (real 1) ()) with
  | ok points b =>
    refine ⟨points, b, rfl, fun point hpoint => ?_⟩
    obtain ⟨k, hk, hreaches⟩ := (hpoints points b hrun).2 point hpoint
    exact ⟨k, hk, sx, sy, hreaches⟩
  | error e b =>
    rw [hrun] at hcontour
    obtain ⟨k, -, found, before, -, hfails⟩ := hcontour
    cases hfails with
    | failed _ _ _ hfit => cases hfit

end Line

end FitSession
