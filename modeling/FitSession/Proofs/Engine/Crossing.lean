import FitSession.Proofs.Bench
import FitSession.Proofs.Column
import FitSession.Proofs.Double.Arithmetic
import FitSession.Proofs.Engine.QuasiNewton
import FitSession.Proofs.Session.Built

/-!
# The search for a crossing

A search makes trials: minimizations with one parameter held at an offset. The rises that were
found bracket the next offset, from below by the last rise that stayed below the errordef and from
above by the last that did not.

* `lastBelow`, `lastAbove`, `MayTry`: where a trial may be made after others, the latest first;
* `Fence.Brackets`, `Fence.Admits`, `admits_next_of`: **every trial is within the bracket**;
* `Searched`: minimizations made one after the other, each from the state of its trial;
* `Crossing.IsFoundBy`: what the flags of a crossing say about the trials;
* `crossingAt_searches`: **a search for a crossing**, whatever the minimizations give.
-/

namespace FitSession

section

variable {α : Type} [Scalar α]

/-- The offset of the last trial that stayed below the amount; the minimum itself if there is
none. -/
def lastBelow (up : α) (trials : List (Post α)) : α :=
  ((trials.find? fun t => t.rise < up).map (·.distance)).getD 0

/-- The offset of the last trial that did not stay below the amount. -/
def lastAbove (up : α) (trials : List (Post α)) : Option α :=
  (trials.find? fun t => !decide (t.rise < up)).map (·.distance)

/-- Where a trial may be made after others: on the way to the bound, and once a rise has not stayed
below the amount, between the last trial that did and the last that did not. -/
structure MayTry (up room : α) (earlier : List (Post α)) (offset : α) : Prop where
  nonneg : 0 ≤ offset
  le_room : offset ≤ room
  between : ∀ hi, lastAbove up earlier = some hi → lastBelow up earlier ≤ offset ∧ offset ≤ hi

end

/-! ## The bracket -/

namespace Fence

section

variable {α : Type} [Scalar α]

/-- The fence is set at the last trials on both sides. -/
structure Brackets (up room : α) (trials : List (Post α)) (f : Fence α) : Prop where
  below : f.below.distance = lastBelow up trials
  above : f.above.map (·.distance) = lastAbove up trials
  nonneg : 0 ≤ f.below.distance
  le_room : f.below.distance ≤ room
  ordered : ∀ hi, f.above = some hi → f.below.distance ≤ hi.distance ∧ hi.distance ≤ room

/-- The offset is within the fence. -/
structure Admits (room : α) (f : Fence α) (offset : α) : Prop where
  le : f.below.distance ≤ offset
  le_room : offset ≤ room
  le_above : ∀ hi, f.above = some hi → offset ≤ hi.distance

variable {up room offset rise : α} {trials : List (Post α)} {f : Fence α}

theorem brackets_origin (hzero : (0 : α) ≤ 0) (h : 0 ≤ room) :
    (origin : Fence α).Brackets up room [] where
  below := rfl
  above := rfl
  nonneg := hzero
  le_room := h
  ordered hi h := by cases h

/-- Without a trial that has risen, the fence is at the last one. -/
theorem below_of_above_eq_none (h : (f.place up offset rise).above = none) :
    (f.place up offset rise).below.distance = offset := by
  unfold Fence.place at h ⊢
  split_ifs at h ⊢
  rfl

variable [IsTrans α (· ≤ ·)]

theorem Admits.mayTry (h : f.Admits room offset) (hf : f.Brackets up room trials) :
    MayTry up room trials offset where
  nonneg := IsTrans.trans _ _ _ hf.nonneg h.le
  le_room := h.le_room
  between hi hhi := by
    rw [← hf.above] at hhi
    obtain ⟨post, hpost, rfl⟩ := Option.map_eq_some_iff.mp hhi
    exact ⟨hf.below ▸ h.le, h.le_above post hpost⟩

/-- One more trial moves the fence to it. -/
theorem Brackets.place (hf : f.Brackets up room trials) (h : f.Admits room offset) :
    (f.place up offset rise).Brackets up room (⟨offset, rise⟩ :: trials) := by
  unfold Fence.place
  split_ifs with hbelow
  · exact
      { below := by simp [lastBelow, hbelow]
        above := by simpa [lastAbove, hbelow] using hf.above
        nonneg := IsTrans.trans _ _ _ hf.nonneg h.le
        le_room := h.le_room
        ordered := fun hi hhi => ⟨h.le_above hi hhi, (hf.ordered hi hhi).2⟩ }
  · exact
      { below := by simpa [lastBelow, hbelow] using hf.below
        above := by simp [lastAbove, hbelow]
        nonneg := hf.nonneg
        le_room := hf.le_room
        ordered := by
          rintro hi ⟨⟩
          exact ⟨h.le, h.le_room⟩ }

/-- **The next trial is within the fence**, if a trial between two posts is between them and one
beyond the last is not beyond the bound. -/
theorem admits_next_of (hf : f.Brackets up room trials) (h : f.Admits room offset)
    (hbetween : ∀ hi, (f.place up offset rise).above = some hi →
      0 ≤ (f.place up offset rise).below.distance →
      (f.place up offset rise).below.distance ≤ hi.distance →
      (f.place up offset rise).below.distance ≤ between up (f.place up offset rise).below hi ∧
        between up (f.place up offset rise).below hi ≤ hi.distance)
    (hbeyond : offset ≤ beyond up room offset rise ∧ beyond up room offset rise ≤ room) :
    (f.place up offset rise).Admits room ((f.place up offset rise).next up room offset rise) := by
  have hplace : (f.place up offset rise).Brackets up room (⟨offset, rise⟩ :: trials) :=
    hf.place h
  cases habove : (f.place up offset rise).above with
  | some hi =>
    have hnext : (f.place up offset rise).next up room offset rise =
        between up (f.place up offset rise).below hi := by
      rw [next, habove]
    obtain ⟨hordered, hroom⟩ := hplace.ordered hi habove
    obtain ⟨hlo, hhi⟩ := hbetween hi habove hplace.nonneg hordered
    rw [hnext]
    refine ⟨hlo, IsTrans.trans _ _ _ hhi hroom, fun hi' h' => ?_⟩
    obtain rfl : hi = hi' := Option.some.inj (habove.symm.trans h')
    exact hhi
  | none =>
    have hnext : (f.place up offset rise).next up room offset rise =
        beyond up room offset rise := by
      rw [next, habove]
    rw [hnext]
    refine ⟨?_, hbeyond.2, fun hi hhi => ?_⟩
    · rw [below_of_above_eq_none habove]
      exact hbeyond.1
    · rw [habove] at hhi
      cases hhi

end

instance : IsTrans Float (· ≤ ·) := ⟨fun _ _ _ => float_le_trans⟩

variable {up room offset rise : Float} {trials : List (Post Float)} {f : Fence Float}

/-- A trial beyond one that stayed below is at least as far, and not beyond the bound. -/
theorem le_beyond (hnonneg : 0 ≤ offset) (hroom : offset ≤ room) :
    offset ≤ beyond up room offset rise ∧ beyond up room offset rise ≤ room := by
  unfold beyond
  dsimp only
  refine ⟨le_minNum (fun h => float_le_mul_of_one_le hnonneg ?_ h) hroom,
    minNum_le (isNaN_of_le hroom).2⟩
  have hgrow := (isNaN_of_mul h).2
  split_ifs at hgrow ⊢
  · exact float_le_trans (by decide +kernel) (le_clampTo (by decide +kernel) hgrow)
  · decide +kernel

/-- A trial between two posts is between them, unless their sum is too large. -/
theorem between_mem {lo hi : Post Float} (hlo : 0 ≤ lo.distance) (h : lo.distance ≤ hi.distance)
    (hfinite : (between up lo hi).isFinite) :
    lo.distance ≤ between up lo hi ∧ between up lo hi ≤ hi.distance := by
  unfold between at hfinite ⊢
  dsimp only at hfinite ⊢
  split_ifs at hfinite ⊢ with hguess
  · simp only [Bool.and_eq_true, decide_eq_true_eq] at hguess
    exact ⟨float_le_of_lt hguess.1.2, float_le_of_lt hguess.2⟩
  · exact float_half_add_mem hlo h (isFinite_of_mul hfinite).2

/-- The next trial is within the fence, unless it is too large. -/
theorem admits_next (hf : f.Brackets up room trials) (h : f.Admits room offset)
    (hfinite : ((f.place up offset rise).next up room offset rise).isFinite) :
    (f.place up offset rise).Admits room ((f.place up offset rise).next up room offset rise) := by
  refine admits_next_of hf h (fun hi habove hnonneg hordered => ?_)
    (le_beyond (float_le_trans hf.nonneg h.le) h.le_room)
  rw [next, habove] at hfinite
  exact between_mem hnonneg hordered hfinite

end Fence

/-! ## Trials -/

section Trials

variable {σ α : Type} [Scalar α]

/-- A state with parameter `index` fixed at an offset from where it was, within its limit. -/
def ParameterState.heldAt (s : ParameterState α) (index : Nat) (e : Entry α) (sign offset : α) :
    ParameterState α :=
  ⟨s.entries.set index
    { e with fixed := true, value := e.limit.clamp (e.value + sign * offset) }, none⟩

/-- The distance from the value of an entry to its bound on one side. -/
def Entry.roomTowards (e : Entry α) (sign : α) : α :=
  Scalar.abs (e.boundTowards sign - e.value)

/-- Trials one after the other, the latest first. Each is a minimization from the state at the
minimum with parameter `index` held at an offset that the trials before it allow. -/
inductive Searched (fit : Fit σ α) (cost : Cost α) (minimum : FunctionMinimum α) (index : Nat)
    (e : Entry α) (sign : α) (options : EngineOptions α) (up : α) (start : Bench σ α) :
    List (Post α) → Bench σ α → Prop
  | none : Searched fit cost minimum index e sign options up start [] start
  | trial {trials b offset found after} :
    Searched fit cost minimum index e sign options up start trials b →
    MayTry up (e.roomTowards sign) trials offset →
    fit cost (minimum.state.heldAt index e sign offset) options.inner b = .ok found after →
    Searched fit cost minimum index e sign options up start
      (⟨offset, found.fval - minimum.fval⟩ :: trials) after

/-- What a crossing says about the trials, the latest first, that found it. At most one of its flags
is set. A valid crossing is at the last trial, and the rise there is the amount; one at the limit is
at the bound, where the last trial stayed below the amount; one with a new minimum has a last trial
that fell; and one that was stopped has used up what it may use, as far as this is counted. -/
structure Crossing.IsFoundBy (up room newMinTolerance : α) (used callLimit : Nat)
    (trials : List (Post α)) (c : Crossing α) : Prop where
  single : [c.valid, c.atLimit, c.atMaxFcn, c.newMin].count true ≤ 1
  valid : c.valid → ∃ rise, trials.head? = some ⟨c.offset, rise⟩ ∧
    Scalar.abs (rise - up) ≤ riseTolerance * up
  atLimit : c.atLimit → c.offset = room ∧
    ∃ t, trials.head? = some t ∧ t.distance ≤ room ∧ room ≤ t.distance ∧ t.rise < up
  newMin : c.newMin → ∃ t, trials.head? = some t ∧ t.rise < -newMinTolerance
  atMaxFcn : c.atMaxFcn → callLimit ≤ used

/-- How a search ends. It makes at most 40 trials. One that fails does so because the next offset
is too large for a value, or by the minimization at it. -/
def IsSearch (fit : Fit σ α) (cost : Cost α) (minimum : FunctionMinimum α) (index : Nat)
    (e : Entry α) (sign : α) (options : EngineOptions α) (callLimit : Nat) (start : Bench σ α) :
    EStateM.Result (FitError α) (Bench σ α) (Crossing α) → Prop
  | .ok c b => ∃ trials,
    Searched fit cost minimum index e sign options start.up start trials b ∧
      trials.length ≤ 40 ∧
      c.IsFoundBy start.up (e.roomTowards sign)
        (Scalar.maxNum (riseTolerance * start.up) (2 * minimum.edm))
        (callsSince start.nfcn b.nfcn) callLimit trials
  | .error err b => ∃ trials before,
    Searched fit cost minimum index e sign options start.up start trials before ∧
      trials.length < 40 ∧
      ((b = before ∧ ∃ value, err = .invalidValue index value .valueNotFinite) ∨
        ∃ offset, MayTry start.up (e.roomTowards sign) trials offset ∧
          fit cost (minimum.state.heldAt index e sign offset) options.inner before = .error err b)

namespace Crossing

variable {up room newMinTolerance : α} {used callLimit : Nat} {trials : List (Post α)}

theorem isFoundBy_invalid (offset : α) :
    (Crossing.invalid offset).IsFoundBy up room newMinTolerance used callLimit trials :=
  ⟨Nat.zero_le 1, nofun, nofun, nofun, nofun⟩

theorem isFoundBy_atMaxFcn (offset : α) (h : callLimit ≤ used) :
    { Crossing.invalid offset with atMaxFcn := true }.IsFoundBy up room newMinTolerance used
      callLimit trials :=
  ⟨Nat.le_refl 1, nofun, nofun, nofun, fun _ => h⟩

theorem isFoundBy_newMin (offset : α) {t : Post α} (h : t.rise < -newMinTolerance) :
    { Crossing.invalid offset with newMin := true }.IsFoundBy up room newMinTolerance used
      callLimit (t :: trials) :=
  ⟨Nat.le_refl 1, nofun, nofun, fun _ => ⟨t, rfl, h⟩, nofun⟩

theorem isFoundBy_valid {t : Post α} (h : isRise up t.rise) :
    { Crossing.invalid t.distance with valid := true }.IsFoundBy up room newMinTolerance used
      callLimit (t :: trials) :=
  ⟨Nat.le_refl 1, fun _ => ⟨t.rise, rfl, of_decide_eq_true h⟩, nofun, nofun, nofun⟩

theorem isFoundBy_atLimit {t : Post α} (h : t.rise < up && isAtRoom room t.distance)
    (hroom : t.distance ≤ room) :
    { Crossing.invalid room with atLimit := true }.IsFoundBy up room newMinTolerance used
      callLimit (t :: trials) := by
  simp only [isAtRoom, Bool.and_eq_true, decide_eq_true_eq] at h
  exact ⟨Nat.le_refl 1, nofun, fun _ => ⟨rfl, t, rfl, hroom, h.2.2, h.1⟩, nofun, nofun⟩

end Crossing

variable {fit : Fit σ α} {cost : Cost α} {minimum : FunctionMinimum α} {index : Nat} {e : Entry α}
  {sign : α} {options : EngineOptions α}

/-- The state at the minimum with parameter `index` fixed. -/
theorem setFixed_withoutCovariance {s : ParameterState α} (h : s.entry? index = some e) :
    (s.withCovariance none).setFixed index true =
      .ok ⟨s.entries.set index { e with fixed := true }, none⟩ := by
  have hentry : (s.withCovariance none).entryOrFail index = .ok e :=
    ParameterState.entryOrFail_eq_ok.mpr h
  unfold ParameterState.setFixed
  rw [hentry]
  change Except.ok (ParameterState.replaceEntry _ _ _ _) = _
  unfold ParameterState.replaceEntry
  dsimp only [ParameterState.withCovariance]
  split_ifs <;> rfl

/-- The profile through a minimum along one parameter. -/
def Profile.through (fit : Fit σ α) (cost : Cost α) (minimum : FunctionMinimum α) (index : Nat)
    (e : Entry α) (sign : α) (options : EngineOptions α) : Profile σ α :=
  ⟨fit, cost, options.inner, ⟨minimum.state.entries.set index { e with fixed := true }, none⟩,
    minimum.fval, index, e.value, sign⟩

theorem setValue_pinned {s : ParameterState α} (h : s.entry? index = some e) (offset : α) :
    (⟨s.entries.set index { e with fixed := true }, none⟩ : ParameterState α).setValue index
        (e.value + sign * offset) =
      if Scalar.isFinite (e.value + sign * offset) then .ok (s.heldAt index e sign offset)
      else .error (.invalidValue index (e.value + sign * offset) .valueNotFinite) := by
  have hlt : index < s.entries.length := (List.getElem?_eq_some_iff.mp h).1
  have hentry : (⟨s.entries.set index { e with fixed := true }, none⟩ :
      ParameterState α).entryOrFail index = .ok { e with fixed := true } :=
    ParameterState.entryOrFail_eq_ok.mpr (by simp [hlt])
  unfold ParameterState.setValue checkValue
  split_ifs with hfinite
  · rw [hentry]
    change Except.ok (ParameterState.mk _ _) = _
    rw [List.set_set]
    rfl
  · rfl

/-- A rise comes from the minimization at its offset. -/
theorem rise_through_eq_ok (h : minimum.state.entry? index = some e) {offset r : α}
    {b b' : Bench σ α}
    (hr : (Profile.through fit cost minimum index e sign options).rise offset b = .ok r b') :
    Scalar.isFinite (e.value + sign * offset) ∧
      ∃ found, fit cost (minimum.state.heldAt index e sign offset) options.inner b = .ok found b' ∧
        r = found.fval - minimum.fval := by
  obtain ⟨state, b₁, hstate, hr⟩ := bind_eq_ok.mp hr
  obtain ⟨found, b₂, hfit, hr⟩ := bind_eq_ok.mp hr
  cases hr
  dsimp only [Profile.through] at hstate hfit
  rw [setValue_pinned h] at hstate
  split_ifs at hstate with hfinite
  · cases hstate
    exact ⟨hfinite, found, hfit, rfl⟩
  · cases hstate

/-- Without a rise, the offset is too large for a value, or the minimization failed. -/
theorem rise_through_eq_error (h : minimum.state.entry? index = some e) {offset : α}
    {err : FitError α} {b b' : Bench σ α}
    (hr : (Profile.through fit cost minimum index e sign options).rise offset b = .error err b') :
    (b' = b ∧ ∃ value, err = .invalidValue index value .valueNotFinite) ∨
      Scalar.isFinite (e.value + sign * offset) ∧
        fit cost (minimum.state.heldAt index e sign offset) options.inner b = .error err b' := by
  rcases bind_eq_error.mp hr with hr | ⟨state, b₁, hstate, hr⟩
  · dsimp only [Profile.through] at hr
    rw [setValue_pinned h] at hr
    split_ifs at hr with hfinite
    · cases hr
    · cases hr
      exact .inl ⟨rfl, _, rfl⟩
  · dsimp only [Profile.through] at hstate
    rw [setValue_pinned h] at hstate
    split_ifs at hstate with hfinite
    · cases hstate
      rcases bind_eq_error.mp hr with hr | ⟨found, b₂, -, hr⟩
      · exact .inr ⟨hfinite, hr⟩
      · cases hr
    · cases hstate

/-- Once the parameter is there, the search runs along its profile. -/
theorem crossingAt_eq (h : minimum.state.entry? index = some e) (callLimit : Nat)
    (start : Bench σ α) :
    crossingAt fit cost minimum index sign options callLimit start =
      searchCrossing (Profile.through fit cost minimum index e sign options).rise
        ⟨start.up, e.roomTowards sign,
          Scalar.maxNum (riseTolerance * start.up) (2 * minimum.edm), start.nfcn, callLimit⟩
        riseTrials .origin
        (Scalar.minNum (parabolicError e * Scalar.sqrt (upRatio start.up minimum.up))
          (e.roomTowards sign)) start := by
  unfold crossingAt
  rw [get_bind_apply, h, setFixed_withoutCovariance h]
  simp only [Run.ofExcept, pure_bind]
  rfl

end Trials

/-! ## The search -/

section Search

variable {σ : Type} {fit : Fit σ Float} {cost : Cost Float} {minimum : FunctionMinimum Float}
  {index : Nat} {e : Entry Float} {sign : Float} {options : EngineOptions Float}
  {start : Bench σ Float} {callLimit : Nat}

/-- The trials that are left end in a search, if those before them have. -/
theorem searchCrossing_isSearch (h : minimum.state.entry? index = some e) :
    ∀ fuel fence offset trials b,
      Searched fit cost minimum index e sign options start.up start trials b →
      fence.Brackets start.up (e.roomTowards sign) trials →
      (offset.isFinite → fence.Admits (e.roomTowards sign) offset) →
      trials.length + fuel = 40 →
      IsSearch fit cost minimum index e sign options callLimit start
        (searchCrossing (Profile.through fit cost minimum index e sign options).rise
          ⟨start.up, e.roomTowards sign,
            Scalar.maxNum (riseTolerance * start.up) (2 * minimum.edm), start.nfcn, callLimit⟩
          fuel fence offset b)
  | 0, fence, offset, trials, b, hsearched, hfence, hadmits, hlength => by
    exact ⟨trials, hsearched, by omega, Crossing.isFoundBy_invalid offset⟩
  | fuel + 1, fence, offset, trials, b, hsearched, hfence, hadmits, hlength => by
    rw [searchCrossing, bind_apply]
    cases hrise : (Profile.through fit cost minimum index e sign options).rise offset b with
    | error err b' =>
      refine ⟨trials, b, hsearched, by omega, ?_⟩
      rcases rise_through_eq_error h hrise with hvalue | ⟨hfinite, hfit⟩
      · exact .inl hvalue
      · have hoffset := (isFinite_of_mul (isFinite_of_add hfinite).2).2
        exact .inr ⟨offset, (hadmits hoffset).mayTry hfence, hfit⟩
    | ok r b' =>
      obtain ⟨hfinite, found, hfit, rfl⟩ := rise_through_eq_ok h hrise
      have hadmits := hadmits (isFinite_of_mul (isFinite_of_add hfinite).2).2
      have hsearched := hsearched.trial (hadmits.mayTry hfence) hfit
      have hlength' : (⟨offset, found.fval - minimum.fval⟩ :: trials : List (Post Float)).length ≤
          40 := by
        rw [List.length_cons]
        omega
      generalize found.fval - minimum.fval = r at hsearched hlength' ⊢
      dsimp only
      rw [get_bind_apply]
      split_ifs with hlimit hfall hrisen hroom hclosed
      · exact ⟨_, hsearched, hlength', Crossing.isFoundBy_atMaxFcn offset hlimit⟩
      · exact ⟨_, hsearched, hlength', Crossing.isFoundBy_newMin offset hfall⟩
      · exact ⟨_, hsearched, hlength', Crossing.isFoundBy_valid hrisen⟩
      · exact ⟨_, hsearched, hlength', Crossing.isFoundBy_atLimit hroom hadmits.le_room⟩
      · exact ⟨_, hsearched, hlength', Crossing.isFoundBy_invalid _⟩
      · exact searchCrossing_isSearch h fuel _ _ _ b' hsearched (hfence.place hadmits)
          (fun hnext => Fence.admits_next hfence hadmits hnext) (by rw [List.length_cons]; omega)

theorem nonneg_parabolicError (h : (parabolicError e).isNaN = false) : 0 ≤ parabolicError e := by
  unfold parabolicError at h ⊢
  split_ifs at h ⊢ with herror
  · simp only [Bool.and_eq_true, decide_eq_true_eq] at herror
    exact float_le_of_lt herror.2
  · exact float_mul_nonneg (by decide +kernel) (le_maxNum_right (by decide +kernel)) h

/-- A search for a crossing along a parameter whose value is finite and within its limit. -/
theorem crossingAt_isSearch (h : minimum.state.entry? index = some e)
    (hfinite : e.value.isFinite) (hlower : e.lower ≤ e.value) (hupper : e.value ≤ e.upper) :
    IsSearch fit cost minimum index e sign options callLimit start
      (crossingAt fit cost minimum index sign options callLimit start) := by
  have hbound : (e.boundTowards sign).isNaN = false := by
    unfold Entry.boundTowards
    split_ifs
    · exact (isNaN_of_le hupper).2
    · exact (isNaN_of_le hlower).1
  have hroom : 0 ≤ e.roomTowards sign :=
    float_abs_nonneg (isNaN_sub hbound (isNaN_of_isFinite hfinite) (.inr hfinite))
  rw [crossingAt_eq h]
  refine searchCrossing_isSearch h riseTrials _ _ [] start .none
    (Fence.brackets_origin (float_le_refl (by rfl)) hroom)
    (fun _ => ⟨?_, minNum_le (isNaN_of_le hroom).2, nofun⟩) rfl
  refine le_minNum (fun hnumber => ?_) hroom
  obtain ⟨herror, hroot⟩ := isNaN_of_mul hnumber
  exact float_mul_nonneg (nonneg_parabolicError herror)
    (float_sqrt_nonneg (nonneg_of_sqrt hroot)) hnumber

/-- The second bench has counted no fewer evaluations than the first. -/
def Bench.CountsOn {σ α : Type} (b b' : Bench σ α) : Prop := b.nfcn ≤ b'.nfcn

instance {σ α : Type} : Chains (Bench.CountsOn : Bench σ α → Bench σ α → Prop) where
  refl b := Nat.le_refl b.nfcn
  trans h h' := Nat.le_trans h h'

theorem callsSince_of_le {before now : Nat} (h : before ≤ now) :
    callsSince before now = now - before := if_pos h

/-- With minimizations that never set the count back, what is counted was used. -/
theorem IsSearch.used {c : Crossing Float} {b : Bench σ Float}
    (hsearch : IsSearch fit cost minimum index e sign options callLimit start (.ok c b))
    (hcount : start.CountsOn b) (h : c.atMaxFcn = true) : start.nfcn + callLimit ≤ b.nfcn := by
  obtain ⟨trials, -, -, hfound⟩ := hsearch
  have hlimit := hfound.atMaxFcn h
  rw [callsSince_of_le hcount] at hlimit
  have hle : start.nfcn ≤ b.nfcn := hcount
  omega

/-- **A search for a crossing.** Whatever the minimizations give, NaN included, the search for a
crossing from a minimum with finite values within their limits makes at most 40 trials, each a
minimization from the state at the minimum with the parameter held where the trials before allow,
and its flags say what was found. What it may use is compared with what is counted, so that it has
been used once the search says so, unless a minimization sets the count back. Without the parameter
there is nothing to search. -/
theorem crossingAt_searches (fit : Fit σ Float) (cost : Cost Float)
    (minimum : FunctionMinimum Float) (index : Nat) (sign : Float) (options : EngineOptions Float)
    (callLimit : Nat) (start : Bench σ Float)
    (hvalues : ∀ e ∈ minimum.state.entries,
      e.value.isFinite ∧ e.lower ≤ e.value ∧ e.value ≤ e.upper) :
    (∀ e, minimum.state.entry? index = some e →
      IsSearch fit cost minimum index e sign options callLimit start
        (crossingAt fit cost minimum index sign options callLimit start)) ∧
      ((∀ cost state o, Keeps Bench.CountsOn (fit cost state o)) → ∀ c b,
        crossingAt fit cost minimum index sign options callLimit start = .ok c b →
          c.atMaxFcn = true → start.nfcn + callLimit ≤ b.nfcn) ∧
      (minimum.state.entry? index = none →
        crossingAt fit cost minimum index sign options callLimit start =
          .ok (.invalid 0) start) := by
  have hsearch : ∀ e, minimum.state.entry? index = some e →
      IsSearch fit cost minimum index e sign options callLimit start
        (crossingAt fit cost minimum index sign options callLimit start) := fun e h => by
    obtain ⟨hfinite, hlower, hupper⟩ := hvalues e (List.mem_of_getElem? h)
    exact crossingAt_isSearch h hfinite hlower hupper
  have hnone (h : minimum.state.entry? index = none) :
      crossingAt fit cost minimum index sign options callLimit start =
        .ok (.invalid 0) start := by
    unfold crossingAt
    rw [get_bind_apply, h]
    rfl
  refine ⟨hsearch, fun hfit c b hrun hlimit => ?_, hnone⟩
  cases h : minimum.state.entry? index with
  | none =>
    rw [hnone h] at hrun
    cases hrun
    cases hlimit
  | some e =>
    have hcount := (keeps_crossingAt hfit cost minimum index sign options callLimit).of_ok hrun
    exact (hrun ▸ hsearch e h).used hcount hlimit

/-- The minimum of the sum of squares with one parameter. -/
def minimumAtZero : FunctionMinimum Float :=
  { fval := 0, edm := 0, up := 1, edmGoal := 0.0002, isValid := true, hasValidParameters := true,
    hasAccurateCovar := true, hasPosdefCovar := true, hasMadePosdefCovar := false,
    hesseFailed := false, hasCovariance := true, isAboveMaxEdm := false,
    hasReachedCallLimit := false, hasParametersAtLimit := false, nfcn := 0, ngrad := 0,
    state := ⟨[.free 0 1], some ⟨[[1]]⟩⟩ }

/-- The search above that minimum. -/
def crossingAboveZero (callLimit : Nat) :
    EStateM.Result (FitError Float) (Bench Unit Float) (Crossing Float) :=
  crossingAt (quasiNewtonFit SolverOptions.solvers .standard) sumOfSquares minimumAtZero 0 1
    .default callLimit (.fresh 1 ())

/-- The sum of squares rises by 1 at a distance of 1, where the search finds it. With a single
evaluation that it may use, it says after the first trial that this has been used. -/
theorem crossingAt_searches_minimumAtZero :
    (∃ c b, crossingAboveZero 100 = .ok c b ∧ (c.valid && c.offset == 1) = true) ∧
      IsSearch (quasiNewtonFit SolverOptions.solvers .standard) sumOfSquares minimumAtZero 0
        (.free 0 1) 1 .default 100 (.fresh 1 ()) (crossingAboveZero 100) ∧
      ∃ c b, crossingAboveZero 1 = .ok c b ∧ c.atMaxFcn = true ∧ 1 ≤ b.nfcn := by
  have hvalues : ∀ e ∈ minimumAtZero.state.entries,
      e.value.isFinite ∧ e.lower ≤ e.value ∧ e.value ≤ e.upper := by decide +kernel
  have hfound := exists_ok_of_answer (r := crossingAboveZero 100)
    (P := fun c : Crossing Float => c.valid && c.offset == 1) (by decide +kernel)
  refine ⟨hfound, (crossingAt_searches _ _ _ _ _ _ _ _ hvalues).1 _ rfl, ?_⟩
  obtain ⟨c, b, hrun, hlimit⟩ := exists_ok_of_answer (r := crossingAboveZero 1)
    (P := Crossing.atMaxFcn) (by decide +kernel)
  have hused := (crossingAt_searches _ _ _ _ _ _ 1 _ hvalues).2.1
    (fun cost state o b => (onward_quasiNewtonFit cost state o b).nfcn) c b hrun hlimit
  rw [show (Bench.fresh 1 () : Bench Unit Float).nfcn = 0 from rfl, Nat.zero_add] at hused
  exact ⟨c, b, hrun, hlimit, hused⟩

end Search

end FitSession
