import FitSession.Proofs.State.Entries

/-!
# Numbers that are not finite

A value or an error is checked when it is written, but both change in other ways. A limit of two
equal infinities is accepted, and moves the value to infinity; the error that stands in for one that
is not given is a hundredth of a width, which may be too large for a number.

* `Limit.LeavesNumber`, `Limit.HasWidth`: limits that do neither;
* `Limit.isFinite_clamp`, `isFinite_startStep_iff`: what is finite, and when;
* `finite_iff`: **values and errors stay finite exactly under such limits**;
* `not_finite_at_extreme_limits`: a start and a write that are accepted although they do not.
-/

namespace FitSession

/-! ## Limits -/

/-- There is a number within the limit. -/
def Limit.LeavesNumber (l : Limit Float) : Prop := ∃ x : Float, x.isFinite ∧ l.Holds x

/-- Between two bounds, the distance is not too large for a number. -/
def Limit.HasWidth (l : Limit Float) : Prop :=
  l.lower.isFinite → l.upper.isFinite → (l.upper - l.lower).isFinite

section

variable {l : Limit Float} {x : Float}

theorem Limit.LeavesNumber.le (h : l.LeavesNumber) : l.lower ≤ l.upper :=
  have ⟨_, _, hy⟩ := h
  float_le_trans hy.lower hy.upper

/-- A limit that leaves a number moves numbers to numbers. -/
theorem Limit.isFinite_clamp (hl : l.LeavesNumber) (hx : x.isFinite) : (l.clamp x).isFinite := by
  obtain ⟨y, hy, hholds⟩ := hl
  have hmoves := moves_clamp (float_le_trans hholds.lower hholds.upper) x
  have hnan := isNaN_of_isFinite hx
  by_cases hbelow : x < l.lower
  · rw [hmoves.below hbelow]
    exact isFinite_of_between hx hy (float_le_of_lt hbelow) hholds.lower
  by_cases habove : l.upper < x
  · rw [hmoves.above habove]
    exact isFinite_of_between hy hx hholds.upper (float_le_of_lt habove)
  · have hlower := (float_not_lt hnan (isNaN_of_le hholds.lower).1).mp hbelow
    have hupper := (float_not_lt (isNaN_of_le hholds.upper).2 hnan).mp habove
    rwa [hmoves.within ⟨hlower, hupper⟩]

/-- The middle of two bounds may be too large for a number, but then it is moved to a bound. -/
theorem isFinite_clamp_startValue (hl : l.LeavesNumber) : (l.clamp (startValue l)).isFinite := by
  by_cases hlo : Scalar.isFinite l.lower = true <;> by_cases hhi : Scalar.isFinite l.upper = true
  · have hholds := Limit.holds_clamp hl.le (startValue l)
    exact isFinite_of_between hlo hhi hholds.lower hholds.upper
  all_goals
    refine Limit.isFinite_clamp hl ?_
    unfold startValue Limit.lowerBound Limit.upperBound Limit.hasLower Limit.hasUpper
  · rw [if_pos hlo, if_neg hhi]
    exact hlo
  · rw [if_neg hlo, if_pos hhi]
    exact hhi
  · rw [if_neg hlo, if_neg hhi]
    rfl

/-- A step is finite exactly if it is not a part of a width that is too large. -/
theorem isFinite_startStep_iff (hx : x.isFinite) (hle : l.lower ≤ l.upper) :
    (startStep x l).isFinite ↔ l.HasWidth := by
  rcases startStep_cases x l with ⟨hlo, hhi, -, heq⟩ | ⟨hopen, heq⟩
  · rw [heq]
    refine ⟨fun h _ _ => (isFinite_of_mul h).2, fun h => ?_⟩
    have hwidth := h hlo hhi
    have hpart := float_part_mem (y := 0.01) (by decide +kernel) (by decide +kernel)
      (float_sub_nonneg hle (isNaN_of_isFinite hwidth) hlo) hwidth
    exact isFinite_of_between rfl hwidth hpart.1 hpart.2
  · rw [heq]
    refine ⟨fun _ hlo hhi => isFinite_sub_of_eq hlo hle ?_, fun _ => ?_⟩
    · refine (float_not_lt (isNaN_of_le hle).1 (isNaN_of_le hle).2).mp fun hlt => ?_
      exact hopen ⟨hlo, hhi, hlt⟩
    · have habs := isFinite_abs hx
      have hpart := float_part_mem (y := 0.1) (by decide +kernel) (by decide +kernel)
        (float_abs_nonneg (isNaN_of_isFinite hx)) habs
      exact isFinite_maxNum (isFinite_of_between rfl habs hpart.1 hpart.2) (by rfl)

end

/-! ## Entries -/

/-- The value and the error are numbers. -/
structure Entry.IsFinite (e : Entry Float) : Prop where
  value : e.value.isFinite
  error : e.error.isFinite

theorem Entry.IsInOrder.leavesNumber {e : Entry Float} (h : e.IsInOrder) (hfinite : e.IsFinite) :
    e.limit.LeavesNumber := ⟨e.value, hfinite.value, h.value⟩

theorem StateWrite.Rewrites.isFinite {w : StateWrite Float} {e e' : Entry Float}
    (h : w.Rewrites e e') (horder : e.IsInOrder) (he : e.IsFinite)
    (hw : ∀ {i spec l}, w = .limit i spec → spec.toLimit = .ok l → l.LeavesNumber) :
    e'.IsFinite := by
  cases h with
  | value hx => exact ⟨Limit.isFinite_clamp (horder.leavesNumber he) hx, he.error⟩
  | error hx => exact ⟨he.value, hx⟩
  | fixed => exact ⟨he.value, he.error⟩
  | limit hl => exact ⟨Limit.isFinite_clamp (hw rfl hl) he.value, he.error⟩

/-- A start is finite where its limits leave a number, and have a width if a step is made of it. -/
theorem StartSpec.Makes.isFinite_iff {spec : StartSpec Float} {name : String} {e : Entry Float}
    (h : spec.Makes name e) :
    e.IsFinite ↔
      e.limit.LeavesNumber ∧ (lastKeyed spec.errors name = none → e.limit.HasWidth) := by
  have horder := h.isInOrder
  have hle : e.limit.lower ≤ e.limit.upper := float_le_trans horder.value.lower horder.value.upper
  have herror := h.error
  constructor
  · intro hfinite
    refine ⟨horder.leavesNumber hfinite, fun hnone => ?_⟩
    rw [hnone] at herror
    exact (isFinite_startStep_iff hfinite.value hle).mp (herror ▸ hfinite.error)
  · rintro ⟨hnumber, hwidth⟩
    obtain ⟨x, hclamp, hx⟩ := h.value
    have hvalue : e.value.isFinite := by
      rw [hclamp]
      rcases hx with hx | rfl
      · exact Limit.isFinite_clamp hnumber hx
      · exact isFinite_clamp_startValue hnumber
    refine ⟨hvalue, ?_⟩
    split at herror
    · exact herror.1 ▸ herror.2.1
    · next hnone =>
      rw [herror]
      exact (isFinite_startStep_iff hvalue hle).mpr (hwidth hnone)

/-! ## All writes -/

variable {spec : StartSpec Float} {cost : Cost Float} {chain : NameChain Float}
  {start : Start Float}

/-- The limits that are in place, and those that are written later, leave numbers; and where a step
is made of a width, there is one. -/
structure LimitsLeaveNumbers (spec : StartSpec Float) (start : Start Float)
    (ws : List (StateWrite Float)) : Prop where
  initial : ∀ {i : Nat} {name : String} {e : Entry Float}, start.registry.names[i]? = some name →
    start.state.entries[i]? = some e →
      e.limit.LeavesNumber ∧ (lastKeyed spec.errors name = none → e.limit.HasWidth)
  written : ∀ {i given l}, .limit i given ∈ ws → i < start.state.len → given.toLimit = .ok l →
    l.LeavesNumber

/-- **Values and errors are finite at all times exactly if the limits are such as leave them
so.** -/
theorem finite_iff (h : spec.build cost chain = .ok start) (ws : List (StateWrite Float)) :
    (∀ pre, pre <+: ws → ∀ e ∈ (start.state.afterAll pre).entries, e.IsFinite) ↔
      LimitsLeaveNumbers spec start ws := by
  constructor
  · intro hfinite
    constructor
    · intro i name e hname he
      obtain ⟨name', hname', hmakes⟩ := StartSpec.makes_of_build h he
      obtain rfl : name' = name := Option.some.inj (hname'.symm.trans hname)
      exact hmakes.isFinite_iff.mp (hfinite [] List.nil_prefix e (List.mem_of_getElem? he))
    · intro i given l hw hi hl
      obtain ⟨pre, post, rfl⟩ := List.append_of_mem hw
      have hprefix : pre ++ [.limit i given] <+: pre ++ .limit i given :: post := ⟨post, by simp⟩
      have hi : i < (start.state.afterAll pre).len := by rwa [ParameterState.len_afterAll]
      obtain ⟨e', he', rfl, -, hmoves⟩ :=
        ((entries_in_order h pre).2 (.limit i given)).limit rfl hl (List.getElem?_eq_getElem hi)
      have hfinite := hfinite _ hprefix e' (by
        rw [ParameterState.afterAll_concat]
        exact List.mem_of_getElem? he')
      exact ⟨e'.value, hfinite.value, hmoves.holds⟩
  · intro hlimits pre hpre
    -- by induction from the last write, whose entry was in order before it
    induction pre using List.reverseRecOn with
    | nil =>
      intro e he
      obtain ⟨i, hi⟩ := List.mem_iff_getElem?.mp he
      obtain ⟨name, hname, hmakes⟩ := StartSpec.makes_of_build h hi
      exact hmakes.isFinite_iff.mpr (hlimits.initial hname hi)
    | append_singleton pre w ih =>
      have ih := ih ((List.prefix_append pre [w]).trans hpre)
      intro e' he'
      rw [ParameterState.afterAll_concat] at he'
      obtain ⟨j, hj⟩ := List.mem_iff_getElem?.mp he'
      rcases ParameterState.getElem?_after hj with hold | ⟨e, he, hindex, hw⟩
      · exact ih e' (List.mem_of_getElem? hold)
      · have hmem := List.mem_of_getElem? he
        have hlen := (List.getElem?_eq_some_iff.mp he).1
        refine hw.isFinite ((entries_in_order h pre).1 e hmem) (ih e hmem) ?_
        rintro i given l rfl hl
        obtain rfl : i = j := hindex
        refine hlimits.written (hpre.subset (List.mem_append_right pre List.mem_cons_self)) ?_ hl
        rwa [← start.state.len_afterAll pre]

/-- One parameter `x` that starts at 1, between two bounds. -/
def oneParameterBetween (lower upper : Float) : StartSpec Float :=
  { (oneParameter : SessionSpec Float).params with limits := [("x", ⟨some lower, some upper⟩)] }

/-- Between 0 and 2, and later above 3, all is finite. -/
theorem finite_iff_oneParameter :
    ∃ start, (oneParameterBetween 0 2).build sumOfSquares .standard = .ok start ∧
      ∀ pre, pre <+: [.limit 0 ⟨some 3, none⟩, .value 0 1] →
        ∀ e ∈ (start.state.afterAll pre).entries, e.IsFinite := by
  obtain ⟨start, hbuild, hbounds⟩ := exists_ok_of_any
    (x := (oneParameterBetween 0 2).build sumOfSquares .standard)
    (P := fun start => start.state.entries.all fun e => e.limit.lower = 0 ∧ e.limit.upper = 2)
    (by decide +kernel)
  refine ⟨start, hbuild, (finite_iff hbuild _).mpr ⟨fun {i name e} _ he => ?_, ?_⟩⟩
  · have hbounds := List.all_eq_true.mp hbounds e (List.mem_of_getElem? he)
    obtain ⟨hlower, hupper⟩ := of_decide_eq_true hbounds
    refine ⟨⟨1, rfl, ?_, ?_⟩, fun _ _ _ => ?_⟩
    · rw [hlower]
      decide +kernel
    · rw [hupper]
      decide +kernel
    · rw [hlower, hupper]
      decide +kernel
  · intro i given l hw _ hl
    obtain ⟨rfl, rfl⟩ : i = 0 ∧ given = ⟨some 3, none⟩ := by simpa using hw
    obtain ⟨-, rfl⟩ := Limit.ofBounds_eq_ok.mp hl
    exact ⟨4, rfl, by decide +kernel, by decide +kernel⟩

/-- A start between bounds that are far apart is accepted, and its error is infinite; a limit of two
infinities is accepted, and its value is infinite. -/
theorem not_finite_at_extreme_limits :
    (∃ start, (oneParameterBetween (-1e308) 1e308).build sumOfSquares .standard = .ok start ∧
      ∃ e ∈ start.state.entries, e.error.isFinite = false) ∧
    ∃ start, (oneParameterBetween 0 2).build sumOfSquares .standard = .ok start ∧
      ∃ t, (StateWrite.limit 0 ⟨some Scalar.inf, some Scalar.inf⟩).run start.state = .ok t ∧
        ∃ e ∈ t.entries, e.value.isFinite = false := by
  constructor
  · obtain ⟨start, hbuild, h⟩ := exists_ok_of_any
      (x := (oneParameterBetween (-1e308) 1e308).build sumOfSquares .standard)
      (P := fun start => start.state.entries.any fun e => e.error.isFinite = false)
      (by decide +kernel)
    obtain ⟨e, he, hinfinite⟩ := List.any_eq_true.mp h
    exact ⟨start, hbuild, e, he, of_decide_eq_true hinfinite⟩
  · obtain ⟨start, hbuild, h⟩ := exists_ok_of_any
      (x := (oneParameterBetween 0 2).build sumOfSquares .standard)
      (P := fun start => ((StateWrite.limit 0 ⟨some Scalar.inf, some Scalar.inf⟩).run
        start.state).toOption.any fun t => t.entries.any fun e => e.value.isFinite = false)
      (by decide +kernel)
    obtain ⟨t, hrun, h⟩ := exists_ok_of_any h
    obtain ⟨e, he, hinfinite⟩ := List.any_eq_true.mp h
    exact ⟨start, hbuild, t, hrun, e, he, of_decide_eq_true hinfinite⟩

end FitSession
