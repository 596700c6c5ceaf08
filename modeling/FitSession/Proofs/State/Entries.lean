import FitSession.Proofs.Column
import FitSession.Proofs.Coordinates.Limits
import FitSession.Proofs.Session.Built
import FitSession.Proofs.Start

/-!
# Entries under writes

The fields of an entry are written one at a time and in any order: a limit is narrowed, a parameter
is pinned, released and moved. However they are mixed, the value stays within the bounds.

* `StateWrite`, `ParameterState.after`, `ParameterState.afterAll`: writes to a state as data;
* `StateWrite.Rewrites`, `StateWrite.exists_of_run`, `StateWrite.run_eq_ok_iff`: what a write makes
  of an entry, that it does nothing else, and when it is accepted;
* `Entry.IsInOrder`, `Limit.Moves`, `ParameterState.Takes`, `entries_in_order`: **entries are in
  order after all writes**, whichever were refused.
-/

namespace FitSession

variable {α : Type} [Scalar α]

/-! ## Writes as data -/

/-- A write to one field of one entry. A limit is given as callers write it; a pair of bounds is
one with nothing left open. -/
inductive StateWrite (α : Type)
  | value (index : Nat) (x : α)
  | error (index : Nat) (x : α)
  | fixed (index : Nat) (on : Bool)
  | limit (index : Nat) (spec : LimitSpec α)

namespace StateWrite

/-- The entry that is written. -/
def index : StateWrite α → Nat
  | value i _ | error i _ | fixed i _ | limit i _ => i

/-- The write, done to a state. -/
def run (s : ParameterState α) : StateWrite α → Except (FitError α) (ParameterState α)
  | value i x => s.setValue i x
  | error i x => s.setError i x
  | fixed i on => s.setFixed i on
  | limit i spec => do
    let l ← spec.toLimit
    s.setLimit i l

/-- What is written may be written. -/
def IsSound : StateWrite α → Prop
  | value _ x => Scalar.isFinite x = true
  | error _ x => Scalar.isFinite x = true ∧ ¬x < 0
  | fixed _ _ => True
  | limit _ spec => ∃ l, (spec.toLimit : Except (FitError α) (Limit α)) = .ok l

/-- What a write makes of the entry that it finds. -/
inductive Rewrites (e : Entry α) : StateWrite α → Entry α → Prop
  | value {i x} (hx : Scalar.isFinite x = true) :
    Rewrites e (.value i x) { e with value := e.limit.clamp x }
  | error {i x} (hx : Scalar.isFinite x = true) (hnonneg : ¬x < 0) :
    Rewrites e (.error i x) { e with error := x }
  | fixed {i on} : Rewrites e (.fixed i on) { e with fixed := on }
  | limit {i spec l} (hl : spec.toLimit = .ok l) :
    Rewrites e (.limit i spec)
      ⟨l.clamp e.value, e.error, e.fixed || l.isDegenerate, l.lower, l.upper⟩

end StateWrite

namespace ParameterState

/-- The state that a write leaves, whether it is accepted or refused. -/
def after (s : ParameterState α) (w : StateWrite α) : ParameterState α :=
  match w.run s with
  | .ok t => t
  | .error _ => s

/-- The state that a sequence of writes leaves. -/
def afterAll (s : ParameterState α) (ws : List (StateWrite α)) : ParameterState α :=
  ws.foldl after s

end ParameterState

/-! ## What a write does -/

variable {s t : ParameterState α} {w : StateWrite α}

/-- A write that is accepted rewrites the one entry that it is meant for. -/
theorem StateWrite.exists_of_run (h : w.run s = .ok t) :
    ∃ e e', s.entries[w.index]? = some e ∧ w.Rewrites e e' ∧
      t.entries = s.entries.set w.index e' := by
  cases w with
  | value i x =>
    obtain ⟨_, hx, h⟩ := except_bind_eq_ok.mp h
    obtain ⟨e, he, h⟩ := except_bind_eq_ok.mp h
    cases h
    exact ⟨e, _, ParameterState.entryOrFail_eq_ok.mp he, .value (checkValue_eq_ok.mp hx), rfl⟩
  | error i x =>
    obtain ⟨_, hx, h⟩ := except_bind_eq_ok.mp h
    obtain ⟨e, he, h⟩ := except_bind_eq_ok.mp h
    cases h
    obtain ⟨hfinite, hnonneg⟩ := checkError_eq_ok.mp hx
    exact ⟨e, _, ParameterState.entryOrFail_eq_ok.mp he, .error hfinite hnonneg, rfl⟩
  | fixed i on =>
    obtain ⟨e, he, h⟩ := except_bind_eq_ok.mp h
    cases h
    exact ⟨e, _, ParameterState.entryOrFail_eq_ok.mp he, .fixed,
      ParameterState.entries_replaceEntry ..⟩
  | limit i spec =>
    obtain ⟨l, hl, h⟩ := except_bind_eq_ok.mp h
    obtain ⟨e, he, h⟩ := except_bind_eq_ok.mp h
    cases h
    exact ⟨e, _, ParameterState.entryOrFail_eq_ok.mp he, .limit hl,
      ParameterState.entries_replaceEntry ..⟩

/-- A write is accepted where there is an entry and what is written may be. -/
theorem StateWrite.run_eq_ok_iff :
    (∃ t, w.run s = .ok t) ↔ w.index < s.len ∧ w.IsSound := by
  constructor
  · rintro ⟨t, h⟩
    obtain ⟨e, e', he, hw, -⟩ := w.exists_of_run h
    refine ⟨(List.getElem?_eq_some_iff.mp he).1, ?_⟩
    cases hw with
    | value hx => exact hx
    | error hx hnonneg => exact ⟨hx, hnonneg⟩
    | fixed => trivial
    | limit hl => exact ⟨_, hl⟩
  · rintro ⟨hi, hw⟩
    obtain ⟨e, he⟩ := s.entryOrFail_of_lt hi
    cases w with
    | value i x => exact ⟨_, except_bind_eq_ok.mpr ⟨(), checkValue_eq_ok.mpr hw,
        except_bind_eq_ok.mpr ⟨e, he, rfl⟩⟩⟩
    | error i x => exact ⟨_, except_bind_eq_ok.mpr ⟨(), checkError_eq_ok.mpr hw,
        except_bind_eq_ok.mpr ⟨e, he, rfl⟩⟩⟩
    | fixed i on => exact ⟨_, except_bind_eq_ok.mpr ⟨e, he, rfl⟩⟩
    | limit i spec =>
      obtain ⟨l, hl⟩ := hw
      exact ⟨_, except_bind_eq_ok.mpr ⟨l, hl, except_bind_eq_ok.mpr ⟨e, he, rfl⟩⟩⟩

theorem ParameterState.after_of_ok (h : w.run s = .ok t) : s.after w = t := by
  rw [after, h]

theorem ParameterState.after_of_error {error : FitError α} (h : w.run s = .error error) :
    s.after w = s := by
  rw [after, h]

theorem ParameterState.getElem?_after {j : Nat} {e' : Entry α}
    (h : (s.after w).entries[j]? = some e') :
    s.entries[j]? = some e' ∨ ∃ e, s.entries[j]? = some e ∧ w.index = j ∧ w.Rewrites e e' := by
  cases hrun : w.run s with
  | error error =>
    rw [after_of_error hrun] at h
    exact .inl h
  | ok t =>
    obtain ⟨e, e₁, he, hw, ht⟩ := w.exists_of_run hrun
    rw [after_of_ok hrun, ht] at h
    by_cases hj : w.index = j
    · subst hj
      rw [List.getElem?_set_self (List.getElem?_eq_some_iff.mp he).1] at h
      cases h
      exact .inr ⟨e, he, rfl, hw⟩
    · rw [List.getElem?_set_ne hj] at h
      exact .inl h

theorem ParameterState.getElem?_after_of_ne {j : Nat} (hj : j ≠ w.index) :
    (s.after w).entries[j]? = s.entries[j]? := by
  cases hrun : w.run s with
  | error error => rw [after_of_error hrun]
  | ok t =>
    obtain ⟨e, e', -, -, ht⟩ := w.exists_of_run hrun
    rw [after_of_ok hrun, ht, List.getElem?_set_ne hj.symm]

/-- A write to another parameter leaves a free parameter free. -/
theorem ParameterState.mem_freeIndices_of_run (h : w.run s = .ok t) {j : Nat}
    (hj : j ∈ s.freeIndices) (hne : j ≠ w.index) : j ∈ t.freeIndices := by
  rw [mem_freeIndices, flags, List.getElem?_map] at hj ⊢
  rw [← after_of_ok h, getElem?_after_of_ne hne]
  exact hj

theorem ParameterState.afterAll_concat (s : ParameterState α) (ws : List (StateWrite α))
    (w : StateWrite α) : s.afterAll (ws ++ [w]) = (s.afterAll ws).after w :=
  List.foldl_concat ..

theorem ParameterState.len_after (s : ParameterState α) (w : StateWrite α) :
    (s.after w).len = s.len := by
  cases hrun : w.run s with
  | error error => rw [after_of_error hrun]
  | ok t =>
    obtain ⟨e, e', -, -, ht⟩ := w.exists_of_run hrun
    rw [after_of_ok hrun, len, ht, List.length_set, len]

theorem ParameterState.len_afterAll (s : ParameterState α) (ws : List (StateWrite α)) :
    (s.afterAll ws).len = s.len := by
  induction ws using List.reverseRecOn with
  | nil => rfl
  | append_singleton ws w ih => rw [afterAll_concat, len_after, ih]

/-! ## Entries in order -/

/-- The value is within the bounds, both of which are numbers, the error is not negative, and finite
bounds that coincide fix the parameter. -/
structure Entry.IsInOrder (e : Entry Float) : Prop where
  lower : e.lower.isNaN = false
  upper : e.upper.isNaN = false
  value : e.limit.Holds e.value
  error : 0 ≤ e.error
  isFixed : e.lower.isFinite → e.upper.isFinite → (e.lower == e.upper) = true → e.isFixed = true

/-- The number `y` is where the limit moves `x` to: within it, and no further than needed. -/
structure Limit.Moves (l : Limit Float) (x y : Float) : Prop where
  holds : l.Holds y
  within : l.Holds x → y = x
  below : x < l.lower → y = l.lower
  above : l.upper < x → y = l.upper

theorem Limit.moves_clamp {l : Limit Float} (h : l.lower ≤ l.upper) (x : Float) :
    l.Moves x (l.clamp x) where
  holds := holds_clamp h x
  within := clamp_of_holds
  below hx := by
    have hnan : Scalar.isNaN x = false := (isNaN_of_lt hx).1
    have hmax : Scalar.maxNum x l.lower = l.lower := by
      rw [Scalar.maxNum, hnan, if_neg Bool.false_ne_true, if_pos hx]
    rw [clamp, hmax, minNum_of_le h]
  above hx := by
    have hnan : Scalar.isNaN x = false := (isNaN_of_lt hx).2
    rw [clamp, maxNum_of_le (float_le_trans h (float_le_of_lt hx)), Scalar.minNum, hnan,
      if_neg Bool.false_ne_true, if_pos hx]

theorem LimitSpec.le_of_toLimit {spec : LimitSpec Float} {l : Limit Float}
    (h : spec.toLimit = .ok l) : l.lower ≤ l.upper := by
  obtain ⟨hle, rfl⟩ := Limit.ofBounds_eq_ok.mp h
  exact hle

theorem Entry.isFixed_of_isDegenerate {e : Entry Float} (hlo : e.lower.isFinite)
    (heq : (e.lower == e.upper) = true) : e.isFixed = true := by
  have hdegenerate : e.limit.isDegenerate = true := Bool.and_eq_true_iff.mpr ⟨hlo, heq⟩
  rw [isFixed, hdegenerate, Bool.or_true]

theorem Entry.isInOrder_of_clamp {e : Entry Float} {x : Float} (hle : e.lower ≤ e.upper)
    (hvalue : e.value = e.limit.clamp x) (herror : 0 ≤ e.error) : e.IsInOrder where
  lower := (isNaN_of_le hle).1
  upper := (isNaN_of_le hle).2
  value := by
    rw [hvalue]
    exact e.limit.holds_clamp hle x
  error := herror
  isFixed hlo _ heq := isFixed_of_isDegenerate hlo heq

theorem nonneg_of_not_lt {x : Float} (hx : x.isFinite) (h : ¬x < 0) : 0 ≤ x :=
  (float_not_lt (isNaN_of_isFinite hx) rfl).mp h

theorem StateWrite.Rewrites.isInOrder {w : StateWrite Float} {e e' : Entry Float}
    (h : w.Rewrites e e') (he : e.IsInOrder) : e'.IsInOrder := by
  have hle : e.lower ≤ e.upper := float_le_trans he.value.lower he.value.upper
  cases h with
  | value hx => exact Entry.isInOrder_of_clamp hle rfl he.error
  | error hx hnonneg =>
    exact ⟨he.lower, he.upper, he.value, nonneg_of_not_lt hx hnonneg, he.isFixed⟩
  | fixed =>
    exact ⟨he.lower, he.upper, he.value, he.error,
      fun hlo _ heq => Entry.isFixed_of_isDegenerate hlo heq⟩
  | limit hl => exact Entry.isInOrder_of_clamp (LimitSpec.le_of_toLimit hl) rfl he.error

/-! ## Starts -/

/-- A step is a hundredth of a width, or relative to the value. -/
theorem startStep_cases (x : Float) (l : Limit Float) :
    (l.lower.isFinite ∧ l.upper.isFinite ∧ l.lower < l.upper ∧
        startStep x l = 0.01 * (l.upper - l.lower)) ∨
      (¬(l.lower.isFinite ∧ l.upper.isFinite ∧ l.lower < l.upper) ∧
        startStep x l = Scalar.maxNum (0.1 * Scalar.abs x) 0.1) := by
  unfold startStep Limit.lowerBound Limit.upperBound Limit.hasLower Limit.hasUpper
  by_cases hlo : Scalar.isFinite l.lower = true <;> by_cases hhi : Scalar.isFinite l.upper = true
  · rw [if_pos hlo, if_pos hhi]
    by_cases hlt : l.lower < l.upper
    · exact .inl ⟨hlo, hhi, hlt, if_pos hlt⟩
    · exact .inr ⟨fun h => hlt h.2.2, if_neg hlt⟩
  · rw [if_pos hlo, if_neg hhi]
    exact .inr ⟨fun h => hhi h.2.1, rfl⟩
  · rw [if_neg hlo, if_pos hhi]
    exact .inr ⟨fun h => hlo h.1, rfl⟩
  · rw [if_neg hlo, if_neg hhi]
    exact .inr ⟨fun h => hlo h.1, rfl⟩

/-- A step is not negative, not even where the width of the limit is too large for a number. -/
theorem startStep_nonneg (x : Float) {l : Limit Float} (hle : l.lower ≤ l.upper) :
    0 ≤ startStep x l := by
  rcases startStep_cases x l with ⟨hlo, hhi, -, heq⟩ | ⟨-, heq⟩
  · rw [heq]
    have hnan := isNaN_sub (isNaN_of_isFinite hhi) (isNaN_of_isFinite hlo) (.inl hhi)
    have hwidth := float_sub_nonneg hle hnan hlo
    by_cases hfinite : (l.upper - l.lower).isFinite
    · exact float_mul_nonneg (by decide +kernel) hwidth (isNaN_mul (by rfl) hfinite)
    · rw [float_eq_inf (by rfl) hwidth hfinite]
      decide +kernel
  · rw [heq]
    exact le_maxNum_right (by decide +kernel)

theorem StartSpec.Makes.isInOrder {spec : StartSpec Float} {name : String} {e : Entry Float}
    (h : spec.Makes name e) : e.IsInOrder := by
  have hle : e.lower ≤ e.upper := by
    change e.limit.lower ≤ e.limit.upper
    rcases h.limit with hl | ⟨given, -, hl⟩
    · rw [hl]
      decide +kernel
    · exact LimitSpec.le_of_toLimit hl
  obtain ⟨x, hvalue, -⟩ := h.value
  refine Entry.isInOrder_of_clamp hle hvalue ?_
  have herror := h.error
  split at herror
  · obtain ⟨heq, hfinite, hnonneg⟩ := herror
    exact heq ▸ nonneg_of_not_lt hfinite hnonneg
  · rw [herror]
    exact startStep_nonneg e.value hle

/-! ## All writes -/

/-- What a write does to a state. One that is refused leaves the state, and one that is accepted
leaves the other entries; a limit keeps the error and moves the value into itself. -/
structure ParameterState.Takes (s : ParameterState Float) (w : StateWrite Float) : Prop where
  accepted : (∃ t, w.run s = .ok t) ↔ w.index < s.len ∧ w.IsSound
  refused : (¬∃ t, w.run s = .ok t) → s.after w = s
  others : ∀ j, j ≠ w.index → (s.after w).entries[j]? = s.entries[j]?
  limit : ∀ {i spec l e}, w = .limit i spec → spec.toLimit = .ok l → s.entries[i]? = some e →
    ∃ e', (s.after w).entries[i]? = some e' ∧ e'.limit = l ∧ e'.error = e.error ∧
      l.Moves e.value e'.value

theorem ParameterState.takes (s : ParameterState Float) (w : StateWrite Float) : s.Takes w where
  accepted := StateWrite.run_eq_ok_iff
  refused h := by
    cases hrun : w.run s with
    | error error => exact after_of_error hrun
    | ok t => exact absurd ⟨t, hrun⟩ h
  others j := getElem?_after_of_ne
  limit {i spec l e} hw hl he := by
    subst hw
    have hi := (List.getElem?_eq_some_iff.mp he).1
    have hsound : (StateWrite.limit i spec).IsSound := ⟨l, hl⟩
    obtain ⟨t, hrun⟩ := (StateWrite.run_eq_ok_iff (s := s) (w := .limit i spec)).mpr ⟨hi, hsound⟩
    obtain ⟨e₀, e', he₀, hrewrites, ht⟩ := StateWrite.exists_of_run hrun
    obtain rfl : e₀ = e := Option.some.inj (he₀.symm.trans he)
    refine ⟨e', by rw [after_of_ok hrun, ht, StateWrite.index, List.getElem?_set_self hi], ?_⟩
    cases hrewrites with
    | limit hl' =>
      obtain rfl : _ = l := Except.ok.inj (hl'.symm.trans hl)
      exact ⟨rfl, rfl, Limit.moves_clamp (LimitSpec.le_of_toLimit hl) _⟩

variable {spec : StartSpec Float} {cost : Cost Float} {chain : NameChain Float}
  {start : Start Float}

/-- **Whatever is written to a start, and in whichever order, all entries are in order**, and the
next write does what is asked of it. -/
theorem entries_in_order (h : spec.build cost chain = .ok start) (ws : List (StateWrite Float)) :
    (∀ e ∈ (start.state.afterAll ws).entries, e.IsInOrder) ∧
      ∀ w, (start.state.afterAll ws).Takes w := by
  refine ⟨?_, ParameterState.takes _⟩
  -- by induction from the last write
  induction ws using List.reverseRecOn with
  | nil =>
    intro e he
    obtain ⟨i, hi⟩ := List.mem_iff_getElem?.mp he
    obtain ⟨name, -, hmakes⟩ := StartSpec.makes_of_build h hi
    exact hmakes.isInOrder
  | append_singleton ws w ih =>
    intro e' he'
    rw [ParameterState.afterAll_concat] at he'
    obtain ⟨j, hj⟩ := List.mem_iff_getElem?.mp he'
    rcases ParameterState.getElem?_after hj with hold | ⟨e, he, -, hw⟩
    · exact ih e' (List.mem_of_getElem? hold)
    · exact hw.isInOrder (ih e (List.mem_of_getElem? he))

/-- A parameter that is pinned and then released by its flag alone stays where it is, and fixed. -/
theorem entries_in_order_pinned :
    ∃ start, (oneParameter : SessionSpec Float).params.build sumOfSquares .standard = .ok start ∧
      ∃ e ∈ (start.state.afterAll
          [.limit 0 ⟨some 2, some 2⟩, .fixed 0 false, .value 0 7]).entries,
        e.value = 2 ∧ e.fixed = false ∧ e.isFixed = true ∧ e.IsInOrder := by
  obtain ⟨start, hbuild, hlast⟩ := exists_ok_of_any
    (x := oneParameter.params.build sumOfSquares .standard)
    (P := fun start => (start.state.afterAll
      [.limit 0 ⟨some 2, some 2⟩, .fixed 0 false, .value 0 7]).entries.any fun e =>
        e.value = 2 ∧ e.fixed = false ∧ e.isFixed = true) (by decide +kernel)
  obtain ⟨e, he, hlast⟩ := List.any_eq_true.mp hlast
  obtain ⟨hvalue, hreleased, hfixed⟩ := of_decide_eq_true hlast
  exact ⟨start, hbuild, e, he, hvalue, hreleased, hfixed, (entries_in_order hbuild _).1 e he⟩

end FitSession
