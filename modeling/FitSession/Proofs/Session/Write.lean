import FitSession.Proofs.Session.Command

/-!
# Writes through the views of a session

A write through a view does to the session what it does to a state of one's own: the session ends
with that state as its current one, and with everything else as it was.

* `currentState_replaceState`: a state that is put in place is the current one;
* `Mirrors`, `ViewWrite.mirrors_run`: **a write to a session follows the write to its state**;
* `ViewWrite.run_eq_ok`: when a write succeeds, and what it leaves.
-/

namespace FitSession

variable {σ α β Item Input : Type}

/-! ## Another current state -/

namespace Session

variable (s : Session σ α) (st : ParameterState α)

@[simp] theorem currentState_replaceState : (s.replaceState st).currentState = st := by
  unfold replaceState
  split <;> simp_all [currentState]

@[simp] theorem replaceState_replaceState (st' : ParameterState α) :
    (s.replaceState st).replaceState st' = s.replaceState st' := by
  unfold replaceState
  cases s.slot <;> cases s.frozen <;> rfl

@[simp] theorem fmin_replaceState : (s.replaceState st).fmin = s.fmin := by
  unfold replaceState
  split <;> rfl

@[simp] theorem merrors_replaceState : (s.replaceState st).merrors = s.merrors := by
  unfold replaceState
  split <;> rfl

@[simp] theorem registry_replaceState : (s.replaceState st).registry = s.registry := by
  unfold replaceState
  split <;> rfl

@[simp] theorem engine_replaceState : (s.replaceState st).engine = s.engine := by
  unfold replaceState
  split <;> rfl

@[simp] theorem cost_replaceState : (s.replaceState st).cost = s.cost := by
  unfold replaceState
  split <;> rfl

@[simp] theorem bench_replaceState : (s.replaceState st).bench = s.bench := by
  unfold replaceState
  split <;> rfl

@[simp] theorem warnings_replaceState : (s.replaceState st).warnings = s.warnings := by
  unfold replaceState
  split <;> rfl

@[simp] theorem errordefSettled_replaceState :
    (s.replaceState st).errordefSettled = s.errordefSettled := by
  unfold replaceState
  split <;> rfl

@[simp] theorem tol_replaceState : (s.replaceState st).tol = s.tol := by
  unfold replaceState
  split <;> rfl

@[simp] theorem frozen_replaceState : (s.replaceState st).frozen = s.frozen := by
  unfold replaceState
  split <;> rfl

/-- Once a minimum has been found, the initial state stays. -/
theorem startState_replaceState (h : s.frozen = true) :
    (s.replaceState st).startState = s.startState := by
  unfold replaceState
  rw [h]
  cases s.slot <;> rfl

/-- The initial state stays, or the new state takes its place. -/
theorem startState_replaceState_cases :
    (s.replaceState st).startState = s.startState ∨ (s.replaceState st).startState = st := by
  unfold replaceState
  split <;> simp

/-- Putting the current state where it may be written changes nothing but the slot. -/
theorem opened_eq : s.opened = { s with slot := s.opened.slot } := by
  obtain ⟨_, _, _, _, slot, _, _, _, _, _, _, _, frozen, _⟩ := s
  cases slot <;> cases frozen <;> rfl

theorem slot_replaceState_ne_minimum : (s.replaceState st).slot ≠ .minimum := by
  unfold replaceState
  split <;> simp_all

end Session

/-! ## Writes -/

theorem ofExcept_bind_ok {x : Except (FitError α) Item} {b : Item} {f : Item → Action σ α β}
    {s : Session σ α} (h : x = .ok b) : (Action.ofExcept x >>= f) s = f b s := by
  rw [h]
  rfl

theorem ofExcept_bind_error {x : Except (FitError α) Item} {e : FitError α}
    {f : Item → Action σ α β} {s : Session σ α} (h : x = .error e) :
    (Action.ofExcept x >>= f) s = .error e s := by
  rw [h]
  rfl

/-- How a write ends in a session that has the given answer for its state: with the written state
in place, or refused. A refused write leaves the session as it was; if an entry was missing, its
current state has been put apart before. -/
inductive Mirrors (s : Session σ α) :
    Except (FitError α) (ParameterState α) → EStateM.Result (FitError α) (Session σ α) Unit → Prop
  | written (t : ParameterState α) : Mirrors s (.ok t) (.ok () (s.replaceState t))
  | refused (e : FitError α) : Mirrors s (.error e) (.error e s)
  | missing (e : FitError α) (h : s.currentState.len < s.registry.len) :
    Mirrors s (.error e) (.error e s.opened)

section

variable {c : Column α Item Input} {s : Session σ α}

/-- An item that is written into a session with a state in place. -/
theorem writeItem_replaceState (st : ParameterState α) (i : Nat) (item : Item) :
    Session.writeItem c i item (s.replaceState st) =
      match c.write st i item with
      | .ok t => .ok () (s.replaceState t)
      | .error e => .error e (s.replaceState st) := by
  change (Action.ofExcept (c.write (s.replaceState st).currentState i item) >>= _) _ = _
  rw [Session.currentState_replaceState]
  cases h : c.write st i item with
  | error e => rfl
  | ok t =>
    rw [ofExcept_bind_ok rfl]
    exact congrArg (EStateM.Result.ok ()) (Session.replaceState_replaceState s st t)

/-- Items that can all be written into a state can all be written into a session with that state
in place. -/
theorem forM_writeItem {items : List (Nat × Item)} {st t : ParameterState α}
    (h : c.writeAll st items = .ok t) :
    (items.forM fun (i, item) => Session.writeItem c i item : Action σ α PUnit)
      (s.replaceState st) = .ok () (s.replaceState t) := by
  induction items generalizing st with
  | nil =>
    cases h
    rfl
  | cons r items ih =>
    obtain ⟨u, hu, h⟩ := except_bind_eq_ok.mp h
    change (Session.writeItem c r.1 r.2 >>= fun _ =>
      items.forM fun (i, item) => Session.writeItem c i item) (s.replaceState st) = _
    rw [bind_apply, writeItem_replaceState, show c.write st r.1 r.2 = .ok u from hu]
    exact ih h

variable [Scalar α]

theorem mirrors_setItem (hc : c.IsLawful) (key : Key) (input : Input) :
    Mirrors s ((Write.item key input).onState c s.registry s.currentState)
      (Session.setItem c key input s) := by
  simp only [Write.onState]
  change Mirrors s _ ((Action.ofExcept (key.resolve s.registry) >>= _) s)
  cases hk : (key.resolve s.registry : Except (FitError α) Nat) with
  | error e =>
    rw [except_bind_error rfl, ofExcept_bind_error rfl]
    exact .refused e
  | ok i =>
    rw [ofExcept_bind_ok rfl, except_bind_ok rfl]
    cases hp : c.prepare i input with
    | error e =>
      rw [except_bind_error rfl, ofExcept_bind_error rfl]
      exact .refused e
    | ok item =>
      rw [ofExcept_bind_ok rfl, except_bind_ok rfl]
      change Mirrors s _ (Session.writeItem c i item s.opened)
      rw [Session.opened, writeItem_replaceState]
      cases hw : c.write s.currentState i item with
      | ok t => exact .written t
      | error e =>
        refine .missing e (Nat.lt_of_le_of_lt ?_ (Key.lt_of_resolve hk))
        refine Nat.le_of_not_lt fun hi => ?_
        obtain ⟨t, ht⟩ := hc.write_ok hp s.currentState hi
        rw [hw] at ht
        cases ht

theorem mirrors_setSlice (hc : c.IsLawful) (walk : Slice) (assign : Assign Input) :
    Mirrors s ((Write.slice walk assign).onState c s.registry s.currentState)
      (Session.setSlice c walk assign s) := by
  simp only [Write.onState]
  change Mirrors s _
    ((Action.ofExcept (assign.inputsFor (walk.indices s.currentState.len)) >>= _) s)
  cases hr : (assign.inputsFor (walk.indices s.currentState.len) :
      Except (FitError α) (List (Nat × Input))) with
  | error e =>
    rw [except_bind_error rfl, ofExcept_bind_error rfl]
    exact .refused e
  | ok requests =>
    rw [ofExcept_bind_ok rfl, except_bind_ok rfl]
    cases hp : c.prepareAll requests with
    | error e =>
      rw [except_bind_error rfl, ofExcept_bind_error rfl]
      exact .refused e
    | ok items =>
      rw [ofExcept_bind_ok rfl, except_bind_ok rfl]
      obtain ⟨t, ht⟩ := hc.writeAll_ok (s := s.currentState) fun r hmem =>
        have ⟨x, _, hx⟩ := Column.of_prepareAll hp r hmem
        ⟨Column.lt_of_prepareAll hr hp r hmem, x, hx⟩
      rw [ht]
      change Mirrors s _
        ((items.forM fun (i, item) => Session.writeItem c i item : Action σ α PUnit) s.opened)
      rw [Session.opened, forM_writeItem ht]
      exact .written t

theorem Write.mirrors_run (hc : c.IsLawful) (w : Write Input) (s : Session σ α) :
    Mirrors s (w.onState c s.registry s.currentState) (w.run c s) := by
  cases w with
  | item key input => exact mirrors_setItem hc key input
  | slice walk assign => exact mirrors_setSlice hc walk assign

/-- **A write to a session follows the write to its state.** -/
theorem ViewWrite.mirrors_run (w : ViewWrite α) (s : Session σ α) :
    Mirrors s (w.onState s.registry s.currentState) (w.run s) := by
  cases w with
  | values w => exact w.mirrors_run valueColumn_isLawful s
  | errors w => exact w.mirrors_run errorColumn_isLawful s
  | fixed w => exact w.mirrors_run fixedColumn_isLawful s
  | limits w => exact w.mirrors_run limitColumn_isLawful s

/-- A write succeeds when it does on the current state, and puts what comes of it in place. -/
theorem ViewWrite.run_eq_ok {w : ViewWrite α} {s s' : Session σ α} :
    w.run s = .ok () s' ↔
      ∃ st, w.onState s.registry s.currentState = .ok st ∧ s' = s.replaceState st := by
  have h := w.mirrors_run s
  generalize w.onState s.registry s.currentState = answer at h ⊢
  generalize w.run s = result at h ⊢
  cases h <;> simp [eq_comm]

end

end FitSession
