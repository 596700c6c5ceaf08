import FitSession.Proofs.Session.Frozen
import FitSession.Proofs.Session.Hesse
import FitSession.Proofs.Session.States

/-!
# Edits before the first minimum

As long as no minimum has been found, writes are meant for the initial state, so that a reset keeps
them. They reach it while the current state lives there. A covariance puts the current state apart,
and what is written then is lost in the next reset.

* `Session.NeverFits`: runs in which no minimization succeeds;
* `Session.partedAfter`, `Session.partedAfterAll`: whether a covariance was computed since the last
  reset;
* `Session.Unfitted`, `Unfitted.after`, `Unfitted.afterAll`: **where such a run leaves the current
  state**;
* `edits_before_first_minimum`: **which writes configure the initial state**;
* `edit_lost_after_hesse`: one that does not.
-/

namespace FitSession

variable {σ α : Type} [Scalar α]

/-! ## Runs without a minimum -/

namespace Session

/-- Whether a command finds a minimum. -/
def fits (s : Session σ α) : Command α → Bool
  | .migrad o => succeeded (migrad o s)
  | _ => false

/-- No minimization of the run succeeds. -/
def NeverFits (s : Session σ α) : List (Command α) → Prop
  | [] => True
  | c :: cs => s.fits c = false ∧ (s.after c).NeverFits cs

/-- Whether a covariance has been computed since the last reset, after a command as well. -/
def partedAfter (s : Session σ α) (parted : Bool) : Command α → Bool
  | .hesse callLimit => parted || succeeded (hesse callLimit s)
  | .reset => false
  | _ => parted

/-- Whether a covariance has been computed since the last reset, after a whole run as well. -/
def partedAfterAll (s : Session σ α) (parted : Bool) : List (Command α) → Bool
  | [] => parted
  | c :: cs => (s.after c).partedAfterAll (s.partedAfter parted c) cs

/-- The session has found no minimum yet, and its initial state is `start`. So is its current state,
unless it has been parted from the initial one. -/
structure Unfitted (start : ParameterState α) (parted : Bool) (s : Session σ α) : Prop where
  start : s.startState = start
  fmin : s.fmin = none
  frozen : s.frozen = false
  slot : s.slot = .initial ↔ parted = false

variable {s t : Session σ α} {start : ParameterState α} {parted : Bool}

namespace Unfitted

omit [Scalar α] in
/-- With all states where they were, nothing is parted. -/
theorem of_sameStates (hs : s.Unfitted start parted) (h : SameStates s t) :
    t.Unfitted start parted := by
  refine ⟨h.start.trans hs.start, ?_, h.frozen.trans hs.frozen, by rw [h.slot, hs.slot]⟩
  have hfmin := h.fmin
  rw [hs.fmin] at hfmin
  generalize t.fmin = fmin at hfmin ⊢
  cases hfmin
  rfl

/-- Without a minimum, the covariance is that of the current state alone. -/
theorem hesse (hs : s.Unfitted start parted) (callLimit : Option Nat) :
    (endState (Session.hesse callLimit s)).Unfitted start
      (parted || succeeded (Session.hesse callLimit s)) := by
  cases h : Session.hesse callLimit s with
  | error e t =>
    have hapart : s.isAtMinimum = false := by simp [isAtMinimum, hs.fmin]
    rw [hesse_of_not_isAtMinimum hapart] at h
    have haside : Aside s.engine (Bench.SameUpIf False) s.reported t :=
      failsAside_hesseAtState nofun callLimit _ _ _ h
    have hreported : SameResults s s.reported := rfl
    simpa [succeeded] using
      hs.of_sameStates (hreported.sameStates.trans (haside rfl).results.sameStates)
  | ok _ t =>
    cases hesseEnds_of_eq_ok h with
    | refined hat hm =>
      rw [hs.fmin] at hm
      cases hm
    | apart => exact ⟨hs.start, hs.fmin, hs.frozen, by simp [succeeded]⟩
    | kept _ _ hfmin =>
      rw [hs.fmin] at hfmin
      cases hfmin

/-- **A command that finds no minimum**, other than a write, leaves the initial state, and leaves
the current state where it lives; but a covariance puts it apart, and a reset brings it back. -/
theorem after (hs : s.Unfitted start parted) {c : Command α} (hw : ∀ w, c ≠ .write w)
    (hc : s.fits c = false) : (s.after c).Unfitted start (s.partedAfter parted c) := by
  have hleft (h : c.touchesStates = false) : (s.after c).Unfitted start parted :=
    hs.of_sameStates (sameStates_after s h)
  cases c with
  | write w => exact absurd rfl (hw w)
  | migrad o =>
    obtain ⟨e, t, h⟩ := exists_error_of_not_succeeded hc
    change (endState (Session.migrad o s)).Unfitted start parted
    rw [show Session.migrad o s = .error e t from h]
    exact hs.of_sameStates (sameStates_of_migrad_error h)
  | hesse callLimit => exact hs.hesse callLimit
  | reset => exact ⟨hs.start, rfl, hs.frozen, iff_of_true rfl rfl⟩
  | _ => exact hleft rfl

omit [Scalar α] in
/-- A state that is put in place becomes the initial one, unless the current state is parted. -/
theorem replaceState (hs : s.Unfitted start parted) (st : ParameterState α) :
    (s.replaceState st).Unfitted (if parted then start else st) parted := by
  have hfmin : (s.replaceState st).fmin = none := by simpa using hs.fmin
  have hfrozen : (s.replaceState st).frozen = false := by simpa using hs.frozen
  have hslot := hs.slot
  refine ⟨?_, hfmin, hfrozen, ?_⟩ <;> unfold Session.replaceState <;> rw [hs.frozen]
  · cases parted <;> cases h : s.slot <;> simp_all [hs.start]
  · cases h : s.slot <;> simp_all

theorem after_write (hs : s.Unfitted start parted) (w : ViewWrite α) :
    ∃ start', (s.after (.write w)).Unfitted start' parted := by
  change ∃ start', (endState (w.run s)).Unfitted start' parted
  have h := w.mirrors_run s
  generalize w.onState s.registry s.currentState = answer at h
  generalize w.run s = result at h
  cases h with
  | written st => exact ⟨_, hs.replaceState st⟩
  | refused e => exact ⟨_, hs⟩
  | missing e _ => exact ⟨_, hs.replaceState _⟩

/-- Whatever is written, the current state is parted after a run if a covariance was computed since
the last reset. -/
theorem afterAll {cs : List (Command α)} (hs : s.Unfitted start parted) (hcs : s.NeverFits cs) :
    ∃ start', (s.afterAll cs).Unfitted start' (s.partedAfterAll parted cs) := by
  induction cs generalizing s start parted with
  | nil => exact ⟨start, hs⟩
  | cons c cs ih =>
    by_cases hwrite : ∃ w, c = .write w
    · obtain ⟨w, rfl⟩ := hwrite
      obtain ⟨start', hw⟩ := hs.after_write w
      exact ih hw hcs.2
    · exact ih (hs.after (fun w h => hwrite ⟨w, h⟩) hcs.1) hcs.2

/-- A run without writes leaves the initial state. -/
theorem afterAll_of_no_write {cs : List (Command α)} (hs : s.Unfitted start parted)
    (hcs : s.NeverFits cs) (hw : ∀ w, Command.write w ∉ cs) :
    (s.afterAll cs).startState = start := by
  induction cs generalizing s parted with
  | nil => exact hs.start
  | cons c cs ih =>
    have hc := hs.after (fun w h => hw w (h ▸ List.mem_cons_self)) hcs.1
    exact ih hc hcs.2 fun w h => hw w (List.mem_cons_of_mem _ h)

end Unfitted
end Session

/-- **Which edits configure the initial state.** In a session with any engine, after a run in which
no minimization succeeded, a write that succeeds makes of the initial state what it makes of the
current one, so that a later reset keeps it; unless a covariance was computed since the last reset.
Then the write misses the initial state, and a later reset loses it. -/
theorem edits_before_first_minimum {spec : SessionSpec α} {cost : Cost α} {E : Engine σ α}
    {memory : σ} {shared : Int} {s₀ u : Session σ α}
    (hbuild : spec.build cost E memory shared = .ok s₀) {cs : List (Command α)}
    (hcs : s₀.NeverFits cs) {w : ViewWrite α} (hw : w.run (s₀.afterAll cs) = .ok () u) :
    (s₀.partedAfterAll false cs = false → u.startState = u.currentState) ∧
      (s₀.partedAfterAll false cs = true → u.startState = (s₀.afterAll cs).startState) ∧
      ∀ later, u.NeverFits later → (∀ w, Command.write w ∉ later) →
        ((u.afterAll later).after .reset).currentState = u.startState := by
  have hfresh := SessionSpec.fresh_of_build hbuild
  have hs₀ : s₀.Unfitted s₀.startState false :=
    ⟨rfl, hfresh.fmin, hfresh.frozen, iff_of_true hfresh.slot rfl⟩
  obtain ⟨start, hs⟩ := hs₀.afterAll hcs
  obtain ⟨st, -, rfl⟩ := ViewWrite.run_eq_ok.mp hw
  have hu := hs.replaceState st
  refine ⟨fun hparted => ?_, fun hparted => ?_, fun later hlater hnone => ?_⟩
  · rw [hu.start, hparted, Session.currentState_replaceState]
    rfl
  · rw [hu.start, hparted, hs.start]
    rfl
  · rw [(isReset_after_reset _).current]
    exact (hu.afterAll_of_no_write hlater hnone).trans hu.start.symm

/-- Puts the parameter `x` to 2. -/
def moveToTwo : ViewWrite Float := .values (.item (.name "x") 2)

/-- After a covariance and a reset, `x` is put to 2, and is 2 after another covariance and a
reset. -/
theorem edits_before_first_minimum_oneParameter :
    ∃ s₀ u : Session Unit Float,
      oneParameter.build sumOfSquares (quasiNewton .standard) () 0 = .ok s₀ ∧
        s₀.NeverFits [.hesse none, .reset] ∧
          moveToTwo.run (s₀.afterAll [.hesse none, .reset]) = .ok () u ∧
            u.startState = u.currentState ∧
              ((u.afterAll [.hesse none]).after .reset).currentState = u.currentState ∧
                u.currentState.values = [2] := by
  obtain ⟨s₀, hbuild, h⟩ := exists_build_oneParameter (quasiNewton .standard) ()
    (P := fun s => succeeded (moveToTwo.run (s.afterAll [.hesse none, .reset])) ∧
      (s.afterAll [.hesse none, .reset, .write moveToTwo]).currentState.values = [2])
    (by decide +kernel)
  obtain ⟨hw, hvalues⟩ := of_decide_eq_true h
  obtain ⟨_, u, hu⟩ := exists_ok_of_succeeded hw
  have hnever : s₀.NeverFits [.hesse none, .reset] := ⟨rfl, rfl, trivial⟩
  obtain ⟨hkept, -, hreset⟩ := edits_before_first_minimum hbuild hnever hu
  have hcurrent := hkept rfl
  have hafter : s₀.afterAll [.hesse none, .reset, .write moveToTwo] = u := congrArg endState hu
  refine ⟨s₀, u, hbuild, hnever, hu, hcurrent, ?_, hafter ▸ hvalues⟩
  exact (hreset [.hesse none] ⟨rfl, trivial⟩ (by simp)).trans hcurrent

/-- After a covariance, `x` is put to 2, but not in the initial state, and the next reset brings
back the 1. -/
theorem edit_lost_after_hesse :
    ∃ s₀ u : Session Unit Float,
      oneParameter.build sumOfSquares (quasiNewton .standard) () 0 = .ok s₀ ∧
        s₀.NeverFits [.hesse none] ∧ moveToTwo.run (s₀.afterAll [.hesse none]) = .ok () u ∧
          u.currentState.values = [2] ∧ u.startState.values = [1] ∧
            (u.after .reset).currentState.values = [1] := by
  obtain ⟨s₀, hbuild, h⟩ := exists_build_oneParameter (quasiNewton .standard) ()
    (P := fun s => succeeded (moveToTwo.run (s.afterAll [.hesse none])) ∧
      (s.afterAll [.hesse none, .write moveToTwo]).currentState.values = [2] ∧
        (s.afterAll [.hesse none, .write moveToTwo]).startState.values = [1])
    (by decide +kernel)
  obtain ⟨hw, hcurrent, hstart⟩ := of_decide_eq_true h
  obtain ⟨_, u, hu⟩ := exists_ok_of_succeeded hw
  have hafter : s₀.afterAll [.hesse none, .write moveToTwo] = u := congrArg endState hu
  rw [hafter] at hcurrent hstart
  refine ⟨s₀, u, hbuild, ⟨rfl, trivial⟩, hu, hcurrent, hstart, ?_⟩
  rw [(isReset_after_reset u).current]
  exact hstart

end FitSession
