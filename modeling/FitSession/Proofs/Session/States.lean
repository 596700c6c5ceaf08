import FitSession.Proofs.Session.Failure
import FitSession.Proofs.Session.Scan

/-!
# Commands that leave all states

Settings, scans and the search for intervals leave every state of a session where it is. They may
count, and mark the stored minimum with another errordef. A command that fails does no more.

* `FunctionMinimum.SameButMarks`, `SameStates`: the minima and sessions that this may lead to;
* `Command.touchesStates`, `sameStates_after`: **the commands that do no more**;
* `sameStates_of_error`, `sameStates_of_migrad_error`, `sameStates_of_hesse_error`: failures.
-/

namespace FitSession

variable {σ α : Type}

/-- The minima differ at most in the errordef that they are marked with and in what was counted. -/
def FunctionMinimum.SameButMarks (m m' : FunctionMinimum α) : Prop :=
  m' = { m with up := m'.up, nfcn := m'.nfcn, ngrad := m'.ngrad }

/-- The sessions have the same states in the same places, and minima that differ in their marks at
most. -/
structure SameStates (s t : Session σ α) : Prop where
  start : t.startState = s.startState
  slot : t.slot = s.slot
  frozen : t.frozen = s.frozen
  fmin : Option.Rel FunctionMinimum.SameButMarks s.fmin t.fmin

/-- Whether a command has to do with states: it may write one, find one or go back to one. -/
def Command.touchesStates : Command α → Bool
  | .write _ | .migrad _ | .hesse _ | .reset => true
  | _ => false

variable {s t u : Session σ α} {c : Command α}

theorem rel_sameButMarks_map {f : FunctionMinimum α → FunctionMinimum α}
    (hf : ∀ m : FunctionMinimum α, m.SameButMarks (f m)) (fmin : Option (FunctionMinimum α)) :
    Option.Rel FunctionMinimum.SameButMarks fmin (fmin.map f) := by
  cases fmin with
  | none => exact .none
  | some m => exact .some (hf m)

theorem SameStates.of_fmin_eq (hstart : t.startState = s.startState) (hslot : t.slot = s.slot)
    (hfrozen : t.frozen = s.frozen) (hfmin : t.fmin = s.fmin) : SameStates s t := by
  refine ⟨hstart, hslot, hfrozen, ?_⟩
  rw [hfmin]
  simpa using rel_sameButMarks_map (f := id) (fun _ => rfl) s.fmin

theorem SameResults.sameStates (h : SameResults s t) : SameStates s t := by
  rw [h]
  exact .of_fmin_eq rfl rfl rfl rfl

theorem SameStates.trans (h : SameStates s t) (h' : SameStates t u) : SameStates s u := by
  refine ⟨h'.start.trans h.start, h'.slot.trans h.slot, h'.frozen.trans h.frozen, ?_⟩
  have hfmin := h.fmin
  have hfmin' := h'.fmin
  generalize s.fmin = x at hfmin
  generalize t.fmin = y at hfmin hfmin'
  generalize u.fmin = z at hfmin'
  cases hfmin with
  | none =>
    cases hfmin' with
    | none => exact .none
  | some hm =>
    cases hfmin' with
    | some hm' =>
      refine .some ?_
      unfold FunctionMinimum.SameButMarks at *
      rw [hm', hm]

/-- A check before an action touches nothing. -/
theorem Session.sameStates_ofExcept_bind {β : Type} {x : Except (FitError α) β}
    {f : β → Action σ α Unit} (hf : ∀ b, SameStates s (endState (f b s))) :
    SameStates s (endState ((Action.ofExcept x >>= f) s)) := by
  cases x with
  | error e => exact .of_fmin_eq rfl rfl rfl rfl
  | ok b => exact hf b

variable [Scalar α]

namespace Session

theorem sameStates_minos (names : List String) (sigma : α) (callLimit : Option Nat)
    (s : Session σ α) : SameStates s (endState (minos names sigma callLimit s)) := by
  have hbeside := aside_findIntervals (R := Bench.SameUpIf False) names sigma callLimit
    (fun _ _ _ _ _ => keeps_sameUpIf nofun) s rfl
  change SameStates s (endState ((findIntervals names sigma callLimit >>= fun found =>
    modify (·.withIntervals found)) s))
  rw [bind_apply]
  cases h : findIntervals names sigma callLimit s with
  | error e t =>
    rw [h] at hbeside
    exact hbeside.results.sameStates
  | ok found t =>
    rw [h] at hbeside
    have hfound : SameStates s t := hbeside.results.sameStates
    exact hfound.trans ⟨rfl, rfl, rfl, rel_sameButMarks_map (by intros; rfl) t.fmin⟩

end Session

/-- **Settings, scans and the search for intervals leave all states.** -/
theorem sameStates_after (s : Session σ α) (hc : c.touchesStates = false) :
    SameStates s (s.after c) := by
  cases c with
  | write | migrad | hesse | reset => cases hc
  | profile | minimizedProfile | contour | contourLine =>
    exact (onlyReads_of_isScan s rfl).1.results.sameStates
  | minos names sigma callLimit => exact s.sameStates_minos names sigma callLimit
  | minosAtConfidence names level callLimit =>
    exact Session.sameStates_ofExcept_bind fun sigma => s.sameStates_minos names sigma callLimit
  | setErrordef up =>
    exact Session.sameStates_ofExcept_bind fun _ =>
      ⟨rfl, rfl, rfl, rel_sameButMarks_map (by intros; rfl) s.fmin⟩
  | setTol tol =>
    exact Session.sameStates_ofExcept_bind fun _ => .of_fmin_eq rfl rfl rfl rfl
  | setStrategy strategy => exact .of_fmin_eq rfl rfl rfl rfl
  | setPrintLevel shared level =>
    have hreport : Keeps (Aside s.engine (Bench.SameUpIf False))
        (if needsSharedLevel shared level then Action.warn (.globalPrintLevel level) else pure () :
          Action σ α Unit) :=
      Keeps.ite (aside_warn rfl) (Keeps.pure ())
    have hlevel : SameStates s { s with printLevel := level } := .of_fmin_eq rfl rfl rfl rfl
    exact hlevel.trans (hreport { s with printLevel := level } rfl).results.sameStates
  | drainWarnings => exact .of_fmin_eq rfl rfl rfl rfl

/-- A command that fails leaves all states, except for a write and for a covariance that the engine
leaves in pieces. -/
theorem sameStates_of_error {e : FitError α} (hw : ∀ w, c ≠ .write w)
    (hhesse : (∃ callLimit, c = .hesse callLimit) →
      s.engine.RefinesWhole ∧ s.engine.KeepsErrordef) (h : c.run s = .error e t) :
    SameStates s t :=
  (failsAside_run (K := False) hw hhesse nofun s e t h rfl).results.sameStates

theorem sameStates_of_migrad_error {o : MigradOptions α} {e : FitError α}
    (h : Session.migrad o s = .error e t) : SameStates s t :=
  sameStates_of_error (c := .migrad o) nofun nofun h

theorem sameStates_of_hesse_error {callLimit : Option Nat} {e : FitError α}
    (hwhole : s.engine.RefinesWhole) (hup : s.engine.KeepsErrordef)
    (h : Session.hesse callLimit s = .error e t) : SameStates s t :=
  sameStates_of_error (c := .hesse callLimit) nofun (fun _ => ⟨hwhole, hup⟩) h

end FitSession
