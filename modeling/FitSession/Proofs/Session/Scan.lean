import FitSession.Proofs.Engine.QuasiNewton
import FitSession.Proofs.Engine.Recount
import FitSession.Proofs.Engine.Scripted
import FitSession.Proofs.Session.Built
import FitSession.Proofs.Session.SideBySide

/-!
# Scans only read

A scan fixes and moves parameters, minimizes, and looks for intervals at a scaled errordef, but only
in copies of the current state and of the minimum.

* `Command.isScan`, `withoutScans`: the scans, and a run without them;
* `OnlyReads`, `onlyReads_of_isScan`: **what a scan leaves**, whether it succeeds or fails;
* `sameFit_after_scan`: a session after a scan is side by side with the session before;
* `scans_only_read`: **scans change nothing that comes later**;
* `scans_may_leave_traces`: what they change with other engines.
-/

namespace FitSession

variable {σ α : Type}

/-- Whether a command is a scan. -/
def Command.isScan : Command α → Bool
  | .profile _ _ _ _ | .minimizedProfile _ _ _ _ | .contour _ _ _ _ _ _
  | .contourLine _ _ _ _ => true
  | _ => false

/-- A run without its scans. -/
def withoutScans (cs : List (Command α)) : List (Command α) := cs.filter fun c => !c.isScan

variable [Scalar α] {s : Session σ α} {c : Command α}

/-! ## One scan -/

/-- A command leaves all of a session but the bench, the warnings and what was reported. Warnings
are only added. -/
structure OnlyReads (s : Session σ α) (c : Command α) : Prop where
  results : SameResults s (s.after c)
  currentState : (s.after c).currentState = s.currentState
  reports : Reports s (s.after c)

/-- **A scan only reads**, whether it succeeds or fails. It hands out no more of the errordef than a
scaled copy, but for a scan of minimized values, with which it is up to the engine. -/
theorem onlyReads_of_isScan (s : Session σ α) (h : c.isScan = true) : OnlyReads s c ∧
    ((c.LendsErrordef → s.engine.MigradKeepsErrordef) → (s.after c).errordef = s.errordef) := by
  let K := c.LendsErrordef → s.engine.MigradKeepsErrordef
  have hbeside : Beside (Bench.SameUpIf K) s (s.after c) := by
    cases c with
    | profile key bins bound subtractMin =>
      exact (Session.aside_profile key bins bound subtractMin).map s rfl
    | minimizedProfile key bins bound subtractMin =>
      refine (Session.aside_minimizedProfile (fun cost start o => ?_) key bins bound
        subtractMin).map s rfl
      exact keeps_sameUpIf fun hK => hK trivial cost start o
    | contour keyX keyY bins boundX boundY subtractMin =>
      exact (Session.aside_contour keyX keyY bins boundX boundY subtractMin).map s rfl
    | contourLine keyX keyY points sigma =>
      refine (Session.aside_contourLine keyX keyY points sigma fun t m ix iy o _ => ?_).map s rfl
      exact keeps_sameUpIf fun _ => sameUp_withScaledUp _ _
    | _ => cases h
  exact ⟨⟨hbeside.results, hbeside.results.currentState_eq, hbeside.reports⟩, hbeside.bench⟩

/-! ## Scans in a run -/

omit [Scalar α] in
theorem Session.SameFit.refl (s : Session σ α) : SameFit s.engine s s where
  engine := rfl
  same := rfl
  up := rfl
  minimum := by
    cases s.fmin with
    | none => exact .none
    | some m => exact .some (.refl m)

/-- A session before a scan and after it are side by side. -/
theorem sameFit_after_scan (hE : s.engine.MigradKeepsErrordef) (h : c.isScan = true) :
    Session.SameFit s.engine s (s.after c) := by
  obtain ⟨hreads, herrordef⟩ := onlyReads_of_isScan s h
  have hsame := Session.SameFit.refl s
  refine ⟨rfl, ?_, herrordef fun _ => hE, ?_⟩
  · rw [hreads.results]
  · rw [hreads.results]
    exact hsame.minimum

/-- Sessions that are side by side stay so in a run of which only one has the scans. The induction
is on the run: a scan of one session is between two steps of the other. -/
theorem sameFit_withoutScans {E : Engine σ α} (hE : E.IgnoresHistory)
    (hmigrad : E.MigradKeepsErrordef) (cs : List (Command α)) :
    ∀ {s t : Session σ α}, Session.SameFit E s t →
      Session.SameFit E (s.afterAll (withoutScans cs)) (t.afterAll cs) := by
  induction cs with
  | nil => exact fun h => h
  | cons c cs ih =>
    intro s t h
    by_cases hscan : c.isScan = true
    · have ht : t.engine = E := h.engine_eq.trans h.engine
      have hafter : Session.SameFit E t (t.after c) := by
        rw [← ht] at hmigrad ⊢
        exact sameFit_after_scan hmigrad hscan
      rw [withoutScans, List.filter_cons_of_neg (by simp [hscan])]
      exact ih (h.trans hafter)
    · rw [withoutScans, List.filter_cons_of_pos (by simp [hscan])]
      exact ih (Session.coupled_run hE c s t h).endState

/-- The sessions have the same results: the current state with its covariance, the initial state,
the minimum but for its counters, and the intervals. -/
structure SameFindings (s t : Session σ α) : Prop where
  currentState : t.currentState = s.currentState
  startState : t.startState = s.startState
  minimum : Option.Rel FunctionMinimum.SameButCounts s.fmin t.fmin
  merrors : t.merrors = s.merrors

omit [Scalar α] in
theorem Session.SameFit.sameFindings {E : Engine σ α} {s t : Session σ α} (h : SameFit E s t) :
    SameFindings s t :=
  ⟨h.currentState_eq, by rw [h.same], h.minimum, by rw [h.same]⟩

omit [Scalar α] in
/-- Sessions that differ in a property of their current states have not the same findings. -/
theorem not_sameFindings {s t : Session σ α} (P : ParameterState α → Bool)
    (hs : P s.currentState = true) (ht : P t.currentState = false) : ¬SameFindings s t := by
  intro h
  rw [h.currentState, hs] at ht
  cases ht

/-- **Scans only read.** Whatever session it is done to, and whether it succeeds or fails, a scan
leaves all but the counters, the warnings and what was reported. It leaves the errordef too; only a
scan of minimized values does so as far as the minimizations of the engine leave it. With an engine
that leaves it, and that gives what does not hang on what was done before, a run with scans has the
same findings as the run without them, and whatever is done next ends in the same way after both. -/
theorem scans_only_read (s : Session σ α) :
    (∀ c : Command α, c.isScan = true → OnlyReads s c ∧
      ((c.LendsErrordef → s.engine.MigradKeepsErrordef) →
        (s.after c).errordef = s.errordef)) ∧
      (s.engine.IgnoresHistory → s.engine.MigradKeepsErrordef → ∀ cs : List (Command α),
        SameFindings (s.afterAll (withoutScans cs)) (s.afterAll cs) ∧
          ∀ c : Command α, SameEnd (Session.SameFit s.engine)
            (c.run (s.afterAll (withoutScans cs))) (c.run (s.afterAll cs))) := by
  refine ⟨fun c => onlyReads_of_isScan s, fun hE hmigrad cs => ?_⟩
  have hrun := sameFit_withoutScans hE hmigrad cs (.refl s)
  exact ⟨hrun.sameFindings, fun c => Session.coupled_run hE c _ _ hrun⟩

/-- A fit between two scans, and intervals after them. -/
def scannedFit : List (Command Float) :=
  [.profile (.index 0) 3 (.range 0 2) false, .migrad .standard,
    .minimizedProfile (.index 0) 3 (.sigma 1) true, .minos [] 1 none]

/-- A session with one parameter counts more evaluations with the scans, and finds the same. -/
theorem scans_only_read_oneParameter :
    ∃ s₀ : Session Unit Float,
      oneParameter.build sumOfSquares (quasiNewton .standard) () 0 = .ok s₀ ∧
        (s₀.afterAll (withoutScans scannedFit)).bench.nfcn < (s₀.afterAll scannedFit).bench.nfcn ∧
          (s₀.afterAll scannedFit).merrors.len = 1 ∧
            SameFindings (s₀.afterAll (withoutScans scannedFit)) (s₀.afterAll scannedFit) := by
  obtain ⟨s₀, hbuild, h⟩ := exists_build_oneParameter (quasiNewton .standard) ()
    (P := fun s => decide ((s.afterAll (withoutScans scannedFit)).bench.nfcn <
      (s.afterAll scannedFit).bench.nfcn) && (s.afterAll scannedFit).merrors.len == 1)
    (by decide +kernel)
  obtain ⟨hnfcn, hlen⟩ := Bool.and_eq_true_iff.mp h
  have hengine := (SessionSpec.fresh_of_build hbuild).engine
  have hE : s₀.engine.IgnoresHistory := by
    rw [hengine]
    exact quasiNewtonWith_ignoresHistory
  have hmigrad : s₀.engine.MigradKeepsErrordef := by
    rw [hengine]
    exact quasiNewtonWith_keepsErrordef.migrad
  exact ⟨s₀, hbuild, of_decide_eq_true hnfcn, eq_of_beq hlen,
    ((scans_only_read s₀).2 hE hmigrad scannedFit).1⟩

/-- A scan of minimized values, and a fit after it. -/
def scanThenFit : List (Command Float) :=
  [.minimizedProfile (.index 0) 2 (.range 0 2) false, .migrad .standard]

/-- A scan of minimized values may change the errordef and what is found after it: with an engine
that raises the errordef before each minimization, though this engine gives what does not hang on
what was done before, and with an engine that remembers how often it was asked. -/
theorem scans_may_leave_traces :
    (∃ s : Session Unit Float,
      oneParameter.build sumOfSquares ((quasiNewton .standard).raising 4) () 0 = .ok s ∧
        s.engine.IgnoresHistory ∧
          (s.after (.minimizedProfile (.index 0) 2 (.range 0 2) false)).errordef ≠ s.errordef ∧
            ¬SameFindings (s.afterAll (withoutScans scanThenFit)) (s.afterAll scanThenFit)) ∧
      ∃ s : Session (Script Float) Float,
        oneParameter.build sumOfSquares scriptedEngine
            { Script.empty with
              migrad := [answerAt 2 true, answerAt 2 true, answerAt 3 true] } 0 = .ok s ∧
          ¬SameFindings (s.afterAll (withoutScans scanThenFit)) (s.afterAll scanThenFit) := by
  refine ⟨?_, ?_⟩
  · obtain ⟨s, hbuild, h⟩ := exists_build_oneParameter ((quasiNewton .standard).raising 4) ()
      (P := fun s =>
        ((s.after (.minimizedProfile (.index 0) 2 (.range 0 2) false)).errordef == 16 &&
          !(s.errordef == 16)) &&
        ((s.afterAll (withoutScans scanThenFit)).currentState.entries.any (·.error == 2) &&
          !(s.afterAll scanThenFit).currentState.entries.any (·.error == 2))) (by decide +kernel)
    simp only [Bool.and_eq_true, Bool.not_eq_true'] at h
    obtain ⟨⟨hafter, hbefore⟩, hwithout, hwith⟩ := h
    refine ⟨s, hbuild, ?_, fun heq => ?_, ?_⟩
    · rw [(SessionSpec.fresh_of_build hbuild).engine]
      exact quasiNewtonWith_ignoresHistory.raising 4
    · rw [heq, hbefore] at hafter
      cases hafter
    · exact not_sameFindings (fun state => state.entries.any (·.error == 2)) hwithout hwith
  · obtain ⟨s, hbuild, h⟩ := exists_build_oneParameter scriptedEngine
      { Script.empty with migrad := [answerAt 2 true, answerAt 2 true, answerAt 3 true] }
      (P := fun s =>
        (s.afterAll (withoutScans scanThenFit)).currentState.entries.any (·.value == 2) &&
          !(s.afterAll scanThenFit).currentState.entries.any (·.value == 2)) (by decide +kernel)
    simp only [Bool.and_eq_true, Bool.not_eq_true'] at h
    obtain ⟨hwithout, hwith⟩ := h
    exact ⟨s, hbuild, not_sameFindings (fun state => state.entries.any (·.value == 2)) hwithout
      hwith⟩

end FitSession
