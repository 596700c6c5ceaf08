import FitSession.Proofs.Engine.QuasiNewton
import FitSession.Proofs.Engine.Scripted
import FitSession.Proofs.Session.Change

/-!
# Failures

A command that fails commits nothing, at whichever of its steps it fails: only counters, warnings,
what was reported and what the engine remembers may have changed.

* `failsAside_run`: a command other than a write that fails has only worked on the side;
* `CommitsNothing`, `failed_command_commits_nothing`: **a failed command leaves all results**;
* `failed_command_leaves_traces`: what it may leave in the slot, the errordef and the engine.
-/

namespace FitSession

variable {σ α β : Type} {E : Engine σ α} {K : Prop}

/-! ## Failures of single actions -/

theorem failsAside_ofExcept_bind {x : Except (FitError α) β} {f : β → Action σ α Unit}
    (hf : ∀ b, FailsWithin (Aside E (Bench.SameUpIf K)) (f b)) :
    FailsWithin (Aside E (Bench.SameUpIf K)) (Action.ofExcept x >>= f) :=
  FailsWithin.bind (aside_ofExcept x) hf

namespace Session

/-- Recording that a covariance was forced does not fail. -/
theorem reportForced_ne_error {m : FunctionMinimum α} {s t : Session σ α} {e : FitError α} :
    reportForced m s ≠ .error e t := by
  change (if m.hasMadePosdefCovar then _ else _ : Action σ α Unit) s ≠ _
  split
  · exact fun h => nomatch h
  · exact fun h => nomatch h

section Hesse

variable {s t : Session σ α} {m : FunctionMinimum α} {e : FitError α} {callLimit : Option Nat}

theorem failsAside_atMinimum (hwhole : s.engine.RefinesWhole) (hE : K → s.engine.KeepsErrordef)
    (hm : s.fmin = some m)
    (h : Action.atMinimum m (s.engine.refinement s.cost callLimit) s = .error e t) :
    Aside s.engine (Bench.SameUpIf K) s t := by
  unfold Action.atMinimum at h
  cases hw : s.engine.refinement s.cost callLimit (s.bench, m) with
  | ok _ p => simp [hw] at h
  | error d p =>
    obtain ⟨bench, m'⟩ := p
    rw [hw] at h
    cases h
    obtain rfl := hwhole hw
    rw [← hm]
    refine fun _ => ⟨rfl, fun hK => ((hE hK).refinement s.cost callLimit).of_error hw, ?_⟩
    exact .of_same rfl rfl

/-- Work on the stored minimum fails before anything is stored. -/
theorem failsAside_hesseAtMinimum (hwhole : s.engine.RefinesWhole)
    (hE : K → s.engine.KeepsErrordef) (hm : s.fmin = some m)
    (h : hesseAtMinimum m callLimit s = .error e t) : Aside s.engine (Bench.SameUpIf K) s t := by
  rcases bind_eq_error.mp h with h | ⟨u, _, hu, h⟩
  · cases h
  · cases hu
    rcases bind_eq_error.mp h with h | ⟨refined, v, -, h⟩
    · exact failsAside_atMinimum hwhole hE hm h
    · rcases bind_eq_error.mp h with h | ⟨_, w, -, h⟩
      · cases h
      · exact absurd h reportForced_ne_error

end Hesse

theorem failsAside_hesseAtState (hE : K → E.KeepsErrordef) (callLimit : Option Nat) :
    FailsWithin (Aside E (Bench.SameUpIf K)) (hesseAtState callLimit : Action σ α Unit) := by
  intro s e t h hs
  refine FailsWithin.bind (R := Aside E (Bench.SameUpIf K)) (aside_atBench ?_)
    (fun answer => ?_) s e t h hs
  · subst hs
    exact keeps_sameUpIf fun hK => (hE hK).hesseState _ _ _
  · cases answer with
    | none => exact FailsWithin.of_keeps (Keeps.ite (Keeps.throw _) (Keeps.pure _))
    | some state =>
      exact FailsWithin.ite (FailsWithin.modify _) (FailsWithin.of_keeps (Keeps.throw _))

variable [Scalar α]

theorem failsAside_hesse (hwhole : E.RefinesWhole) (hE : K → E.KeepsErrordef)
    (callLimit : Option Nat) :
    FailsWithin (Aside E (Bench.SameUpIf K)) (hesse callLimit : Action σ α Unit) := by
  refine FailsWithin.bind aside_reportErrordef fun _ s e t h hs => ?_
  subst hs
  rw [get_bind_apply] at h
  cases hat : s.isAtMinimum with
  | false =>
    rw [hat] at h
    exact failsAside_hesseAtState hE callLimit s e t h rfl
  | true =>
    cases hm : s.fmin with
    | none =>
      rw [hat, hm] at h
      exact failsAside_hesseAtState hE callLimit s e t h rfl
    | some m =>
      rw [hat, hm] at h
      exact failsAside_hesseAtMinimum hwhole hE hm h rfl

end Session

/-! ## Failures of commands -/

variable [Scalar α]

/-- A command other than a write that fails has only worked on the side. For the covariance the
engine must not leave pieces of one in a minimum. -/
theorem failsAside_run {c : Command α} (hw : ∀ w, c ≠ .write w)
    (hhesse : (∃ callLimit, c = .hesse callLimit) → E.RefinesWhole ∧ E.KeepsErrordef)
    (hE : K → c.LendsErrordef → E.MigradKeepsErrordef) :
    FailsWithin (Aside E (Bench.SameUpIf K)) (c.run : Action σ α Unit) := by
  have hmigrad (hc : c.LendsErrordef) cost start o :
      Keeps (Bench.SameUpIf K) (E.migrad cost start o) :=
    keeps_sameUpIf fun hK => hE hK hc cost start o
  have hscaled {β} factor (work : Run σ α β) :
      Keeps (Bench.SameUpIf K) (Run.withScaledUp factor work) :=
    keeps_sameUpIf fun _ => sameUp_withScaledUp factor work
  have hminos names sigma callLimit :
      FailsWithin (Aside E (Bench.SameUpIf K)) (Session.minos names sigma callLimit) :=
    FailsWithin.bind (Session.aside_findIntervals names sigma callLimit fun _ _ _ _ _ =>
      hscaled _ _) fun _ => FailsWithin.modify _
  cases c with
  | write w => exact absurd rfl (hw w)
  | migrad o =>
    exact FailsWithin.bind (Session.aside_findMinimum (hmigrad trivial) o) fun _ =>
      FailsWithin.modify _
  | hesse callLimit =>
    obtain ⟨hwhole, hkeeps⟩ := hhesse ⟨_, rfl⟩
    exact Session.failsAside_hesse hwhole (fun _ => hkeeps) callLimit
  | minos names sigma callLimit =>
    exact hminos names sigma callLimit
  | minosAtConfidence names level callLimit =>
    exact failsAside_ofExcept_bind fun sigma => hminos names sigma callLimit
  | profile key bins bound subtractMin =>
    exact FailsWithin.of_keeps (Session.aside_profile key bins bound subtractMin).map
  | minimizedProfile key bins bound subtractMin =>
    exact FailsWithin.of_keeps (Session.aside_minimizedProfile (hmigrad trivial) key bins bound
      subtractMin).map
  | contour keyX keyY bins boundX boundY subtractMin =>
    exact FailsWithin.of_keeps
      (Session.aside_contour keyX keyY bins boundX boundY subtractMin).map
  | contourLine keyX keyY points sigma =>
    exact FailsWithin.of_keeps (Session.aside_contourLine keyX keyY points sigma
      fun _ _ _ _ _ _ => hscaled _ _).map
  | setErrordef up => exact failsAside_ofExcept_bind fun _ => FailsWithin.modify _
  | setTol tol => exact failsAside_ofExcept_bind fun _ => FailsWithin.modify _
  | setStrategy strategy => exact FailsWithin.modify _
  | setPrintLevel shared level =>
    intro s e t h
    change (if needsSharedLevel shared level then _ else _ : Action σ α Unit)
      { s with printLevel := level } = _ at h
    split at h <;> cases h
  | drainWarnings => exact fun s e t h => nomatch h
  | reset => exact FailsWithin.modify _

/-! ## Failures after a run -/

/-- What a failed command leaves. Registry, initial state, minimum, intervals, strategy, tolerance
and the like are as they were, and so is the current state. -/
structure CommitsNothing (s t : Session σ α) : Prop where
  rest : t = { s with
    bench := t.bench, slot := t.slot, errordefSettled := t.errordefSettled,
    warnings := t.warnings }
  currentState : t.currentState = s.currentState

omit [Scalar α] in
theorem Aside.commitsNothing {s t : Session σ α} (h : Aside E (Bench.SameUpIf K) s t)
    (hs : s.engine = E) : CommitsNothing s t ∧ t.slot = s.slot ∧ (K → t.errordef = s.errordef) := by
  obtain ⟨hsame, herrordef, -⟩ := h hs
  refine ⟨⟨?_, hsame.currentState_eq⟩, ?_, herrordef⟩
  · rw [hsame]
  · rw [hsame]

omit [Scalar α] in
/-- Putting the current state apart leaves everything but the slot. -/
theorem commitsNothing_opened (s : Session σ α) :
    CommitsNothing s s.opened ∧ s.opened.errordef = s.errordef := by
  refine ⟨⟨?_, Session.currentState_replaceState s _⟩, ?_⟩
  · rw [s.opened_eq]
  · rw [s.opened_eq]
    rfl

/-- **A failed command commits nothing.** After any run with any engine, a command that fails leaves
all results and settings as they were; a computation of the covariance does so with the
quasi-Newton engine, whatever its solvers and its differences. It leaves the slot too, only a write
may have put the current state apart before it misses an entry, which is never so as long as there
is one for each parameter; and it leaves the errordef, where this is handed to the engine as it is,
as far as the engine leaves it. -/
theorem failed_command_commits_nothing [Differences α] {spec : SessionSpec α} {cost : Cost α}
    {engine : Engine σ α} {memory : σ} {shared : Int} {s₀ t : Session σ α}
    (hbuild : spec.build cost engine memory shared = .ok s₀) (cs : List (Command α))
    {c : Command α} {e : FitError α}
    (hengine : (∃ callLimit, c = .hesse callLimit) →
      ∃ choose solver, engine = quasiNewtonWith choose solver)
    (hfail : c.run (s₀.afterAll cs) = .error e t) :
    CommitsNothing (s₀.afterAll cs) t ∧
      ((∀ w, c = .write w → (s₀.afterAll cs).registry.len ≤ (s₀.afterAll cs).currentState.len) →
        t.slot = (s₀.afterAll cs).slot) ∧
      ((c.LendsErrordef → engine.MigradKeepsErrordef) →
        t.errordef = (s₀.afterAll cs).errordef) := by
  have hs : (s₀.afterAll cs).engine = engine :=
    (s₀.afterAll_sameSetup cs).engine.trans (SessionSpec.fresh_of_build hbuild).engine
  generalize s₀.afterAll cs = s at hfail hs ⊢
  by_cases hc : ∃ w, c = .write w
  · obtain ⟨w, rfl⟩ := hc
    have hmirrors := w.mirrors_run s
    rw [show w.run s = .error e t from hfail] at hmirrors
    generalize w.onState s.registry s.currentState = answer at hmirrors
    cases hmirrors with
    | refused =>
      obtain ⟨hcommits, hslot, herrordef⟩ :=
        Aside.commitsNothing (K := True) (Chains.refl (R := Aside engine _) _) hs
      exact ⟨hcommits, fun _ => hslot, fun _ => herrordef trivial⟩
    | missing _ hmissing =>
      obtain ⟨hcommits, herrordef⟩ := commitsNothing_opened s
      refine ⟨hcommits, fun hlen => ?_, fun _ => herrordef⟩
      exact absurd hmissing (Nat.not_lt.mpr (hlen w rfl))
  · have hhesse (h : ∃ callLimit, c = .hesse callLimit) :
        engine.RefinesWhole ∧ engine.KeepsErrordef := by
      obtain ⟨choose, solver, rfl⟩ := hengine h
      exact ⟨quasiNewtonWith_refinesWhole, quasiNewtonWith_keepsErrordef⟩
    have haside := failsAside_run (K := c.LendsErrordef → engine.MigradKeepsErrordef)
      (fun w hw => hc ⟨w, hw⟩) hhesse (fun h => h) s e t hfail
    obtain ⟨hcommits, hslot, herrordef⟩ := Aside.commitsNothing haside hs
    exact ⟨hcommits, fun _ => hslot, herrordef⟩

/-- A minimum that is not valid, and then a failure. -/
def failsWhenRepeated : Script Float :=
  { Script.empty with
    migrad := [answerAt 3 false, { answerAt 5 true with failure := some "boom" }] }

/-- After a fit of one parameter, asking for the interval of a parameter that is not there commits
nothing; nor does a fit of which the second attempt fails. -/
theorem failed_command_commits_nothing_oneParameter :
    (∃ (s₀ t : Session Unit Float) (e : FitError Float),
      oneParameter.build sumOfSquares (quasiNewton .standard) () 0 = .ok s₀ ∧
        (Command.minos ["y"] 1 none).run (s₀.afterAll [.migrad .standard]) = .error e t ∧
          t.currentState = (s₀.afterAll [.migrad .standard]).currentState ∧
            t.slot = (s₀.afterAll [.migrad .standard]).slot ∧
              t.errordef = (s₀.afterAll [.migrad .standard]).errordef) ∧
      ∃ (s₀ t : Session (Script Float) Float) (e : FitError Float),
        oneParameter.build sumOfSquares scriptedEngine failsWhenRepeated 0 = .ok s₀ ∧
          (Command.migrad .standard).run s₀ = .error e t ∧
            EngineCall.starts t.bench.memory.log = [[1], [3]] ∧
              t.currentState = s₀.currentState ∧ t.slot = s₀.slot ∧ t.errordef = s₀.errordef := by
  constructor
  · obtain ⟨s₀, hbuild, hfails⟩ := exists_build_oneParameter (quasiNewton .standard) ()
      (P := fun s => !succeeded ((Command.minos ["y"] 1 none).run (s.afterAll [.migrad .standard])))
      (by decide +kernel)
    obtain ⟨e, t, hfail⟩ := exists_error_of_not_succeeded (by simpa using hfails)
    obtain ⟨hcommits, hslot, herrordef⟩ :=
      failed_command_commits_nothing hbuild [.migrad .standard] (fun _ => ⟨_, _, rfl⟩) hfail
    exact ⟨s₀, t, e, hbuild, hfail, hcommits.currentState, hslot nofun,
      herrordef fun _ => quasiNewtonWith_keepsErrordef.migrad⟩
  · obtain ⟨s₀, hbuild, hfails⟩ := exists_build_oneParameter scriptedEngine failsWhenRepeated
      (P := fun s => !succeeded ((Command.migrad .standard).run s) &&
        decide (EngineCall.starts (s.after (.migrad .standard)).bench.memory.log = [[1], [3]]))
      (by decide +kernel)
    rw [Bool.and_eq_true, Bool.not_eq_true', decide_eq_true_iff] at hfails
    obtain ⟨hfails, hlog⟩ := hfails
    obtain ⟨e, t, hfail⟩ := exists_error_of_not_succeeded hfails
    have hafter : s₀.after (.migrad .standard) = t := by
      change endState _ = t
      rw [hfail, endState_error]
    obtain ⟨hcommits, hslot, herrordef⟩ :=
      failed_command_commits_nothing hbuild [] (fun ⟨_, h⟩ => nomatch h) hfail
    exact ⟨s₀, t, e, hbuild, hfail, hafter ▸ hlog, hcommits.currentState, hslot nofun,
      herrordef fun _ => scriptedEngine_keepsErrordef.migrad⟩

/-- Whether the current state is kept apart from all results. -/
def Slot.isApart : Slot α → Bool
  | .detached _ => true
  | _ => false

/-- What a failed command may leave all the same: an errordef that the engine has raised, a state
that a write has put apart before it misses the entry that the engine has dropped, and an engine
that remembers the failure, so that it does not fail again. -/
theorem failed_command_leaves_traces :
    (∃ s : Session (Script Float) Float,
      oneParameter.build sumOfSquares (scriptedEngine.raising 4) Script.empty 0 = .ok s ∧
        succeeded ((Command.migrad .standard).run s) = false ∧
          (s.after (.migrad .standard)).errordef ≠ s.errordef) ∧
      (∃ s : Session (Script Float) Float,
        oneParameter.build sumOfSquares (scriptedEngine.answering .empty)
            { Script.empty with migrad := [answerAt 3 true] } 0 = .ok s ∧
          succeeded ((Command.write (.values (.item (.index 0) 5))).run
            (s.after (.migrad .standard))) = false ∧
          (s.after (.migrad .standard)).slot.isApart = false ∧
            ((s.after (.migrad .standard)).after
              (.write (.values (.item (.index 0) 5)))).slot.isApart = true) ∧
      ∃ s : Session (Script Float) Float,
        oneParameter.build sumOfSquares scriptedEngine
            { Script.empty with
              migrad := [{ answerAt 5 true with failure := some "boom" }, answerAt 5 true] } 0 =
            .ok s ∧
          succeeded ((Command.migrad .standard).run s) = false ∧
            succeeded ((Command.migrad .standard).run (s.after (.migrad .standard))) = true := by
  refine ⟨?_, ?_, ?_⟩
  · obtain ⟨s, hbuild, h⟩ := exists_build_oneParameter (scriptedEngine.raising 4) Script.empty
      (P := fun s => !succeeded ((Command.migrad .standard).run s) &&
        ((s.after (.migrad .standard)).errordef == 4 && !(s.errordef == 4))) (by decide +kernel)
    simp only [Bool.and_eq_true, Bool.not_eq_true'] at h
    obtain ⟨hfails, hafter, hbefore⟩ := h
    refine ⟨s, hbuild, hfails, fun heq => ?_⟩
    rw [heq, hbefore] at hafter
    cases hafter
  · obtain ⟨s, hbuild, h⟩ := exists_build_oneParameter (scriptedEngine.answering .empty)
      { Script.empty with migrad := [answerAt 3 true] }
      (P := fun s => !succeeded ((Command.write (.values (.item (.index 0) 5))).run
          (s.after (.migrad .standard))) &&
        (!(s.after (.migrad .standard)).slot.isApart &&
          ((s.after (.migrad .standard)).after
            (.write (.values (.item (.index 0) 5)))).slot.isApart)) (by decide +kernel)
    simp only [Bool.and_eq_true, Bool.not_eq_true'] at h
    exact ⟨s, hbuild, h⟩
  · obtain ⟨s, hbuild, h⟩ := exists_build_oneParameter scriptedEngine
      { Script.empty with
        migrad := [{ answerAt 5 true with failure := some "boom" }, answerAt 5 true] }
      (P := fun s => !succeeded ((Command.migrad .standard).run s) &&
        succeeded ((Command.migrad .standard).run (s.after (.migrad .standard))))
      (by decide +kernel)
    simp only [Bool.and_eq_true, Bool.not_eq_true'] at h
    exact ⟨s, hbuild, h⟩

end FitSession
