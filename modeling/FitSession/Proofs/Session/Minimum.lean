import FitSession.Proofs.Engine.Consistency
import FitSession.Proofs.Session.Errordef

/-!
# The stored minimum

A minimum is stored by a fit, changed when its covariance is computed, and touched by the search for
intervals and by a new errordef. Its flags and counters stay in order all the way.

* `Session.StoresConsistent`: the stored minimum is consistent, and counts no more than the session;
* `storesConsistent_migrad`, `storesConsistent_hesse`, `storesConsistent_minos`: **commands that
  touch the minimum**;
* `minimum_in_order`: **the stored minimum is consistent after every run**.
-/

namespace FitSession

variable {σ α : Type} [Scalar α]

/-- The stored minimum, if there is one, is consistent, and its counters do not exceed those of the
session. -/
def Session.StoresConsistent (s : Session σ α) : Prop :=
  ∀ m, s.fmin = some m → m.IsConsistent ∧ m.nfcn ≤ s.bench.nfcn ∧ m.ngrad ≤ s.bench.ngrad

variable {choose : SolverOptions α → Solvers α} {solver : SolverOptions α} {s t : Session σ α}

namespace Session

/-- Another bench that counts no less is no harm. -/
theorem StoresConsistent.of_onward (hs : s.StoresConsistent) (hfmin : t.fmin = s.fmin)
    (hbench : s.bench.Onward t.bench) : t.StoresConsistent := by
  intro m hm
  obtain ⟨hm, hnfcn, hngrad⟩ := hs m (hfmin ▸ hm)
  exact ⟨hm, hnfcn.trans hbench.nfcn, hngrad.trans hbench.ngrad⟩

theorem StoresConsistent.of_beside (hs : s.StoresConsistent) (h : Beside Bench.Onward s t) :
    t.StoresConsistent :=
  hs.of_onward (by rw [h.results]) h.bench

/-- Work on the side is no harm. -/
theorem StoresConsistent.endState_of_aside {β : Type} {E : Engine σ α} {x : Action σ α β}
    (h : Keeps (Aside E Bench.Onward) x) (hE : s.engine = E) (hs : s.StoresConsistent) :
    (endState (x s)).StoresConsistent :=
  hs.of_beside (h s hE)

theorem storesConsistent_write (w : ViewWrite α) (hs : s.StoresConsistent) :
    (endState (w.run s)).StoresConsistent := by
  have h := w.mirrors_run s
  generalize w.onState s.registry s.currentState = answer at h
  generalize w.run s = result at h
  have hreplace (st : ParameterState α) : (s.replaceState st).StoresConsistent :=
    hs.of_onward (by simp) (by simpa using Chains.refl s.bench)
  cases h with
  | written st => exact hreplace st
  | refused e => exact hs
  | missing e _ => exact hreplace _

theorem onward_intervals [Differences α] (hs : s.engine = quasiNewtonWith choose solver)
    (m : FunctionMinimum α) (o : EngineOptions α) (indices : List Nat) :
    Keeps Bench.Onward (s.intervals m o indices) := by
  unfold intervals
  rw [hs]
  refine Keeps.mapM (fun _ => ?_) indices
  exact (quasiNewtonWith_movesOn.minos _ _ _ _).bind fun _ => Keeps.pure _

theorem onward_lineWithErrors [Differences α] (hs : s.engine = quasiNewtonWith choose solver)
    (m : FunctionMinimum α) (ix iy points : Nat) (o : EngineOptions α) :
    Keeps Bench.Onward (s.lineWithErrors m ix iy points o) := by
  unfold lineWithErrors
  rw [hs]
  refine (quasiNewtonWith_movesOn.minos _ _ _ _).bind fun ex =>
    (quasiNewtonWith_movesOn.minos _ _ _ _).bind fun ey => ?_
  exact (quasiNewtonWith_movesOn.contourLine _ _ _ _ _ _).bind fun points => Keeps.pure _

/-- The sessions have the same minimum, and the second has counted no less. -/
structure SameMinimum (s t : Session σ α) : Prop where
  fmin : t.fmin = s.fmin
  bench : s.bench.Onward t.bench

instance : Chains (SameMinimum : Session σ α → Session σ α → Prop) where
  refl s := ⟨rfl, Chains.refl s.bench⟩
  trans hst htu := ⟨htu.fmin.trans hst.fmin, Chains.trans hst.bench htu.bench⟩

/-- What work with the engine `E` leaves that does not touch the minimum. -/
def LeavesMinimum (E : Engine σ α) (s t : Session σ α) : Prop :=
  s.engine = E → t.engine = E ∧ SameMinimum s t

instance (E : Engine σ α) : Chains (LeavesMinimum E) := Chains.guarded

omit [Scalar α] in
/-- The covariance of the current state alone does not touch the minimum. -/
theorem leavesMinimum_hesseAtState {E : Engine σ α} (hE : E.MovesOn) (callLimit : Option Nat) :
    Keeps (LeavesMinimum E) (hesseAtState callLimit : Action σ α Unit) := by
  refine Keeps.get_bind_of fun s hs => Keeps.bind (R := LeavesMinimum E) (fun t ht => ?_)
    fun answer => ?_
  · have hbench := hE.hesseState s.cost s.currentState callLimit t.bench
    rw [hs]
    unfold Action.atBench
    cases hr : E.hesseState s.cost s.currentState callLimit t.bench with
    | ok answer b =>
      rw [hr] at hbench
      exact ⟨ht, rfl, hbench⟩
    | error e b =>
      rw [hr] at hbench
      exact ⟨ht, rfl, hbench⟩
  · cases answer with
    | none => exact Keeps.ite (Keeps.throw _) (Keeps.pure _)
    | some state =>
      refine Keeps.ite (keeps_modify fun t ht => ?_) (Keeps.throw _)
      exact ⟨ht, rfl, Chains.refl t.bench⟩

/-- The covariance of the minimum becomes part of it. -/
theorem storesConsistent_hesseAtMinimum [Differences α]
    (hengine : s.engine = quasiNewtonWith choose solver) {m : FunctionMinimum α}
    (callLimit : Option Nat) (hm : s.fmin = some m) (hs : s.StoresConsistent) :
    (endState (hesseAtMinimum m callLimit s)).StoresConsistent := by
  obtain ⟨hconsistent, hnfcn, hngrad⟩ := hs m hm
  have hrefined {q : Bench σ α × FunctionMinimum α}
      (hq : endState (s.engine.refinement s.cost callLimit (s.bench, m)) = q) :
      s.bench.Onward q.1 ∧ (q.2 = m ∨ q.2.IsConsistent ∧ q.2.Counts q.1) := by
    rw [hengine] at hq
    exact refinement_quasiNewtonWith s.cost callLimit s.bench hconsistent hq
  -- what is stored in the end, whatever the bench and the minimum that the engine leaves
  have hstored {t : Session σ α} {q : Bench σ α × FunctionMinimum α}
      (hq : s.bench.Onward q.1 ∧ (q.2 = m ∨ q.2.IsConsistent ∧ q.2.Counts q.1))
      (hbench : t.bench = q.1) (hfmin : t.fmin = some q.2) : t.StoresConsistent := by
    rintro m' hm'
    obtain rfl : q.2 = m' := Option.some.inj (hfmin.symm.trans hm')
    rw [hbench]
    rcases hq.2 with hsame | ⟨hnew, hcounts⟩
    · rw [hsame]
      exact ⟨hconsistent, hnfcn.trans hq.1.nfcn, hngrad.trans hq.1.ngrad⟩
    · exact ⟨hnew, hcounts.nfcn.le, hcounts.ngrad.le⟩
  change (endState ((Action.atMinimum m (s.engine.refinement s.cost callLimit) >>= _) s)
    ).StoresConsistent
  rw [bind_apply, Action.atMinimum]
  cases hw : s.engine.refinement s.cost callLimit (s.bench, m) with
  | error e q => exact hstored (hrefined (by rw [hw]; rfl)) rfl rfl
  | ok _ q =>
    have hrefinedSession : { s with bench := q.1, fmin := some q.2, slot := Slot.minimum
        }.StoresConsistent := hstored (hrefined (by rw [hw]; rfl)) rfl rfl
    exact hrefinedSession.of_beside (aside_reportForced (E := s.engine) (R := Bench.Onward) q.2
      { s with bench := q.1, fmin := some q.2, slot := .minimum } rfl)

theorem storesConsistent_hesse [Differences α]
    (hengine : s.engine = quasiNewtonWith choose solver) (callLimit : Option Nat) (hs : s.StoresConsistent) : (endState (hesse callLimit s)).StoresConsistent := by
  have hreport := aside_reportErrordef (R := Bench.Onward) s hengine
  change (endState ((Action.reportErrordef >>= _) s)).StoresConsistent
  rw [bind_apply]
  rw [reportErrordef_apply] at hreport ⊢
  generalize (if s.errordefSettled then s else _) = t at hreport ⊢
  have ht := hs.of_beside hreport
  have htengine : t.engine = quasiNewtonWith choose solver :=
    hreport.results.sameSetup.engine.trans hengine
  change (endState ((MonadState.get >>= _ : Action σ α Unit) t)).StoresConsistent
  rw [get_bind_apply]
  have hstate : (endState (hesseAtState callLimit t)).StoresConsistent :=
    have h := (leavesMinimum_hesseAtState quasiNewtonWith_movesOn callLimit t htengine).2
    ht.of_onward h.fmin h.bench
  cases t.isAtMinimum with
  | false => exact hstate
  | true =>
    cases hm : t.fmin with
    | none => exact hstate
    | some m => exact storesConsistent_hesseAtMinimum htengine callLimit hm ht

theorem storesConsistent_minos [Differences α]
    (hengine : s.engine = quasiNewtonWith choose solver) (names : List String) (sigma : α) (callLimit : Option Nat) (hs : s.StoresConsistent) :
    (endState (minos names sigma callLimit s)).StoresConsistent := by
  have hbeside := aside_findIntervals (R := Bench.Onward) names sigma callLimit
    (fun t m o indices ht => onward_withScaledUp (onward_intervals ht m o indices) _) s hengine
  change (endState ((findIntervals names sigma callLimit >>= fun found =>
    modify (·.withIntervals found)) s)).StoresConsistent
  rw [bind_apply]
  cases h : findIntervals names sigma callLimit s with
  | error e t =>
    rw [h] at hbeside
    exact hs.of_beside hbeside
  | ok found t =>
    rw [h] at hbeside
    intro m' hm'
    obtain ⟨m, hm, rfl⟩ := Option.map_eq_some_iff.mp hm'
    exact ⟨(hs.of_beside hbeside m hm).1.withCounts _ _, Nat.le_refl _, Nat.le_refl _⟩

end Session

section Float

variable [Differences Float] {choose : SolverOptions Float → Solvers Float}
  {solver : SolverOptions Float} {s t : Session σ Float}

theorem Session.storesConsistent_migrad (hengine : s.engine = quasiNewtonWith choose solver)
    (hpositive : isPositive s.errordef = true) (o : MigradOptions Float)
    (hs : s.StoresConsistent) : (endState (migrad o s)).StoresConsistent := by
  have hbeside := aside_findMinimum (R := Bench.Onward) quasiNewtonWith_movesOn.migrad o s hengine
  change (endState ((findMinimum o >>= fun m => modify (·.withMinimum m)) s)).StoresConsistent
  rw [bind_apply]
  cases h : findMinimum o s with
  | error e t =>
    rw [h] at hbeside
    exact hs.of_beside hbeside
  | ok m t =>
    obtain ⟨options, made, htolerance, hattempts⟩ := attempts_of_findMinimum h
    rw [hengine] at hattempts
    have hgoal : ¬10 * edmGoal options.tolerance s.errordef < 0 :=
      not_edm_lt_zero (nonneg_of_isPositive htolerance) (nonneg_of_isPositive hpositive)
    obtain ⟨hconsistent, hcounts⟩ := attempts_ends (I := fun b => b.up = s.errordef)
      (P := fun m b => m.IsConsistent ∧ m.Counts b)
      (fun start b hb => (quasiNewtonWith_keepsErrordef.migrad s.cost start options b).trans hb)
      (fun hb hfit => isConsistent_quasiNewtonFit hfit (hb ▸ hgoal)) rfl hattempts
    rintro m ⟨⟩
    exact ⟨hconsistent, hcounts.nfcn.le, hcounts.ngrad.le⟩

/-- Whatever a command does, the stored minimum stays consistent. -/
theorem Session.storesConsistent_after (hengine : s.engine = quasiNewtonWith choose solver)
    (hpositive : isPositive s.errordef = true) (hs : s.StoresConsistent) (c : Command Float) :
    (s.after c).StoresConsistent := by
  cases c with
  | write w => exact storesConsistent_write w hs
  | migrad o => exact storesConsistent_migrad hengine hpositive o hs
  | hesse callLimit => exact storesConsistent_hesse hengine callLimit hs
  | minos names sigma callLimit => exact storesConsistent_minos hengine names sigma callLimit hs
  | minosAtConfidence names level callLimit =>
    change (endState ((Action.ofExcept (sigmaForConfidence level) >>= fun sigma =>
      minos names sigma callLimit) s)).StoresConsistent
    cases sigmaForConfidence level with
    | error e => exact hs
    | ok sigma => exact storesConsistent_minos hengine names sigma callLimit hs
  | profile key bins bound subtractMin =>
    exact hs.endState_of_aside (aside_profile key bins bound subtractMin).map hengine
  | minimizedProfile key bins bound subtractMin =>
    exact hs.endState_of_aside (aside_minimizedProfile quasiNewtonWith_movesOn.migrad key bins bound
      subtractMin).map hengine
  | contour keyX keyY bins boundX boundY subtractMin =>
    exact hs.endState_of_aside (aside_contour keyX keyY bins boundX boundY subtractMin).map hengine
  | contourLine keyX keyY points sigma =>
    exact hs.endState_of_aside (aside_contourLine keyX keyY points sigma fun t m ix iy o ht =>
      onward_withScaledUp (onward_lineWithErrors ht m ix iy points o) _).map hengine
  | setErrordef up =>
    change (endState ((Action.ofExcept (requireErrordef up) >>= _) s)).StoresConsistent
    cases requireErrordef up with
    | error e => exact hs
    | ok =>
      intro m' hm'
      obtain ⟨m, hm, rfl⟩ := Option.map_eq_some_iff.mp hm'
      exact ⟨(hs m hm).1.withUp up, (hs m hm).2⟩
  | setTol tol =>
    change (endState ((Action.ofExcept (requireTolerance tol) >>= _) s)).StoresConsistent
    cases requireTolerance tol <;> exact hs
  | setStrategy strategy => exact hs
  | setPrintLevel shared level =>
    have hlevel : { s with printLevel := level }.StoresConsistent := hs
    have hreport : Keeps (Aside s.engine Bench.Onward) (if needsSharedLevel shared level
        then Action.warn (.globalPrintLevel level) else pure () : Action σ Float Unit) :=
      Keeps.ite (aside_warn rfl) (Keeps.pure ())
    exact hlevel.of_beside (hreport { s with printLevel := level } rfl)
  | drainWarnings => exact hs
  | reset => exact fun m hm => nomatch hm

/-- **The stored minimum is consistent after every run** of a session with the quasi-Newton engine,
whatever its cost, its solvers, its differences and its errordef, and counts no more calls than the
session. -/
theorem minimum_in_order {spec : SessionSpec Float} {cost : Cost Float} {memory : σ} {shared : Int}
    {s₀ : Session σ Float}
    (hbuild : spec.build cost (quasiNewtonWith choose solver) memory shared = .ok s₀)
    (cs : List (Command Float)) : (s₀.afterAll cs).StoresConsistent := by
  have hfresh := SessionSpec.fresh_of_build hbuild
  have hrun : SameSetup s₀ (s₀.afterAll cs) ∧ (s₀.afterAll cs).IsMarked ∧
      (s₀.afterAll cs).StoresConsistent := by
    refine Session.afterAll_invariant
      (I := fun t => SameSetup s₀ t ∧ t.IsMarked ∧ t.StoresConsistent) ?_
      ⟨Chains.refl s₀, (SessionSpec.isMarked_of_build hbuild).1, ?_⟩ cs
    · rintro t c ⟨hsetup, hmarked, ht⟩
      have hengine : t.engine = quasiNewtonWith choose solver := hsetup.engine.trans hfresh.engine
      have hchange := change_after t c
      refine ⟨Chains.trans hsetup hchange.sameSetup, hchange.isMarked ?_ hmarked,
        Session.storesConsistent_after hengine hmarked.positive ht c⟩
      rw [hengine]
      exact quasiNewtonWith_followsErrordef
    · intro m hm
      rw [hfresh.fmin] at hm
      cases hm
  exact hrun.2.2

end Float

/-- A session with one parameter has a minimum after a fit, and whatever comes then, its minimum is
consistent. -/
theorem minimum_in_order_oneParameter :
    ∃ s₀ : Session Unit Float,
      oneParameter.build sumOfSquares (quasiNewton .standard) () 0 = .ok s₀ ∧
        (s₀.afterAll [.migrad .standard]).fmin.isSome = true ∧
          ∀ later, (s₀.afterAll (.migrad .standard :: later)).StoresConsistent := by
  obtain ⟨s₀, hbuild, hfound⟩ := exists_build_oneParameter (quasiNewton .standard) ()
    (P := fun s => (s.afterAll [.migrad .standard]).fmin.isSome) (by decide +kernel)
  exact ⟨s₀, hbuild, hfound, fun later => minimum_in_order hbuild (.migrad .standard :: later)⟩

end FitSession
