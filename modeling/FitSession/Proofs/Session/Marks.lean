import FitSession.Proofs.Covariance.Errordef
import FitSession.Proofs.Session.Attempts
import FitSession.Proofs.Session.Errordef
import FitSession.Proofs.Session.Hesse
import FitSession.Proofs.Session.States

/-!
# The errordefs behind a minimum

The stored minimum is marked with the errordef of the session. Its goal and its covariance belong to
the errordefs with which they were computed, and these are other ones once the errordef has been set
anew: nothing is computed again then, nor scaled.

* `Marks`, `Session.marksAfter`, `Session.marksAfterAll`: the errordefs with which the goal and the
  covariance of the stored minimum were computed;
* `FunctionMinimum.IsComputedWith`, `storesMarks_after`: **what each command makes of them**;
* `stored_minimum_marks`: **goal and covariance belong to the errordefs that were noted**, which are
  the mark of the minimum as long as no other errordef is set;
* `goal_left_by_setErrordef`: a minimum whose goal and covariance belong to another errordef than
  the one it is marked with.
-/

namespace FitSession

variable {σ α : Type} [Scalar α]

/-- The errordefs with which the goal and the covariance of a minimum were computed. -/
structure Marks (α : Type) where
  goal : α
  covariance : α

/-- The goal of a minimum was computed with the tolerance `tol`, and goal and covariance with these
errordefs. -/
structure FunctionMinimum.IsComputedWith [Differences α] (m : FunctionMinimum α) (cost : Cost α)
    (tol : α) (k : Marks α) : Prop where
  goal : m.edmGoal = FitSession.edmGoal tol k.goal
  covariance : m.HasCovarianceFor cost k.covariance

namespace Session

/-- The errordefs behind the stored minimum after a command. -/
def marksAfter (s : Session σ α) (k : Marks α) : Command α → Marks α
  | .migrad o => if succeeded (migrad o s) then ⟨s.errordef, s.errordef⟩ else k
  | .hesse callLimit =>
    if s.isAtMinimum && succeeded (hesse callLimit s) then { k with covariance := s.errordef }
    else k
  | _ => k

/-- The errordefs behind the stored minimum after a run. -/
def marksAfterAll (s : Session σ α) (k : Marks α) : List (Command α) → Marks α
  | [] => k
  | c :: cs => (s.after c).marksAfterAll (s.marksAfter k c) cs

/-- The tolerance of the session is `tol` all along a run. -/
def KeepsTol (s : Session σ α) (tol : α) : List (Command α) → Prop
  | [] => s.tol = tol
  | c :: cs => s.tol = tol ∧ (s.after c).KeepsTol tol cs

/-- The stored minimum, if there is one, was computed with these errordefs. -/
def StoresMarks [Differences α] (tol : α) (k : Marks α) (s : Session σ α) : Prop :=
  ∀ m, s.fmin = some m → m.IsComputedWith s.cost tol k

variable {s t : Session σ α} {tol : α} {k : Marks α} {choose : SolverOptions α → Solvers α}
  {solver : SolverOptions α}

/-! ## One command -/

theorem StoresMarks.of_sameStates [Differences α] (hs : s.StoresMarks tol k) (h : SameStates s t)
    (hcost : t.cost = s.cost) : t.StoresMarks tol k := by
  intro m' hm'
  have hfmin := h.fmin
  rw [hm'] at hfmin
  generalize hfound : s.fmin = fmin at hfmin
  cases hfmin with
  | @some m _ hm =>
    obtain ⟨hgoal, hcovariance⟩ := hs m hfound
    rw [hcost]
    refine ⟨?_, hcovariance.congr (by rw [hm])⟩
    rw [hm]
    exact hgoal

theorem storesMarks_write [Differences α] (hs : s.StoresMarks tol k) (w : ViewWrite α) :
    (endState (w.run s)).StoresMarks tol k := by
  have h := w.mirrors_run s
  generalize w.onState s.registry s.currentState = answer at h
  generalize w.run s = result at h
  have hreplace (st : ParameterState α) : (s.replaceState st).StoresMarks tol k := by
    intro m hm
    rw [Session.cost_replaceState]
    exact hs m (by simpa using hm)
  cases h with
  | written st => exact hreplace st
  | refused e => exact hs
  | missing e _ => exact hreplace _

/-- A minimum that is found is computed with the errordef of the session. -/
theorem storesMarks_migrad [Differences α] (hengine : s.engine = quasiNewtonWith choose solver)
    (hpositive : isPositive s.tol = true) {o : MigradOptions α} (h : migrad o s = .ok () t) :
    t.StoresMarks s.tol ⟨s.errordef, s.errordef⟩ := by
  obtain ⟨m, made, hattempts, hm⟩ := attempts_of_migrad hpositive h
  have hcost : t.cost = s.cost := by
    have hsetup := (change_migrad o s).sameSetup
    rw [h] at hsetup
    exact hsetup.cost
  have hfit {start : ParameterState α} {b c : Bench σ α} {m : FunctionMinimum α}
      (hb : b.up = s.errordef) (h : s.call o start b = .ok m c) :
      m.IsComputedWith s.cost s.tol ⟨s.errordef, s.errordef⟩ := by
    unfold call at h
    rw [hengine] at h
    exact hb ▸ ⟨edmGoal_quasiNewtonFit h, hasCovarianceFor_quasiNewtonFit h⟩
  have hkeeps (start : ParameterState α) :
      Keeps (fun b c => b.up = s.errordef → c.up = s.errordef) (s.call o start) := by
    intro b hb
    unfold call
    rw [hengine]
    exact (quasiNewtonWith_keepsErrordef.migrad _ _ _ b).trans hb
  have hcomputed := attempts_ends (I := fun b => b.up = s.errordef)
    (P := fun m _ => m.IsComputedWith s.cost s.tol ⟨s.errordef, s.errordef⟩) hkeeps
    (fun hb h => hfit hb h) rfl hattempts
  intro m' hm'
  obtain rfl : m = m' := Option.some.inj (hm.symm.trans hm')
  rw [hcost]
  exact hcomputed

/-- The covariance at the minimum is computed with the errordef of the session; the goal is what it
was. That of the current state alone does not matter. -/
theorem storesMarks_hesse [Differences α] (hengine : s.engine = quasiNewtonWith choose solver)
    (callLimit : Option Nat) (hs : s.StoresMarks tol k) :
    (endState (hesse callLimit s)).StoresMarks tol (s.marksAfter k (.hesse callLimit)) := by
  have hcost := (change_hesse (c := .hesse callLimit) callLimit s).sameSetup.cost
  cases h : hesse callLimit s with
  | error e t =>
    have hmarks : s.marksAfter k (.hesse callLimit) = k := by simp [marksAfter, h, succeeded]
    have ht : SameStates s t :=
      sameStates_of_hesse_error (hengine ▸ quasiNewtonWith_refinesWhole)
        (hengine ▸ quasiNewtonWith_keepsErrordef) h
    rw [h] at hcost
    rw [hmarks]
    exact hs.of_sameStates ht hcost
  | ok _ t =>
    cases hesseEnds_of_eq_ok h with
    | @refined m m' b hat hm hrefined =>
      rw [hengine] at hrefined
      change Refinement.ofRun (fun m => refineMinimum s.cost m callLimit) (s.bench, m) = _
        at hrefined
      obtain ⟨hgoal, hcovariance⟩ :=
        hasCovarianceFor_refineMinimum (Refinement.ofRun_eq_ok hrefined)
      have hmarks : s.marksAfter k (.hesse callLimit) = { k with covariance := s.errordef } := by
        simp [marksAfter, hat, h, succeeded]
      rw [hmarks]
      rintro m'' ⟨⟩
      exact ⟨hgoal.trans (hs m hm).goal, hcovariance⟩
    | apart hat | kept hat =>
      have hmarks : s.marksAfter k (.hesse callLimit) = k := by simp [marksAfter, hat]
      rw [hmarks]
      exact hs

/-- **What each command makes of the goal and the covariance of the stored minimum.** -/
theorem storesMarks_after [Differences α] (hengine : s.engine = quasiNewtonWith choose solver)
    (hpositive : isPositive s.tol = true) (hs : s.StoresMarks s.tol k) (c : Command α) :
    (s.after c).StoresMarks s.tol (s.marksAfter k c) := by
  have hcost := (change_after s c).sameSetup.cost
  have hleft (h : c.touchesStates = false) : (s.after c).StoresMarks s.tol k :=
    hs.of_sameStates (sameStates_after s h) hcost
  cases c with
  | write w => exact storesMarks_write hs w
  | migrad o =>
    change (endState (migrad o s)).StoresMarks _ _
    cases h : migrad o s with
    | ok _ t =>
      have hmarks : s.marksAfter k (.migrad o) = ⟨s.errordef, s.errordef⟩ := by
        simp [marksAfter, h, succeeded]
      rw [hmarks]
      exact storesMarks_migrad hengine hpositive h
    | error e t =>
      have hmarks : s.marksAfter k (.migrad o) = k := by simp [marksAfter, h, succeeded]
      change (endState (migrad o s)).cost = _ at hcost
      rw [h] at hcost
      rw [hmarks]
      exact hs.of_sameStates (sameStates_of_migrad_error h) hcost
  | hesse callLimit => exact storesMarks_hesse hengine callLimit hs
  | reset =>
    intro m hm
    cases hm
  | _ => exact hleft rfl

/-! ## Whole runs -/

theorem afterAll_append (s : Session σ α) (cs ds : List (Command α)) :
    s.afterAll (cs ++ ds) = (s.afterAll cs).afterAll ds := List.foldl_append

theorem marksAfterAll_append (s : Session σ α) (k : Marks α) (cs ds : List (Command α)) :
    s.marksAfterAll k (cs ++ ds) = (s.afterAll cs).marksAfterAll (s.marksAfterAll k cs) ds := by
  induction cs generalizing s k with
  | nil => rfl
  | cons c cs ih => exact ih (s.after c) (s.marksAfter k c)

theorem storesMarks_afterAll [Differences α] (hengine : s.engine = quasiNewtonWith choose solver)
    (hpositive : isPositive tol = true) {cs : List (Command α)} (htol : s.KeepsTol tol cs)
    (hs : s.StoresMarks tol k) :
    (s.afterAll cs).StoresMarks tol (s.marksAfterAll k cs) := by
  induction cs generalizing s k with
  | nil => exact hs
  | cons c cs ih =>
    obtain ⟨rfl, htol⟩ := htol
    exact ih ((change_after s c).sameSetup.engine.trans hengine) htol
      (storesMarks_after hengine hpositive hs c)

/-- A command that sets no errordef leaves the marks at the errordef. -/
theorem marksAfter_errordef (hE : s.engine.FollowsErrordef) {c : Command α}
    (hc : ∀ up, c ≠ .setErrordef up) :
    s.marksAfter ⟨s.errordef, s.errordef⟩ c =
      ⟨(s.after c).errordef, (s.after c).errordef⟩ := by
  have hup : (s.after c).errordef = s.errordef :=
    ((change_after s c).errordef hE).resolve_right fun ⟨up, hset, _⟩ => hc up hset
  rw [hup]
  cases c <;> simp [marksAfter]

theorem marksAfterAll_errordef (hE : s.engine.FollowsErrordef) {cs : List (Command α)}
    (hcs : ∀ up, Command.setErrordef up ∉ cs) :
    s.marksAfterAll ⟨s.errordef, s.errordef⟩ cs =
      ⟨(s.afterAll cs).errordef, (s.afterAll cs).errordef⟩ := by
  induction cs generalizing s with
  | nil => rfl
  | cons c cs ih =>
    have hc := marksAfter_errordef hE fun up h => hcs up (h ▸ List.mem_cons_self)
    have hEc : (s.after c).engine.FollowsErrordef := by
      rwa [(change_after s c).sameSetup.engine]
    rw [marksAfterAll, hc]
    exact ih hEc fun up h => hcs up (List.mem_cons_of_mem _ h)

end Session

/-- **The errordefs behind the stored minimum.** After every run of a session with the quasi-Newton
engine, whatever its solvers and its differences, along which the tolerance stays, the stored
minimum is marked with the errordef; its goal and its covariance are those for the errordefs that
were in place when they were computed, the goal in the last fit that succeeded, and the covariance
in that fit or at the minimum since then. If no errordef was set after that fit, all of these are
one errordef. -/
theorem stored_minimum_marks [OrderedScalar α] [Differences α] {spec : SessionSpec α}
    {cost : Cost α} {choose : SolverOptions α → Solvers α} {solver : SolverOptions α} {memory : σ}
    {shared : Int} {s₀ : Session σ α} {tol : α}
    (hbuild : spec.build cost (quasiNewtonWith choose solver) memory shared = .ok s₀)
    {cs : List (Command α)} (htol : s₀.KeepsTol tol cs) :
    (∀ m, (s₀.afterAll cs).fmin = some m →
      m.up = (s₀.afterAll cs).errordef ∧
        m.IsComputedWith cost tol (s₀.marksAfterAll ⟨s₀.errordef, s₀.errordef⟩ cs)) ∧
      ∀ before o later, cs = before ++ .migrad o :: later →
        succeeded (Session.migrad o (s₀.afterAll before)) = true →
          (∀ up, Command.setErrordef up ∉ later) →
            s₀.marksAfterAll ⟨s₀.errordef, s₀.errordef⟩ cs =
              ⟨(s₀.afterAll cs).errordef, (s₀.afterAll cs).errordef⟩ := by
  have hfresh := SessionSpec.fresh_of_build hbuild
  have hsetup := s₀.afterAll_sameSetup cs
  have hE : s₀.engine.FollowsErrordef := hfresh.engine ▸ quasiNewtonWith_followsErrordef
  constructor
  · intro m hm
    have hpositive : isPositive tol = true := by
      have htol₀ : s₀.tol = tol := by
        cases cs with
        | nil => exact htol
        | cons => exact htol.1
      exact htol₀ ▸ Session.tolerance_afterAll hbuild []
    have hs₀ : s₀.StoresMarks tol ⟨s₀.errordef, s₀.errordef⟩ := fun m hm => by
      rw [hfresh.fmin] at hm
      cases hm
    have hcomputed := Session.storesMarks_afterAll hfresh.engine hpositive htol hs₀ m hm
    rw [hsetup.cost, hfresh.cost] at hcomputed
    exact ⟨(errordef_in_order quasiNewtonWith_followsErrordef hbuild cs).1.minimum m hm, hcomputed⟩
  · rintro before o later rfl hfit hlater
    rw [Session.marksAfterAll_append, Session.afterAll_append]
    have hEb : (s₀.afterAll before).engine.FollowsErrordef := by
      rwa [(s₀.afterAll_sameSetup before).engine]
    generalize s₀.afterAll before = s at hfit hEb ⊢
    generalize s₀.marksAfterAll _ before = k
    -- whatever the marks were, the fit makes them the errordef
    have hmarks : s.marksAfter k (.migrad o) = s.marksAfter ⟨s.errordef, s.errordef⟩ (.migrad o) :=
      (if_pos hfit).trans (if_pos hfit).symm
    have hEc : (s.after (.migrad o)).engine.FollowsErrordef := by
      rwa [(change_after s _).sameSetup.engine]
    rw [Session.marksAfterAll, hmarks, Session.marksAfter_errordef (c := .migrad o) hEb nofun]
    exact Session.marksAfterAll_errordef hEc hlater

/-- A fit, a new errordef, and the covariance at the minimum. -/
def fitWithNewErrordef : List (Command Float) := [.migrad .standard, .setErrordef 4, .hesse none]

/-- The covariance of one parameter is computed anew for the new errordef, the goal is not. -/
theorem stored_minimum_marks_oneParameter :
    ∃ (s₀ : Session Unit Float) (m : FunctionMinimum Float),
      oneParameter.build sumOfSquares (quasiNewton .standard) () 0 = .ok s₀ ∧
        s₀.KeepsTol 0.1 fitWithNewErrordef ∧ (s₀.afterAll fitWithNewErrordef).fmin = some m ∧
          m.up = 4 ∧ m.edmGoal = edmGoal 0.1 1 ∧ m.HasCovarianceFor sumOfSquares 4 := by
  obtain ⟨s₀, hbuild, h⟩ := exists_build_oneParameter (quasiNewton .standard) ()
    (P := fun s =>
      let fit : List (Command Float) := [.migrad .standard]
      let marks := s.marksAfterAll ⟨s.errordef, s.errordef⟩ fitWithNewErrordef
      s.tol = 0.1 ∧ (s.afterAll fit).tol = 0.1 ∧
        ((s.afterAll fit).after (.setErrordef 4)).tol = 0.1 ∧
          (s.afterAll fitWithNewErrordef).tol = 0.1 ∧ marks.goal = 1 ∧ marks.covariance = 4 ∧
            (s.afterAll fitWithNewErrordef).errordef = 4 ∧
              (s.afterAll fitWithNewErrordef).fmin.isSome = true) (by decide +kernel)
  obtain ⟨htol, htol₁, htol₂, htol₃, hgoal, hcovariance, herrordef, hm⟩ := of_decide_eq_true h
  obtain ⟨m, hm⟩ := Option.isSome_iff_exists.mp hm
  have hkeeps : s₀.KeepsTol 0.1 fitWithNewErrordef := ⟨htol, htol₁, htol₂, htol₃⟩
  obtain ⟨hup, hcomputed⟩ := (stored_minimum_marks hbuild hkeeps).1 m hm
  refine ⟨s₀, m, hbuild, hkeeps, hm, hup.trans herrordef, ?_, ?_⟩
  · rw [hcomputed.goal, hgoal]
  · rw [← hcovariance]
    exact hcomputed.covariance

/-- After a new errordef, the goal of the minimum is not the one for its mark, and the covariance is
still that of the fit. -/
theorem goal_left_by_setErrordef :
    ∃ (s₀ : Session Unit Float) (m m' : FunctionMinimum Float),
      oneParameter.build sumOfSquares (quasiNewton .standard) () 0 = .ok s₀ ∧
        (s₀.after (.migrad .standard)).fmin = some m ∧
          ((s₀.after (.migrad .standard)).after (.setErrordef 4)).fmin = some m' ∧
            m.up = 1 ∧ m'.up = 4 ∧ m'.state = m.state ∧ m'.edmGoal ≠ edmGoal s₀.tol m'.up := by
  obtain ⟨s₀, hbuild, h⟩ := exists_build_oneParameter (quasiNewton .standard) ()
    (P := fun s => (s.after (.migrad .standard)).fmin.any fun m =>
      m.up = 1 ∧ m.edmGoal ≠ edmGoal s.tol 4) (by decide +kernel)
  obtain ⟨m, hm, h⟩ := Option.any_eq_true _ _ |>.mp h
  obtain ⟨hup, hgoal⟩ := of_decide_eq_true h
  have hfour : isPositive (4 : Float) = true := by decide +kernel
  have hset := Session.setErrordef_eq_ok hfour (s₀.after (.migrad .standard))
  refine ⟨s₀, m, { m with up := 4 }, hbuild, hm, ?_, hup, rfl, rfl, hgoal⟩
  change (endState (Session.setErrordef 4 (s₀.after (.migrad .standard)))).fmin = _
  rw [hset]
  exact congrArg (Option.map _) hm

end FitSession
