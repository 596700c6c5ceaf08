import FitSession.Proofs.Covariance.Forced
import FitSession.Proofs.Session.Attempts
import FitSession.Proofs.Session.Hesse
import FitSession.Proofs.Session.Warnings

/-!
# Reports of forced covariances

Fits and refinements of the stored minimum keep in the minimum whether its covariance is forced,
from where it is reported. What is computed for a state alone is a state again, and has no place for
that.

* `Session.ReportsAt`: a command leaves the covariance at a point, and reports if it is forced;
* `Session.FitReports`, `Session.HesseReports`: what fits and refinements leave;
* `forced_covariance_reported`: **which forced covariances are reported**;
* `forced_covariance_unreported`: two that are not.
-/

namespace FitSession

variable {σ α : Type} [Scalar α]

/-! ## What commands report -/

namespace Session

variable {s : Session σ α} {o : MigradOptions α} {m : FunctionMinimum α} {callLimit : Option Nat}

omit [Scalar α] in
theorem mem_forcedReport :
    .covarianceMadePosDef ∈ forcedReport m ↔ m.hasMadePosdefCovar = true := by
  unfold forcedReport
  split <;> simp [*]

omit [Scalar α] in
theorem not_mem_unsetReport : .covarianceMadePosDef ∉ s.unsetReport := by
  unfold unsetReport
  split <;> simp

omit [Scalar α] in
/-- A forced covariance is reported among what else is wrong with a minimum. -/
theorem mem_reports (k : Nat) :
    .covarianceMadePosDef ∈ m.reports k ↔ m.hasMadePosdefCovar = true := by
  rw [FunctionMinimum.reports, List.mem_append]
  refine (or_iff_right ?_).trans mem_forcedReport
  split <;> simp

/-- A command leaves the current state with the covariance of a problem at a point, for the errordef
of the session, and reports it exactly if an eigenvalue was lifted for it. -/
structure ReportsAt [Differences α] (s : Session σ α) (c : Command α) (p : Problem α)
    (theta : List α) (useGradient : Bool) : Prop where
  covariance : (s.after c).currentState.covariance = p.covarianceAt theta useGradient s.errordef
  report : .covarianceMadePosDef ∈ s.recorded c ↔ p.isForcedAt theta useGradient = true

/-- What a fit leaves: the covariance at the lowest point that its last attempt met. Without a free
parameter there is nothing to invert, and the covariance is the empty one. -/
inductive FitReports [Differences α] (choose : SolverOptions α → Solvers α)
    (solver : SolverOptions α) (s : Session σ α) (o : MigradOptions α) : Prop
  | fixed (hfixed : s.currentState.nFree = 0)
    (hempty : (s.after (.migrad o)).currentState.covariance = some ⟨[]⟩)
    (hquiet : .covarianceMadePosDef ∉ s.recorded (.migrad o))
  | free {ms last b m theta} (hfree : 0 < s.currentState.nFree)
    (hrejects : Rejects (s.call o) s.currentState s.bench ms last b)
    (hlast : s.call o last b = .ok m (s.after (.migrad o)).bench)
    (hstored : (s.after (.migrad o)).fmin = some m)
    (hlowest : (afterMinimization choose solver s.cost last (s.options o.callLimit o.precision) b
      (none : Best α)).memory = some (m.fval, theta))
    (hreports : s.ReportsAt (.migrad o) ⟨s.cost, .ofState last⟩ theta
      (s.cost.hasGrad && s.strategy != .careful))

/-- What a computation of the covariance leaves: that at the stored minimum, if this is where the
current state is, and else that at the current state. Only the former is reported if it is
forced. -/
structure HesseReports [Differences α] (s : Session σ α) (callLimit : Option Nat) : Prop where
  atMinimum : s.isAtMinimum = true → ∃ m, s.fmin = some m ∧
    s.ReportsAt (.hesse callLimit) ⟨s.cost, .ofState m.state⟩
      ((ParameterMap.ofState m.state).toInternal m.state) false
  atState : s.isAtMinimum = false → (s.after (.hesse callLimit)).currentState.covariance =
    (⟨s.cost, .ofState s.currentState⟩ : Problem α).covarianceAt
      ((ParameterMap.ofState s.currentState).toInternal s.currentState) false s.errordef
  unreported : s.isAtMinimum = false → .covarianceMadePosDef ∉ s.recorded (.hesse callLimit)

variable [Differences α] {choose : SolverOptions α → Solvers α} {solver : SolverOptions α}

theorem fitReports (hengine : s.engine = quasiNewtonWith choose solver)
    (htol : isPositive s.tol = true)
    (h : succeeded (migrad o s) = true) : s.FitReports choose solver o := by
  obtain ⟨_, u, h⟩ := exists_ok_of_succeeded h
  have hafter : s.after (.migrad o) = u := after_of_ok h
  obtain ⟨ms, last, b, m, hrejects, hlast, hstores⟩ := stores_of_migrad htol h
  have hcall : s.call o = fun start =>
      quasiNewtonFit choose solver s.cost start (s.options o.callLimit o.precision) := by
    unfold call
    rw [hengine]
    rfl
  -- no attempt changes the errordef, or fixes or frees a parameter
  have hup : b.up = s.errordef := by
    refine hrejects.preserves (P := fun _ b => b.up = s.errordef) (fun hb hm => ?_) rfl
    rw [hcall] at hm
    exact ((onward_quasiNewtonFit _ _ _).of_ok hm).up.trans hb
  have hflags : last.flags = s.currentState.flags := by
    refine hrejects.preserves (P := fun start _ => start.flags = s.currentState.flags)
      (fun hstart hm => ?_) rfl
    rw [hcall] at hm
    exact (remeasured_quasiNewtonFit (stayInSpaces_all choose) _ _ _ _ _ _ hm).flags.trans hstart
  have hnFree := ParameterState.nFree_congr hflags
  have hcurrent : (s.after (.migrad o)).currentState = m.state := by rw [hafter, hstores.current]
  have hmem : .covarianceMadePosDef ∈ s.recorded (.migrad o) ↔ m.hasMadePosdefCovar = true := by
    rw [recorded_eq (by rw [hafter, hstores.warnings, List.append_assoc]), List.mem_append,
      or_iff_right not_mem_unsetReport, mem_reports]
  have hfit := hlast
  rw [hcall] at hfit
  rcases s.currentState.nFree.eq_zero_or_pos with hfixed | hfree
  · refine .fixed hfixed ?_ ?_
    · rw [hcurrent, (fixed_of_fit (hnFree.trans hfixed) hfit).2]
      rfl
    · rw [hmem, not_forced_of_fixed (hnFree.trans hfixed) hfit]
      exact Bool.false_ne_true
  · obtain ⟨theta, hlowest, hcovariance, hforced⟩ := inverted_of_fit (hnFree ▸ hfree) hfit
    refine .free hfree hrejects (hafter ▸ hlast) (hafter ▸ hstores.fmin) hlowest ⟨?_, ?_⟩
    · rw [hcurrent, hcovariance, hup]
      rfl
    · rw [hmem, hforced]
      rfl

theorem hesseReports (hengine : s.engine = quasiNewtonWith choose solver)
    (h : succeeded (hesse callLimit s) = true) : s.HesseReports callLimit := by
  obtain ⟨_, u, h⟩ := exists_ok_of_succeeded h
  have hafter : s.after (.hesse callLimit) = u := after_of_ok h
  cases hesseEnds_of_eq_ok h with
  | @refined m m' b hat hm hrefined =>
    rw [hengine] at hrefined
    change Refinement.ofRun (fun m => refineMinimum s.cost m callLimit) (s.bench, m) = _ at hrefined
    obtain ⟨hcovariance, hforced⟩ := inverted_of_refineMinimum (Refinement.ofRun_eq_ok hrefined)
    refine ⟨fun _ => ⟨m, hm, ?_, ?_⟩, by simp [hat], by simp [hat]⟩
    · rw [hafter]
      exact hcovariance
    · rw [recorded_eq (by rw [hafter]; exact List.append_assoc _ _ _), List.mem_append,
        or_iff_right not_mem_unsetReport, mem_forcedReport, hforced]
  | @apart state b hat hstate =>
    rw [hengine] at hstate
    obtain ⟨r, b₁, hrefined, hstate⟩ := bind_eq_ok.mp hstate
    cases hstate
    refine ⟨by simp [hat], fun _ => ?_, fun _ => ?_⟩
    · rw [hafter]
      exact (inverted_of_refineState hrefined).1
    · rw [recorded_eq (by rw [hafter]; rfl)]
      exact not_mem_unsetReport
  | kept hat hstate =>
    rw [hengine] at hstate
    obtain ⟨r, b₁, -, hstate⟩ := bind_eq_ok.mp hstate
    cases hstate

end Session

/-- **Which forced covariances are reported.** In every session with the quasi-Newton engine that
can be reached, whatever its solvers and its differences, a fit that succeeds, and a computation of
the covariance where the current state is that of the stored minimum, report exactly those
covariances for which an eigenvalue was lifted. A computation for another current state, before any
fit or after an edit, leaves a covariance from the same inversion and never reports it. -/
theorem forced_covariance_reported [Differences α] {spec : SessionSpec α} {cost : Cost α}
    {choose : SolverOptions α → Solvers α} {solver : SolverOptions α} {memory : σ} {shared : Int}
    {s₀ : Session σ α}
    (hbuild : spec.build cost (quasiNewtonWith choose solver) memory shared = .ok s₀)
    (cs : List (Command α)) :
    (∀ o, succeeded (Session.migrad o (s₀.afterAll cs)) = true →
      (s₀.afterAll cs).FitReports choose solver o) ∧
    ∀ callLimit, succeeded (Session.hesse callLimit (s₀.afterAll cs)) = true →
      (s₀.afterAll cs).HesseReports callLimit := by
  have hengine : (s₀.afterAll cs).engine = quasiNewtonWith choose solver :=
    (s₀.afterAll_sameSetup cs).engine.trans (SessionSpec.fresh_of_build hbuild).engine
  exact ⟨fun _ => Session.fitReports hengine (Session.tolerance_afterAll hbuild cs),
    fun _ => Session.hesseReports hengine⟩

/-- A valley with its lowest point at 1 and 2: steep in one direction and nearly flat in the
other. -/
def valley : Cost Float := .ofFunction fun xs =>
  let x := xs[0]?.getD 0 - 1
  let y := xs[1]?.getD 0 - 2
  .ok (x * x + 1e-4 * (y * y))

/-- The covariance of the valley at a state is forced. -/
def valleyIsForcedAt (state : ParameterState Float) : Bool :=
  Problem.isForcedAt ⟨valley, .ofState state⟩ ((ParameterMap.ofState state).toInternal state) false

/-- In the valley the covariance is forced; after a fit this is reported, and again when it is
computed anew at the minimum. -/
theorem forced_covariance_reported_valley :
    ∃ (s₀ : Session Unit Float) (m : FunctionMinimum Float),
      twoParameters.build valley (quasiNewton .standard) () 0 = .ok s₀ ∧
        succeeded (Session.migrad .standard s₀) = true ∧
        s₀.FitReports SolverOptions.solvers .standard .standard ∧
        succeeded (Session.hesse none (s₀.afterAll [.migrad .standard])) = true ∧
        (s₀.afterAll [.migrad .standard]).fmin = some m ∧ valleyIsForcedAt m.state = true ∧
        .covarianceMadePosDef ∈ (s₀.afterAll [.migrad .standard]).recorded (.hesse none) := by
  obtain ⟨s₀, hbuild, hP⟩ := exists_ok_of_any
    (x := twoParameters.build valley (quasiNewton .standard) () 0)
    (P := fun s => succeeded (Session.migrad .standard s) &&
      succeeded (Session.hesse none (s.afterAll [.migrad .standard])) &&
      (s.afterAll [.migrad .standard]).isAtMinimum &&
      (s.afterAll [.migrad .standard]).fmin.any fun m => valleyIsForcedAt m.state)
    (by decide +kernel)
  simp only [Bool.and_eq_true] at hP
  obtain ⟨⟨⟨hfit, hhesse⟩, hat⟩, hforced⟩ := hP
  have hreports := (forced_covariance_reported hbuild []).1 .standard hfit
  obtain ⟨m, hm, hrefined⟩ :=
    ((forced_covariance_reported hbuild [.migrad .standard]).2 none hhesse).atMinimum hat
  have hcost : (s₀.afterAll [.migrad .standard]).cost = valley :=
    (s₀.afterAll_sameSetup [.migrad .standard]).cost.trans (SessionSpec.fresh_of_build hbuild).cost
  rw [hm] at hforced
  refine ⟨s₀, m, hbuild, hfit, hreports, hhesse, hm, hforced, hrefined.report.mpr ?_⟩
  rw [hcost]
  exact hforced

/-- A fit, and an edit of its result. -/
def fitWithEdit : List (Command Float) :=
  [.migrad .standard, .write (.values (.item (.name "x") 0))]

/-- In the valley the covariance is forced also before any fit, and after an edit of its result.
There it is computed for the current state alone, and this is not reported. -/
theorem forced_covariance_unreported :
    ∃ s₀ : Session Unit Float,
      twoParameters.build valley (quasiNewton .standard) () 0 = .ok s₀ ∧
        ∀ s ∈ [s₀, s₀.afterAll fitWithEdit],
          succeeded (Session.hesse none s) = true ∧
          valleyIsForcedAt s.currentState = true ∧
          (s.after (.hesse none)).currentState.hasCovariance = true ∧
          (s.after (.hesse none)).currentState.covariance =
            Problem.covarianceAt ⟨valley, .ofState s.currentState⟩
              ((ParameterMap.ofState s.currentState).toInternal s.currentState) false s.errordef ∧
          .covarianceMadePosDef ∉ s.recorded (.hesse none) := by
  obtain ⟨s₀, hbuild, hP⟩ := exists_ok_of_any
    (x := twoParameters.build valley (quasiNewton .standard) () 0)
    (P := fun s => [s, s.afterAll fitWithEdit].all fun s =>
      succeeded (Session.hesse none s) && valleyIsForcedAt s.currentState &&
        (s.after (.hesse none)).currentState.hasCovariance && !s.isAtMinimum) (by decide +kernel)
  refine ⟨s₀, hbuild, fun s hs => ?_⟩
  obtain ⟨hcost, hengine⟩ : s.cost = valley ∧ s.engine = quasiNewton .standard := by
    have hfresh := SessionSpec.fresh_of_build hbuild
    have hsetup := s₀.afterAll_sameSetup fitWithEdit
    rcases List.mem_pair.mp hs with rfl | rfl
    · exact ⟨hfresh.cost, hfresh.engine⟩
    · exact ⟨hsetup.cost.trans hfresh.cost, hsetup.engine.trans hfresh.engine⟩
  have hs := List.all_eq_true.mp hP s hs
  simp only [Bool.and_eq_true, Bool.not_eq_true'] at hs
  obtain ⟨⟨⟨hhesse, hforced⟩, hcovariance⟩, hat⟩ := hs
  have hreports := Session.hesseReports hengine hhesse
  exact ⟨hhesse, hforced, hcovariance, hcost ▸ hreports.atState hat, hreports.unreported hat⟩

end FitSession
