import FitSession.Proofs.Covariance.Alignment
import FitSession.Proofs.Covariance.Labelled
import FitSession.Proofs.Session.Change
import FitSession.Session.Report

/-!
# Covariances of a session

* `matrix_of_covariance`, `matrix_without_covariance`: when a session has a labelled covariance;
* `CovariancesInStep`, `covariances_in_step`: **covariances follow the free parameters** through
  every run.
-/

namespace FitSession

variable {σ α : Type} [Scalar α] {s : Session σ α}

/-- Without a covariance of the current state there is no matrix. -/
theorem matrix_without_covariance (h : s.currentState.covariance = none)
    (correlation onlyFree : Bool) :
    s.matrix correlation onlyFree = .error (.fitFailed .covarianceMissing) := by
  unfold Session.matrix ParameterState.labelledCovariance
  rw [h]
  rfl

/-- A covariance in step with the current state gives a matrix. -/
theorem matrix_of_covariance {cost : Cost α} {c : DenseMatrix α}
    (hlen : s.currentState.len = s.registry.len) (hc : s.currentState.covariance = some c)
    (haligned : Aligned cost s.currentState c) (correlation onlyFree : Bool) :
    s.matrix correlation onlyFree =
      .ok (if correlation then (s.currentState.labelled s.registry c onlyFree).correlation
        else s.currentState.labelled s.registry c onlyFree) := by
  unfold Session.matrix
  rw [ParameterState.labelledCovariance_eq hlen hc haligned.square]
  rfl

/-- How covariances of a session follow the free parameters. The covariances of the current state
and of the stored minimum have a row for each free parameter of their state, in the order of these.
A matrix is missing exactly if the current state has no covariance, and for no other reason. Its
names are those of the free parameters or all names, in the order of the registry; and what it has
under two names is the entry of the parameters with these names. -/
structure CovariancesInStep (cost : Cost α) (s : Session σ α) : Prop where
  current : IsAligned cost s.currentState
  minimum : ∀ m, s.fmin = some m → IsAligned cost m.state
  missing : ∀ correlation onlyFree,
    (∃ e, s.matrix correlation onlyFree = .error e) ↔ s.currentState.covariance = none
  reason : ∀ correlation onlyFree e,
    s.matrix correlation onlyFree = .error e → e = .fitFailed .covarianceMissing
  names : ∀ correlation onlyFree m, s.matrix correlation onlyFree = .ok m →
    m.names = if onlyFree then s.currentState.freeNames s.registry else s.registry.names
  entries : ∀ onlyFree m c, s.matrix false onlyFree = .ok m → s.currentState.covariance = some c →
    ∀ i ∈ s.currentState.freeIndices, ∀ j ∈ s.currentState.freeIndices,
      m.get (.name (s.registry.nameAt i)) (.name (s.registry.nameAt j)) =
        .ok (c.get (s.currentState.row i) (s.currentState.row j))

/-- What all states have in which the covariance is in step, one entry for each name. -/
theorem covariancesInStep_of_isAligned {cost : Cost α}
    (hlen : s.currentState.len = s.registry.len) (hcurrent : IsAligned cost s.currentState)
    (hminimum : ∀ m, s.fmin = some m → IsAligned cost m.state) : CovariancesInStep cost s := by
  have hmatrix {c : DenseMatrix α} (hc : s.currentState.covariance = some c) :=
    matrix_of_covariance hlen hc (hcurrent c hc)
  refine ⟨hcurrent, hminimum, fun correlation onlyFree => ⟨?_, fun h => ?_⟩,
    fun correlation onlyFree e h => ?_, fun correlation onlyFree m h => ?_,
    fun onlyFree m c h hc i hi j hj => ?_⟩
  · rintro ⟨e, he⟩
    cases hc : s.currentState.covariance with
    | none => rfl
    | some c =>
      rw [hmatrix hc] at he
      cases he
  · exact ⟨_, matrix_without_covariance h correlation onlyFree⟩
  · cases hc : s.currentState.covariance with
    | none =>
      rw [matrix_without_covariance hc] at h
      cases h
      rfl
    | some c =>
      rw [hmatrix hc] at h
      cases h
  · cases hc : s.currentState.covariance with
    | none =>
      rw [matrix_without_covariance hc] at h
      cases h
    | some c =>
      rw [hmatrix hc] at h
      cases h
      cases correlation <;> cases onlyFree <;> rfl
  · rw [hmatrix hc] at h
    cases h
    exact ParameterState.get_labelled hlen hi hj onlyFree

/-- **Covariances follow the free parameters.** After any run with the quasi-Newton engine, whatever
has been fixed, released or limited on the way, every covariance is in step with the free parameters
of its state. -/
theorem covariances_in_step {spec : SessionSpec α} {cost : Cost α} {solver : SolverOptions α}
    {memory : σ} {shared : Int} {s₀ : Session σ α}
    (hbuild : spec.build cost (quasiNewton solver) memory shared = .ok s₀)
    (cs : List (Command α)) : CovariancesInStep cost (s₀.afterAll cs) := by
  have h₀ := SessionSpec.fresh_of_build hbuild
  have hrespects : s₀.engine.Respects s₀.cost (IsAligned cost) := by
    rw [h₀.cost, h₀.engine]
    exact quasiNewtonWith_respects stayInSpaces_length fun _ _ _ h => h.isAligned
  have hstart : IsAligned cost s₀.startState := fun c hc => by
    rw [h₀.covariance] at hc
    cases hc
  have hstates := Session.afterAll_holdsOfStates (writeInvariant_isAligned cost) hrespects
    (h₀.holdsOfStates hstart) cs
  exact covariancesInStep_of_isAligned (h₀.len_currentState quasiNewtonWith_keepsLength cs)
    hstates.current hstates.minimum

/-- After a fit of one parameter there is a covariance, which stays in step whatever follows. -/
theorem covariances_in_step_oneParameter :
    ∃ s₀ : Session Unit Float,
      oneParameter.build sumOfSquares (quasiNewton .standard) () 0 = .ok s₀ ∧
        (s₀.afterAll [.migrad .standard]).currentState.hasCovariance = true ∧
          ∀ later, CovariancesInStep sumOfSquares (s₀.afterAll (.migrad .standard :: later)) := by
  obtain ⟨s₀, hbuild, hknown⟩ := exists_build_oneParameter (quasiNewton .standard) ()
    (P := fun s => (s.afterAll [.migrad .standard]).currentState.hasCovariance) (by decide +kernel)
  exact ⟨s₀, hbuild, hknown, fun later => covariances_in_step hbuild (.migrad .standard :: later)⟩

end FitSession
