import FitSession.Proofs.Covariance.Errordef

/-!
# Forced covariances

A covariance is forced if an eigenvalue of the second derivatives was lifted before they were
inverted. The inversion at a point gives a covariance and tells whether it is forced.

* `Problem.inversionAt`, `Problem.isForcedAt`: the inversion of the second derivatives at a point;
* `Problem.parts_of_curvature`: a curvature has the covariance and the flag of the inversion;
* `inverted_of_fit`, `inverted_of_refineState`, `inverted_of_refineMinimum`: **what the engine
  inverts**.
-/

namespace FitSession

variable {σ μ α : Type} [Scalar α] [Differences α] [Memory μ α]

/-! ## Inversions at a point -/

namespace Problem

/-- The inversion of the second derivatives at a point, if they are known and can be inverted. -/
def inversionAt (p : Problem α) (theta : List α) (useGradient : Bool) : Option (Inversion α) :=
  match p.hessianAt theta useGradient with
  | .ok (.ok h) => invertCurvature h
  | _ => none

/-- An eigenvalue of the second derivatives is lifted before they are inverted. -/
def isForcedAt (p : Problem α) (theta : List α) (useGradient : Bool) : Bool :=
  (p.inversionAt theta useGradient).elim false (·.madePosdef)

variable {p : Problem α} {theta : List α} {useGradient : Bool}

theorem covarianceAt_eq (up : α) : p.covarianceAt theta useGradient up =
    (p.inversionAt theta useGradient).map fun inv =>
      p.map.carriedCovariance theta (inv.inverse.map (2 * up * ·)) := by
  unfold covarianceAt inversionAt
  cases p.hessianAt theta useGradient with
  | error e => rfl
  | ok r => cases r <;> rfl

/-- A curvature has the covariance and the flag of the inversion. -/
theorem parts_of_curvature {b b' : Bench μ α} {c : Option (Curvature α)}
    (h : p.curvature theta useGradient b = .ok c b') :
    c.map (·.external) = p.covarianceAt theta useGradient b.up ∧
      c.elim false (·.madePosdef) = p.isForcedAt theta useGradient := by
  obtain ⟨r, hr, hc⟩ := exists_hessianAt_of_curvature h
  have hinversion : p.inversionAt theta useGradient = r.toOption.bind invertCurvature := by
    rw [inversionAt, hr]
    cases r <;> rfl
  rw [covarianceAt_eq, isForcedAt, hinversion]
  generalize r.toOption.bind invertCurvature = inversion at hc
  cases c <;> cases inversion <;> simp_all

end Problem

omit [Differences α] in
theorem ParameterState.covariance_withCurvature (s : ParameterState α) (free : List Nat)
    (c : Option (Curvature α)) : (s.withCurvature free c).covariance = c.map (·.external) := by
  cases c <;> rfl

omit [Differences α] in
theorem ParameterState.covariance_movedTo (s : ParameterState α) (theta : List α)
    (c : Option (Curvature α)) : (s.movedTo theta c).covariance = c.map (·.external) :=
  covariance_withCurvature _ _ _

/-! ## What is inverted -/

section Inverted

variable {choose : SolverOptions α → Solvers α} {solver : SolverOptions α} {cost : Cost α}
  {state : ParameterState α} {o : EngineOptions α} {m m' : FunctionMinimum α}

/-- Without free parameters nothing is inverted, and no covariance is forced. -/
theorem not_forced_of_fixed {b b' : Bench σ α} (hfixed : state.nFree = 0)
    (h : quasiNewtonFit choose solver cost state o b = .ok m b') :
    m.hasMadePosdefCovar = false := by
  have hreturns (goal : α) : Returns (fun m => m.hasMadePosdefCovar = false)
      (fixedMinimum cost state goal : Run σ α (FunctionMinimum α)) :=
    Returns.bind_right fun _ => Returns.get_bind fun _ => Returns.pure rfl
  unfold quasiNewtonFit at h
  rw [get_bind_apply, if_pos ((ParameterMap.nFree_ofState state).trans hfixed)] at h
  exact hreturns _ _ _ _ h

/-- A fit inverts the second derivatives at the lowest point of its search. -/
theorem inverted_of_fit {b b' : Bench σ α} (hfree : 0 < state.nFree)
    (h : quasiNewtonFit choose solver cost state o b = .ok m b') :
    ∃ theta,
      (afterMinimization choose solver cost state o b (none : Best α)).memory =
        some (m.fval, theta) ∧
      m.state.covariance = Problem.covarianceAt ⟨cost, .ofState state⟩ theta
        (cost.hasGrad && o.strategy != .careful) b.up ∧
      m.hasMadePosdefCovar = Problem.isForcedAt ⟨cost, .ofState state⟩ theta
        (cost.hasGrad && o.strategy != .careful) := by
  obtain ⟨theta, c, b₁, b₂, hphase, hmemory, hcurvature, hstate, hmade, -⟩ :=
    parts_of_fit hfree h
  obtain ⟨hcovariance, hforced⟩ := Problem.parts_of_curvature hcurvature
  refine ⟨theta, ?_, ?_, hmade.trans hforced⟩
  · rw [afterMinimization, hphase, endState_ok, hmemory]
  · rw [hstate, ParameterState.covariance_movedTo, hcovariance, up_of_minimizationPhase hphase]

/-- A state is refined by the inversion at the point of its values. -/
theorem inverted_of_refineState {b b' : Bench σ α} {r : ParameterState α × Option (Curvature α)}
    (h : refineState cost state b = .ok r b') :
    r.1.covariance = Problem.covarianceAt ⟨cost, .ofState state⟩
        ((ParameterMap.ofState state).toInternal state) false b.up ∧
      r.2.elim false (·.madePosdef) = Problem.isForcedAt ⟨cost, .ofState state⟩
        ((ParameterMap.ofState state).toInternal state) false := by
  obtain ⟨b₁, b₂, hup, hcurvature, hstate⟩ := exists_curvature_of_refineState h
  obtain ⟨hcovariance, hforced⟩ := Problem.parts_of_curvature hcurvature
  exact ⟨by rw [hstate, ParameterState.covariance_withCurvature, hcovariance, hup], hforced⟩

/-- A minimum is refined by the inversion at the point of its state. -/
theorem inverted_of_refineMinimum {b b' : Bench σ α} {callLimit : Option Nat}
    (h : refineMinimum cost m callLimit b = .ok m' b') :
    m'.state.covariance = Problem.covarianceAt ⟨cost, .ofState m.state⟩
        ((ParameterMap.ofState m.state).toInternal m.state) false b.up ∧
      m'.hasMadePosdefCovar = Problem.isForcedAt ⟨cost, .ofState m.state⟩
        ((ParameterMap.ofState m.state).toInternal m.state) false := by
  unfold refineMinimum at h
  rw [get_bind_apply] at h
  obtain ⟨r, b₁, hrefined, h⟩ := bind_eq_ok.mp h
  cases h
  exact inverted_of_refineState hrefined

end Inverted

end FitSession
