import FitSession.Proofs.Engine.FiniteObjective

/-!
# The errordef of a covariance

A covariance is twice the errordef times the inverse of the matrix of second derivatives. The
errordef is that of the bench at which it was computed, as is the one in the goal of a fit.

* `Problem.hessianAt`, `Problem.hessian_apply`: the second derivatives at a point, at any bench;
* `Inversion.toCurvature`, `Problem.exists_hessian_of_curvature`: what a curvature is made of;
* `Problem.covarianceAt`, `Problem.covarianceAt_of_curvature`: **the covariance of a problem at a
  point for an errordef**;
* `FunctionMinimum.HasCovarianceFor`: a minimum with the covariance of its cost for an errordef;
* `hasCovarianceFor_quasiNewtonFit`, `hasCovarianceFor_refineMinimum`: **what the engine computes**.
-/

namespace FitSession

variable {σ μ α β : Type} [Scalar α] [Differences α] [Memory μ α]

/-! ## Work at one errordef -/

omit [Differences α] in
/-- Whatever is evaluated, the errordef stays. -/
theorem parallels_up (p : Problem α) (up : α) :
    Parallels p fun b c : Bench μ α => c = b ∧ b.up = up where
  noted _ h := ⟨by rw [h.1], h.2⟩
  differentiated h := ⟨by rw [h.1], h.2⟩
  lowest h := by rw [h.1]
  up h := by rw [h.1]
  nfcn h h' := by rw [h.1, h'.1]

omit [Scalar α] [Memory μ α] [Differences α] in
theorem up_of_coupled {work : Run μ α β} {b b' : Bench μ α} {x : β}
    (h : Coupled (fun b' c => c = b' ∧ b'.up = b.up) work) (hwork : work b = .ok x b') :
    b'.up = b.up := by
  have hend := (h.ends b rfl).state
  rwa [hwork] at hend

/-- The errordef stays while a fit looks for its lowest point. -/
theorem up_of_minimizationPhase {choose : SolverOptions α → Solvers α} {solver : SolverOptions α}
    {cost : Cost α} {state : ParameterState α} {o : EngineOptions α} {b : Bench σ α}
    {b₁ : Bench (Best α) α} (h : minimizationPhase choose solver cost state o b.up
      ⟨b.up, b.nfcn, b.ngrad, none⟩ = .ok () b₁) : b₁.up = b.up :=
  up_of_coupled (b := ⟨b.up, b.nfcn, b.ngrad, none⟩)
    ((parallels_up _ b.up).inStep_minimize _ _ _ _ _) h

/-! ## The covariance at a point -/

/-- What an inversion tells at a point, with the gradient there if it is known. -/
def Inversion.toCurvature (inv : Inversion α) (map : ParameterMap α) (theta : List α) (up : α)
    (gradient : Except (FitError α) (List α)) : Curvature α where
  external := map.carriedCovariance theta (inv.inverse.map (2 * up * ·))
  edm :=
    match gradient with
    | .ok g => distanceToMinimum inv.inverse g
    | .error _ => Scalar.inf
  madePosdef := inv.madePosdef

namespace Problem

variable (p : Problem α) (theta : List α) (useGradient : Bool)

/-- What comes of asking for the second derivatives at a point. -/
def hessianAt : Except (FitError α) (Except (FitError α) (DenseMatrix α)) :=
  answerOf (p.hessian theta useGradient (.fresh 1 (none : Best α)))

theorem hessian_apply (b : Bench μ α) : p.hessian theta useGradient b =
    outcome (p.hessianAt theta useGradient) (endState (p.hessian theta useGradient b)) := by
  have hsame := (notes_any p).inStep_hessian theta useGradient b (.fresh 1 (none : Best α)) trivial
  rw [hessianAt, hsame.answerOf, outcome_answerOf]

/-- The covariance at a point for an errordef: `2 · up · H⁻¹`, carried over to the free parameters,
if the second derivatives can be inverted. -/
def covarianceAt (up : α) : Option (DenseMatrix α) :=
  match p.hessianAt theta useGradient with
  | .ok (.ok h) => (invertCurvature h).map fun inv =>
      p.map.carriedCovariance theta (inv.inverse.map (2 * up * ·))
  | _ => none

variable {p theta useGradient}

/-- **What a curvature is made of**: the inversion of the second derivatives, if they are known and
can be inverted, and the gradient that is asked for after them. -/
theorem exists_hessian_of_curvature {b b' : Bench μ α} {c : Option (Curvature α)}
    (h : p.curvature theta useGradient b = .ok c b') :
    ∃ r b₁, p.hessian theta useGradient b = .ok r b₁ ∧
      c = (r.toOption.bind invertCurvature).map fun inv =>
        inv.toCurvature p.map theta b.up (answerOf (p.gradient theta b₁)) := by
  obtain ⟨r, b₁, hr, h⟩ := bind_eq_ok.mp h
  have hup₁ : b₁.up = b.up :=
    up_of_coupled ((parallels_up p b.up).inStep_hessian theta useGradient) hr
  refine ⟨r, b₁, hr, ?_⟩
  cases r with
  | error e =>
    dsimp only at h
    split at h
    · cases h
      rfl
    · cases h
  | ok m =>
    dsimp only at h
    change c = (invertCurvature m).map _
    cases hinv : invertCurvature m with
    | none =>
      rw [hinv] at h
      cases h
      rfl
    | some inv =>
      rw [hinv] at h
      obtain ⟨g, b₂, hg, h⟩ := bind_eq_ok.mp h
      have hup₂ : b₂.up = b₁.up :=
        up_of_coupled (inStep_attempt ((parallels_up p b₁.up).inStep_gradient theta)) hg
      obtain ⟨_, _, hget, h⟩ := bind_eq_ok.mp h
      cases hget
      cases h
      rw [attempt_apply] at hg
      cases hg
      rw [← hup₁, ← hup₂]
      rfl

/-- A curvature has the flag of the inversion of the second derivatives, and the covariance for the
errordef of the bench. -/
theorem exists_hessianAt_of_curvature {b b' : Bench μ α} {c : Option (Curvature α)}
    (h : p.curvature theta useGradient b = .ok c b') :
    ∃ r, p.hessianAt theta useGradient = .ok r ∧
      c.map (fun c => (c.external, c.madePosdef)) = (r.toOption.bind invertCurvature).map fun inv =>
        (p.map.carriedCovariance theta (inv.inverse.map (2 * b.up * ·)), inv.madePosdef) := by
  obtain ⟨r, b₁, hr, rfl⟩ := exists_hessian_of_curvature h
  refine ⟨r, ?_, Option.map_map _ _ _⟩
  rw [hessian_apply] at hr
  cases hat : p.hessianAt theta useGradient with
  | ok r' =>
    rw [hat] at hr
    cases hr
    rfl
  | error e =>
    rw [hat] at hr
    cases hr

/-- **The covariance of a curvature is that for the errordef of the bench.** -/
theorem covarianceAt_of_curvature {b b' : Bench μ α} {c : Curvature α}
    (h : p.curvature theta useGradient b = .ok (some c) b') :
    p.covarianceAt theta useGradient b.up = some c.external := by
  obtain ⟨r, hr, hc⟩ := exists_hessianAt_of_curvature h
  have hexternal := congrArg (Option.map Prod.fst) hc
  rw [Option.map_map, Option.map_map] at hexternal
  rw [covarianceAt, hr]
  cases r with
  | error e => cases hc
  | ok m => exact hexternal.symm

end Problem

/-! ## The covariance of a minimum -/

section Minimum

variable {choose : SolverOptions α → Solvers α} {solver : SolverOptions α} {cost : Cost α}
  {state : ParameterState α} {o : EngineOptions α} {m m' : FunctionMinimum α} {up : α}

/-- An internal point of the state `r` at which a minimum lies: its image are the values of the
minimum, or it is what these values are carried to. -/
def FunctionMinimum.LiesAt (m : FunctionMinimum α) (r : ParameterState α) (theta : List α) : Prop :=
  (ParameterMap.ofState r).toExternal theta = m.state.values ∨
    r.values = m.state.values ∧ theta = (ParameterMap.ofState r).toInternal r

/-- The covariance of a minimum, if it has one, is the one of its cost for an errordef at a point
where the minimum lies. Without a free parameter it is empty. -/
def FunctionMinimum.HasCovarianceFor (m : FunctionMinimum α) (cost : Cost α) (up : α) : Prop :=
  ∀ c, m.state.covariance = some c →
    m.state.nFree = 0 ∧ c = ⟨[]⟩ ∨
      ∃ r theta useGradient, m.KeepsParameters r ∧ m.LiesAt r theta ∧
        (⟨cost, .ofState r⟩ : Problem α).covarianceAt theta useGradient up = some c

/-- Whatever is noted besides, the covariance is that of the state. -/
theorem FunctionMinimum.HasCovarianceFor.congr (h : m.HasCovarianceFor cost up)
    (hstate : m'.state = m.state) : m'.HasCovarianceFor cost up := by
  intro c hc
  rw [hstate] at hc ⊢
  refine (h c hc).imp_right fun ⟨r, theta, useGradient, hkeeps, hlies, hcovariance⟩ => ?_
  refine ⟨r, theta, useGradient, ?_, by rwa [LiesAt, hstate], hcovariance⟩
  constructor <;> rw [hstate]
  · exact hkeeps.len
  · exact hkeeps.fixed
  · exact hkeeps.free
  · exact hkeeps.error

/-- A state at an internal point has the covariance of its curvature. -/
theorem hasCovarianceFor_of_movedTo {theta theta' : List α} {c : Option (Curvature α)}
    {useGradient : Bool} {b b' : Bench μ α} (hstate : m.state = state.movedTo theta c)
    (hlies : m.LiesAt state theta')
    (hc : Problem.curvature ⟨cost, .ofState state⟩ theta' useGradient b = .ok c b') :
    m.HasCovarianceFor cost b.up := by
  intro v hv
  cases c with
  | none =>
    rw [hstate] at hv
    cases hv
  | some c =>
    rw [hstate] at hv
    cases hv
    exact .inr ⟨state, theta', useGradient, keepsParameters_of_movedTo hstate, hlies,
      Problem.covarianceAt_of_curvature hc⟩

/-- The goal of a fit is that for the errordef at the bench where it began. -/
theorem edmGoal_quasiNewtonFit {b b' : Bench σ α}
    (h : quasiNewtonFit choose solver cost state o b = .ok m b') :
    m.edmGoal = edmGoal o.tolerance b.up := by
  have hgoal (goal : α) : Returns (fun m => m.edmGoal = goal)
      (fixedMinimum cost state goal : Run σ α (FunctionMinimum α)) :=
    Returns.bind_right fun _ => Returns.get_bind fun _ => Returns.pure rfl
  unfold quasiNewtonFit at h
  rw [get_bind_apply] at h
  split at h
  · exact hgoal _ _ _ _ h
  · exact Returns.bind_right (Q := fun m => m.edmGoal = edmGoal o.tolerance b.up)
      (fun _ => Returns.get_bind fun _ => Returns.pure rfl) _ _ _ h

/-- **A fit takes the errordef of the bench** for its covariance. -/
theorem hasCovarianceFor_quasiNewtonFit {b b' : Bench σ α}
    (h : quasiNewtonFit choose solver cost state o b = .ok m b') :
    m.HasCovarianceFor cost b.up := by
  by_cases hfixed : state.nFree = 0
  · intro c hc
    rw [(fixed_of_fit hfixed h).2] at hc ⊢
    cases hc
    exact .inl ⟨hfixed, rfl⟩
  · obtain ⟨theta, c, useGradient, b₁, b₂, hphase, -, hcurvature, hstate⟩ :=
      exists_lowest_of_fit (Nat.pos_of_ne_zero hfixed) h
    rw [← up_of_minimizationPhase hphase]
    refine hasCovarianceFor_of_movedTo hstate (.inl ?_) hcurvature
    rw [hstate, values_movedTo]

omit [Differences α] in
theorem values_withCurvature (state : ParameterState α) (free : List Nat)
    (c : Option (Curvature α)) : (state.withCurvature free c).values = state.values := by
  cases c with
  | none => rfl
  | some c => exact state.values_overwriteErrors free _

/-- A state is refined by the curvature at the point that its values are carried to. -/
theorem exists_curvature_of_refineState {b b' : Bench σ α}
    {r : ParameterState α × Option (Curvature α)} (h : refineState cost state b = .ok r b') :
    ∃ b₁ b₂ : Bench (Best α) α, b₁.up = b.up ∧
      Problem.curvature ⟨cost, .ofState state⟩ ((ParameterMap.ofState state).toInternal state) false
        b₁ = .ok r.2 b₂ ∧
      r.1 = state.withCurvature state.freeIndices r.2 := by
  obtain ⟨⟨c, best⟩, b₂, hcurvature, h⟩ := bind_eq_ok.mp h
  cases h
  unfold Run.withMemory at hcurvature
  split at hcurvature
  · rename_i hwork
    cases hcurvature
    exact ⟨_, _, rfl, hwork, rfl⟩
  · cases hcurvature

/-- A minimum is refined if there is an answer about the curvature at the point of its state. -/
theorem exists_refined_of_curvature {b : Bench σ α} {b₁ : Bench (Best α) α}
    {c : Option (Curvature α)} (callLimit : Option Nat)
    (hcurvature : Problem.curvature ⟨cost, .ofState m.state⟩
      ((ParameterMap.ofState m.state).toInternal m.state) false
        ⟨b.up, b.nfcn, b.ngrad, none⟩ = .ok c b₁) :
    ∃ m' b', refineMinimum cost m callLimit b = .ok m' b' ∧
      m'.hasMadePosdefCovar = c.elim false (·.madePosdef) := by
  have hwork : Run.withMemory (none : Best α) (Problem.curvature ⟨cost, .ofState m.state⟩
      ((ParameterMap.ofState m.state).toInternal m.state) false) b =
        .ok (c, b₁.memory) ⟨b₁.up, b₁.nfcn, b₁.ngrad, b.memory⟩ := by
    unfold Run.withMemory
    rw [hcurvature]
  have hrefined : refineState cost m.state b =
      .ok (m.state.withCurvature m.state.freeIndices c, c)
        ⟨b₁.up, b₁.nfcn, b₁.ngrad, b.memory⟩ := by
    unfold refineState
    rw [bind_of_ok hwork]
    rfl
  unfold refineMinimum
  rw [get_bind_apply, bind_of_ok hrefined]
  exact ⟨_, _, rfl, rfl⟩

/-- **The covariance at a minimum is that for the errordef of the bench**, whatever the goal of its
fit was. -/
theorem hasCovarianceFor_refineMinimum {callLimit : Option Nat} {b b' : Bench σ α}
    (h : refineMinimum cost m callLimit b = .ok m' b') :
    m'.edmGoal = m.edmGoal ∧ m'.HasCovarianceFor cost b.up := by
  unfold refineMinimum at h
  rw [get_bind_apply] at h
  obtain ⟨⟨state, c⟩, b₁, hrefined, h⟩ := bind_eq_ok.mp h
  obtain ⟨b₂, b₃, hup, hcurvature, hstate⟩ := exists_curvature_of_refineState hrefined
  obtain rfl : state = m.state.withCurvature m.state.freeIndices c := hstate
  cases h
  refine ⟨rfl, hup ▸ hasCovarianceFor_of_movedTo (movedTo_nil m.state c).symm (.inr ⟨?_, rfl⟩)
    hcurvature⟩
  exact (values_withCurvature m.state m.state.freeIndices c).symm

end Minimum
end FitSession
