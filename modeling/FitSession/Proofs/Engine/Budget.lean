import FitSession.Proofs.Coordinates.Map
import FitSession.Proofs.Derivative.Samples
import FitSession.Proofs.Engine.Evaluations

/-!
# The evaluations of a covariance

A covariance without a call limit may use as many evaluations as a fit. It never does: what it uses
is known from the second differences and the two kinds of slopes, whichever of its evaluations
fail.

* `Spends`: work that counts no more than so many evaluations, and how it is shown;
* `Differences.Sparing`: differences that take no more samples than one step on each axis;
* `spends_gradient`, `spends_hessianOfValues`, `spends_curvature`: what a problem is asked for;
* `RefinementEnds`: what becomes of a minimum;
* **`refinement_within_limit`**: the covariance of a state or a minimum stays within its limit.
-/

namespace FitSession

variable {σ τ α β γ : Type}

/-! ## Counted evaluations -/

/-- Whatever its end, the work counts no more than `k` evaluations. -/
def Spends (k : ℕ) (x : Run σ α β) : Prop := ∀ b, (endState (x b)).nfcn ≤ b.nfcn + k

namespace Spends

variable {k l n : ℕ} {x : Run σ α β} {f : β → Run σ α γ}

theorem mono (hx : Spends k x) (h : k ≤ n) : Spends n x := fun b =>
  (hx b).trans (Nat.add_le_add_left h _)

theorem pure (y : β) : Spends k (Pure.pure y : Run σ α β) := fun _ => Nat.le_add_right _ _

theorem throw (e : FitError α) : Spends k (MonadExcept.throw e : Run σ α β) :=
  fun _ => Nat.le_add_right _ _

theorem bind (hx : Spends k x) (hf : ∀ y, Spends l (f y)) (h : k + l ≤ n) :
    Spends n (x >>= f) := by
  intro b
  have hb := hx b
  rw [bind_apply]
  cases hxb : x b with
  | error e c =>
    rw [hxb] at hb
    simp only [endState_error] at hb ⊢
    omega
  | ok y c =>
    rw [hxb] at hb
    have hc := hf y c
    simp only [endState_ok] at hb ⊢
    omega

theorem get_bind {f : Bench σ α → Run σ α γ} (hf : ∀ b, Spends k (f b)) :
    Spends k (MonadState.get >>= f) := fun b => hf b b

theorem ite {p : Prop} [Decidable p] {y : Run σ α β} (hx : Spends k x) (hy : Spends k y) :
    Spends k (if p then x else y) := by
  split
  · exact hx
  · exact hy

theorem runOfExcept (r : Except (FitError α) β) : Spends k (Run.ofExcept r : Run σ α β) := by
  cases r with
  | ok y => exact pure y
  | error e => exact throw e

theorem attempt (hx : Spends k x) : Spends k x.attempt := by
  intro b
  have hb := hx b
  unfold Run.attempt
  cases hxb : x b <;> simpa [hxb] using hb

theorem mapM {f : γ → Run σ α β} (hf : ∀ a, Spends k (f a)) (l : List γ) :
    Spends (l.length * k) (l.mapM f) := by
  induction l with
  | nil => exact pure []
  | cons a l ih =>
    rw [List.mapM_cons]
    refine (hf a).bind (fun y => ih.bind (fun ys => pure (k := 0) (y :: ys)) le_rfl) ?_
    rw [List.length_cons, Nat.succ_mul, Nat.add_comm, Nat.add_zero]

/-- Work that only calls a function at given points. -/
theorem of_visits {f : List α → Run σ α γ} {points : List (List α)} (hf : ∀ t, Spends 1 (f t))
    (h : Visits f points x) : Spends points.length x := by
  intro b
  have hb := Spends.mapM hf points b
  rw [Nat.mul_one] at hb
  cases hxb : x b with
  | ok y c =>
    obtain ⟨ys, hys⟩ := h.exists_of_ok hxb
    rw [hys] at hb
    exact hb
  | error e c =>
    rw [h.mapM_eq_error hxb] at hb
    exact hb

/-- A plan, asked of a function: a failure is answered, and the plan goes on. -/
theorem run [Scalar α] {ε : Type} {f : List α → Run σ α (Except ε α)} (hf : ∀ t, Spends 1 (f t))
    {s : Sampling α β} (hs : s.AsksAtMost k) : Spends k (s.run f) := by
  induction s generalizing k with
  | done y =>
    rw [Sampling.run_done]
    exact pure _
  | ask theta next ih =>
    obtain _ | k := k
    · exact hs.elim
    rw [Sampling.run_ask]
    refine (hf theta).bind (l := k) (fun answer => ?_) (Nat.add_comm 1 k).le
    cases answer with
    | ok y => exact ih y (hs y)
    | error e => exact (ih _ (hs _)).bind (l := 0) (fun _ => pure _) le_rfl

end Spends

/-- The plans take no more samples than one step on each axis does: two for each coordinate, or one
for each and one at the point. -/
structure Differences.Sparing (α : Type) [Differences α] : Prop where
  central (theta : List α) : (Differences.central theta).AsksAtMost (2 * theta.length)
  forward (theta : List α) : (Differences.forward theta).AsksAtMost (theta.length + 1)

theorem sparing_standard [Scalar α] : Differences.Sparing α where
  central := asksAtMost_central
  forward := asksAtMost_forward

/-! ## Questions -/

namespace Problem

variable [Scalar α] {μ : Type} [Memory μ α] (p : Problem α) (theta : List α)

theorem spends_value : Spends 1 (p.value theta : Run μ α α) := by
  intro b
  rw [p.value_apply]
  exact Spends.runOfExcept (k := 0) _ _

/-- The second differences take their samples, and none after one that fails. -/
theorem spends_hessianOfValues :
    Spends (1 + 2 * theta.length + 2 * theta.length * (theta.length - 1))
      (hessianOfValues p.value theta : Run μ α (DenseMatrix α)) := by
  have hsamples := Spends.of_visits (p.spends_value (μ := μ))
    (visits_secondDifferences p.value theta (theta.map curvatureStep))
  rw [length_differencePoints] at hsamples
  refine hsamples.bind (l := 0) (fun h => ?_) le_rfl
  cases checkHessian h theta.length with
  | ok _ => exact Spends.pure h
  | error e => exact Spends.throw e

omit [Memory μ α] in
theorem spends_givenGradient : Spends 0 (p.givenGradient theta : Run μ α (List α)) := by
  have hasked : Spends 0 (p.cost.differentiate (p.map.toExternal theta) : Run μ α (List α)) := by
    unfold Cost.differentiate
    cases p.cost.grad (p.map.toExternal theta) with
    | ok g => exact fun _ => Nat.le_refl _
    | error e => exact Spends.throw e
  refine hasked.bind (l := 0) (fun g => ?_) le_rfl
  exact Spends.ite ((Spends.throw _).bind (k := 0) (l := 0) (fun _ => Spends.pure _) le_rfl)
    (Spends.pure _)

variable [Differences α] (h : Differences.Sparing α)
include h

/-- Both kinds of slopes are taken if those from both sides are not usable. -/
theorem spends_differenceGradient :
    Spends (3 * theta.length + 1) (p.differenceGradient theta : Run μ α (List α)) := by
  have hsample (t : List α) : Spends 1 (p.value t : Run μ α α).attempt := (p.spends_value t).attempt
  have hchecked {plan : Sampling α (List α)} {k : ℕ} (hplan : plan.AsksAtMost k) :
      Spends k (checkedSlopes (fun t => (p.value t : Run μ α α).attempt) plan theta.length) :=
    (Spends.run hsample hplan).bind (l := 0) (fun _ => Spends.pure _) le_rfl
  refine (hchecked (h.central theta)).bind (l := theta.length + 1) (fun central => ?_) (by omega)
  cases central with
  | ok g => exact Spends.pure g
  | error e =>
    exact (hchecked (h.forward theta)).bind (l := 0) (fun g => Spends.runOfExcept g) le_rfl

theorem spends_gradient :
    Spends (3 * theta.length + 1) (p.gradient theta : Run μ α (List α)) := by
  refine Spends.ite ?_ (p.spends_differenceGradient theta h)
  refine (p.spends_givenGradient theta).attempt.bind (fun given => ?_) (Nat.zero_add _).le
  cases given with
  | ok g => exact (Spends.runOfExcept (k := 0) _).bind (fun _ => Spends.pure g) (Nat.zero_add _).le
  | error e =>
    cases e <;> first | exact p.spends_differenceGradient theta h | exact Spends.throw _

/-- The curvature takes the second differences, and the slopes at the point if they are usable. -/
theorem spends_curvature : Spends (2 * theta.length ^ 2 + 3 * theta.length + 2)
    (p.curvature theta false : Run μ α (Option (Curvature α))) := by
  have hbudget (n : ℕ) :
      1 + 2 * n + 2 * n * (n - 1) + (3 * n + 1) = 2 * n ^ 2 + 3 * n + 2 := by
    cases n with
    | zero => rfl
    | succ n =>
      rw [Nat.add_sub_cancel]
      ring
  refine (p.spends_hessianOfValues theta).attempt.bind (fun r => ?_) (hbudget theta.length).le
  cases r with
  | error e => exact Spends.ite (Spends.pure none) (Spends.throw e)
  | ok m =>
    dsimp only
    cases invertCurvature m with
    | none => exact Spends.pure none
    | some inv =>
      refine (p.spends_gradient theta h).attempt.bind (l := 0) (fun g => ?_) le_rfl
      exact Spends.get_bind fun b => Spends.pure _

end Problem

/-! ## The covariance of a minimum -/

section Refinement

variable [Scalar α] [Differences α] (h : Differences.Sparing α) (cost : Cost α)

/-- How the covariance of a minimum ends that is asked for without a call limit: it is told by the
curvature at the state of the minimum, or the minimum stays as it was. -/
inductive RefinementEnds (m : FunctionMinimum α) (b : Bench σ α) :
    EStateM.Result (FitError α) (Bench σ α × FunctionMinimum α) Unit → Prop
  | refined {m' b' curvature}
      (curved : refineState cost m.state b = .ok (m'.state, curvature) b')
      (inLimit : m'.hasReachedCallLimit = false)
      (invalid : m'.isValid = false ↔ m.hasValidParameters = false ∨ curvature = none ∨
        ∃ c, curvature = some c ∧ 10 * m.edmGoal < c.edm) :
      RefinementEnds m b (.ok () (b', m'))
  | failed {e b'} (notCurved : refineState cost m.state b = .error e b') :
      RefinementEnds m b (.error e (b', m))

variable {cost}

/-- The validity that is told after the curvature, where no limit is reached. -/
theorem isValid_of_refineMinimum {m m' : FunctionMinimum α} {b b' : Bench σ α}
    {callLimit : Option ℕ} (hwork : refineMinimum cost m callLimit b = .ok m' b') :
    ∃ curvature, refineState cost m.state b = .ok (m'.state, curvature) b' ∧
      m'.hasReachedCallLimit =
        decide (callLimit.getD (standardCallLimit m.state.nFree) ≤ b'.nfcn - b.nfcn) ∧
      (m'.hasReachedCallLimit = false → (m'.isValid = false ↔ m.hasValidParameters = false ∨
        curvature = none ∨ ∃ c, curvature = some c ∧ 10 * m.edmGoal < c.edm)) := by
  unfold refineMinimum at hwork
  rw [get_bind_apply] at hwork
  obtain ⟨⟨state, curvature⟩, c, hcurved, hwork⟩ := bind_eq_ok.mp hwork
  cases hwork
  refine ⟨curvature, hcurved, rfl, fun hlimit => ?_⟩
  cases curvature with
  | none => simp [FunctionMinimum.refreshed]
  | some curvature =>
    have habove : (∃ c, some curvature = some c ∧ 10 * m.edmGoal < c.edm) ↔
        decide (10 * m.edmGoal < curvature.edm) = true := by
      simp
    change decide (callLimit.getD (standardCallLimit m.state.nFree) ≤ b'.nfcn - b.nfcn) = false
      at hlimit
    change (m.hasValidParameters && true && !false && !decide (10 * m.edmGoal < curvature.edm) &&
      !decide (callLimit.getD (standardCallLimit m.state.nFree) ≤ b'.nfcn - b.nfcn)) = false ↔ _
    rw [habove, hlimit]
    cases m.hasValidParameters <;> simp

variable (cost)
include h

theorem spends_refineState (state : ParameterState α) :
    Spends (2 * state.nFree ^ 2 + 3 * state.nFree + 2) (refineState cost state : Run σ α _) := by
  intro b
  have hcurvature := Problem.spends_curvature (μ := Best α) ⟨cost, .ofState state⟩
    ((ParameterMap.ofState state).toInternal state) h ⟨b.up, b.nfcn, b.ngrad, none⟩
  rw [ParameterMap.length_toInternal] at hcurvature
  rw [endState_refineState]
  exact hcurvature

omit h in
/-- More evaluations are allowed than are ever used. -/
theorem lt_standardCallLimit (n : ℕ) : 2 * n ^ 2 + 3 * n + 2 < standardCallLimit n := by
  unfold standardCallLimit
  rw [pow_two, Nat.mul_assoc 5]
  omega

theorem length_refinementArguments_le (state : ParameterState α) (b : Bench σ α) :
    (refinementArguments cost state b).length ≤ 2 * state.nFree ^ 2 + 3 * state.nFree + 2 := by
  have hspent := spends_refineState h cost state b
  rw [nfcn_refineState] at hspent
  exact Nat.le_of_add_le_add_left hspent

theorem refinementEnds (m : FunctionMinimum α) (b : Bench σ α) : RefinementEnds cost m b
    (Refinement.ofRun (fun m => refineMinimum cost m none) (b, m)) := by
  unfold Refinement.ofRun
  dsimp only
  cases hwork : refineMinimum cost m none b with
  | ok m' b' =>
    obtain ⟨curvature, hcurved, hreached, hinvalid⟩ := isValid_of_refineMinimum hwork
    have hspent := spends_refineState h cost m.state b
    rw [hcurved, endState_ok] at hspent
    have hlimit : m'.hasReachedCallLimit = false := by
      have hlt := lt_standardCallLimit m.state.nFree
      rw [hreached, Option.getD_none, decide_eq_false_iff_not]
      omega
    exact .refined hcurved hlimit (hinvalid hlimit)
  | error e b' =>
    unfold refineMinimum at hwork
    rw [get_bind_apply] at hwork
    rcases bind_eq_error.mp hwork with hcurved | ⟨r, c, hcurved, hend⟩
    · exact .failed hcurved
    · cases hend

omit h in
/-- The evaluations of a covariance are all that is counted. -/
theorem RefinementEnds.nfcn {m : FunctionMinimum α} {b : Bench σ α}
    {r : EStateM.Result (FitError α) (Bench σ α × FunctionMinimum α) Unit}
    (hr : RefinementEnds cost m b r) :
    (endState r).1.nfcn = b.nfcn + (refinementArguments cost m.state b).length := by
  have hcount := nfcn_refineState cost m.state b
  cases hr with
  | refined hcurved => rwa [hcurved] at hcount
  | failed hcurved => rwa [hcurved] at hcount

variable (choose : SolverOptions α → Solvers α) (solver : SolverOptions α)

/-- **A covariance never uses up the limit of its evaluations.** However differences are taken, if
they take no more samples than one step on each axis does, a covariance with `n` free parameters
takes at most `2 n² + 3 n + 2` evaluations, which is less than the limit for any `n`. So without
another limit a minimum never says that its covariance reached one, and is only made invalid by a
curvature that is not usable, or by its distance. -/
theorem refinement_within_limit :
    (∀ n, 2 * n ^ 2 + 3 * n + 2 < standardCallLimit n) ∧
      (∀ (state : ParameterState α) (b : Bench σ α),
        (refinementArguments cost state b).length ≤ 2 * state.nFree ^ 2 + 3 * state.nFree + 2 ∧
          (endState ((quasiNewtonWith choose solver).hesseState cost state none b)).nfcn =
            b.nfcn + (refinementArguments cost state b).length) ∧
      ∀ (m : FunctionMinimum α) (b : Bench σ α),
        RefinementEnds cost m b ((quasiNewtonWith choose solver).refinement cost none (b, m)) ∧
          (endState ((quasiNewtonWith choose solver).refinement cost none (b, m))).1.nfcn =
            b.nfcn + (refinementArguments cost m.state b).length := by
  refine ⟨lt_standardCallLimit, fun state b => ?_, fun m b => ?_⟩
  · refine ⟨length_refinementArguments_le h cost state b, ?_⟩
    rw [← nfcn_refineState]
    change (endState ((refineState cost state >>= _) b)).nfcn = _
    rw [bind_apply]
    cases refineState cost state b <;> rfl
  · have hends := refinementEnds h cost m b
    exact ⟨hends, hends.nfcn⟩

end Refinement

/-- A parabola that cannot be evaluated near its lowest point, except right there. -/
def notched : Cost Float := .ofFunction fun xs =>
  let x := xs[0]?.getD 0
  if x != 0 && decide (Scalar.abs x < 1e-6) then .error (.conditionViolated "too near")
  else .ok (x * x)

/-- The lowest point of the notched parabola, before its covariance is known. -/
def notchedMinimum : FunctionMinimum Float where
  fval := 0
  edm := 0
  up := 1
  edmGoal := 2e-4
  isValid := true
  hasValidParameters := true
  hasAccurateCovar := false
  hasPosdefCovar := false
  hasMadePosdefCovar := false
  hesseFailed := false
  hasCovariance := true
  isAboveMaxEdm := false
  hasReachedCallLimit := false
  hasParametersAtLimit := false
  nfcn := 1
  ngrad := 0
  state := ⟨[.free 0 1], some ⟨[[1]]⟩⟩

/-- Both kinds of slopes fail at the notch, so that all evaluations are used that may be. -/
theorem refinement_within_limit_notched :
    (refinementArguments notched notchedMinimum.state (.fresh 1 ())).length =
        2 * notchedMinimum.state.nFree ^ 2 + 3 * notchedMinimum.state.nFree + 2 ∧
      2 * notchedMinimum.state.nFree ^ 2 + 3 * notchedMinimum.state.nFree + 2 <
        standardCallLimit notchedMinimum.state.nFree ∧
      RefinementEnds notched notchedMinimum (.fresh 1 ())
        ((quasiNewton .standard).refinement notched none (.fresh 1 (), notchedMinimum)) := by
  obtain ⟨hlimit, hstate, hminimum⟩ := refinement_within_limit (σ := Unit)
    (sparing_standard (α := Float)) notched SolverOptions.solvers .standard
  refine ⟨?_, hlimit _, (hminimum notchedMinimum (.fresh 1 ())).1⟩
  decide +kernel

end FitSession
