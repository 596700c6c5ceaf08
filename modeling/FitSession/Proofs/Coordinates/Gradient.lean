import FitSession.Proofs.Coordinates.History
import FitSession.Proofs.Coordinates.Map
import FitSession.Proofs.Double.Arithmetic

/-!
# The gradient of a problem

A gradient is the one that the cost gives, carried over to internal coordinates, or it is taken from
differences on both sides, or else ahead. Which of them it is, what was evaluated for it and what
may come of it, is told by the answers of the cost alone.

* `checkGradient_eq_ok`, `exists_of_checkGradient`: what is found unusable;
* `Problem.HasSlopes`, `Problem.SlopesEnd`: one pass of differences;
* `Problem.CarriesOver`: the gradient of a cost, carried over;
* `Problem.GradientEnds`, `gradientEnds`: how a gradient ends;
* **`gradient_checked`**: the gradient of a state's problem in doubles.
-/

namespace FitSession

variable {μ α : Type} [Scalar α]

/-! ## Checks -/

/-- A gradient of the right size is only refused for its first component that is not finite. -/
theorem exists_of_checkGradient {g : List α} {e : FitError α}
    (h : checkGradient g g.length = .error e) : ∃ k x, g[k]? = some x ∧
      Scalar.isFinite x = false ∧ (∀ j < k, ∀ y, g[j]? = some y → Scalar.isFinite y = true) ∧
      e = .invalidGradient k x .notFinite := by
  unfold checkGradient at h
  rw [if_neg (by simp)] at h
  split at h
  · rename_i x i hfind
    obtain ⟨hnot, k, hk, hfound, hbefore⟩ := List.find?_eq_some_iff_getElem.mp hfind
    rw [List.length_zipIdx] at hk
    rw [List.getElem_zipIdx, Nat.zero_add] at hfound
    obtain ⟨rfl, rfl⟩ := Prod.mk.inj hfound
    refine ⟨k, g[k], List.getElem?_eq_getElem hk, by simpa using hnot, fun j hj y hy => ?_, ?_⟩
    · have hjk := hbefore j hj
      rw [List.getElem_zipIdx] at hjk
      obtain ⟨_, rfl⟩ := List.getElem?_eq_some_iff.mp hy
      simpa using hjk
    · exact (Except.error.inj h).symm
  · cases h

namespace Problem

variable (p : Problem α) (plan : Sampling α (List α))

/-! ## One pass of differences -/

/-- All values that the plan asks for are there, and the slopes made of them are finite. -/
structure HasSlopes (g : List α) : Prop where
  values : ∀ theta ∈ plan.points p.valueAt, ∃ x, p.valueAt theta = .ok x
  result : g = plan.result p.valueAt
  finite : ∀ x ∈ g, Scalar.isFinite x = true

/-- How a pass of differences ends: with slopes, with the failure of the first evaluation that
fails, or with the first slope that is not finite, if no evaluation fails. -/
inductive SlopesEnd : Except (FitError α) (List α) → Prop
  | found {g} (slopes : p.HasSlopes plan g) : SlopesEnd (.ok g)
  | failed {pre theta post e} (points : plan.points p.valueAt = pre ++ theta :: post)
      (before : ∀ t ∈ pre, ∃ x, p.valueAt t = .ok x) (here : p.valueAt theta = .error e) :
      SlopesEnd (.error e)
  | refused {k x} (values : ∀ theta ∈ plan.points p.valueAt, ∃ x, p.valueAt theta = .ok x)
      (slope : (plan.result p.valueAt)[k]? = some x) (notFinite : Scalar.isFinite x = false)
      (before : ∀ j < k, ∀ y, (plan.result p.valueAt)[j]? = some y → Scalar.isFinite y = true) :
      SlopesEnd (.error (.invalidGradient k x .notFinite))

/-- What a pass of differences comes to. -/
def slopesAt (dim : Nat) : Except (FitError α) (List α) := do
  let _ ← (plan.points p.valueAt).mapM p.valueAt
  checkGradient (plan.result p.valueAt) dim
  pure (plan.result p.valueAt)

variable {p plan} {dim : Nat}

theorem slopesEnd (h : plan.Gives fun g => g.length = dim) :
    p.SlopesEnd plan (p.slopesAt plan dim) := by
  have hlen : (plan.result p.valueAt).length = dim := h.result
  subst hlen
  unfold slopesAt
  cases hvalues : (plan.points p.valueAt).mapM p.valueAt with
  | error e =>
    obtain ⟨pre, theta, post, hpoints, hpre, hhere⟩ := mapM_eq_error_iff.mp hvalues
    exact .failed hpoints hpre hhere
  | ok ys =>
    have hall (theta) (htheta : theta ∈ plan.points p.valueAt) : ∃ x, p.valueAt theta = .ok x := by
      obtain ⟨x, -, hx⟩ := exists_mem_of_mapM_ok hvalues theta htheta
      exact ⟨x, hx⟩
    cases hcheck : checkGradient (plan.result p.valueAt) (plan.result p.valueAt).length with
    | ok _ =>
      exact .found ⟨hall, rfl, (checkGradient_eq_ok.mp hcheck).2⟩
    | error e =>
      obtain ⟨k, x, hk, hx, hbefore, rfl⟩ := exists_of_checkGradient hcheck
      exact .refused hall hk hx hbefore

theorem slopesAt_eq_ok (h : plan.Gives fun g => g.length = dim) {g : List α} :
    p.slopesAt plan dim = .ok g ↔ p.HasSlopes plan g := by
  constructor
  · intro hg
    have hend := slopesEnd (p := p) h
    rw [hg] at hend
    cases hend with
    | found slopes => exact slopes
  · rintro ⟨hvalues, rfl, hfinite⟩
    obtain ⟨ys, hys⟩ : ∃ ys, (plan.points p.valueAt).mapM p.valueAt = .ok ys := by
      cases hys : (plan.points p.valueAt).mapM p.valueAt with
      | ok ys => exact ⟨ys, rfl⟩
      | error e =>
        obtain ⟨pre, theta, post, hpoints, -, hhere⟩ := mapM_eq_error_iff.mp hys
        obtain ⟨x, hx⟩ := hvalues theta (by rw [hpoints]; simp)
        cases hx.symm.trans hhere
    unfold slopesAt
    rw [except_bind_ok hys, except_bind_ok (checkGradient_eq_ok.mpr ⟨h.result, hfinite⟩)]
    rfl

variable [Memory μ α]

/-- The bench after all evaluations of a plan. -/
def sampled (p : Problem α) (plan : Sampling α (List α)) (b : Bench μ α) : Bench μ α :=
  (plan.points p.valueAt).foldl (fun b theta => b.noted theta (p.valueAt theta)) b

theorem attempt_value (p : Problem α) (theta : List α) (b : Bench μ α) :
    (p.value theta).attempt b = .ok (p.valueAt theta) (b.noted theta (p.valueAt theta)) := by
  unfold Run.attempt
  rw [p.value_apply]
  cases p.valueAt theta <;> rfl

theorem checkedSlopes_apply (p : Problem α) (plan : Sampling α (List α)) (dim : Nat)
    (b : Bench μ α) : checkedSlopes (fun theta => (p.value theta).attempt) plan dim b =
      .ok (p.slopesAt plan dim) (p.sampled plan b) := by
  unfold checkedSlopes
  rw [bind_of_ok (run_apply p.attempt_value plan b)]
  unfold slopesAt
  cases (plan.points p.valueAt).mapM p.valueAt <;> rfl

/-! ## The gradient of the cost -/

/-- The gradient `e` of a cost, carried over: component `k` is the derivative by the `k`-th free
parameter times the slope of that parameter. -/
structure CarriesOver (p : Problem α) (theta e g : List α) : Prop where
  length : g.length = theta.length
  component {k i : Nat} : p.map.free[k]? = some i → ∃ x d : α, e[i]? = some x ∧
    (p.map.jacobian theta)[k]? = some d ∧ g[k]? = some (x * d)

theorem carriesOver {cost : Cost α} {state : ParameterState α} {theta e : List α}
    (htheta : theta.length = state.nFree) (he : e.length = state.len) :
    CarriesOver ⟨cost, .ofState state⟩ theta e (List.zipWith (fun i d => e[i]?.getD 0 * d)
      state.freeIndices ((ParameterMap.ofState state).jacobian theta)) where
  length := by
    rw [List.length_zipWith, ParameterMap.length_jacobian htheta, state.length_freeIndices,
      Nat.min_self, htheta]
  component {k i} hi := by
    have hk : k < ((ParameterMap.ofState state).jacobian theta).length := by
      rw [ParameterMap.length_jacobian htheta, ← state.length_freeIndices]
      exact (List.getElem?_eq_some_iff.mp hi).1
    have hie : i < e.length :=
      he ▸ ParameterState.lt_of_mem_freeIndices (List.mem_of_getElem? hi)
    refine ⟨e[i], _, List.getElem?_eq_getElem hie, List.getElem?_eq_getElem hk, ?_⟩
    rw [List.getElem?_zipWith, show state.freeIndices[k]? = some i from hi,
      List.getElem?_eq_getElem hk]
    simp only [List.getElem?_eq_getElem hie, Option.getD_some]

/-! ## Ends -/

/-- How a gradient ends. If the cost gives one, its size and what is carried over are checked, and
nothing is evaluated. Else the slopes are those on both sides, or what comes of those ahead. -/
inductive GradientEnds [Differences α] (p : Problem α) (theta : List α) (b : Bench μ α) :
    EStateM.Result (FitError α) (Bench μ α) (List α) → Prop
  | given {e g} (hasGrad : p.cost.hasGrad = true)
      (answer : p.cost.grad (p.map.toExternal theta) = .ok e)
      (size : e.length = (p.map.toExternal theta).length) (carried : p.CarriesOver theta e g)
      (finite : ∀ x ∈ g, Scalar.isFinite x = true) :
      GradientEnds p theta b (.ok g { b with ngrad := b.ngrad + 1 })
  | missized {e} (hasGrad : p.cost.hasGrad = true)
      (answer : p.cost.grad (p.map.toExternal theta) = .ok e)
      (size : e.length ≠ (p.map.toExternal theta).length) :
      GradientEnds p theta b (.error (.gradientDimMismatch (p.map.toExternal theta).length e.length)
        { b with ngrad := b.ngrad + 1 })
  | refused {e g k x} (hasGrad : p.cost.hasGrad = true)
      (answer : p.cost.grad (p.map.toExternal theta) = .ok e)
      (size : e.length = (p.map.toExternal theta).length) (carried : p.CarriesOver theta e g)
      (component : g[k]? = some x) (notFinite : Scalar.isFinite x = false)
      (before : ∀ j < k, ∀ y, g[j]? = some y → Scalar.isFinite y = true) :
      GradientEnds p theta b (.error (.invalidGradient k x .notFinite)
        { b with ngrad := b.ngrad + 1 })
  | failed {e} (hasGrad : p.cost.hasGrad = true)
      (answer : p.cost.grad (p.map.toExternal theta) = .error e)
      (implemented : e ≠ .gradientNotImplemented) : GradientEnds p theta b (.error e b)
  | central {g} (notGiven : p.cost.hasGrad = false ∨
        p.cost.grad (p.map.toExternal theta) = .error .gradientNotImplemented)
      (slopes : p.HasSlopes (Differences.central theta) g) :
      GradientEnds p theta b (.ok g (p.sampled (Differences.central theta) b))
  | forward {r} (notGiven : p.cost.hasGrad = false ∨
        p.cost.grad (p.map.toExternal theta) = .error .gradientNotImplemented)
      (notCentral : ∀ g, ¬p.HasSlopes (Differences.central theta) g)
      (ends : p.SlopesEnd (Differences.forward theta) r) :
      GradientEnds p theta b (outcome r
        (p.sampled (Differences.forward theta) (p.sampled (Differences.central theta) b)))

section Given

variable {theta e : List α} {b : Bench μ α}

omit [Scalar α] [Memory μ α] in
theorem differentiate_of_ok {cost : Cost α} {args : List α} (h : cost.grad args = .ok e)
    (b : Bench μ α) :
    cost.differentiate args b = .ok e { b with ngrad := b.ngrad + 1 } := by
  unfold Cost.differentiate
  rw [h]
  rfl

omit [Memory μ α] in
theorem givenGradient_of_size (h : p.cost.grad (p.map.toExternal theta) = .ok e)
    (hsize : e.length = (p.map.toExternal theta).length) : p.givenGradient theta b =
      .ok (List.zipWith (fun i d => e[i]?.getD 0 * d) p.map.free (p.map.jacobian theta))
        { b with ngrad := b.ngrad + 1 } := by
  refine (bind_of_ok (differentiate_of_ok h b) _).trans ?_
  dsimp only
  rw [if_neg (not_not.mpr hsize)]
  rfl

omit [Memory μ α] in
theorem givenGradient_of_missized (h : p.cost.grad (p.map.toExternal theta) = .ok e)
    (hsize : e.length ≠ (p.map.toExternal theta).length) : p.givenGradient theta b =
      .error (.gradientDimMismatch (p.map.toExternal theta).length e.length)
        { b with ngrad := b.ngrad + 1 } := by
  refine (bind_of_ok (differentiate_of_ok h b) _).trans ?_
  dsimp only
  rw [if_pos hsize]
  rfl

omit [Memory μ α] in
theorem givenGradient_of_error {error : FitError α}
    (h : p.cost.grad (p.map.toExternal theta) = .error error) :
    p.givenGradient theta b = .error error b := by
  unfold givenGradient Cost.differentiate
  rw [h]
  rfl

theorem gradient_of_given [Differences α] {g : List α} {b b' : Bench μ α}
    (hgrad : p.cost.hasGrad = true) (hgiven : p.givenGradient theta b = .ok g b')
    (hcheck : checkGradient g theta.length = (.ok () : Except (FitError α) Unit)) :
    p.gradient theta b = .ok g b' := by
  unfold gradient
  rw [if_pos hgrad, bind_of_ok (attempt_of_ok hgiven)]
  dsimp only
  rw [hcheck]
  rfl

end Given

section Ends

variable [Differences α] {theta : List α}
  (hcentral : (Differences.central theta).Gives fun g : List α => g.length = theta.length)
  (hforward : (Differences.forward theta).Gives fun g : List α => g.length = theta.length)
include hcentral hforward

/-- Differences are taken on both sides first, and nothing of a failure there is ever seen. -/
theorem gradientEnds_difference (p : Problem α) (b : Bench μ α)
    (hnot : p.cost.hasGrad = false ∨
      p.cost.grad (p.map.toExternal theta) = .error .gradientNotImplemented) :
    GradientEnds p theta b (p.differenceGradient theta b) := by
  unfold differenceGradient forwardGradient
  rw [bind_of_ok (p.checkedSlopes_apply _ _ b)]
  cases hslopes : p.slopesAt (Differences.central theta) theta.length with
  | ok g => exact .central hnot ((slopesAt_eq_ok hcentral).mp hslopes)
  | error e =>
    dsimp only
    rw [bind_of_ok (p.checkedSlopes_apply _ _ _)]
    have hnone (g : List α) : ¬p.HasSlopes (Differences.central theta) g := fun hg => by
      rw [← slopesAt_eq_ok hcentral, hslopes] at hg
      cases hg
    have hends := GradientEnds.forward (b := b) hnot hnone (slopesEnd hforward)
    cases hr : p.slopesAt (Differences.forward theta) theta.length with
    | ok g => rwa [hr] at hends
    | error e => rwa [hr] at hends

variable {cost : Cost α} {state : ParameterState α}

/-- How the gradient of the problem of a state ends. -/
theorem gradientEnds (htheta : theta.length = state.nFree) (b : Bench μ α) :
    GradientEnds ⟨cost, .ofState state⟩ theta b
      (Problem.gradient ⟨cost, .ofState state⟩ theta b) := by
  set p : Problem α := ⟨cost, .ofState state⟩ with hp
  unfold gradient
  cases hgrad : p.cost.hasGrad with
  | false => exact gradientEnds_difference hcentral hforward p b (.inl hgrad)
  | true =>
    rw [if_pos rfl]
    cases hanswer : p.cost.grad (p.map.toExternal theta) with
    | error e =>
      rw [bind_of_ok (attempt_of_error (givenGradient_of_error (b := b) hanswer))]
      by_cases himplemented : e = .gradientNotImplemented
      · subst himplemented
        exact gradientEnds_difference hcentral hforward p b (.inr hanswer)
      · have hends := GradientEnds.failed (b := b) hgrad hanswer himplemented
        cases e <;> first | exact absurd rfl himplemented | exact hends
    | ok e =>
      by_cases hsize : e.length = (p.map.toExternal theta).length
      · rw [bind_of_ok (attempt_of_ok (givenGradient_of_size (b := b) hanswer hsize))]
        have hcarried : p.CarriesOver theta e
            (List.zipWith (fun i d => e[i]?.getD 0 * d) p.map.free (p.map.jacobian theta)) :=
          carriesOver htheta (hsize.trans (ParameterMap.length_toExternal (s := state)))
        dsimp only
        generalize List.zipWith _ p.map.free _ = g at hcarried ⊢
        cases hcheck : checkGradient g theta.length with
        | ok _ => exact .given hgrad hanswer hsize hcarried (checkGradient_eq_ok.mp hcheck).2
        | error e =>
          rw [← hcarried.length] at hcheck
          obtain ⟨k, x, hk, hx, hbefore, rfl⟩ := exists_of_checkGradient hcheck
          exact .refused hgrad hanswer hsize hcarried hk hx hbefore
      · rw [bind_of_ok (attempt_of_error (givenGradient_of_missized (b := b) hanswer hsize))]
        exact .missized hgrad hanswer hsize

end Ends

theorem GradientEnds.of_ok [Differences α] {theta g : List α} {b b' : Bench μ α}
    (hcentral : (Differences.central theta).Gives fun g : List α => g.length = theta.length)
    (hforward : (Differences.forward theta).Gives fun g : List α => g.length = theta.length)
    (h : GradientEnds p theta b (.ok g b')) :
    g.length = theta.length ∧ ∀ x ∈ g, Scalar.isFinite x = true := by
  have hslopes {plan : Sampling α (List α)} (hplan : plan.Gives fun g => g.length = theta.length)
      (hg : p.HasSlopes plan g) : g.length = theta.length ∧ ∀ x ∈ g, Scalar.isFinite x = true :=
    ⟨hg.result ▸ hplan.result, hg.finite⟩
  generalize hr : EStateM.Result.ok g b' = r at h
  cases h with
  | given _ _ _ carried finite =>
    cases hr
    exact ⟨carried.length, finite⟩
  | missized => cases hr
  | refused => cases hr
  | failed => cases hr
  | central _ slopes =>
    cases hr
    exact hslopes hcentral slopes
  | forward _ _ ends =>
    cases ends with
    | found slopes =>
      cases hr
      exact hslopes hforward slopes
    | failed => cases hr
    | refused => cases hr

end Problem

/-! ## Doubles -/

section Doubles

variable [Differences Float] {cost : Cost Float} {state : ParameterState Float}
  {theta : List Float} [Memory μ Float]

/-- A product with a derivative that is not finite is not finite either, so the check of what is
carried over refuses it. -/
theorem Problem.GradientEnds.refuses {p : Problem Float} {b : Bench μ Float}
    {r : EStateM.Result (FitError Float) (Bench μ Float) (List Float)} {e : List Float} {i : Nat}
    {x : Float} (hends : p.GradientEnds theta b r) (hgrad : p.cost.hasGrad = true)
    (hanswer : p.cost.grad (p.map.toExternal theta) = .ok e)
    (hsize : e.length = (p.map.toExternal theta).length) (hi : i ∈ p.map.free)
    (hx : e[i]? = some x) (hnot : Scalar.isFinite x = false) :
    ∃ k x, r = .error (.invalidGradient k x .notFinite) { b with ngrad := b.ngrad + 1 } := by
  cases hends with
  | given _ answer _ carried finite =>
    cases hanswer.symm.trans answer
    obtain ⟨k, hk⟩ := List.mem_iff_getElem?.mp hi
    obtain ⟨y, d, hy, -, hg⟩ := carried.component hk
    cases hx.symm.trans hy
    have hfinite := (isFinite_of_mul (finite _ (List.mem_of_getElem? hg))).1
    exact absurd hfinite (Bool.eq_false_iff.mp hnot)
  | missized _ answer size =>
    cases hanswer.symm.trans answer
    exact absurd hsize size
  | refused => exact ⟨_, _, rfl⟩
  | failed _ answer => cases hanswer.symm.trans answer
  | central notGiven =>
    rcases notGiven with hnone | hnone
    · cases hgrad.symm.trans hnone
    · cases hanswer.symm.trans hnone
  | forward notGiven =>
    rcases notGiven with hnone | hnone
    · cases hgrad.symm.trans hnone
    · cases hanswer.symm.trans hnone

/-- **The gradient of a problem.** However slopes are taken, if there is one for each coordinate:
a gradient ends in one of the ways that are told; it has as many components as there are free
parameters, all finite; and a derivative by a free parameter that is not finite is refused. -/
theorem gradient_checked (htheta : theta.length = state.nFree)
    (hcentral : (Differences.central theta).Gives fun g : List Float => g.length = theta.length)
    (hforward : (Differences.forward theta).Gives fun g : List Float => g.length = theta.length)
    (b : Bench μ Float) :
    let p : Problem Float := ⟨cost, .ofState state⟩
    p.GradientEnds theta b (p.gradient theta b) ∧
      (∀ g b', p.gradient theta b = .ok g b' →
        g.length = state.nFree ∧ ∀ x ∈ g, Scalar.isFinite x = true) ∧
      ∀ e, cost.hasGrad = true → cost.grad (p.map.toExternal theta) = .ok e →
        e.length = state.len → (∃ i ∈ state.freeIndices, ∃ x, e[i]? = some x ∧
          Scalar.isFinite x = false) →
        ∃ k x, p.gradient theta b =
          .error (.invalidGradient k x .notFinite) { b with ngrad := b.ngrad + 1 } := by
  intro p
  have hends : p.GradientEnds theta b (p.gradient theta b) :=
    Problem.gradientEnds hcentral hforward htheta b
  refine ⟨hends, fun g b' hg => ?_, ?_⟩
  · rw [hg] at hends
    exact htheta ▸ hends.of_ok hcentral hforward
  · rintro e hgrad hanswer hlen ⟨i, hi, x, hx, hnot⟩
    have hsize : e.length = (p.map.toExternal theta).length :=
      hlen.trans ParameterMap.length_toExternal.symm
    exact hends.refuses hgrad hanswer hsize hi hx hnot

end Doubles

/-- A cost with a gradient of which the second component is no number. -/
def halfDerived : Cost Float :=
  { Cost.ofFunction fun xs => .ok ((xs[0]?.getD 0) + (xs[1]?.getD 0)) with
    grad := fun _ => .ok [1, Scalar.nan]
    hasGrad := true }

/-- Two parameters of which only the first one is free. -/
def firstFree : ParameterState Float where
  entries := [.free 0.5 0.1, ⟨2, 0.1, true, Scalar.negInf, Scalar.inf⟩]
  covariance := none

/-- Two free parameters. -/
def bothFree : ParameterState Float where
  entries := [.free 0.5 0.1, .free 2 0.1]
  covariance := none

/-- A derivative by a free parameter that is not finite is refused. -/
theorem gradient_checked_bothFree : ∃ k x,
    Problem.gradient ⟨halfDerived, .ofState bothFree⟩ [0.5, 2] (.fresh 1 (none : Best Float)) =
      .error (.invalidGradient k x .notFinite) ⟨1, 0, 1, none⟩ := by
  have htheta : [(0.5 : Float), 2].length = bothFree.nFree := by decide +kernel
  have hrefused := (@gradient_checked _ _ halfDerived _ _ _ htheta (gives_central _)
    (gives_forward _) (.fresh 1 (none : Best Float))).2.2
  exact hrefused [1, Scalar.nan] rfl rfl rfl
    ⟨1, by decide +kernel, Scalar.nan, rfl, by decide +kernel⟩

/-- A derivative by a fixed parameter may be anything: the gradient is accepted. -/
theorem gradient_unchecked_firstFree :
    halfDerived.hasGrad = true ∧
      halfDerived.grad ((ParameterMap.ofState firstFree).toExternal [0.5]) = .ok [1, Scalar.nan] ∧
      Scalar.isFinite (Scalar.nan : Float) = false ∧
      ∃ g b, Problem.gradient ⟨halfDerived, .ofState firstFree⟩ [0.5]
        (.fresh 1 (none : Best Float)) = .ok g b :=
  ⟨rfl, rfl, by decide +kernel, exists_ok_of_succeeded (by decide +kernel)⟩

end FitSession
