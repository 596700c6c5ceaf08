import FitSession.Proofs.Engine.Evaluations
import FitSession.Proofs.Engine.Lowest

/-!
# Objectives that are not finite everywhere

Where the value of an objective is not a finite number, a fit goes on with what it knows: only at
its start it needs a finite value, and a gradient there. The gradient at the start is the one
question, besides the value, whose failure ends a fit.

* `Problem.gradientAt`, `Problem.gradient_apply`: the gradient at a point, at whatever bench;
* `Bench.KnowsValue`, `ends_value`, `ends_curvature`: questions and the curvature, once a value is
  known;
* `Solvers.Refuses`, `ends_fallBack`: why the two solvers may still fail;
* `isEnd_searchMinimum`, `searchMinimum_of_gradient_error`: the search from a start with a finite
  value;
* `MeetsFinite`, `startGradient`: what the statement hangs on;
* `finite_objective_fits`: **a fit that met a finite value gives a minimum if there is a gradient at
  the start**, and else fails as that gradient does;
* `quasiNewton_fits_iff`: the same for the library's own solvers.
-/

namespace FitSession

variable {σ μ ν α β : Type} [Scalar α] [Differences α] [Memory μ α] [Memory ν α]

/-! ## The gradient at a point -/

omit [Differences α] in
/-- Questions are answered alike at any two benches. -/
theorem notes_any (p : Problem α) : Notes p fun (_ : Bench μ α) (_ : Bench ν α) => True :=
  ⟨fun _ _ => trivial, fun _ => trivial⟩

namespace Problem

variable (p : Problem α) (theta : List α)

/-- What comes of asking for the gradient at a point. -/
def gradientAt : Except (FitError α) (List α) :=
  answerOf (p.gradient theta (.fresh 1 (none : Best α)))

theorem gradient_apply (b : Bench μ α) :
    p.gradient theta b = outcome (p.gradientAt theta) (endState (p.gradient theta b)) := by
  have hsame := (notes_any p).inStep_gradient theta b (.fresh 1 (none : Best α)) trivial
  rw [gradientAt, hsame.answerOf, outcome_answerOf]

variable {p theta}

theorem exists_gradient_eq_ok {g : List α} (h : p.gradientAt theta = .ok g) (b : Bench μ α) :
    ∃ b', p.gradient theta b = .ok g b' := by
  have hgradient := p.gradient_apply theta b
  rw [h] at hgradient
  exact ⟨_, hgradient⟩

theorem exists_gradient_eq_error {e : FitError α} (h : p.gradientAt theta = .error e)
    (b : Bench μ α) : ∃ b', p.gradient theta b = .error e b' := by
  have hgradient := p.gradient_apply theta b
  rw [h] at hgradient
  exact ⟨_, hgradient⟩

end Problem

/-! ## Once a value is known -/

/-- Some finite value has been met. -/
def Bench.KnowsValue (b : Bench (Best α) α) : Prop := b.memory.isSome = true

omit [Differences α] in
theorem Best.isSome_record (best : Best α) (x : α) (theta : List α) :
    (best.record x theta).isSome = true := by
  rcases best.record_cases x theta with h | ⟨found, -, h⟩
  · rw [h, Option.isSome_some]
  · rw [h, Option.isSome_some]

omit [Differences α] in
theorem Best.isSome_note {best : Best α} (h : best.isSome = true) (theta : List α)
    (answer : Except (FitError α) α) : Option.isSome (Memory.note best theta answer) = true := by
  cases answer with
  | ok x => exact Best.isSome_record best x theta
  | error e => exact h

omit [Differences α] in
/-- Whatever is evaluated, a value stays known. -/
theorem parallels_knowsValue (p : Problem α) :
    Parallels p fun b c : Bench (Best α) α => c = b ∧ b.KnowsValue :=
  parallels_invariant (I := fun best : Best α => best.isSome = true)
    fun _ theta h => Best.isSome_note h theta _

/-- A cost whose values never fail. They need not be finite. -/
def Cost.IsTotal (cost : Cost α) : Prop := ∀ args, ∃ x, cost.value args = .ok x

/-- The failure only says that there is no usable curvature. -/
def IsNoCurvature (e : FitError α) : Prop := e.meansNoCurvature = true

omit [Differences α] in
theorem isNoCurvature_of_checkHessian {m : DenseMatrix α} {n : Nat} {e : FitError α}
    (h : checkHessian m n = .error e) : IsNoCurvature e := by
  unfold checkHessian at h
  split at h
  · cases h
    rfl
  · split at h
    · cases h
      rfl
    · cases h

section Known

variable {p : Problem α} {Q : FitError α → Prop}

omit [Differences α] in
theorem ends_value (hcost : p.cost.IsTotal) (theta : List α) :
    Ends Bench.KnowsValue Anything IsNoCurvature (p.value theta) := by
  intro b hb
  have hanswer : IsAnswer Anything IsNoCurvature (p.valueAt theta) := by
    obtain ⟨x, hx⟩ := hcost (p.map.toExternal theta)
    rw [Problem.valueAt, hx]
    change IsAnswer _ _ (finiteCost x)
    unfold finiteCost checkFiniteCost
    split
    · trivial
    · exact rfl
  rw [p.value_apply]
  exact ends_runOfExcept hanswer _ (Best.isSome_note hb theta _)

theorem ends_gradient (theta : List α) :
    Ends Bench.KnowsValue Anything Anything (p.gradient theta) :=
  Coupled.ends ((parallels_knowsValue p).inStep_gradient theta)

theorem ends_answer (s : Search α β) : Ends Bench.KnowsValue Anything Anything (p.answer s) :=
  Coupled.ends ((parallels_knowsValue p).inStep_answer s)

theorem ends_hessian (hcost : p.cost.IsTotal) (theta : List α) (useGradient : Bool) :
    Ends Bench.KnowsValue (IsAnswer Anything IsNoCurvature) Q (p.hessian theta useGradient) := by
  refine Ends.ite (ends_hessianOfGradients (n := theta.length) (fun t _ => ?_) rfl
    fun _ _ => isNoCurvature_of_checkHessian) (ends_attempt ?_)
  · refine (ends_attempt (ends_gradient t)).bind fun g _ => ?_
    cases g <;> exact Ends.pure trivial
  · exact ends_hessianOfValues (fun t _ => ends_value hcost t) rfl
      fun _ _ => isNoCurvature_of_checkHessian

/-- Where some value is known, the curvature of a cost whose values never fail does not fail. -/
theorem ends_curvature (hcost : p.cost.IsTotal) (theta : List α) (useGradient : Bool) :
    Ends Bench.KnowsValue Anything Q (p.curvature theta useGradient) := by
  refine (ends_hessian hcost theta useGradient).bind fun r hr => ?_
  cases r with
  | error e =>
    have hnone : e.meansNoCurvature = true := hr
    dsimp only
    rw [if_pos hnone]
    exact Ends.pure trivial
  | ok m =>
    dsimp only
    cases invertCurvature m with
    | none => exact Ends.pure trivial
    | some inv =>
      refine (ends_attempt (ends_gradient theta)).bind fun g _ => ?_
      exact Ends.get_bind fun b _ => Ends.pure trivial

/-! ## The two solvers -/

/-- A fallback that cannot be built, for the reason `e`. -/
def Solvers.Refuses (solvers : Solvers α) (e : FitError α) : Prop :=
  ∃ theta steps limit, solvers.fallback theta steps limit = .error e

omit [Differences α] in
/-- Only a spread tolerance below zero keeps the simplex from being built. -/
theorem SolverOptions.spreadTolerance_of_refuses {s : SolverOptions α} {e : FitError α}
    (h : s.solvers.Refuses e) : s.spreadTolerance < 0 := by
  obtain ⟨theta, steps, limit, h⟩ := h
  change s.fallback theta steps limit = _ at h
  unfold SolverOptions.fallback at h
  split at h
  · assumption
  · cases h

variable (solvers : Solvers α) (state : ParameterState α) (start : List α)

omit [Differences α] in
theorem ends_bestPoint : Ends Bench.KnowsValue Anything Q (Problem.bestPoint start) :=
  Ends.get_bind fun _ _ => Ends.pure trivial

theorem ends_isFlatAt (theta : List α) (tolerance : α) :
    Ends Bench.KnowsValue Anything Q (p.isFlatAt theta tolerance) := by
  refine (ends_attempt (ends_gradient theta)).bind fun g _ => ?_
  cases g <;> exact Ends.pure trivial

theorem ends_descend (tolerance : α) (limit : Nat) :
    Ends Bench.KnowsValue Anything Q (p.descend solvers start tolerance limit) := by
  refine (ends_attempt (ends_answer _)).bind fun r _ => ?_
  cases r with
  | ok outcome => exact (ends_bestPoint _).bind fun theta _ => ends_isFlatAt theta _
  | error e => exact Ends.pure trivial

theorem ends_fallBack (limit : Nat) : Ends Bench.KnowsValue Anything solvers.Refuses
    (p.fallBack solvers state start limit) := by
  refine (ends_bestPoint start).bind fun theta _ => ?_
  extract_lets steps
  refine Ends.bind (P := Anything) (ends_runOfExcept ?_) fun search _ => ?_
  · cases h : solvers.fallback theta steps limit with
    | ok search => trivial
    | error e => exact ⟨theta, steps, limit, h⟩
  refine (ends_attempt (ends_answer search)).bind fun r _ => ?_
  cases r with
  | ok outcome => exact Ends.pure trivial
  | error e =>
    refine Ends.get_bind fun b hb => ?_
    -- The failure of the simplex only counts where nothing is known.
    have hknown : ¬(Memory.lowest b.memory).isNone = true := by
      rw [Option.isNone_iff_eq_none]
      exact Option.isSome_iff_ne_none.mp hb
    rw [if_neg hknown]
    exact Ends.pure trivial

end Known

/-! ## The search of a fit -/

section Search

variable {p : Problem α} {solvers : Solvers α} {state : ParameterState α}

theorem searchMinimum_of_value_error {e : FitError α} (h : p.valueAt (p.map.start state) = .error e)
    (tolerance : α) (callLimit : Nat) (useGradient : Bool) (b : Bench μ α) :
    searchMinimum p solvers state tolerance callLimit useGradient b =
      .error e (b.noted (p.map.start state) (.error e)) := by
  have hvalue : p.value (p.map.start state) b =
      .error e (b.noted (p.map.start state) (.error e)) := by
    rw [p.value_apply, h]
    rfl
  refine bind_eq_error.mpr (.inl ?_)
  unfold Problem.minimize
  rw [get_bind_apply]
  exact bind_eq_error.mpr (.inl hvalue)

variable {x : α} (hx : p.valueAt (p.map.start state) = .ok x)
include hx

theorem searchMinimum_of_gradient_error {e : FitError α}
    (h : p.gradientAt (p.map.start state) = .error e) (tolerance : α) (callLimit : Nat)
    (useGradient : Bool) (b : Bench μ α) :
    ∃ b', searchMinimum p solvers state tolerance callLimit useGradient b = .error e b' := by
  obtain ⟨b', hgradient⟩ := Problem.exists_gradient_eq_error h (b.noted (p.map.start state) (.ok x))
  refine ⟨b', bind_eq_error.mpr (.inl ?_)⟩
  unfold Problem.minimize
  rw [get_bind_apply, bind_of_ok (Problem.value_eq_ok hx b)]
  exact bind_eq_error.mpr (.inl hgradient)

/-- With a value and a gradient at the start, only a fallback that cannot be built ends the
search. -/
theorem isEnd_searchMinimum (hcost : p.cost.IsTotal) {g : List α}
    (h : p.gradientAt (p.map.start state) = .ok g) (tolerance : α) (callLimit : Nat)
    (useGradient : Bool) (b : Bench (Best α) α) :
    IsEnd Bench.KnowsValue Anything solvers.Refuses
      (searchMinimum p solvers state tolerance callLimit useGradient b) := by
  have hknown : (b.noted (p.map.start state) (.ok x)).KnowsValue := Best.isSome_record _ _ _
  obtain ⟨b', hgradient⟩ := Problem.exists_gradient_eq_ok h (b.noted (p.map.start state) (.ok x))
  have hstill : b'.KnowsValue := by
    have hend := (ends_gradient (p := p) (p.map.start state) _ hknown).state
    rwa [hgradient] at hend
  have hminimize : IsEnd Bench.KnowsValue Anything solvers.Refuses
      (p.minimize solvers state (p.map.start state) tolerance callLimit b) := by
    unfold Problem.minimize
    -- From the start on a value is known, and that is the invariant of all that follows.
    rw [get_bind_apply, bind_of_ok (Problem.value_eq_ok hx b), bind_of_ok hgradient]
    refine Ends.ite (Ends.pure trivial) ?_ b' hstill
    refine (ends_descend solvers _ tolerance _).bind fun flat _ => Ends.ite (Ends.pure trivial) ?_
    exact Ends.get_bind fun c _ => ends_fallBack solvers state _ _
  refine Ends.bind_at hminimize fun _ _ => Ends.get_bind fun c hc => ?_
  cases hlowest : Memory.lowest c.memory with
  | none => exact absurd hlowest (Option.isSome_iff_ne_none.mp hc)
  | some found => exact (ends_curvature hcost _ _).bind fun _ _ => Ends.pure trivial

end Search

/-! ## Fits -/

section Fits

variable {choose : SolverOptions α → Solvers α} {solver : SolverOptions α} {cost : Cost α}
  {state : ParameterState α} {o : EngineOptions α}

/-- A fit of free parameters gives a minimum if its search comes to an end. -/
theorem exists_fit_of_fitSearch_ok (hfree : (ParameterMap.ofState state).nFree ≠ 0)
    {b : Bench σ α} {r : α × List α × Option (Curvature α)} {c : Bench (Best α) α}
    (h : fitSearch choose solver cost state o b.up ⟨b.up, b.nfcn, b.ngrad, none⟩ = .ok r c) :
    ∃ m b', quasiNewtonFit choose solver cost state o b = .ok m b' := by
  have hwork : Run.withMemory (none : Best α) (fitSearch choose solver cost state o b.up) b =
      .ok (r, c.memory) ⟨c.up, c.nfcn, c.ngrad, b.memory⟩ := by
    unfold Run.withMemory
    rw [h]
  unfold quasiNewtonFit
  rw [get_bind_apply, if_neg hfree]
  exact ⟨_, _, bind_of_ok hwork _⟩

/-- It fails as its search does. -/
theorem exists_fit_of_fitSearch_error (hfree : (ParameterMap.ofState state).nFree ≠ 0)
    {b : Bench σ α} {e : FitError α} {c : Bench (Best α) α}
    (h : fitSearch choose solver cost state o b.up ⟨b.up, b.nfcn, b.ngrad, none⟩ = .error e c) :
    ∃ b', quasiNewtonFit choose solver cost state o b = .error e b' := by
  have hwork : Run.withMemory (none : Best α) (fitSearch choose solver cost state o b.up) b =
      .error e ⟨c.up, c.nfcn, c.ngrad, b.memory⟩ := by
    unfold Run.withMemory
    rw [h]
  unfold quasiNewtonFit
  rw [get_bind_apply, if_neg hfree]
  exact ⟨_, bind_eq_error.mpr (.inl hwork)⟩

/-- Without free parameters, a fit reports what the cost gives, finite or not. The minimum is valid
if it is. -/
theorem exists_fit_of_fixed (hfixed : (ParameterMap.ofState state).nFree = 0) {x : α}
    (hx : cost.value state.values = .ok x) (b : Bench σ α) :
    ∃ m b', quasiNewtonFit choose solver cost state o b = .ok m b' ∧ m.fval = x ∧
      m.isValid = Scalar.isFinite x := by
  have hvalue : (cost.evaluate state.values : Run σ α α) b =
      .ok x { b with nfcn := b.nfcn + 1 } := by
    unfold Cost.evaluate
    rw [hx]
    rfl
  unfold quasiNewtonFit
  rw [get_bind_apply, if_pos hfixed]
  exact ⟨_, _, bind_of_ok hvalue _, rfl, by simp [FunctionMinimum.refreshed]⟩

variable (choose solver cost state o) in
/-- Some evaluation of a fit from a bench gives a finite value. -/
def MeetsFinite (b : Bench σ α) : Prop :=
  ∃ args ∈ fitArguments choose solver cost state o b,
    ∃ x, cost.value args = .ok x ∧ Scalar.isFinite x = true

/-- A fit of free parameters that meets a finite value starts at one. Elsewhere it goes no further
than its first evaluation. -/
theorem MeetsFinite.valueAt_start {b : Bench σ α} (h : MeetsFinite choose solver cost state o b)
    (hfree : (ParameterMap.ofState state).nFree ≠ 0) :
    ∃ x, Problem.valueAt ⟨cost, .ofState state⟩ ((ParameterMap.ofState state).start state) =
      .ok x := by
  obtain ⟨args, hargs, x, hx, hfinite⟩ := h
  cases hstart : Problem.valueAt ⟨cost, .ofState state⟩
    ((ParameterMap.ofState state).start state) with
  | ok x => exact ⟨x, rfl⟩
  | error e =>
    -- The search ends with the evaluation that failed, so that there is no other one.
    have honly : fitArguments choose solver cost state o b =
        [(ParameterMap.ofState state).toExternal ((ParameterMap.ofState state).start state)] := by
      unfold fitArguments
      rw [if_neg hfree]
      unfold fitSearch
      rw [searchMinimum_of_value_error hstart]
      rfl
    rw [honly, List.mem_singleton] at hargs
    have hok : Problem.valueAt ⟨cost, .ofState state⟩ ((ParameterMap.ofState state).start state) =
        .ok x := Problem.valueAt_eq_ok.mpr ⟨hargs ▸ hx, hfinite⟩
    rw [hstart] at hok
    cases hok

variable (cost state) in
/-- The gradient with which a fit starts. Without free parameters it needs none. -/
def startGradient : Except (FitError α) (List α) :=
  let map := ParameterMap.ofState state
  if map.nFree = 0 then .ok [] else Problem.gradientAt ⟨cost, map⟩ (map.start state)

/-- A fit that met a finite value fails if the gradient at its start does, and in the same way. -/
theorem fit_of_startGradient_error {b : Bench σ α} (h : MeetsFinite choose solver cost state o b)
    {e : FitError α} (hgradient : startGradient cost state = .error e) :
    ∃ b', quasiNewtonFit choose solver cost state o b = .error e b' := by
  unfold startGradient at hgradient
  extract_lets map at hgradient
  split at hgradient
  · cases hgradient
  · rename_i hfree
    obtain ⟨x, hx⟩ := h.valueAt_start hfree
    obtain ⟨c, hsearch⟩ := searchMinimum_of_gradient_error hx hgradient _ _ _
      (⟨b.up, b.nfcn, b.ngrad, none⟩ : Bench (Best α) α)
    exact exists_fit_of_fitSearch_error hfree hsearch

/-- With a gradient at its start, only a fallback that cannot be built can make it fail. -/
theorem fit_of_startGradient_ok (hcost : cost.IsTotal) {b : Bench σ α}
    (h : MeetsFinite choose solver cost state o b) {g : List α}
    (hgradient : startGradient cost state = .ok g) :
    (∃ m b', quasiNewtonFit choose solver cost state o b = .ok m b') ∨
      ∃ e b', quasiNewtonFit choose solver cost state o b = .error e b' ∧
        (choose (solver.adaptedTo (edmGoal o.tolerance b.up) o.precision)).Refuses e := by
  unfold startGradient at hgradient
  extract_lets map at hgradient
  split at hgradient
  · rename_i hfixed
    obtain ⟨x, hx⟩ := hcost state.values
    obtain ⟨m, b', hfit, -⟩ := exists_fit_of_fixed hfixed hx b
    exact .inl ⟨m, b', hfit⟩
  · rename_i hfree
    obtain ⟨x, hx⟩ := h.valueAt_start hfree
    have hend : IsEnd _ _ _ (fitSearch choose solver cost state o b.up
        ⟨b.up, b.nfcn, b.ngrad, (none : Best α)⟩) := isEnd_searchMinimum hx hcost hgradient _ _ _ _
    generalize hsearch : fitSearch choose solver cost state o b.up
      ⟨b.up, b.nfcn, b.ngrad, (none : Best α)⟩ = r at hend
    cases r with
    | ok r c => exact .inl (exists_fit_of_fitSearch_ok hfree hsearch)
    | error e c =>
      obtain ⟨b', hfit⟩ := exists_fit_of_fitSearch_error hfree hsearch
      exact .inr ⟨e, b', hfit, hend.answer⟩

/-- **A fit that met a finite value gives a minimum**, for every cost whose values never fail, if
only there is a gradient at its start; without one it fails as that gradient does. Solvers whose
fallback cannot be built are the one other reason to fail. -/
theorem finite_objective_fits (hcost : cost.IsTotal) {b : Bench σ α}
    (hfinite : MeetsFinite choose solver cost state o b) :
    (∀ e, startGradient cost state = .error e →
      ∃ b', (quasiNewtonWith choose solver).migrad cost state o b = .error e b') ∧
    ∀ g, startGradient cost state = .ok g →
      (∃ m b', (quasiNewtonWith choose solver).migrad cost state o b = .ok m b') ∨
        ∃ e b', (quasiNewtonWith choose solver).migrad cost state o b = .error e b' ∧
          (choose (solver.adaptedTo (edmGoal o.tolerance b.up) o.precision)).Refuses e :=
  ⟨fun _ hgradient => fit_of_startGradient_error hfinite hgradient,
    fun _ hgradient => fit_of_startGradient_ok hcost hfinite hgradient⟩

theorem meetsFinite_of_any {b : Bench σ α} (h : (fitArguments choose solver cost state o b).any
    (fun args => (cost.value args).toOption.any Scalar.isFinite) = true) :
    MeetsFinite choose solver cost state o b := by
  obtain ⟨args, hargs, hany⟩ := List.any_eq_true.mp h
  obtain ⟨x, hx, hfinite⟩ := exists_ok_of_any hany
  exact ⟨args, hargs, x, hx, hfinite⟩

/-- The sum of squares has a gradient at its start, and so a minimum is found. -/
theorem finite_objective_fits_startOfOne :
    sumOfSquares.IsTotal ∧
      MeetsFinite SolverOptions.solvers .standard sumOfSquares startOfOne .default
        (.fresh 1 () : Bench Unit Float) ∧
      ∃ m b', (quasiNewton .standard).migrad sumOfSquares startOfOne .default
        (.fresh 1 () : Bench Unit Float) = .ok m b' := by
  have hcost : sumOfSquares.IsTotal := fun args => ⟨_, rfl⟩
  have hfinite : MeetsFinite SolverOptions.solvers .standard sumOfSquares startOfOne .default
      (.fresh 1 () : Bench Unit Float) := meetsFinite_of_any (by decide +kernel)
  obtain ⟨g, hgradient, -⟩ := exists_ok_of_any (x := startGradient sumOfSquares startOfOne)
    (P := fun _ => true) (by decide +kernel)
  refine ⟨hcost, hfinite, ?_⟩
  rcases (finite_objective_fits hcost hfinite).2 g hgradient with hfit | ⟨e, b', -, hrefuses⟩
  · exact hfit
  · exact absurd (SolverOptions.spreadTolerance_of_refuses hrefuses) (by decide +kernel)

/-- The root of what is left to 1; beyond 1 it is not a number. -/
def rootBelowOne : Cost Float := .ofFunction fun xs => .ok (Scalar.sqrt (1 - xs.headD 0))

/-- A fit that starts where the root ends meets a finite value, the lowest there is, and yet gives
no minimum. -/
theorem finite_objective_without_minimum :
    rootBelowOne.IsTotal ∧
      MeetsFinite SolverOptions.solvers .standard rootBelowOne startOfOne .default
        (.fresh 1 () : Bench Unit Float) ∧
      succeeded ((quasiNewton .standard).migrad rootBelowOne startOfOne .default
        (.fresh 1 () : Bench Unit Float)) = false :=
  ⟨fun _ => ⟨_, rfl⟩, meetsFinite_of_any (by decide +kernel), by decide +kernel⟩

/-! ## The library's own solvers -/

/-- With the library's own solvers, the gradient at the start is all that counts. -/
theorem quasiNewton_fits_iff (hspread : ¬solver.spreadTolerance < 0) (hcost : cost.IsTotal)
    {b : Bench σ α} (hfinite : MeetsFinite SolverOptions.solvers solver cost state o b) :
    succeeded ((quasiNewton solver).migrad cost state o b) = true ↔
      ∃ g, startGradient cost state = .ok g := by
  change succeeded (quasiNewtonFit SolverOptions.solvers solver cost state o b) = true ↔ _
  cases hgradient : startGradient cost state with
  | ok g =>
    rcases fit_of_startGradient_ok hcost hfinite hgradient with ⟨m, b', h⟩ | ⟨e, b', -, hrefuses⟩
    · simp [h, succeeded]
    · exact absurd (SolverOptions.spreadTolerance_of_refuses hrefuses) hspread
  | error e =>
    obtain ⟨b', h⟩ := fit_of_startGradient_error hfinite hgradient
    simp [h, succeeded]

end Fits

end FitSession
