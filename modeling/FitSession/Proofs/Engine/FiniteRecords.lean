import FitSession.Proofs.Engine.Crossing
import FitSession.Proofs.Engine.FiniteObjective
import FitSession.Proofs.State.Entries

/-!
# Values that are reported are finite

A value that is not finite is a failure wherever a problem is evaluated, so that a fit of free
parameters never reports one. Without free parameters there is no problem: the fit reports what the
cost gives, and marks the minimum as invalid if that is not finite.

* `Best.IsFinite`, `isFinite_fval`: what a fit remembers, and what it reports;
* `exists_fit_of_start_not_finite`: a fit that fails at its start;
* `Fit.refusing`, `Fit.GivesFinite`: a fit that refuses other values, and one that need not;
* `crossingAt_refusing`, `contourPoints_refusing`: the fits in a search for a crossing or along the
  rays of a contour;
* `finite_records`: **every value of a fit is finite where some parameter is free**, also in the
  searches that leave one free.
-/

namespace FitSession

variable {σ α : Type} [Scalar α]

/-! ## What a fit reports -/

/-- The lowest value is finite, if there is one. -/
def Best.IsFinite (best : Best α) : Prop :=
  ∀ x theta, best = some (x, theta) → Scalar.isFinite x = true

theorem Best.IsFinite.note {p : Problem α} {best : Best α} (h : best.IsFinite) (theta : List α) :
    Best.IsFinite (Memory.note best theta (p.valueAt theta)) := by
  cases hvalue : p.valueAt theta with
  | error e => exact h
  | ok y =>
    have hfinite : Scalar.isFinite y = true := (Problem.valueAt_eq_ok.mp hvalue).2
    intro x t hx
    change Best.record best y theta = _ at hx
    rcases best.record_cases y theta with hnew | ⟨found, hbest, hold⟩
    · rw [hnew] at hx
      cases hx
      exact hfinite
    · rw [hold, ← hbest] at hx
      exact h x t hx

section Fits

variable [Differences α] {choose : SolverOptions α → Solvers α} {solver : SolverOptions α}
  {cost : Cost α} {state : ParameterState α} {o : EngineOptions α} {b b' : Bench σ α}
  {m : FunctionMinimum α}

/-- A fit of free parameters reports a finite value. -/
theorem isFinite_fval (hfree : 0 < state.nFree)
    (h : quasiNewtonFit choose solver cost state o b = .ok m b') :
    Scalar.isFinite m.fval = true := by
  obtain ⟨theta, _, _, b₁, _, hphase, hmemory, -⟩ := exists_lowest_of_fit hfree h
  have hparallels : Parallels (⟨cost, .ofState state⟩ : Problem α)
      fun b c : Bench (Best α) α => c = b ∧ b.memory.IsFinite :=
    parallels_invariant fun _ theta h => h.note theta
  have hends : Ends (fun b : Bench (Best α) α => b.memory.IsFinite) Anything Anything
      (minimizationPhase choose solver cost state o b.up) :=
    Coupled.ends (hparallels.inStep_minimize _ state _ _ _)
  have hend := (hends ⟨b.up, b.nfcn, b.ngrad, none⟩ fun _ _ hnone => nomatch hnone).state
  rw [hphase] at hend
  exact hend _ _ hmemory

/-- A start whose value is not finite ends a fit of free parameters. -/
theorem exists_fit_of_start_not_finite (hfree : 0 < state.nFree) {x : α}
    (hx : cost.value ((ParameterMap.ofState state).toExternal
      ((ParameterMap.ofState state).start state)) = .ok x)
    (hnot : Scalar.isFinite x = false) :
    ∃ b', quasiNewtonFit choose solver cost state o b = .error (.nonFiniteCost x) b' := by
  have hvalue : Problem.valueAt ⟨cost, .ofState state⟩ ((ParameterMap.ofState state).start state) =
      .error (.nonFiniteCost x) := by
    have hcheck : finiteCost x = .error (.nonFiniteCost x) := by
      unfold finiteCost checkFiniteCost
      rw [hnot]
      rfl
    rw [Problem.valueAt, hx]
    exact hcheck
  have hmap : (ParameterMap.ofState state).nFree ≠ 0 := by
    rw [ParameterMap.nFree_ofState]
    omega
  exact exists_fit_of_fitSearch_error hmap (searchMinimum_of_value_error hvalue _ _ _ _)

end Fits

/-! ## Fits that refuse other values -/

/-- A fit whose minimum only counts if its value is finite. -/
def Fit.refusing (fit : Fit σ α) : Fit σ α := fun cost state o => do
  let m ← fit cost state o
  Run.ofExcept (checkFiniteCost m.fval)
  pure m

/-- A fit of a cost that gives finite values where some parameter is free. -/
def Fit.GivesFinite (fit : Fit σ α) (cost : Cost α) : Prop :=
  ∀ state o b m b', 0 < state.nFree → fit cost state o b = .ok m b' → Scalar.isFinite m.fval = true

theorem givesFinite_quasiNewtonFit [Differences α] (choose : SolverOptions α → Solvers α)
    (solver : SolverOptions α) (cost : Cost α) :
    Fit.GivesFinite (quasiNewtonFit choose solver : Fit σ α) cost :=
  fun _ _ _ _ _ hfree h => isFinite_fval hfree h

section Refusing

variable {fit : Fit σ α} {cost : Cost α} (hfit : fit.GivesFinite cost)
include hfit

/-- Where some parameter is free, nothing is refused. -/
theorem Fit.GivesFinite.refusing_eq {state : ParameterState α} (hfree : 0 < state.nFree)
    (o : EngineOptions α) : fit.refusing cost state o = fit cost state o := by
  funext b
  unfold Fit.refusing
  rw [bind_apply]
  cases h : fit cost state o b with
  | error e b' => rfl
  | ok m b' =>
    have hcheck : (checkFiniteCost m.fval : Except (FitError α) Unit) = .ok () :=
      if_pos (hfit state o b m b' hfree h)
    dsimp only
    rw [hcheck]
    rfl

/-! ## Searches that leave a parameter free -/

variable {i : Nat}

theorem Profile.rise_refusing {pinned : ParameterState α} {o : EngineOptions α} {fval center : α}
    {index : Nat} {sign : α} (hi : i ∈ pinned.freeIndices) (hne : i ≠ index) :
    Profile.rise ⟨fit.refusing, cost, o, pinned, fval, index, center, sign⟩ =
      Profile.rise ⟨fit, cost, o, pinned, fval, index, center, sign⟩ := by
  funext offset
  unfold Profile.rise
  refine runOfExcept_bind_congr fun state hstate => ?_
  have hfree : i ∈ state.freeIndices :=
    ParameterState.mem_freeIndices_of_run (w := .value index _) hstate hi hne
  dsimp only
  rw [hfit.refusing_eq (ParameterState.nFree_pos_of_mem hfree)]

/-- A search for a crossing that leaves a parameter free only ever sees finite values. -/
theorem crossingAt_refusing {minimum : FunctionMinimum α} {index : Nat}
    (hi : i ∈ minimum.state.freeIndices) (hne : i ≠ index) (sign : α) (o : EngineOptions α)
    (limit : Nat) :
    crossingAt fit cost minimum index sign o limit =
      crossingAt fit.refusing cost minimum index sign o limit := by
  unfold crossingAt
  refine bind_congr fun b => ?_
  cases minimum.state.entry? index with
  | none => rfl
  | some e =>
    refine runOfExcept_bind_congr fun pinned hpinned => ?_
    have hfree : i ∈ pinned.freeIndices :=
      ParameterState.mem_freeIndices_of_run (w := .fixed index true) hpinned hi hne
    dsimp only
    rw [Profile.rise_refusing hfit hfree hne]

theorem Plane.rise_refusing {pinned : ParameterState α} {o : EngineOptions α}
    {fval centerX centerY : α} {ix iy : Nat} (hi : i ∈ pinned.freeIndices) (hx : i ≠ ix)
    (hy : i ≠ iy) :
    Plane.rise ⟨fit.refusing, cost, o, pinned, fval, ix, iy, centerX, centerY⟩ =
      Plane.rise ⟨fit, cost, o, pinned, fval, ix, iy, centerX, centerY⟩ := by
  funext point
  unfold Plane.rise
  refine runOfExcept_bind_congr fun atX hatX => runOfExcept_bind_congr fun state hstate => ?_
  have hbetween : i ∈ atX.freeIndices :=
    ParameterState.mem_freeIndices_of_run (w := .value ix _) hatX hi hx
  have hfree : i ∈ state.freeIndices :=
    ParameterState.mem_freeIndices_of_run (w := .value iy _) hstate hbetween hy
  dsimp only
  rw [hfit.refusing_eq (ParameterState.nFree_pos_of_mem hfree)]

/-- So do the rays of a contour line that leaves a parameter free. -/
theorem contourPoints_refusing {minimum : FunctionMinimum α} {ix iy : Nat}
    (hi : i ∈ minimum.state.freeIndices) (hx : i ≠ ix) (hy : i ≠ iy) (count : Nat)
    (o : EngineOptions α) :
    contourPoints fit cost minimum ix iy count o =
      contourPoints fit.refusing cost minimum ix iy count o := by
  unfold contourPoints
  split
  · refine bind_congr fun b => ?_
    refine runOfExcept_bind_congr fun first hfirst => ?_
    refine runOfExcept_bind_congr fun pinned hpinned => ?_
    have hbetween : i ∈ first.freeIndices :=
      ParameterState.mem_freeIndices_of_run (w := .fixed ix true) hfirst hi hx
    have hfree : i ∈ pinned.freeIndices :=
      ParameterState.mem_freeIndices_of_run (w := .fixed iy true) hpinned hbetween hy
    simp only [Plane.rise_refusing hfit hfree hx hy]
    rfl
  · rfl

end Refusing

/-! ## All records -/

/-- Which values a fit of a cost hands out. Where some parameter is free they are finite, and so are
all that a search sees which leaves a parameter free: it does what it would do with fits that refuse
other values. A value at the start that is not finite is a failure. Without a free parameter, a fit
reports what the cost gives. -/
structure Fit.ReportsFinite (fit : Fit σ α) (cost : Cost α) : Prop where
  free : fit.GivesFinite cost
  start : ∀ state o b x, 0 < state.nFree →
    cost.value ((ParameterMap.ofState state).toExternal
      ((ParameterMap.ofState state).start state)) = .ok x → Scalar.isFinite x = false →
    ∃ b', fit cost state o b = .error (.nonFiniteCost x) b'
  fixed : ∀ state o b x, state.nFree = 0 → cost.value state.values = .ok x →
    ∃ m b', fit cost state o b = .ok m b' ∧ m.fval = x ∧ m.isValid = Scalar.isFinite x
  crossing : ∀ minimum index sign o limit, (∃ i ∈ minimum.state.freeIndices, i ≠ index) →
    crossingAt fit cost minimum index sign o limit =
      crossingAt fit.refusing cost minimum index sign o limit
  contour : ∀ minimum ix iy count o, (∃ i ∈ minimum.state.freeIndices, i ≠ ix ∧ i ≠ iy) →
    contourPoints fit cost minimum ix iy count o =
      contourPoints fit.refusing cost minimum ix iy count o

/-- **Values that are not finite are not reported while some parameter is free**, by a fit of any
cost, or to a search for a crossing or a contour line that leaves one free, whatever the solvers and
the differences. -/
theorem finite_records [Differences α] (choose : SolverOptions α → Solvers α)
    (solver : SolverOptions α) (cost : Cost α) :
    Fit.ReportsFinite ((quasiNewtonWith choose solver).migrad : Fit σ α) cost := by
  have hfit := givesFinite_quasiNewtonFit (σ := σ) choose solver cost
  exact
    { free := hfit
      start := fun _ _ _ _ hfree hx hnot => exists_fit_of_start_not_finite hfree hx hnot
      fixed := fun state _ b _ hfixed hx =>
        exists_fit_of_fixed ((ParameterMap.nFree_ofState state).trans hfixed) hx b
      crossing := fun _ _ _ _ _ ⟨_, hi, hne⟩ => crossingAt_refusing hfit hi hne _ _ _
      contour := fun _ _ _ _ _ ⟨_, hi, hx, hy⟩ => contourPoints_refusing hfit hi hx hy _ _ }

/-- The minimum that is found from one parameter at 1 has a finite value. -/
theorem finite_records_startOfOne : ∃ (m : FunctionMinimum Float) (b' : Bench Unit Float),
    0 < startOfOne.nFree ∧
      (quasiNewton .standard).migrad sumOfSquares startOfOne .default (.fresh 1 ()) = .ok m b' ∧
      Scalar.isFinite m.fval = true := by
  have hfree : 0 < startOfOne.nFree := by decide +kernel
  obtain ⟨m, b', h⟩ := exists_ok_of_succeeded (r := (quasiNewton .standard).migrad sumOfSquares
    startOfOne .default (.fresh 1 () : Bench Unit Float)) (by decide +kernel)
  have hrecords := finite_records (σ := Unit) SolverOptions.solvers .standard sumOfSquares
  exact ⟨m, b', hfree, h, hrecords.free _ _ _ _ _ hfree h⟩

/-- The square of a parameter below one half; not a number from there on. -/
def squareBelowHalf : Cost Float :=
  .ofFunction fun xs => .ok (if xs.headD 0 < 0.5 then Scalar.dot xs xs else Scalar.nan)

/-- The state with one parameter fixed at 1. -/
def fixedAtOne : ParameterState Float := .ofEntries [{ Entry.free 1 0.1 with fixed := true }]

/-- With the one parameter fixed at 1, the fit reports what is not a number. With that parameter
held by a search for its crossing, the search goes on with such values, and its fits are not those
that would refuse them. -/
theorem not_finite_without_free :
    (∃ (m : FunctionMinimum Float) (b' : Bench Unit Float),
      (quasiNewton .standard).migrad squareBelowHalf fixedAtOne .default (.fresh 1 ()) = .ok m b' ∧
        Scalar.isFinite m.fval = false) ∧
    succeeded (crossingAt (quasiNewton .standard).migrad squareBelowHalf minimumAtZero 0 1 .default
      3 (.fresh 1 () : Bench Unit Float)) = true ∧
    succeeded (crossingAt (Fit.refusing (quasiNewton .standard).migrad) squareBelowHalf
      minimumAtZero 0 1 .default 3 (.fresh 1 () : Bench Unit Float)) = false := by
  refine ⟨?_, by decide +kernel, by decide +kernel⟩
  have hvalue : squareBelowHalf.value fixedAtOne.values = .ok Scalar.nan :=
    congrArg Except.ok (if_neg (by decide +kernel))
  have hfixed : ∃ m b', (quasiNewton .standard).migrad squareBelowHalf fixedAtOne .default
      (.fresh 1 () : Bench Unit Float) = .ok m b' ∧ m.fval = Scalar.nan ∧
        m.isValid = Scalar.isFinite (Scalar.nan : Float) :=
    exists_fit_of_fixed (by decide +kernel) hvalue _
  obtain ⟨m, b', hfit, hfval, -⟩ := hfixed
  refine ⟨m, b', hfit, ?_⟩
  rw [hfval]
  decide +kernel

end FitSession
