import FitSession.Engine.Contour
import FitSession.Engine.Curvature
import FitSession.Minimizer.Options

/-!
# The quasi-Newton engine

A minimization is a quasi-Newton search in internal coordinates; if that does not end at a small
gradient, a simplex goes on from the lowest point met so far. The result is always the lowest point
met. Covariances come from finite differences, intervals and contours from searches on profiles.

* `standardCallLimit`, `standardIntervalLimit`: how many evaluations a call may use;
* `Problem.minimize`: the two solvers on a problem;
* `quasiNewtonFit`: a minimization;
* `quasiNewtonWith`, `quasiNewton`: the engine, with any pair of solvers and with the usual one.
-/

namespace FitSession

variable {σ α : Type} [Scalar α] [Differences α]

/-- The evaluations of a minimization with `n` free parameters. -/
def standardCallLimit (n : Nat) : Nat := 200 + 100 * n + 5 * n * n

/-- The evaluations of an interval with `n` free parameters. -/
def standardIntervalLimit (n : Nat) : Nat := 2 * (n + 1) * standardCallLimit n

/-- The least step of a simplex. -/
def leastSimplexStep : α := 1e-3

/-- The iterations of the main solver for a number of evaluations. -/
def descentLimit (callLimit n : Nat) : Nat := max (callLimit / (2 * n + 3)) 10

/-- The iterations of the fallback for the evaluations that are left. -/
def fallbackLimit (callLimit used n : Nat) : Nat := max (callLimit - used) (10 * (n + 1))

namespace Problem

variable {μ : Type} [Memory μ α]

/-- The point of the lowest value met so far. -/
def bestPoint (otherwise : List α) : Run μ α (List α) := do
  let b ← get
  pure ((Memory.lowest b.memory).elim otherwise (·.2))

/-- Whether the gradient at a point is known and not longer than `tolerance`. -/
def isFlatAt (p : Problem α) (theta : List α) (tolerance : α) : Run μ α Bool := do
  match ← (p.gradient theta).attempt with
  | .ok g => pure (decide (Scalar.norm g ≤ tolerance))
  | .error _ => pure false

/-- The main solver from a start; whether it ended at a small gradient. -/
def descend (p : Problem α) (solvers : Solvers α) (start : List α) (tolerance : α) (limit : Nat) :
    Run μ α Bool := do
  match ← (p.answer (solvers.descent start limit)).attempt with
  | .ok outcome => do
    let theta ← bestPoint outcome.theta
    p.isFlatAt theta (10 * tolerance)
  | .error _ => pure false

/-- The fallback from the lowest point. Its failure only counts if no value is known. -/
def fallBack (p : Problem α) (solvers : Solvers α) (state : ParameterState α) (start : List α)
    (limit : Nat) : Run μ α Unit := do
  let theta ← bestPoint start
  let steps := p.map.simplexSteps state theta leastSimplexStep
  let search ← Run.ofExcept (solvers.fallback theta steps limit)
  match ← (p.answer search).attempt with
  | .ok _ => pure ()
  | .error e => do
    let b ← get
    if (Memory.lowest b.memory).isNone then throw e

/-- The two solvers on a problem. What they find is the lowest point that is remembered. -/
def minimize (p : Problem α) (solvers : Solvers α) (state : ParameterState α) (start : List α)
    (tolerance : α) (callLimit : Nat) : Run μ α Unit := do
  let before ← get
  let _ ← p.value start
  let g ← p.gradient start
  if Scalar.norm g ≤ tolerance then pure ()
  else
    let n := start.length
    if ← p.descend solvers start tolerance (descentLimit callLimit n) then pure ()
    else
      let b ← get
      p.fallBack solvers state start (fallbackLimit callLimit (b.nfcn - before.nfcn) n)

end Problem

/-- The minimum of a cost without free parameters. -/
def fixedMinimum (cost : Cost α) (state : ParameterState α) (goal : α) :
    Run σ α (FunctionMinimum α) := do
  let fval ← cost.evaluate state.values
  let b ← get
  pure <| FunctionMinimum.refreshed
    { fval, edm := 0, up := b.up, edmGoal := goal, isValid := false,
      hasValidParameters := Scalar.isFinite fval, hasAccurateCovar := true,
      hasPosdefCovar := true, hasMadePosdefCovar := false, hesseFailed := false,
      hasCovariance := true, isAboveMaxEdm := false, hasReachedCallLimit := false,
      hasParametersAtLimit := false, nfcn := b.nfcn, ngrad := b.ngrad,
      state := state.withCovariance (some ⟨[]⟩) }

/-- The lowest point of a minimization and the curvature there. -/
def searchMinimum {μ : Type} [Memory μ α] (p : Problem α) (solvers : Solvers α)
    (state : ParameterState α) (tolerance : α) (callLimit : Nat) (useGradient : Bool) :
    Run μ α (α × List α × Option (Curvature α)) := do
  p.minimize solvers state (p.map.start state) tolerance callLimit
  let b ← get
  match Memory.lowest b.memory with
  | none => throw (.fitFailed .neverFinite)
  | some (fval, theta) => do
    let curvature ← p.curvature theta useGradient
    pure (fval, theta, curvature)

/-- A minimization, with solvers for any options. -/
def quasiNewtonFit (choose : SolverOptions α → Solvers α) (solver : SolverOptions α) : Fit σ α :=
  fun cost state options => do
    let before ← get
    let goal := edmGoal options.tolerance before.up
    let map := ParameterMap.ofState state
    if map.nFree = 0 then fixedMinimum cost state goal
    else
      let callLimit := options.callLimit.getD (standardCallLimit map.nFree)
      let solver := solver.adaptedTo goal options.precision
      let useGradient := cost.hasGrad && options.strategy != .careful
      let ((fval, theta, curvature), _) ← Run.withMemory (none : Best α) <|
        searchMinimum ⟨cost, map⟩ (choose solver) state solver.gradientTolerance callLimit
          useGradient
      let b ← get
      let values := map.freeValues theta
      let edm := curvature.elim Scalar.inf (·.edm)
      let made := curvature.elim false (·.madePosdef)
      let posdef := curvature.isSome && !made
      pure <| FunctionMinimum.refreshed
        { fval, edm, up := before.up, edmGoal := goal, isValid := false,
          hasValidParameters := Scalar.isFinite fval && values.all Scalar.isFinite,
          hasAccurateCovar := posdef && options.strategy != .fast,
          hasPosdefCovar := posdef, hasMadePosdefCovar := made,
          hesseFailed := curvature.isNone, hasCovariance := curvature.isSome,
          isAboveMaxEdm := decide (10 * goal < edm),
          hasReachedCallLimit := decide (callLimit ≤ b.nfcn - before.nfcn),
          hasParametersAtLimit := map.touchesLimit theta, nfcn := b.nfcn, ngrad := b.ngrad,
          state := (state.overwriteValues map.free values).withCurvature map.free curvature }

/-- A state with the covariance at its point, and the curvature there. -/
def refineState (cost : Cost α) (state : ParameterState α) :
    Run σ α (ParameterState α × Option (Curvature α)) := do
  let map := ParameterMap.ofState state
  let (curvature, _) ← Run.withMemory (none : Best α) <|
    Problem.curvature ⟨cost, map⟩ (map.toInternal state) false
  pure (state.withCurvature map.free curvature, curvature)

/-- A minimum with the covariance at its state. -/
def refineMinimum (cost : Cost α) (m : FunctionMinimum α) (callLimit : Option Nat) :
    Run σ α (FunctionMinimum α) := do
  let before ← get
  let limit := callLimit.getD (standardCallLimit m.state.nFree)
  let (state, curvature) ← refineState cost m.state
  let b ← get
  let made := curvature.elim false (·.madePosdef)
  let posdef := curvature.isSome && !made
  let edm := curvature.elim m.edm (·.edm)
  pure <| FunctionMinimum.refreshed
    { m with
      edm, hasCovariance := curvature.isSome, hesseFailed := curvature.isNone,
      hasPosdefCovar := posdef, hasMadePosdefCovar := made, hasAccurateCovar := posdef,
      isAboveMaxEdm := if curvature.isSome then decide (10 * m.edmGoal < edm) else m.isAboveMaxEdm,
      hasReachedCallLimit := decide (limit ≤ b.nfcn - before.nfcn), nfcn := b.nfcn,
      ngrad := b.ngrad, state }

/-- The asymmetric error of one parameter: first below the minimum, then above it. -/
def profileInterval (fit : Fit σ α) (cost : Cost α) (m : FunctionMinimum α) (index : Nat)
    (options : EngineOptions α) : Run σ α (Interval α) := do
  let before ← get
  let limit := options.callLimit.getD (standardIntervalLimit m.state.nFree)
  let entry ← Run.ofExcept (m.state.entryOrFail index)
  let lo ← crossingAt fit cost m index (-1) options limit
  let between ← get
  let left := max (limit - (between.nfcn - before.nfcn)) 1
  let hi ← crossingAt fit cost m index 1 options left
  let b ← get
  pure
    { lower := -lo.offset, upper := hi.offset, isValid := lo.valid && hi.valid,
      lowerValid := lo.valid, upperValid := hi.valid, atLowerLimit := lo.atLimit,
      atUpperLimit := hi.atLimit, atLowerMaxFcn := lo.atMaxFcn, atUpperMaxFcn := hi.atMaxFcn,
      lowerNewMin := lo.newMin, upperNewMin := hi.newMin, nfcn := b.nfcn - before.nfcn,
      min := entry.value }

/-- A contour line of two parameters that must exist. -/
def profileContour (fit : Fit σ α) (cost : Cost α) (m : FunctionMinimum α) (ix iy count : Nat)
    (options : EngineOptions α) : Run σ α (List (α × α)) := do
  let _ ← Run.ofExcept (m.state.entryOrFail ix)
  let _ ← Run.ofExcept (m.state.entryOrFail iy)
  contourPoints fit cost m ix iy count options

/-- The engine with a choice of solvers for any options. -/
def quasiNewtonWith (choose : SolverOptions α → Solvers α) (solver : SolverOptions α) :
    Engine σ α where
  migrad := quasiNewtonFit choose solver
  refinement cost callLimit := .ofRun fun m => refineMinimum cost m callLimit
  hesseState cost state _ := do
    let (refined, _) ← refineState cost state
    pure (some refined)
  minos := profileInterval (quasiNewtonFit choose solver)
  contourLine := profileContour (quasiNewtonFit choose solver)

/-- The engine with the library's own solvers. -/
def quasiNewton (solver : SolverOptions α) : Engine σ α :=
  quasiNewtonWith SolverOptions.solvers solver

end FitSession
