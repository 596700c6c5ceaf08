import FitSession.Bench
import FitSession.Engine.Minimum
import FitSession.Engine.Options

/-!
# Engines

An engine is all that a session knows of numerics: four kinds of work on a cost, done at a bench.

* `Fit`: a minimization from a state;
* `Refinement`: work on a minimum in place;
* `Engine`: the work;
* `Engine.hesseMinimum`: the covariance at a minimum, as a new minimum.
-/

namespace FitSession

/-- A minimization of a cost from a state. -/
abbrev Fit (σ α : Type) : Type :=
  Cost α → ParameterState α → EngineOptions α → Run σ α (FunctionMinimum α)

/-- Work on a minimum in place. A failure keeps the minimum as it was left. -/
abbrev Refinement (σ α : Type) : Type :=
  EStateM (FitError α) (Bench σ α × FunctionMinimum α) Unit

/-- Work that gives a new minimum, done in place: only its success changes the minimum. -/
def Refinement.ofRun {σ α : Type} (work : FunctionMinimum α → Run σ α (FunctionMinimum α)) :
    Refinement σ α := fun (b, m) =>
  match work m b with
  | .ok refined b => .ok () (b, refined)
  | .error e b => .error e (b, m)

/-- The numerics behind a session, with a memory of type `σ` from call to call. -/
structure Engine (σ α : Type) where
  /-- A minimization from a state. -/
  migrad : Fit σ α
  /-- The covariance at the state of a minimum, which becomes part of the minimum. -/
  refinement : Cost α → Option Nat → Refinement σ α
  /-- A state with its covariance, or without one if it has none. -/
  hesseState : Cost α → ParameterState α → Option Nat → Run σ α (Option (ParameterState α))
  /-- The asymmetric error of one parameter around a minimum. -/
  minos : Cost α → FunctionMinimum α → Nat → EngineOptions α → Run σ α (Interval α)
  /-- Points of the line on which two parameters reach the errordef, as many as are asked for. -/
  contourLine :
    Cost α → FunctionMinimum α → Nat → Nat → Nat → EngineOptions α → Run σ α (List (α × α))

/-- A minimum with the covariance at its state. -/
def Engine.hesseMinimum {σ α : Type} (engine : Engine σ α) (cost : Cost α) (m : FunctionMinimum α)
    (callLimit : Option Nat) : Run σ α (FunctionMinimum α) := fun b =>
  match engine.refinement cost callLimit (b, m) with
  | .ok () (b, m) => .ok m b
  | .error e (b, _) => .error e b

end FitSession
