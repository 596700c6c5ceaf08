import FitSession.Derivative.Checks
import FitSession.Minimizer.Search

/-!
# Iterations

A solver is run in steps until it has converged, has used its iterations, or stops by itself. The
best point of the run is kept aside from the current one.

* `Termination`, `Termination.message`: why a run ended;
* `Solver`: the steps of a solver on states of its own;
* `Outcome`, `Solver.run`: a run and what came of it.
-/

namespace FitSession

/-- Why a run ended. -/
inductive Termination (α : Type)
  | converged
  | iterations
  | target
  | lineSearch (fault : SolverFault α)

/-- The wording of an end. -/
def Termination.message : Termination Float → String
  | .converged => "Solver converged"
  | .iterations => "Maximum number of iterations reached"
  | .target => "Target cost value reached"
  | .lineSearch fault => "Line search terminated with: '" ++ fault.message ++ "'"

/-- What came of a run. -/
structure Outcome (α : Type) where
  theta : List α
  fval : α
  iterations : Nat
  status : Termination α

/-- A point with its cost. -/
structure Candidate (α : Type) where
  theta : List α
  cost : α

/-- The steps of a solver on states of type `S`. A step may end the run. -/
structure Solver (α S : Type) where
  start : Search α S
  current : S → Candidate α
  hasConverged : S → Bool
  /-- The next state of a run that has made the given number of steps. -/
  step : Nat → S → Search α (S × Option (Termination α))

namespace Solver

variable {α S : Type} [Scalar α]

/-- The better of a kept candidate and a new one. -/
def better (kept new : Candidate α) : Candidate α := if new.cost < kept.cost then new else kept

/-- The steps from a state, `left` of them at most. -/
def steps (solver : Solver α S) : (left made : Nat) → S → Candidate α → Search α (Outcome α)
  | left, made, state, best =>
    let stop (status : Termination α) : Search α (Outcome α) :=
      pure ⟨best.theta, best.cost, made, status⟩
    if solver.hasConverged state then stop .converged
    else
      match left with
      | 0 => stop .iterations
      | left + 1 =>
        if best.cost ≤ Scalar.negInf then stop .target
        else do
          let (state, stopped) ← solver.step made state
          let best := better best (solver.current state)
          match stopped with
          | some status => pure ⟨best.theta, best.cost, made + 1, status⟩
          | none => solver.steps left (made + 1) state best

/-- A run of at most `limit` steps. The best point must be finite. -/
def run (solver : Solver α S) (limit : Nat) : Search α (Outcome α) := do
  let state ← solver.start
  let outcome ← solver.steps limit 0 state (solver.current state)
  match checkSolverPoint (some outcome.theta) with
  | .ok _ => pure outcome
  | .error e => .fail (.objective e)

end Solver
end FitSession
