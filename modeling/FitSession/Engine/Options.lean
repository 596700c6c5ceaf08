import FitSession.Derivative.Checks

/-!
# Options of an engine call

* `Strategy`: how much effort goes into the covariance, by level or by name;
* `EngineOptions`, `EngineOptions.ofParts`: the options of one call;
* `edmGoal`: the estimated distance to the minimum that a minimization aims at.
-/

namespace FitSession

/-- How much effort goes into the covariance of a minimization. -/
inductive Strategy
  /-- The covariance is never taken to be accurate. -/
  | fast
  | standard
  /-- The covariance comes from values even when there is a gradient. -/
  | careful
deriving DecidableEq, Repr

/-- The options of one engine call. -/
structure EngineOptions (α : Type) where
  strategy : Strategy
  /-- The number of evaluations that may be used, if it is not left to the engine. -/
  callLimit : Option Nat
  /-- The factor of the goal for the distance to the minimum. -/
  tolerance : α
  /-- The relative precision of the objective, if it is not that of the numbers. -/
  precision : Option α
  printLevel : Int
deriving Repr

variable {α : Type}

namespace Strategy

/-- The level of a strategy. -/
def level : Strategy → Nat
  | .fast => 0
  | .standard => 1
  | .careful => 2

/-- The strategy of a level. -/
def ofLevel : Nat → Except (FitError α) Strategy
  | 0 => .ok .fast
  | 1 => .ok .standard
  | 2 => .ok .careful
  | level => .error (.configuration (.strategyLevel level))

/-- The strategy of a name or of a level in digits. -/
def ofName (text : String) : Except (FitError α) Strategy :=
  let lowered := text.toLower
  if lowered = "0" || lowered = "fast" then .ok .fast
  else if lowered = "1" || lowered = "default" then .ok .standard
  else if lowered = "2" || lowered = "careful" then .ok .careful
  else .error (.configuration (.strategyName text))

end Strategy

variable [Scalar α]

/-- A precision must be finite and positive, if there is one. -/
def checkPrecision : Option α → Except (FitError α) Unit
  | none => .ok ()
  | some x => if isPositive x then .ok () else .error (.configuration (.precision x))

/-- The goal for the estimated distance to the minimum. -/
def edmGoal (tolerance up : α) : α := 0.002 * tolerance * up

namespace EngineOptions

/-- The options unless told otherwise. -/
def default : EngineOptions α := ⟨.standard, none, 0.1, none, 0⟩

/-- Options that have been checked. -/
def ofParts (strategy : Strategy) (callLimit : Option Nat) (tolerance : α) (precision : Option α)
    (printLevel : Int) : Except (FitError α) (EngineOptions α) := do
  if !isPositive tolerance then throw (.configuration (.tolerance tolerance))
  checkPrecision precision
  pure ⟨strategy, callLimit, tolerance, precision, printLevel⟩

/-- The options of a minimization within a search on a profile. -/
def inner (o : EngineOptions α) : EngineOptions α :=
  { o with callLimit := none, printLevel := 0 }

end EngineOptions
end FitSession
