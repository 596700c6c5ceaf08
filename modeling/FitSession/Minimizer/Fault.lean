import FitSession.Failure.Message
import FitSession.Text.Quoted

/-!
# Faults of solvers

A solver stops for a reason of its own, or because the objective failed under it. The failure of an
objective comes out of a solver unchanged.

* `SolverFault`: the reasons;
* `SolverFault.toFitError`: the failure of the fit that a fault is;
* `SolverFault.message`: the wording of a fault, as the report of a solver quotes it.
-/

namespace FitSession

/-- Why a solver stopped before its end. -/
inductive SolverFault (α : Type)
  | objective (e : FitError α)
  | invalidParameter (text : String)
  | notImplemented (text : String)
  | notInitialized (text : String)
  | conditionViolated (text : String)
  | checkpointNotFound (text : String)
  | potentialBug (text : String)
  | impossible (text : String)
  | foreign (text : String)

/-- The failure of the fit that a fault is. -/
def SolverFault.toFitError {α : Type} : SolverFault α → FitError α
  | .objective e => e
  | .invalidParameter text => .invalidParameter text
  | .notImplemented text => .notImplemented text
  | .notInitialized text => .notInitialized text
  | .conditionViolated text => .conditionViolated text
  | .checkpointNotFound text => .checkPointNotFound text
  | .potentialBug text => .potentialBug text
  | .impossible text => .impossibleError text
  | .foreign text => .backendError text

/-- The parts of the address at which a fault that should not occur is to be reported. -/
def reportAddress : List String := ["https:", "", "github.com", "argmin-rs", "argmin", "issues"]

/-- The wording of a fault. -/
def SolverFault.message : SolverFault Float → String
  | .objective e => e.message
  | .invalidParameter text => "Invalid parameter: " ++ quote text
  | .notImplemented text => "Not implemented: " ++ quote text
  | .notInitialized text => "Not initialized: " ++ quote text
  | .conditionViolated text => "Condition violated: " ++ quote text
  | .checkpointNotFound text => "Checkpoint not found: " ++ quote text
  | .potentialBug text =>
    "Potential bug: " ++ quote text ++ ". This is potentially a bug. Please file a report on "
      ++ "/".intercalate reportAddress
  | .impossible text => "Impossible error: " ++ quote text
  | .foreign text => text

end FitSession
