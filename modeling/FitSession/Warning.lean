import FitSession.Failure.Message

/-!
# Warnings

Conditions that a session records and then carries on from, each with a documented fallback.

* `Warning`: the conditions;
* `Warning.message`: their wording;
* `needsSharedLevel`, `sharedLevelAfter`: when a print level of one session becomes that of all.
-/

namespace FitSession

/-- Conditions that a session records and carries on from. -/
inductive Warning (α : Type)
  | missingInitialValue (name : String) (seeded : α)
  | errordefUnset
  | fixedParameterSkipped (name : String)
  | globalPrintLevel (level : Int)
  | invalidMinimum (attempts : Nat)
  | covarianceMadePosDef
  | scanPointInvalid (name : String) (value : α)
  | inaccurateErrors
deriving Repr

/-- The text of a warning. -/
def Warning.message : Warning Float → String
  | .missingInitialValue name seeded =>
    "Parameter " ++ name ++ " has no initial value, using " ++ inMessage seeded
  | .errordefUnset => "errordef not set, defaults to 1"
  | .fixedParameterSkipped name => s!"Specified parameter {name} is fixed, skipping"
  | .globalPrintLevel level => s!"print_level={level} also sets the global level for all sessions"
  | .invalidMinimum attempts =>
    s!"MIGRAD did not converge to a valid minimum after {attempts} attempt(s)"
  | .covarianceMadePosDef => "covariance matrix was forced positive definite"
  | .scanPointInvalid name value => s!"MIGRAD fails to converge for {name}=" ++ inMessage value
  | .inaccurateErrors => "Specified nsigma bound, but error matrix is not accurate"

/-- A session's print level also becomes the level of all sessions when it asks for the tracing of
engines, or for less than the shared level. -/
def needsSharedLevel (shared level : Int) : Bool := 3 ≤ level || level < shared

/-- The shared level after a session has asked for a level. -/
def sharedLevelAfter (shared level : Int) : Int :=
  if needsSharedLevel shared level then level else shared

end FitSession
