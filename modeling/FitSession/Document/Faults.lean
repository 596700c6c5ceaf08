import FitSession.Document.Given
import FitSession.Minimizer.Fault

/-!
# Failures given as documents

* `FitError.ofDocument`: a failure by its kind;
* `SolverFault.ofDocument`: a fault of a solver by its variant.
-/

namespace FitSession

/-- A failure by its kind. A fixed reason is the word `given`. -/
def FitError.ofDocument (d : Document) : FitError Float :=
  let text := d["text"].toText
  let value := d["value"].toFloat
  let n (name : String) : Nat := d.natOr name 0
  match d["kind"].toText with
  | "Configuration" => .configuration (.stated text)
  | "NameDeduction" => .nameDeduction (.stated text)
  | "UnknownName" => .unknownName text
  | "OutOfRange" => .outOfRange d["index"].toInt (n "len")
  | "LengthMismatch" => .lengthMismatch (n "expected") (n "found")
  | "InvalidLimit" => .invalidLimit d["lower"].toFloat d["upper"].toFloat (.stated "given")
  | "InvalidValue" => .invalidValue (n "index") value (.stated "given")
  | "Precondition" => .precondition (.stated text)
  | "FitFailed" => .fitFailed (.stated text)
  | "NonFiniteCost" => .nonFiniteCost value
  | "GradientNotImplemented" => .gradientNotImplemented
  | "GradientDimMismatch" => .gradientDimMismatch (n "expected") (n "found")
  | "InvalidGradient" => .invalidGradient (n "index") value (.stated "given")
  | "HessianDimMismatch" => .hessianDimMismatch (n "expected") (n "rows") (n "cols")
  | "InvalidHessian" => .invalidHessian (n "row") (n "col") value
  | "InvalidParameter" => .invalidParameter text
  | "NotImplemented" => .notImplemented text
  | "NotInitialized" => .notInitialized text
  | "ConditionViolated" => .conditionViolated text
  | "CheckPointNotFound" => .checkPointNotFound text
  | "PotentialBug" => .potentialBug text
  | "ImpossibleError" => .impossibleError text
  | "BackendError" => .backendError text
  | _ => .unknownError

/-- A fault of a solver by its variant. -/
def SolverFault.ofDocument (d : Document) : SolverFault Float :=
  let text := d["text"].toText
  match d["variant"].toText with
  | "InvalidParameter" => .invalidParameter text
  | "NotImplemented" => .notImplemented text
  | "NotInitialized" => .notInitialized text
  | "ConditionViolated" => .conditionViolated text
  | "CheckpointNotFound" => .checkpointNotFound text
  | "PotentialBug" => .potentialBug text
  | "ImpossibleError" => .impossible text
  | "session" => .objective (.ofDocument d["error"])
  | _ => .foreign text

end FitSession
