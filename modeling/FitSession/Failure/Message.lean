import FitSession.Failure
import FitSession.Numeral.Written

/-!
# Messages of failures

The wording of every failure. Numbers are written with their shortest digits and never with an
exponent.

* `SnapshotValue.describe`: a snapshot value with its kind;
* `FitError.kind`, `FitError.message`: the name of the kind of a failure, and its text.
-/

namespace FitSession

/-- A number in a message. -/
def inMessage (x : Float) : String := Layout.plain.write x

/-- An optional bound with its kind. -/
def describeBound : Option Float → String
  | none => "None"
  | some x => "Some(" ++ Layout.tagged.write x ++ ")"

/-- A snapshot value with its kind. -/
def SnapshotValue.describe : SnapshotValue Float → String
  | .flag on => s!"Flag({on})"
  | .number x => "Number(" ++ Layout.tagged.write x ++ ")"
  | .limit lower upper => "Limit(" ++ describeBound lower ++ ", " ++ describeBound upper ++ ")"

/-- What precedes a parameter name in the key of a field. -/
def KeyedField.keyStart : KeyedField → String
  | .value => ""
  | .error => "error_"
  | .limit => "limit_"
  | .fixed => "fix_"

/-- A requirement on a number and the number that broke it. -/
def mustBePositive (what : String) (x : Float) : String :=
  what ++ " must be finite and positive, got " ++ inMessage x

/-- What is wrong with a request. -/
def Misconfiguration.reason : Misconfiguration Float → String
  | .zeroStep => "slice step cannot be zero"
  | .noParameters => "at least one parameter is required"
  | .repeatedName name => s!"parameter name '{name}' appears more than once"
  | .repeatedTermName name => s!"term declares parameter '{name}' more than once"
  | .positionalAndNamed => "positional values cannot be mixed with named values"
  | .positionalCount values names => s!"{values} positional values given for {names} parameters"
  | .unknownKey field name names =>
    field.keyStart ++ name ++ " is not one of the parameters [" ++ " ".intercalate names ++ "]"
  | .unexpectedEntry key value =>
    "fitarg entry " ++ key ++ " has an unexpected value " ++ value.describe
  | .unreadableSnapshot => "cannot parse fitarg"
  | .strategyLevel level => s!"strategy must be 0, 1 or 2, got {level}"
  | .strategyName text =>
    s!"unknown strategy '{text}'; valid options are 0/1/2 or fast/default/careful"
  | .lineSearchName text =>
    s!"unknown line search '{text}'; valid options are case insensitive " ++
      "'MoreThuente' or 'HagerZhang'"
  | .tolerance x => mustBePositive "tolerance" x
  | .precision x => mustBePositive "precision" x
  | .gradientTolerance x => mustBePositive "gradient tolerance" x
  | .costTolerance x => mustBePositive "cost tolerance" x
  | .emptyMemory => "L-BFGS memory must be greater than zero"
  | .retries count => s!"retry must be at least 1, got {count}"
  | .sigma x => "sigma must be positive, got " ++ inMessage x
  | .confidence x => "confidence level must be positive, got " ++ inMessage x
  | .errordef x => mustBePositive "errordef" x
  | .edmTolerance x => mustBePositive "tol" x
  | .scanBins count => s!"a scan needs at least 2 bins, got {count}"
  | .scanRange lower upper =>
    "empty scan range (" ++ inMessage lower ++ ", " ++ inMessage upper ++ ")"
  | .sameContourParameter => "contour needs two different parameters"
  | .sameContourLineParameter => "mncontour needs two different parameters"
  | .contourLinePoints least count => s!"mncontour needs at least {least} points, got {count}"
  | .contourLineFixed name => s!"mncontour cannot scan fixed parameter '{name}'"
  | .stated reason => reason

/-- Why a pair of bounds is no limit. -/
def LimitIssue.reason : LimitIssue → String
  | .notANumber => "Limits must not be NaN."
  | .reversed => "Lower limit must not exceed upper limit."
  | .stated reason => reason

/-- Why a number is not accepted for a parameter. -/
def ValueIssue.reason : ValueIssue → String
  | .valueNotFinite => "Parameter values must be finite."
  | .errorNotAllowed => "Parameter errors must be finite and non-negative."
  | .uncertaintyNotPositive => "Uncertainties must be finite and positive."
  | .widthNotPositive => "Constraint widths must be finite and positive."
  | .solverPointNotFinite => "Solver returned a non-finite parameter."
  | .stated reason => reason

/-- Why a gradient component is not accepted. -/
def GradientIssue.reason : GradientIssue → String
  | .notFinite => "Gradient elements must be finite."
  | .stated reason => reason

/-- Why no names could be found. -/
def NamingIssue.reason : NamingIssue → String
  | .noNames => "no strategy produced parameter names; pass them explicitly"
  | .stated reason => reason

/-- What an operation needs and does not find. -/
def PreconditionIssue.reason : PreconditionIssue → String
  | .minimumMissing operation => s!"{operation} requires a function minimum; run migrad first"
  | .minimumInvalid operation =>
    s!"function minimum is not valid; {operation} needs a valid minimum"
  | .stated reason => reason

/-- Why a required result could not be produced. -/
def FitIssue.reason : FitIssue → String
  | .singularConstraint => "constraint covariance is singular"
  | .hesseWithoutCovariance => "HESSE could not compute a covariance matrix"
  | .covarianceMissing => "no covariance matrix available; run migrad or hesse"
  | .covarianceShape rows cols free =>
    s!"covariance is {rows}x{cols} but {free} parameters are free"
  | .neverFinite => "objective was never finite"
  | .noSolverPoint => "solver returned no parameter vector"
  | .stated reason => reason

/-- The name of the kind of a failure. -/
def FitError.kind {α : Type} : FitError α → String
  | .configuration _ => "Configuration"
  | .nameDeduction _ => "NameDeduction"
  | .unknownName _ => "UnknownName"
  | .outOfRange _ _ => "OutOfRange"
  | .lengthMismatch _ _ => "LengthMismatch"
  | .invalidLimit _ _ _ => "InvalidLimit"
  | .invalidValue _ _ _ => "InvalidValue"
  | .precondition _ => "Precondition"
  | .fitFailed _ => "FitFailed"
  | .nonFiniteCost _ => "NonFiniteCost"
  | .gradientNotImplemented => "GradientNotImplemented"
  | .gradientDimMismatch _ _ => "GradientDimMismatch"
  | .invalidGradient _ _ _ => "InvalidGradient"
  | .hessianDimMismatch _ _ _ => "HessianDimMismatch"
  | .invalidHessian _ _ _ => "InvalidHessian"
  | .invalidParameter _ => "InvalidParameter"
  | .notImplemented _ => "NotImplemented"
  | .notInitialized _ => "NotInitialized"
  | .conditionViolated _ => "ConditionViolated"
  | .checkPointNotFound _ => "CheckPointNotFound"
  | .potentialBug _ => "PotentialBug"
  | .impossibleError _ => "ImpossibleError"
  | .backendError _ => "BackendError"
  | .unknownError => "UnknownError"

/-- The text of a failure. -/
def FitError.message : FitError Float → String
  | .configuration issue => "Configuration error: " ++ issue.reason
  | .nameDeduction issue => "Unable to deduce parameter names: " ++ issue.reason
  | .unknownName name => s!"Unknown parameter '{name}'"
  | .outOfRange index len => s!"Index {index} out of range for {len} entries"
  | .lengthMismatch expected found => s!"Length mismatch: expected {expected}, found {found}"
  | .invalidLimit lower upper issue =>
    "Invalid limit (" ++ inMessage lower ++ ", " ++ inMessage upper ++ "): " ++ issue.reason
  | .invalidValue index value issue =>
    "Invalid value " ++ inMessage value ++ s!" for parameter {index}: " ++ issue.reason
  | .precondition issue => "Precondition violated: " ++ issue.reason
  | .fitFailed issue => "Fit failed: " ++ issue.reason
  | .nonFiniteCost value => "Non-finite cost value: " ++ inMessage value
  | .gradientNotImplemented => "Gradient not implemented"
  | .gradientDimMismatch expected found =>
    s!"Gradient dimension mismatch: expected {expected}, found {found}"
  | .invalidGradient index value issue =>
    s!"Invalid gradient at index {index}: " ++ inMessage value ++ ": " ++ issue.reason
  | .hessianDimMismatch expected rows cols =>
    s!"Hessian dimension mismatch: expected ({expected}, {expected}), found ({rows}, {cols})"
  | .invalidHessian row col value =>
    s!"Invalid Hessian at ({row}, {col}): " ++ inMessage value ++ ", must be finite"
  | .invalidParameter text => "Invalid parameter: " ++ text
  | .notImplemented text => "Not implemented: " ++ text
  | .notInitialized text => "Not initialized: " ++ text
  | .conditionViolated text => "Condition violated: " ++ text
  | .checkPointNotFound text => "Checkpoint not found: " ++ text
  | .potentialBug text => "Potential bug: " ++ text
  | .impossibleError text => "Impossible error: " ++ text
  | .backendError text => "Backend error: " ++ text
  | .unknownError => "Unknown error"

end FitSession
