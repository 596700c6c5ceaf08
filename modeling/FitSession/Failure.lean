import FitSession.Snapshot.Value

/-!
# Failures

Everything that can go wrong in a fit session, by cause. An operation that fails leaves what the
session knows about the fit as it was; the cause says which rule the request broke.

* `Misconfiguration`: a request that is malformed in itself;
* `LimitIssue`, `ValueIssue`, `GradientIssue`, `NamingIssue`, `PreconditionIssue`, `FitIssue`: the
  reasons that go with the other failures;
* `FitError`: the failures.

Each reason type has a constructor `stated` for a reason in the words of a caller.
-/

namespace FitSession

/-- The four places where initial values are given by name. -/
inductive KeyedField
  | value
  | error
  | limit
  | fixed
deriving DecidableEq, Repr

/-- Requests that are malformed in themselves. -/
inductive Misconfiguration (α : Type)
  | zeroStep
  | noParameters
  | repeatedName (name : String)
  | repeatedTermName (name : String)
  | positionalAndNamed
  | positionalCount (values names : Nat)
  | unknownKey (field : KeyedField) (name : String) (names : List String)
  | unexpectedEntry (key : String) (value : SnapshotValue α)
  | unreadableSnapshot
  | strategyLevel (level : Nat)
  | strategyName (text : String)
  | lineSearchName (text : String)
  | tolerance (x : α)
  | precision (x : α)
  | gradientTolerance (x : α)
  | costTolerance (x : α)
  | emptyMemory
  | retries (count : Nat)
  | sigma (x : α)
  | confidence (x : α)
  | errordef (x : α)
  | edmTolerance (x : α)
  | scanBins (count : Nat)
  | scanRange (lower upper : α)
  | sameContourParameter
  | sameContourLineParameter
  | contourLinePoints (least count : Nat)
  | contourLineFixed (name : String)
  | stated (reason : String)
deriving Repr

/-- Why a pair of bounds is no limit. -/
inductive LimitIssue
  | notANumber
  | reversed
  | stated (reason : String)
deriving DecidableEq, Repr

/-- Why a number is not accepted for a parameter. -/
inductive ValueIssue
  | valueNotFinite
  | errorNotAllowed
  | uncertaintyNotPositive
  | widthNotPositive
  | solverPointNotFinite
  | stated (reason : String)
deriving DecidableEq, Repr

/-- Why a gradient component is not accepted. -/
inductive GradientIssue
  | notFinite
  | stated (reason : String)
deriving DecidableEq, Repr

/-- Why no names could be found. -/
inductive NamingIssue
  | noNames
  | stated (reason : String)
deriving DecidableEq, Repr

/-- What an operation needs and does not find. -/
inductive PreconditionIssue
  | minimumMissing (operation : String)
  | minimumInvalid (operation : String)
  | stated (reason : String)
deriving DecidableEq, Repr

/-- Why a required result could not be produced. -/
inductive FitIssue
  | singularConstraint
  | hesseWithoutCovariance
  | covarianceMissing
  | covarianceShape (rows cols free : Nat)
  | neverFinite
  | noSolverPoint
  | stated (reason : String)
deriving DecidableEq, Repr

/-- The failures of a fit session. -/
inductive FitError (α : Type)
  | configuration (issue : Misconfiguration α)
  | nameDeduction (issue : NamingIssue)
  | unknownName (name : String)
  | outOfRange (index : Int) (len : Nat)
  | lengthMismatch (expected found : Nat)
  | invalidLimit (lower upper : α) (issue : LimitIssue)
  | invalidValue (index : Nat) (value : α) (issue : ValueIssue)
  | precondition (issue : PreconditionIssue)
  | fitFailed (issue : FitIssue)
  | nonFiniteCost (value : α)
  | gradientNotImplemented
  | gradientDimMismatch (expected found : Nat)
  | invalidGradient (index : Nat) (value : α) (issue : GradientIssue)
  | hessianDimMismatch (expected rows cols : Nat)
  | invalidHessian (row col : Nat) (value : α)
  | invalidParameter (text : String)
  | notImplemented (text : String)
  | notInitialized (text : String)
  | conditionViolated (text : String)
  | checkPointNotFound (text : String)
  | potentialBug (text : String)
  | impossibleError (text : String)
  | backendError (text : String)
  | unknownError
deriving Repr

end FitSession
