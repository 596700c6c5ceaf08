import FitSession.Document.Basic
import FitSession.Session.View.Text
import FitSession.Snapshot

/-!
# States as documents

How a state, its parts and the start of a fit are told to other programs. Whoever asks chooses the
style: when numbers are rounded, the texts that hold the same numbers are left out; counts of
evaluations may be left out too.

* `DocumentStyle`: the style;
* `FitError.toDocument`, `orFailure`: failures, and results that may be failures;
* `Limit.describeFields`, `Entry.toDocument`, `ParameterState.toDocument`: a state and its parts;
* `Warning.toDocument`, `Start.toDocument`, `StartSpec.toDocument`, `Snapshot.toDocument`: the start
  of a fit.
-/

namespace FitSession

/-- How much a document tells. -/
structure DocumentStyle where
  /-- The number of digits to which numbers are rounded. -/
  digits : Option Nat
  /-- Whether counts of evaluations are told. -/
  counts : Bool

namespace DocumentStyle

/-- A text that holds numbers. -/
def text (style : DocumentStyle) (s : String) : List (String × Document) :=
  if style.digits.isSome then [] else [("text", .text s)]

/-- Counts of evaluations. -/
def counted (style : DocumentStyle) (items : List (String × Nat)) : List (String × Document) :=
  if style.counts then items.map fun (name, n) => (name, .count n) else []

end DocumentStyle

/-- A failure. -/
def FitError.toDocument (e : FitError Float) : Document :=
  .fields [("error", .text e.kind), ("message", .text e.message)]

/-- A result, or the failure in its place. -/
def orFailure {β : Type} (f : β → Document) : Except (FitError Float) β → Document
  | .ok x => f x
  | .error e => e.toDocument

/-- A matrix as the list of its rows. -/
def DenseMatrix.toDocument (m : DenseMatrix Float) : Document := .list (m.rows.map .numbers)

/-- A limit as the pair of its bounds. -/
def Limit.toDocument (l : Limit Float) : Document := .pair (l.lower, l.upper)

/-- What a caller writes for a limit; a missing bound is `null`. -/
def LimitSpec.toDocument (s : LimitSpec Float) : Document :=
  .list [.optional .number s.lower, .optional .number s.upper]

/-- All that a limit tells about itself. -/
def Limit.describeFields (l : Limit Float) : List (String × Document) :=
  [("limit", l.toDocument), ("text", .text l.write),
    ("lower_bound", .optional .number l.lowerBound),
    ("upper_bound", .optional .number l.upperBound), ("has_lower", .flag l.hasLower),
    ("has_upper", .flag l.hasUpper), ("is_bounded", .flag l.isBounded),
    ("is_degenerate", .flag l.isDegenerate), ("is_default", .flag (l == Limit.unbounded)),
    ("spec", l.toSpec.toDocument), ("respec", orFailure Limit.toDocument l.toSpec.toLimit)]

/-- An entry with all that it tells about itself. -/
def Entry.toDocument (e : Entry Float) : Document :=
  .list [.number e.value, .number e.error, .flag e.fixed, e.limit.toDocument, .flag e.isFixed,
    .flag e.limit.isBounded, .flag e.limit.hasLower, .flag e.limit.hasUpper]

/-- The columns and the covariance of a state. -/
def ParameterState.toFields (s : ParameterState Float) : List (String × Document) :=
  [("v", .numbers s.values), ("e", .numbers s.errors), ("f", .flags (s.entries.map (·.isFixed))),
    ("l", .list (s.entries.map (·.limit.toDocument))),
    ("cov", .optional DenseMatrix.toDocument s.covariance)]

/-- A state. -/
def ParameterState.toDocument (s : ParameterState Float) : Document := .fields s.toFields

/-- The name of a kind of warning, and what the warning is about. -/
def Warning.toFields : Warning Float → List (String × Document)
  | .missingInitialValue name seeded =>
    [("kind", .text "MissingInitialValue"), ("name", .text name), ("seeded", .number seeded)]
  | .errordefUnset => [("kind", .text "ErrordefUnset")]
  | .fixedParameterSkipped name =>
    [("kind", .text "FixedParameterSkipped"), ("name", .text name)]
  | .globalPrintLevel level => [("kind", .text "GlobalPrintLevel"), ("level", .whole level)]
  | .invalidMinimum attempts => [("kind", .text "InvalidMinimum"), ("attempts", .count attempts)]
  | .covarianceMadePosDef => [("kind", .text "CovarianceMadePosDef")]
  | .scanPointInvalid name value =>
    [("kind", .text "ScanPointInvalid"), ("name", .text name), ("value", .number value)]
  | .inaccurateErrors => [("kind", .text "InaccurateErrors")]

/-- A warning. -/
def Warning.toDocument (style : DocumentStyle) (w : Warning Float) : Document :=
  .fields (w.toFields ++ style.text w.message)

/-- The start of a fit. -/
def Start.toDocument (style : DocumentStyle) (s : Start Float) : Document :=
  .fields [("names", .texts s.registry.names), ("state", s.state.toDocument),
    ("warnings", .list (s.warnings.map (·.toDocument style)))]

/-- A value of a snapshot. -/
def SnapshotValue.toDocument : SnapshotValue Float → Document
  | .flag on => .flag on
  | .number x => .number x
  | .limit lower upper => .list [.optional .number lower, .optional .number upper]

/-- A snapshot. -/
def Snapshot.toDocument (s : Snapshot Float) : Document :=
  .fields (s.entries.map fun (k, v) => (k, v.toDocument))

/-- A pair of a name and something. -/
def keyedDocument (name : String) (items : List Document) : Document := .list (.text name :: items)

/-- What is asked of the start of a fit. -/
def StartSpec.toDocument (s : StartSpec Float) : Document :=
  .fields
    [("values", .list (s.values.map fun (n, x) => keyedDocument n [.number x])),
      ("errors", .list (s.errors.map fun (n, x) => keyedDocument n [.number x])),
      ("limits", .list (s.limits.map fun (n, l) => keyedDocument n l.toDocument.elems)),
      ("fixed", .list (s.fixed.map fun (n, on) => keyedDocument n [.flag on]))]

end FitSession
