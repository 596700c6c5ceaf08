import FitSession.Covariance.Inversion
import FitSession.Covariance.Labelled
import FitSession.Engine.Text
import FitSession.Session.Basic
import FitSession.Snapshot

/-!
# Reports of a session

What a session tells about its current state and its results, and how that is written.

* `Session.matrix`, `Session.globalCorrelations`: the covariance and what follows from it;
* `ParameterRow`, `parameterRows`, `ParameterRow.write`: one row per parameter;
* `Session.snapshot`, `Session.intervalArray`: the state as a snapshot, the intervals as an array;
* `MinosErrors.write`: the intervals, one on each line.
-/

namespace FitSession

/-- What is known about one parameter. -/
structure ParameterRow (α : Type) where
  number : Nat
  name : String
  value : α
  error : α
  /-- The signed offsets of the asymmetric error. -/
  merror : Option (α × α)
  isFixed : Bool
  hasLimits : Bool
  hasLowerLimit : Bool
  hasUpperLimit : Bool
  lowerLimit : Option α
  upperLimit : Option α

variable {σ α : Type} [Scalar α]

/-- The row of one entry. -/
def ParameterRow.ofEntry (merrors : MinosErrors α) (number : Nat) (name : String) (e : Entry α) :
    ParameterRow α where
  number := number
  name := name
  value := e.value
  error := e.error
  merror := (merrors.find? name).map fun m => (m.interval.lower, m.interval.upper)
  isFixed := e.isFixed
  hasLimits := e.limit.isBounded
  hasLowerLimit := e.limit.hasLower
  hasUpperLimit := e.limit.hasUpper
  lowerLimit := e.limit.lowerBound
  upperLimit := e.limit.upperBound

/-- The rows of a state. -/
def parameterRows (registry : Registry) (state : ParameterState α) (merrors : MinosErrors α) :
    List (ParameterRow α) :=
  (registry.names.zip state.entries).zipIdx.map fun ((name, e), i) => .ofEntry merrors i name e

namespace Session

/-- The covariance of the current state, or its correlation. -/
def matrix (s : Session σ α) (correlation onlyFree : Bool) :
    Except (FitError α) (LabelledMatrix α) := do
  let c ← s.currentState.labelledCovariance s.registry onlyFree
  pure (if correlation then c.correlation else c)

/-- The full covariance of the current state, if there is one. -/
def covariance (s : Session σ α) : Option (LabelledMatrix α) := (s.matrix false false).toOption

/-- The global correlation coefficients of the free parameters with their names. -/
def globalCorrelations (s : Session σ α) : Option (List (String × α)) := do
  let c ← (s.matrix false true).toOption
  let coefficients ← FitSession.globalCorrelations c.data
  pure (c.names.zip coefficients)

/-- The rows of the current state with the intervals that are known. -/
def rows (s : Session σ α) : List (ParameterRow α) :=
  parameterRows s.registry s.currentState s.merrors

/-- The rows of the initial state. -/
def initialRows (s : Session σ α) : List (ParameterRow α) :=
  parameterRows s.registry s.startState .empty

/-- The current state as a snapshot. -/
def snapshot (s : Session σ α) : Snapshot α := .ofState s.registry s.currentState

/-- The sizes of the asymmetric errors: the lower ones, then the upper ones; zero for a parameter
without an interval. -/
def intervalArray (s : Session σ α) : List (List α) :=
  let sizes (f : Interval α → α) : List α :=
    s.registry.names.map fun name => ((s.merrors.find? name).map fun m => f m.interval).getD 0
  [sizes fun i => -i.lower, sizes fun i => i.upper]

end Session

/-- One line per interval. -/
def MinosErrors.write (m : MinosErrors Float) : String :=
  "\n".intercalate (m.entries.map (·.write))

namespace ParameterRow

/-- A number in a row. -/
def cell (rule : SignRule) (x : Float) : String := padLeft 12 (writeScientific 6 rule x)

/-- An optional number in a row. -/
def optionalCell (rule : SignRule) (x : Option Float) : String :=
  x.elim (padLeft 12 "") (cell rule)

/-- One line on a parameter. -/
def write (r : ParameterRow Float) : String :=
  " ".intercalate <|
    [padLeft 3 (toString r.number), padRight 12 r.name, cell .onlyMinus r.value,
      cell .onlyMinus r.error, optionalCell .always (r.merror.map (·.1)),
      optionalCell .always (r.merror.map (·.2)), optionalCell .onlyMinus r.lowerLimit,
      optionalCell .onlyMinus r.upperLimit]
      ++ (if r.isFixed then ["fixed"] else [])

end ParameterRow
end FitSession
