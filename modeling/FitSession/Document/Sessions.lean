import FitSession.Document.Results
import FitSession.Session.Report
import FitSession.Session.Scan

/-!
# Sessions as documents

* `Session.toDocument`, `Session.namesDocument`, `Session.settingsDocument`: a session;
* `MinosErrors.toDocument`, `ParameterRow.toDocument`: its intervals and its rows;
* `ProfileTable.toDocument`, `MinimizedProfile.toDocument`, `GridTable.toDocument`,
  `ContourLine.toDocument`: its scans.
-/

namespace FitSession

/-- A row on a parameter. -/
def ParameterRow.toDocument (style : DocumentStyle) (r : ParameterRow Float) : Document :=
  .fields <|
    [("number", .count r.number), ("name", .text r.name), ("value", .number r.value),
      ("error", .number r.error), ("merror", .optional .pair r.merror),
      ("is_fixed", .flag r.isFixed), ("has_limits", .flag r.hasLimits),
      ("has_lower_limit", .flag r.hasLowerLimit), ("has_upper_limit", .flag r.hasUpperLimit),
      ("lower_limit", .optional .number r.lowerLimit),
      ("upper_limit", .optional .number r.upperLimit)] ++ style.text r.write

/-- The collected intervals. -/
def MinosErrors.toDocument (style : DocumentStyle) (m : MinosErrors Float)
    (array : List (List Float)) : Document :=
  .fields <|
    [("len", .count m.len), ("is_empty", .flag m.entries.isEmpty),
      ("list", .list (m.entries.map (·.toDocument style))),
      ("array", .list (array.map .numbers))] ++ style.text m.write

/-- The current state of a session and what is known about its minimum. -/
def Session.toDocument {σ : Type} (style : DocumentStyle) (s : Session σ Float) : Document :=
  .fields <|
    s.currentState.toFields
      ++ [("valid", .flag s.valid), ("accurate", .flag s.accurate),
        ("fval", .optional .number (s.fmin.map (·.fval))), ("up", .number s.errordef),
        ("warnings", .count s.warnings.length), ("merrors", .texts s.merrors.names)]
      ++ s.bench.toFields style

/-- The names of the parameters of a session, and how many there are. -/
def Session.namesDocument {σ : Type} (s : Session σ Float) : Document :=
  let names := s.registry.names
  .fields [("parameters", .texts names), ("pos2var", .texts names),
    ("var2pos", .list (names.zipIdx.map fun (n, i) => .list [.text n, .count i])),
    ("npar", .count names.length), ("nfit", .count s.currentState.nFree)]

/-- The settings of a session, while `shared` is the print level of all sessions. -/
def Session.settingsDocument {σ : Type} (s : Session σ Float) (shared : Int) : Document :=
  .fields [("errordef", .number s.errordef), ("strategy", .count s.strategy.level),
    ("tol", .number s.tol), ("print_level", .whole s.printLevel), ("global", .whole shared),
    ("has_grad", .flag s.cost.hasGrad), ("verbose", .count s.cost.verbose)]

/-- The cost along one parameter. -/
def ProfileTable.toDocument (t : ProfileTable Float) : Document :=
  .fields [("x", .numbers t.x), ("fval", .numbers t.fval)]

/-- The minimized cost along one parameter. -/
def MinimizedProfile.toDocument (t : MinimizedProfile Float) : Document :=
  .fields [("x", .numbers t.x), ("fval", .numbers t.fval), ("valid", .flags t.valid)]

/-- The cost on a grid. -/
def GridTable.toDocument (t : GridTable Float) : Document :=
  .fields [("x", .numbers t.x), ("y", .numbers t.y), ("fval", .list (t.fval.map .numbers))]

/-- A contour line. -/
def ContourLine.toDocument (style : DocumentStyle) (t : ContourLine Float) : Document :=
  .fields [("x", t.x.toDocument style), ("y", t.y.toDocument style),
    ("points", pointsDocument t.points)]

end FitSession
