import FitSession.Cost
import FitSession.Covariance.Inversion
import FitSession.Covariance.Labelled
import FitSession.Document.States
import FitSession.Engine.Crossing
import FitSession.Engine.Text
import FitSession.Minimizer.Options
import FitSession.Session.Fit

/-!
# Results as documents

How the results of solvers and engines, and the options behind them, are told to other programs.

* `FunctionMinimum.toDocument`, `Interval.toFields`, `MinosError.toDocument`: results of engines;
* `LabelledMatrix.toDocument`, `Inversion.toDocument`: matrices;
* `Crossing.toDocument`, `pointsDocument`, `Outcome.toFields`: results of searches;
* `SolverOptions.toDocument`, `EngineOptions.toDocument`, `MigradOptions.toDocument`: options;
* `Cost.toDocument`, `Bench.toFields`: what a cost tells about itself, and its counters.
-/

namespace FitSession

/-- A minimum. -/
def FunctionMinimum.toDocument (style : DocumentStyle) (m : FunctionMinimum Float) : Document :=
  .fields <|
    [("fval", .number m.fval), ("edm", .number m.edm), ("up", .number m.up),
      ("edm_goal", .number m.edmGoal), ("is_valid", .flag m.isValid),
      ("has_valid_parameters", .flag m.hasValidParameters),
      ("has_accurate_covar", .flag m.hasAccurateCovar),
      ("has_posdef_covar", .flag m.hasPosdefCovar),
      ("has_made_posdef_covar", .flag m.hasMadePosdefCovar),
      ("hesse_failed", .flag m.hesseFailed), ("has_covariance", .flag m.hasCovariance),
      ("is_above_max_edm", .flag m.isAboveMaxEdm),
      ("has_reached_call_limit", .flag m.hasReachedCallLimit),
      ("has_parameters_at_limit", .flag m.hasParametersAtLimit),
      ("state", m.state.toDocument)]
      ++ style.counted [("nfcn", m.nfcn), ("ngrad", m.ngrad)] ++ style.text m.write

/-- The names of the flags of an interval that are set. -/
def Interval.flagNames (i : Interval Float) : List String :=
  [("is_valid", i.isValid), ("lower_valid", i.lowerValid), ("upper_valid", i.upperValid),
    ("at_lower_limit", i.atLowerLimit), ("at_upper_limit", i.atUpperLimit),
    ("at_lower_max_fcn", i.atLowerMaxFcn), ("at_upper_max_fcn", i.atUpperMaxFcn),
    ("lower_new_min", i.lowerNewMin), ("upper_new_min", i.upperNewMin)].filterMap
    fun (name, on) => if on then some name else none

/-- An interval. -/
def Interval.toFields (style : DocumentStyle) (i : Interval Float) : List (String × Document) :=
  [("lower", .number i.lower), ("upper", .number i.upper), ("min", .number i.min),
    ("flags", .texts i.flagNames)] ++ style.counted [("nfcn", i.nfcn)]

/-- An interval with the name of its parameter. -/
def MinosError.toDocument (style : DocumentStyle) (e : MinosError Float) : Document :=
  .fields (e.interval.toFields style ++ [("name", .text e.name)] ++ style.text e.write)

/-- A labelled matrix. -/
def LabelledMatrix.toDocument (m : LabelledMatrix Float) : Document :=
  .fields [("names", .texts m.names), ("data", m.data.toDocument)]

/-- The inverse of a curvature. -/
def Inversion.toDocument (i : Inversion Float) : Document :=
  .fields [("inverse", i.inverse.toDocument), ("posdef", .flag i.posdef),
    ("made_posdef", .flag i.madePosdef)]

/-- A crossing. -/
def Crossing.toDocument (c : Crossing Float) : Document :=
  .fields [("offset", .number c.offset), ("valid", .flag c.valid), ("at_limit", .flag c.atLimit),
    ("at_max_fcn", .flag c.atMaxFcn), ("new_min", .flag c.newMin)]

/-- The name of a line search. -/
def LineSearchKind.name : LineSearchKind → String
  | .moreThuente => "MoreThuente"
  | .hagerZhang => "HagerZhang"

/-- The options of the solvers. -/
def SolverOptions.toDocument (o : SolverOptions Float) : Document :=
  .fields [("line", .text o.lineSearch.name), ("tol_grad", .number o.gradientTolerance),
    ("tol_cost", .optional .number o.costTolerance), ("mem", .optional .count o.memory),
    ("sd_tol", .number o.spreadTolerance)]

/-- The options of an engine call. -/
def EngineOptions.toDocument (o : EngineOptions Float) : Document :=
  .list [.count o.strategy.level, .optional .count o.callLimit, .number o.tolerance,
    .optional .number o.precision, .whole o.printLevel]

/-- The options of a minimization. -/
def MigradOptions.toDocument (o : MigradOptions Float) : Document :=
  .list [.optional .count o.callLimit, .optional .number o.precision, .count o.retry]

/-- What a cost tells about itself. -/
def Cost.toDocument (c : Cost Float) : Document :=
  .fields [("names", .optional .texts c.names), ("signature", .optional .texts c.signature),
    ("doc", .optional .text c.doc), ("errordef", .optional .number c.errordef),
    ("verbose", .count c.verbose), ("has_grad", .flag c.hasGrad)]

/-- What came of a run of a solver. -/
def Outcome.toFields (style : DocumentStyle) (o : Outcome Float) : List (String × Document) :=
  [("theta", .numbers o.theta), ("fval", .number o.fval)]
    ++ style.counted [("iterations", o.iterations)]
    ++ (if style.counts then [("status", .text o.status.message)] else [])

/-- Points of a line. -/
def pointsDocument (points : List (Float × Float)) : Document := .list (points.map .pair)

/-- The counters of a bench. -/
def Bench.toFields {σ : Type} (style : DocumentStyle) (b : Bench σ Float) :
    List (String × Document) := style.counted [("nfcn", b.nfcn), ("ngrad", b.ngrad)]

end FitSession
