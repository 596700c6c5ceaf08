import FitSession.Document.Given
import FitSession.Document.Results
import FitSession.Engine.Scripted

/-!
# Scripts as documents

* `Script.ofDocument`: a script by its four lists of records;
* `EngineCall.toDocument`: a logged call, as the name of the method and its arguments.
-/

namespace FitSession

/-- What a record makes of a state. -/
def Adjustment.ofDocument (d : Document) : Adjustment Float :=
  ⟨d["values"].toFloats, d["errors"].toFloats, (d.field? "cov").map DenseMatrix.ofDocument⟩

/-- A flag that may be left open. -/
def Document.flag? (d : Document) (name : String) : Option Bool := (d.field? name).map toBool

/-- A record with an answer of some kind. -/
def Record.ofDocument {ρ : Type} (f : Document → ρ) (d : Document) : Record Float ρ :=
  ⟨(d.field? "error").map (·.toText), d.natOr "evals" 0, d.natOr "grads" 0, f d⟩

/-- The answer of a minimization. -/
def FitRecord.ofDocument (d : Document) : FitRecord Float where
  adjustment := .ofDocument d
  minimum := .ofDocument d .empty
  hasCovariance := d.flag? "has_covariance"
  hasAccurateCovar := d.flag? "has_accurate_covar"
  hasPosdefCovar := d.flag? "has_posdef_covar"
  hesseFailed := d.flag? "hesse_failed"

/-- The answer of a computation of the covariance. -/
def HesseRecord.ofDocument (d : Document) : HesseRecord Float where
  adjustment := .ofDocument d
  isVoid := d["none"].toBool
  madePosdef := d["has_made_posdef_covar"].toBool
  isValid := d.flag? "is_valid"

/-- A script by its four lists of records. -/
def Script.ofDocument (d : Document) : Script Float :=
  let records {ρ : Type} (name : String) (f : Document → ρ) : List (Record Float ρ) :=
    d[name].elems.map (Record.ofDocument f)
  ⟨records "migrad" FitRecord.ofDocument, records "hesse" HesseRecord.ofDocument,
    records "minos" Interval.ofDocument,
    records "mncontour" fun r => r["points"].elems.map (·.toPair), []⟩

namespace EngineCall

/-- The name of the method of a call. -/
def method : EngineCall Float → String
  | .migrad .. => "migrad"
  | .hesse .. => "hesse"
  | .minos .. => "minos"
  | .contourLine .. => "mncontour"

/-- The arguments of a call. -/
def arguments : EngineCall Float → List Document
  | .migrad values fixed options up =>
    [.numbers values, .flags fixed, options.toDocument, .number up]
  | .hesse atMinimum values callLimit up =>
    [.text (if atMinimum then "minimum" else "state"), .numbers values,
      .optional .count callLimit, .number up]
  | .minos index options up fval =>
    [.count index, options.toDocument, .number up, .number fval]
  | .contourLine ix iy count options up =>
    [.count ix, .count iy, .count count, options.toDocument, .number up]

/-- A logged call. -/
def toDocument (call : EngineCall Float) : Document :=
  .list [.text call.method, .list call.arguments]

end EngineCall
end FitSession
