import FitSession.Document.Basic
import FitSession.Session.Report
import FitSession.Session.View

/-!
# Objects given as documents

What a caller writes for the objects of a fit. What may be left out has a default; everything that
a fit would check is left unchecked here, unless the object itself cannot exist otherwise.

* `Document.flagOr`, `Document.float?`, `Document.keyed`, …: named parts with defaults;
* `Key.ofDocument`, `Slice.ofDocument`, `Assign.ofDocument`: ways to address a state;
* `LimitSpec.ofDocument`, `Entry.ofDocument`, `ParameterState.ofDocument`: a state;
* `FunctionMinimum.ofDocument`, `Interval.ofDocument`, `ParameterRow.ofDocument`: results.
-/

namespace FitSession

namespace Document

/-- A named part as a flag, with a default. -/
def flagOr (d : Document) (name : String) (otherwise : Bool) : Bool :=
  ((d.field? name).map toBool).getD otherwise

/-- A named part as a number, with a default. -/
def floatOr (d : Document) (name : String) (otherwise : Float) : Float :=
  ((d.field? name).map toFloat).getD otherwise

/-- A named part as a natural number, with a default. -/
def natOr (d : Document) (name : String) (otherwise : Nat) : Nat :=
  ((d.field? name).map toNat).getD otherwise

/-- A named part as a number, if there is one. -/
def float? (d : Document) (name : String) : Option Float := (d.field? name).map toFloat

/-- A named part as a natural number, if there is one. -/
def nat? (d : Document) (name : String) : Option Nat := (d.field? name).map toNat

/-- A list of pairs as pairs of a text and something. -/
def keyed {β : Type} (f : Document → β) (d : Document) : List (String × β) :=
  d.elems.map fun p => (p[0].toText, f p[1])

/-- A pair of numbers. -/
def toPair (d : Document) : Float × Float := (d[0].toFloat, d[1].toFloat)

end Document

/-- A name, or a signed position. -/
def Key.ofDocument (d : Document) : Key := if d.isText then .name d.toText else .index d.toInt

/-- A pair of bounds, either of which may be missing. -/
def LimitSpec.ofDocument (d : Document) : LimitSpec Float :=
  ⟨d[0].unlessNull (·.toFloat), d[1].unlessNull (·.toFloat)⟩

/-- A pair of bounds as they are. -/
def Limit.ofDocument (d : Document) : Limit Float :=
  let spec := LimitSpec.ofDocument d
  ⟨spec.lower.getD Scalar.negInf, spec.upper.getD Scalar.inf⟩

/-- A start, a stop and a step, of which the step may be left out. -/
def Slice.ofDocument (d : Document) : Except (FitError Float) Slice :=
  Slice.ofParts (d[0].unlessNull (·.toInt)) (d[1].unlessNull (·.toInt))
    ((d[2].unlessNull (·.toInt)).getD 1)

/-- The right-hand side of a write: one input for all, or one for each. -/
def Assign.ofDocument {β : Type} (f : Document → β) (d : Document) : Assign β :=
  match d.field? "each" with
  | some xs => .each (xs.elems.map f)
  | none => .broadcast (f d["all"])

/-- A matrix by its rows. -/
def DenseMatrix.ofDocument (d : Document) : DenseMatrix Float := ⟨d.elems.map (·.toFloats)⟩

/-- A value, an error, and what may be left out: a flag and two bounds. -/
def Entry.ofDocument (d : Document) : Entry Float :=
  let limit := Limit.ofDocument (.list [d[3], d[4]])
  ⟨d[0].toFloat, d[1].toFloat, d[2].toBool, limit.lower, limit.upper⟩

/-- The entries of a list. -/
def entriesOfDocument (d : Document) : List (Entry Float) := d.elems.map Entry.ofDocument

/-- A state by its entries and its covariance. -/
def ParameterState.ofDocument (d : Document) : ParameterState Float :=
  ⟨entriesOfDocument d["entries"], (d.field? "cov").map DenseMatrix.ofDocument⟩

/-- A minimum with the given state; all fields but the state have defaults. -/
def FunctionMinimum.ofDocument (d : Document) (state : ParameterState Float) :
    FunctionMinimum Float where
  fval := d.floatOr "fval" 0
  edm := d.floatOr "edm" 0
  up := d.floatOr "up" 1
  edmGoal := d.floatOr "edm_goal" 0.0002
  isValid := d.flagOr "is_valid" true
  hasValidParameters := d.flagOr "has_valid_parameters" true
  hasAccurateCovar := d.flagOr "has_accurate_covar" true
  hasPosdefCovar := d.flagOr "has_posdef_covar" true
  hasMadePosdefCovar := d.flagOr "has_made_posdef_covar" false
  hesseFailed := d.flagOr "hesse_failed" false
  hasCovariance := d.flagOr "has_covariance" true
  isAboveMaxEdm := d.flagOr "is_above_max_edm" false
  hasReachedCallLimit := d.flagOr "has_reached_call_limit" false
  hasParametersAtLimit := d.flagOr "has_parameters_at_limit" false
  nfcn := d.natOr "nfcn" 0
  ngrad := d.natOr "ngrad" 0
  state := state

/-- An interval by its offsets and the names of its flags. -/
def Interval.ofDocument (d : Document) : Interval Float :=
  let flags := d["flags"].toTexts
  let on (name : String) : Bool := flags.contains name
  { lower := d["lower"].toFloat, upper := d["upper"].toFloat, isValid := on "is_valid"
    lowerValid := on "lower_valid", upperValid := on "upper_valid"
    atLowerLimit := on "at_lower_limit", atUpperLimit := on "at_upper_limit"
    atLowerMaxFcn := on "at_lower_max_fcn", atUpperMaxFcn := on "at_upper_max_fcn"
    lowerNewMin := on "lower_new_min", upperNewMin := on "upper_new_min"
    nfcn := d.natOr "nfcn" 0, min := d.floatOr "min" 0 }

/-- A row on a parameter; it has the limits that are given. -/
def ParameterRow.ofDocument (d : Document) : ParameterRow Float :=
  let lower := d.float? "lower"
  let upper := d.float? "upper"
  { number := d["number"].toNat, name := d["name"].toText, value := d["value"].toFloat
    error := d["error"].toFloat, merror := (d.field? "merror").map (·.toPair)
    isFixed := d["is_fixed"].toBool, hasLimits := lower.isSome || upper.isSome
    hasLowerLimit := lower.isSome, hasUpperLimit := upper.isSome
    lowerLimit := lower, upperLimit := upper }

end FitSession
