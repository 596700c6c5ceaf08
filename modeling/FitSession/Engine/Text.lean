import FitSession.Engine.Minimum
import FitSession.Failure.Message
import FitSession.Numeral.Written

/-!
# Texts of results

* `FunctionMinimum.write`: three lines on a minimum;
* `MinosError.write`: one line on an interval.
-/

namespace FitSession

/-- A flag in a text. -/
def yesNo (b : Bool) : String := if b then "yes" else "no"

/-- Labelled items side by side. -/
def besideEachOther (items : List (String × String)) : String :=
  " | ".intercalate (items.map fun (label, text) => label ++ text)

/-- Three lines on a minimum: numbers, validity, covariance. -/
def FunctionMinimum.write (m : FunctionMinimum Float) : String :=
  let numbers := besideEachOther
    [("FCN = ", writeFixed 6 .onlyMinus m.fval), ("nfcn = ", toString m.nfcn),
      ("ngrad = ", toString m.ngrad),
      ("EDM = ", writeScientific 3 .onlyMinus m.edm ++ " (goal "
        ++ writeScientific 3 .onlyMinus m.edmGoal ++ ")"),
      ("up = ", inMessage m.up)]
  let validity := besideEachOther
    [("valid: ", yesNo m.isValid), ("above EDM: ", yesNo m.isAboveMaxEdm),
      ("call limit: ", yesNo m.hasReachedCallLimit),
      ("at limit: ", yesNo m.hasParametersAtLimit)]
  let covariance := besideEachOther
    [("covariance: ", yesNo m.hasCovariance), ("accurate: ", yesNo m.hasAccurateCovar),
      ("pos. def.: ", yesNo m.hasPosdefCovar),
      ("forced pos. def.: ", yesNo m.hasMadePosdefCovar),
      ("hesse failed: ", yesNo m.hesseFailed)]
  "\n".intercalate [numbers, validity, covariance]

/-- One line on an interval: the name, the value, and the signed offsets. -/
def MinosError.write (e : MinosError Float) : String :=
  e.name ++ ": " ++ inMessage e.interval.min ++ " " ++ writeFixed 6 .always e.interval.lower ++ " "
    ++ writeFixed 6 .always e.interval.upper ++ (if e.interval.isValid then "" else " (invalid)")

end FitSession
