import FitSession.State

/-!
# Results of an engine

* `FunctionMinimum`, `FunctionMinimum.refreshed`: what a minimization reports, and its validity;
* `Interval`: an asymmetric error of one parameter;
* `MinosError`: an interval with the name of its parameter.
-/

namespace FitSession

/-- What a minimization reports. -/
structure FunctionMinimum (α : Type) where
  fval : α
  /-- The estimated distance to the minimum. -/
  edm : α
  /-- The errordef of the minimization. -/
  up : α
  edmGoal : α
  isValid : Bool
  hasValidParameters : Bool
  hasAccurateCovar : Bool
  hasPosdefCovar : Bool
  hasMadePosdefCovar : Bool
  hesseFailed : Bool
  hasCovariance : Bool
  isAboveMaxEdm : Bool
  hasReachedCallLimit : Bool
  hasParametersAtLimit : Bool
  nfcn : Nat
  ngrad : Nat
  state : ParameterState α
deriving Repr

/-- The minimum with its validity told by its flags. -/
def FunctionMinimum.refreshed {α : Type} (m : FunctionMinimum α) : FunctionMinimum α :=
  { m with
    isValid := m.hasValidParameters && m.hasCovariance && !m.hesseFailed && !m.isAboveMaxEdm
      && !m.hasReachedCallLimit }

/-- An asymmetric error of one parameter, as signed offsets from its value at the minimum. -/
structure Interval (α : Type) where
  lower : α
  upper : α
  isValid : Bool
  lowerValid : Bool
  upperValid : Bool
  atLowerLimit : Bool
  atUpperLimit : Bool
  atLowerMaxFcn : Bool
  atUpperMaxFcn : Bool
  lowerNewMin : Bool
  upperNewMin : Bool
  nfcn : Nat
  /-- The value at the minimum. -/
  min : α
deriving Repr

/-- An interval with the name of its parameter. -/
structure MinosError (α : Type) where
  name : String
  interval : Interval α
deriving Repr

end FitSession
