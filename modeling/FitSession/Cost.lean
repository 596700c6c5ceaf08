import FitSession.Failure
import FitSession.Scalar

/-!
# Costs

A cost is the objective of a fit: a function of all parameters, in their order, with whatever else
it can tell about itself. An evaluation may fail.

* `Cost`: value, optional gradient and what the cost declares;
* `Cost.ofFunction`: a cost that only has a value;
* `leastSquaresErrordef`, `likelihoodErrordef`: the rises of the objective that mark one standard
  deviation.
-/

namespace FitSession

/-- The objective of a fit. -/
structure Cost (α : Type) where
  /-- The objective at a full argument list. -/
  value : List α → Except (FitError α) α
  /-- The gradient at a full argument list. -/
  grad : List α → Except (FitError α) (List α)
  /-- Whether `grad` may be asked. -/
  hasGrad : Bool
  /-- The names that the cost declares for its arguments. -/
  names : Option (List String)
  /-- The argument names of the function behind the cost. -/
  signature : Option (List String)
  /-- A description whose first line may show a call. -/
  doc : Option String
  /-- The rise of the objective that the cost takes for one standard deviation. -/
  errordef : Option α
  verbose : Nat

namespace Cost

variable {α : Type}

/-- A cost that declares nothing. -/
def ofFunction (value : List α → Except (FitError α) α) : Cost α where
  value := value
  grad := fun _ => .error .gradientNotImplemented
  hasGrad := false
  names := none
  signature := none
  doc := none
  errordef := none
  verbose := 0

end Cost

variable {α : Type} [Scalar α]

/-- The errordef of a sum of squared residuals. -/
def leastSquaresErrordef : α := 1

/-- The errordef of a negative logarithm of a likelihood. -/
def likelihoodErrordef : α := 0.5

/-- The failure of a list that has not the expected length. -/
def checkLength (expected found : Nat) : Except (FitError α) Unit :=
  if expected = found then .ok () else .error (.lengthMismatch expected found)

end FitSession
