import FitSession.Failure
import FitSession.Scalar

/-!
# Limits

A parameter's limit is a pair of bounds, with an infinity on a side that is unbounded. Callers
write a `LimitSpec`, where a missing bound stands for the infinity; it becomes a `Limit` only when
the bounds are numbers in order.

* `Limit`, `Limit.ofBounds`: the stored form and its validation;
* `Limit.clamp`: the nearest point within the limit;
* `Limit.isDegenerate`: the limits that leave a single point;
* `LimitSpec`, `LimitSpec.toLimit`: what callers write.
-/

namespace FitSession

/-- The stored form of a parameter's bounds. -/
structure Limit (α : Type) where
  lower : α
  upper : α
deriving Repr

/-- What callers write for a limit; a missing bound leaves its side open. -/
structure LimitSpec (α : Type) where
  lower : Option α
  upper : Option α
deriving Repr

variable {α : Type} [Scalar α]

namespace Limit

/-- No bound on either side. -/
def unbounded : Limit α := ⟨Scalar.negInf, Scalar.inf⟩

/-- The limit between two bounds that are numbers in order. -/
def ofBounds (lower upper : α) : Except (FitError α) (Limit α) :=
  if Scalar.isNaN lower || Scalar.isNaN upper then
    .error (.invalidLimit lower upper .notANumber)
  else if upper < lower then .error (.invalidLimit lower upper .reversed)
  else .ok ⟨lower, upper⟩

/-- Whether the lower side is bounded. -/
def hasLower (l : Limit α) : Bool := Scalar.isFinite l.lower

/-- Whether the upper side is bounded. -/
def hasUpper (l : Limit α) : Bool := Scalar.isFinite l.upper

/-- The lower bound, if there is one. -/
def lowerBound (l : Limit α) : Option α := if l.hasLower then some l.lower else none

/-- The upper bound, if there is one. -/
def upperBound (l : Limit α) : Option α := if l.hasUpper then some l.upper else none

/-- Whether at least one side is bounded. -/
def isBounded (l : Limit α) : Bool := l.hasLower || l.hasUpper

/-- Whether the bounds leave a single point. -/
def isDegenerate (l : Limit α) : Bool := Scalar.isFinite l.lower && l.lower == l.upper

/-- The point of the limit nearest to `x`. -/
def clamp (l : Limit α) (x : α) : α := Scalar.minNum (Scalar.maxNum x l.lower) l.upper

/-- Equality of both bounds. -/
instance : BEq (Limit α) := ⟨fun a b => a.lower == b.lower && a.upper == b.upper⟩

end Limit

namespace LimitSpec

/-- The validated limit. -/
def toLimit (s : LimitSpec α) : Except (FitError α) (Limit α) :=
  Limit.ofBounds (s.lower.getD Scalar.negInf) (s.upper.getD Scalar.inf)

end LimitSpec

/-- What a caller would write for a stored limit. -/
def Limit.toSpec (l : Limit α) : LimitSpec α := ⟨l.lowerBound, l.upperBound⟩

end FitSession
