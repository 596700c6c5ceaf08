import FitSession.Limit

/-!
# Transforms of bounded parameters

A minimizer moves over all numbers, so a bounded parameter is seen through a smooth map from
internal coordinates into its limit. Every map is flat exactly at a bound, and a start there is
nudged inwards.

* `BoundTransform`, `BoundTransform.ofLimit`: the map that belongs to a limit;
* `toExternal`, `toInternal`, `startInternal`, `slope`: the map, its inverse, its inverse for a
  start, and its derivative;
* `isAtLimit`: nearness to a bound.
-/

namespace FitSession

/-- The map from internal coordinates into a limit. -/
inductive BoundTransform (α : Type)
  | unbounded
  | lower (lo : α)
  | upper (hi : α)
  | double (lo hi : α)
deriving Repr

variable {α : Type} [Scalar α]

/-- Relative distance to a bound within which a parameter counts as at its limit. -/
def limitTolerance : α := 1e-5

/-- The internal distance that a start keeps from a bound. -/
def boundNudge : α := 0.1

namespace BoundTransform

/-- The map that belongs to a limit. -/
def ofLimit (l : Limit α) : BoundTransform α :=
  match l.lowerBound, l.upperBound with
  | some lo, some hi => .double lo hi
  | some lo, none => .lower lo
  | none, some hi => .upper hi
  | none, none => .unbounded

/-- The parameter at an internal coordinate. -/
def toExternal (t : BoundTransform α) (x : α) : α :=
  match t with
  | .unbounded => x
  | .lower lo => lo - 1 + Scalar.sqrt (x * x + 1)
  | .upper hi => hi + 1 - Scalar.sqrt (x * x + 1)
  | .double lo hi => lo + 0.5 * (hi - lo) * (Scalar.sin x + 1)

/-- The internal coordinate of a distance from the only bound. -/
def ofDistance (d : α) : α :=
  let e := Scalar.maxNum d 0 + 1
  Scalar.sqrt (e * e - 1)

/-- The internal coordinate of a parameter; one outside the limit is taken for its bound. -/
def toInternal (t : BoundTransform α) (y : α) : α :=
  match t with
  | .unbounded => y
  | .lower lo => ofDistance (y - lo)
  | .upper hi => ofDistance (hi - y)
  | .double lo hi => Scalar.asin (Scalar.clampTo (-1) 1 (2 * (y - lo) / (hi - lo) - 1))

/-- The internal coordinate of a start, kept away from the bounds. -/
def startInternal (t : BoundTransform α) (y : α) : α :=
  let x := t.toInternal y
  match t with
  | .unbounded => x
  | .lower _ => Scalar.maxNum x boundNudge
  | .upper _ => Scalar.maxNum x boundNudge
  | .double _ _ =>
    let edge := Scalar.halfPi - boundNudge
    Scalar.clampTo (-edge) edge x

/-- The derivative of the parameter by its internal coordinate. -/
def slope (t : BoundTransform α) (x : α) : α :=
  match t with
  | .unbounded => 1
  | .lower _ => x / Scalar.sqrt (x * x + 1)
  | .upper _ => -x / Scalar.sqrt (x * x + 1)
  | .double lo hi => 0.5 * (hi - lo) * Scalar.cos x

/-- Whether `y` is near a bound, in units of the bound if that is large. -/
def isNear (y bound : α) : Bool :=
  Scalar.abs (y - bound) ≤ limitTolerance * Scalar.maxNum (Scalar.abs bound) 1

/-- Whether a parameter is near one of its bounds. -/
def isAtLimit (t : BoundTransform α) (y : α) : Bool :=
  match t with
  | .unbounded => false
  | .lower lo => isNear y lo
  | .upper hi => isNear y hi
  | .double lo hi => isNear y lo || isNear y hi

end BoundTransform
end FitSession
