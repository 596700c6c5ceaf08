import FitSession.Minimizer.Search
import FitSession.Scalar

/-!
# Line searches

A line search looks along a direction for a step that lowers the objective enough.

* `Ray`: a start with its cost and gradient, and a direction;
* `Trial`: a step with the cost and the slope there;
* `Ray.point`, `Ray.costAt`, `Ray.slopeAt`, `Ray.trial`: the objective along the direction.
-/

namespace FitSession

/-- A start with its cost and gradient, and a direction. -/
structure Ray (α : Type) where
  origin : List α
  direction : List α
  cost : α
  gradient : List α

/-- A step with the cost and the slope there. -/
structure Trial (α : Type) where
  x : α
  f : α
  g : α

/-- A point found by a line search. -/
structure LinePoint (α : Type) where
  theta : List α
  cost : α

namespace Ray

variable {α : Type} [Scalar α]

/-- The point after a step. -/
def point (ray : Ray α) (x : α) : List α :=
  Scalar.addVec ray.origin (Scalar.scaleVec x ray.direction)

/-- The slope at the start. -/
def slope (ray : Ray α) : α := Scalar.dot ray.gradient ray.direction

/-- The cost after a step. -/
def costAt (ray : Ray α) (x : α) : Search α α := .value (ray.point x)

/-- The slope after a step. -/
def slopeAt (ray : Ray α) (x : α) : Search α α := do
  let g ← Search.gradient (ray.point x)
  pure (Scalar.dot ray.direction g)

/-- Cost and slope after a step. -/
def trial (ray : Ray α) (x : α) : Search α (Trial α) := do
  let f ← ray.costAt x
  let g ← ray.slopeAt x
  pure ⟨x, f, g⟩

end Ray

/-- Bound on the steps of a line search; a search that ends by itself stays far below it. -/
def lineSearchLimit : Nat := 5000

end FitSession
