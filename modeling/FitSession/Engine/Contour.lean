import FitSession.Engine.Crossing

/-!
# Contour lines

The closed line on which the objective, minimized over all parameters but two, has risen by the
errordef. It is met once by each of a number of rays that leave the minimum at even angles, in
units of the errors of the two parameters.

* `roomAlong`: how far a ray may go within a limit;
* `searchRay`: the crossing of one ray;
* `Plane`, `Plane.pointOn`, `Plane.rise`: the objective over two parameters;
* `contourPoints`: the points of the line.
-/

namespace FitSession

variable {σ α : Type} [Scalar α]

/-- How far one may go from the value of an entry in direction `d` within its limit. -/
def roomAlong (e : Entry α) (d : α) : α :=
  if 0 < d then (e.upper - e.value) / d
  else if d < 0 then (e.lower - e.value) / d
  else Scalar.inf

/-- The trials along a ray, as many as the first argument allows. A ray that stays below the amount
ends at its bound. -/
def searchRay (rise : α → Run σ α α) (up room : α) :
    Nat → Fence α → α → Run σ α (Option α)
  | 0, _, _ => pure none
  | fuel + 1, fence, t => do
    let df ← rise t
    if isRise up df then pure (some t)
    else if df < up && isAtRoom room t then pure (some room)
    else
      let fence := fence.place up t df
      searchRay rise up room fuel fence (fence.next up room t df)

/-- The objective over two parameters around a minimum. -/
structure Plane (σ α : Type) where
  fit : Fit σ α
  cost : Cost α
  options : EngineOptions α
  /-- The state at the minimum, with both parameters fixed. -/
  pinned : ParameterState α
  fval : α
  x : Nat
  y : Nat
  centerX : α
  centerY : α

/-- One ray from the minimum. -/
structure Heading (α : Type) where
  dx : α
  dy : α

namespace Plane

/-- The point at distance `t` on a ray. -/
def pointOn (p : Plane σ α) (h : Heading α) (t : α) : α × α :=
  (p.centerX + t * h.dx, p.centerY + t * h.dy)

/-- The rise of the objective at a point. -/
def rise (p : Plane σ α) (point : α × α) : Run σ α α := do
  let atX ← Run.ofExcept (p.pinned.setValue p.x point.1)
  let state ← Run.ofExcept (atX.setValue p.y point.2)
  let m ← p.fit p.cost state p.options
  pure (m.fval - p.fval)

end Plane

/-- The rays at `count` even angles for the given units. -/
def headings (sx sy : α) (count : Nat) : List (Heading α) :=
  (List.range count).map fun k =>
    let angle := Scalar.tau * Scalar.ofCount k / Scalar.ofCount count
    ⟨sx * Scalar.cos angle, sy * Scalar.sin angle⟩

/-- Up to `count` points of the contour line of the parameters `ix` and `iy`, in the order of their
angles. -/
def contourPoints (fit : Fit σ α) (cost : Cost α) (minimum : FunctionMinimum α) (ix iy : Nat)
    (count : Nat) (options : EngineOptions α) : Run σ α (List (α × α)) := do
  match minimum.state.entry? ix, minimum.state.entry? iy with
  | some ex, some ey => do
    let b ← get
    let unit := Scalar.sqrt (upRatio b.up minimum.up)
    let first ← Run.ofExcept ((minimum.state.withCovariance none).setFixed ix true)
    let pinned ← Run.ofExcept (first.setFixed iy true)
    let plane : Plane σ α :=
      ⟨fit, cost, options.inner, pinned, minimum.fval, ix, iy, ex.value, ey.value⟩
    let rays := headings (parabolicError ex * unit) (parabolicError ey * unit) count
    let found ← rays.mapM fun h => do
      let room := Scalar.minNum (roomAlong ex h.dx) (roomAlong ey h.dy)
      let start := Scalar.minNum room 1
      let t ← searchRay (fun t => plane.rise (plane.pointOn h t)) b.up room riseTrials .origin start
      pure (t.map (plane.pointOn h))
    pure (found.filterMap id)
  | _, _ => pure []

end FitSession
