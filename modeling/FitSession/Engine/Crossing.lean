import FitSession.Engine.Basic
import FitSession.Engine.Rise

/-!
# Crossings

The offset of one parameter at which the objective, minimized over all other free parameters, has
risen by the errordef.

* `Crossing`: what a search on one side found;
* `parabolicError`: the error of a parameter, or a guess in its place;
* `Profile`, `Profile.rise`: the objective with one parameter held at an offset;
* `callsSince`: what was counted from one point to another;
* `crossingAt`: the search.
-/

namespace FitSession

/-- What a search on one side of a minimum found. -/
structure Crossing (α : Type) where
  /-- The distance from the minimum. -/
  offset : α
  valid : Bool
  atLimit : Bool
  atMaxFcn : Bool
  newMin : Bool
deriving Repr

variable {σ α : Type} [Scalar α]

/-- No crossing found, with the last offset. -/
def Crossing.invalid (offset : α) : Crossing α := ⟨offset, false, false, false, false⟩

/-- The error of a parameter, or a tenth of its value but not below a tenth. -/
def parabolicError (e : Entry α) : α :=
  if Scalar.isFinite e.error && decide (0 < e.error) then e.error
  else 0.1 * Scalar.maxNum (Scalar.abs e.value) 1

/-- The objective along one parameter on one side of a minimum. -/
structure Profile (σ α : Type) where
  fit : Fit σ α
  cost : Cost α
  options : EngineOptions α
  /-- The state at the minimum, with the parameter fixed. -/
  pinned : ParameterState α
  fval : α
  index : Nat
  center : α
  sign : α

/-- The rise of the objective at an offset. -/
def Profile.rise (p : Profile σ α) (offset : α) : Run σ α α := do
  let state ← Run.ofExcept (p.pinned.setValue p.index (p.center + p.sign * offset))
  let m ← p.fit p.cost state p.options
  pure (m.fval - p.fval)

/-- What ends a search. -/
structure CrossingGoal (α : Type) where
  up : α
  /-- The distance to the bound on this side. -/
  room : α
  /-- A rise below minus this amount is a new minimum. -/
  newMinTolerance : α
  /-- The count of evaluations at the start, and how many more may be used. -/
  nfcn : Nat
  callLimit : Nat

/-- Whether the two ends of a bracket have come together. -/
def Fence.isClosed (f : Fence α) : Bool :=
  match f.above with
  | some hi =>
    decide (Scalar.abs (hi.distance - f.below.distance)
      ≤ 1e-12 * Scalar.maxNum (Scalar.abs hi.distance) 1)
  | none => false

/-- Whether a trial has reached the bound on its side. -/
def isAtRoom (room distance : α) : Bool := Scalar.isFinite room && decide (room ≤ distance)

/-- The evaluations counted since there were `before`, in words of 64 bits: where a count has been
set back, the difference wraps around. -/
def callsSince (before now : Nat) : Nat :=
  if before ≤ now then now - before else 0x10000000000000000 - (before - now)

/-- The trials of a search, as many as the first argument allows. -/
def searchCrossing (rise : α → Run σ α α) (goal : CrossingGoal α) :
    Nat → Fence α → α → Run σ α (Crossing α)
  | 0, _, offset => pure (.invalid offset)
  | fuel + 1, fence, offset => do
    let df ← rise offset
    let b ← get
    if goal.callLimit ≤ callsSince goal.nfcn b.nfcn then
      pure { Crossing.invalid offset with atMaxFcn := true }
    else if df < -goal.newMinTolerance then pure { Crossing.invalid offset with newMin := true }
    else if isRise goal.up df then pure { Crossing.invalid offset with valid := true }
    else if df < goal.up && isAtRoom goal.room offset then
      pure { Crossing.invalid goal.room with atLimit := true }
    else
      let fence := fence.place goal.up offset df
      let next := fence.next goal.up goal.room offset df
      if fence.isClosed then pure (.invalid next) else searchCrossing rise goal fuel fence next

/-- The bound of an entry on one side. -/
def Entry.boundTowards (e : Entry α) (sign : α) : α := if 0 < sign then e.upper else e.lower

/-- How errors at one errordef grow for another. -/
def upRatio (up upOfMinimum : α) : α := if 0 < upOfMinimum then up / upOfMinimum else 1

/-- The crossing of parameter `index` on the side of `sign`, with at most `callLimit` further
evaluations. -/
def crossingAt (fit : Fit σ α) (cost : Cost α) (minimum : FunctionMinimum α) (index : Nat)
    (sign : α) (options : EngineOptions α) (callLimit : Nat) : Run σ α (Crossing α) := do
  let b ← get
  match minimum.state.entry? index with
  | none => pure (.invalid 0)
  | some entry => do
    let room := Scalar.abs (entry.boundTowards sign - entry.value)
    let pinned ← Run.ofExcept ((minimum.state.withCovariance none).setFixed index true)
    let profile : Profile σ α :=
      ⟨fit, cost, options.inner, pinned, minimum.fval, index, entry.value, sign⟩
    let tolerance := Scalar.maxNum (riseTolerance * b.up) (2 * minimum.edm)
    let start := Scalar.minNum
      (parabolicError entry * Scalar.sqrt (upRatio b.up minimum.up)) room
    searchCrossing profile.rise ⟨b.up, room, tolerance, b.nfcn, callLimit⟩ riseTrials .origin start

end FitSession
