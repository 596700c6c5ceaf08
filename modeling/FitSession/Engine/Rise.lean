import FitSession.Scalar

/-!
# Searches for a rise

How far one has to go from a minimum until the objective has risen by a given amount. The distance
is bracketed by the last trial that stayed below the amount and the last that did not.

* `riseTolerance`, `riseTrials`: when a rise is accepted, and how many trials there are;
* `isRise`: whether a rise is accepted;
* `Fence`, `Fence.place`, `Fence.next`: the bracket, one more trial in it, and the next one.
-/

namespace FitSession

variable {α : Type} [Scalar α]

/-- The relative accuracy at which a rise is accepted. -/
def riseTolerance : α := 1e-3

/-- The number of trials of a search. -/
def riseTrials : Nat := 40

/-- Whether `rise` is `up` within the accuracy. -/
def isRise (up rise : α) : Bool := decide (Scalar.abs (rise - up) ≤ riseTolerance * up)

/-- A distance and the rise there. -/
structure Post (α : Type) where
  distance : α
  rise : α

/-- The last trial below the amount, and the last that was not below it. -/
structure Fence (α : Type) where
  below : Post α
  above : Option (Post α)

namespace Fence

/-- The bracket before any trial. -/
def origin : Fence α := ⟨⟨0, 0⟩, none⟩

/-- The bracket after one more trial. -/
def place (f : Fence α) (up distance rise : α) : Fence α :=
  if rise < up then { f with below := ⟨distance, Scalar.maxNum rise 0⟩ }
  else { f with above := some ⟨distance, rise⟩ }

/-- The next trial between two posts: linear in the root of the rise, or the middle where that
leaves the bracket. -/
def between (up : α) (lo hi : Post α) : α :=
  let rootLo := Scalar.sqrt lo.rise
  let rootHi := Scalar.sqrt hi.rise
  let guess := lo.distance
    + (hi.distance - lo.distance) * (Scalar.sqrt up - rootLo) / (rootHi - rootLo)
  if Scalar.isFinite guess && decide (lo.distance < guess) && decide (guess < hi.distance) then
    guess
  else 0.5 * (lo.distance + hi.distance)

/-- The next trial beyond one that stayed below: as a parabola rises, within bounds. -/
def beyond (up room distance rise : α) : α :=
  let grow := if 0 < rise then Scalar.clampTo 1.1 4 (Scalar.sqrt (up / rise)) else 4
  Scalar.minNum (distance * grow) room

/-- The trial after one at `distance`. -/
def next (f : Fence α) (up room distance rise : α) : α :=
  match f.above with
  | some hi => between up f.below hi
  | none => beyond up room distance rise

end Fence
end FitSession
