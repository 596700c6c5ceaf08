import FitSession.Failure

/-!
# Slices

A slice selects positions from a start up to a stop in steps. A negative bound counts from the
end, a bound outside the list is moved to its edge, and a negative step walks backwards.

* `Slice`, `Slice.ofParts`: a slice has a step other than zero;
* `Slice.indices`: the selected positions, in the order of the walk;
* `Assign`: one value for all selected positions, or one for each.
-/

namespace FitSession

/-- A selection of positions. -/
structure Slice where
  start : Option Int
  stop : Option Int
  step : Int
  step_ne : step ≠ 0

/-- The right-hand side of a write to a slice. -/
inductive Assign (β : Type)
  | broadcast (x : β)
  | each (xs : List β)
deriving Repr

namespace Slice

/-- The slice with these parts. -/
def ofParts {α : Type} (start stop : Option Int) (step : Int) : Except (FitError α) Slice :=
  if h : step = 0 then .error (.configuration .zeroStep) else .ok ⟨start, stop, step, h⟩

/-- All positions. -/
def full : Slice := ⟨none, none, 1, by decide⟩

/-- The positions from `start` up to `stop`. -/
def range (start stop : Int) : Slice := ⟨some start, some stop, 1, by decide⟩

/-- The positions from `start` on. -/
def startingAt (start : Int) : Slice := ⟨some start, none, 1, by decide⟩

/-- The positions up to `stop`. -/
def upTo (stop : Int) : Slice := ⟨none, some stop, 1, by decide⟩

/-- All positions, backwards. -/
def reversed : Slice := ⟨none, none, -1, by decide⟩

/-- A bound within `[lo, hi]`: a negative one counts from the end of a list of length `n`. -/
def clip (n : Int) (bound : Option Int) (whenMissing lo hi : Int) : Int :=
  match bound with
  | none => whenMissing
  | some b => if b < 0 then max (b + n) lo else min b hi

/-- A number that fits a signed word of 64 bits. -/
def IsWord (i : Int) : Prop := -0x8000000000000000 ≤ i ∧ i < 0x8000000000000000

instance : DecidablePred IsWord := fun _ => inferInstanceAs (Decidable (_ ∧ _))

/-- Whether a walk with steps of size `step` is still before `stop` at `i`. -/
def IsBefore (step stop i : Int) : Prop := if 0 < step then i < stop else stop < i

instance (step stop i : Int) : Decidable (IsBefore step stop i) :=
  inferInstanceAs (Decidable (ite _ _ _))

/-- The distance that a walk still has to go. -/
def ahead (step stop i : Int) : Nat := if 0 < step then (stop - i).toNat else (i - stop).toNat

theorem ahead_step {step stop i : Int} (hs : step ≠ 0) (h : IsBefore step stop i) :
    ahead step stop (i + step) < ahead step stop i := by
  unfold IsBefore at h
  unfold ahead
  split at h <;> split <;> omega

/-- The positions from `i` on that lie before `stop`. A step to a number that is no word ends
the walk. -/
def walk (s : Slice) (stop i : Int) : List Int :=
  if IsBefore s.step stop i then
    i :: if IsWord (i + s.step) then s.walk stop (i + s.step) else []
  else []
termination_by ahead s.step stop i
decreasing_by exact ahead_step s.step_ne ‹_›

/-- A bound that a walk over a list of length `n` can start or stop at. A missing one is `up` for a
walk forwards and `down` for a walk backwards. -/
def clipped (s : Slice) (n : Int) (bound : Option Int) (up down : Int) : Int :=
  if 0 < s.step then clip n bound up 0 n else clip n bound down (-1) (n - 1)

/-- The position at which the walk over a list of length `n` starts. -/
def firstOf (s : Slice) (n : Int) : Int := s.clipped n s.start 0 (n - 1)

/-- The position before which the walk over a list of length `n` stops. -/
def stopOf (s : Slice) (n : Int) : Int := s.clipped n s.stop n (-1)

/-- The selected positions of a list of length `len`, in the order of the walk. -/
def indices (s : Slice) (len : Nat) : List Nat :=
  (s.walk (s.stopOf len) (s.firstOf len)).map Int.toNat

end Slice
end FitSession
