import FitSession.Address.Slice
import FitSession.Column
import FitSession.Session.Basic

/-!
# Views

Reads and writes of one column of the current state, by key or by slice. A write to a slice is
checked as a whole before anything is written.

* `Column.get`, `Column.slice`, `Column.items`: reads of a state;
* `Assign.inputsFor`, `Column.prepareAll`: the checks of a write;
* `Session.setItem`, `Session.setSlice`, `Session.setAll`: writes to a session.
-/

namespace FitSession

variable {σ α Item Input : Type}

namespace Column

/-- All items of a column. -/
def items (c : Column α Item Input) (s : ParameterState α) : List Item := s.entries.map c.read

/-- The item of a key. -/
def get (c : Column α Item Input) (registry : Registry) (s : ParameterState α) (key : Key) :
    Except (FitError α) Item := do
  let index ← key.resolve registry
  let e ← s.entryOrFail index
  pure (c.read e)

/-- The items of a slice, in the order of its walk. -/
def slice (c : Column α Item Input) (s : ParameterState α) (slice : Slice) : List Item :=
  (slice.indices s.len).filterMap fun i => (s.entry? i).map c.read

/-- Whether the column has exactly these items. -/
def hasItems [BEq Item] (c : Column α Item Input) (s : ParameterState α) (xs : List Item) : Bool :=
  c.items s == xs

/-- The items for a list of positions, if every input is accepted. -/
def prepareAll (c : Column α Item Input) (requests : List (Nat × Input)) :
    Except (FitError α) (List (Nat × Item)) :=
  requests.mapM fun (i, x) => do
    let item ← c.prepare i x
    pure (i, item)

end Column

/-- Each position with its input; a list must have one input for each position. -/
def Assign.inputsFor (positions : List Nat) :
    Assign Input → Except (FitError α) (List (Nat × Input))
  | .broadcast x => .ok (positions.map fun i => (i, x))
  | .each xs =>
    if xs.length = positions.length then .ok (positions.zip xs)
    else .error (.lengthMismatch positions.length xs.length)

namespace Session

/-- Writes an item that has been checked into the current state. -/
def writeItem (c : Column α Item Input) (index : Nat) (item : Item) : Action σ α Unit := do
  let s ← get
  let state ← Action.ofExcept (c.write s.currentState index item)
  set (s.replaceState state)

/-- Writes one item of the current state. -/
def setItem (c : Column α Item Input) (key : Key) (input : Input) : Action σ α Unit := do
  let s ← get
  let index ← Action.ofExcept (key.resolve s.registry)
  let item ← Action.ofExcept (c.prepare index input)
  modify opened
  writeItem c index item

/-- Writes the items of a slice of the current state, one after another. -/
def setSlice (c : Column α Item Input) (slice : Slice) (assign : Assign Input) :
    Action σ α Unit := do
  let s ← get
  let requests ← Action.ofExcept (assign.inputsFor (slice.indices s.currentState.len))
  let items ← Action.ofExcept (c.prepareAll requests)
  modify opened
  items.forM fun (i, item) => writeItem c i item

/-- Writes all items of the current state. -/
def setAll (c : Column α Item Input) (assign : Assign Input) : Action σ α Unit :=
  setSlice c .full assign

end Session
end FitSession
