import FitSession.Address.Key
import FitSession.Engine.Minimum

/-!
# Collected intervals

The intervals that a session has found, one per parameter, in the order in which they were first
found. A new interval takes the place of an older one of the same parameter.

* `MinosErrors`, `MinosErrors.insert`: the collection, and one more interval;
* `MinosErrors.find?`, `MinosErrors.get`: the interval of a name or of a key.
-/

namespace FitSession

/-- The intervals of a session. -/
structure MinosErrors (α : Type) where
  entries : List (MinosError α)
deriving Repr

namespace MinosErrors

variable {α : Type}

/-- No intervals. -/
def empty : MinosErrors α := ⟨[]⟩

/-- The number of intervals. -/
def len (m : MinosErrors α) : Nat := m.entries.length

/-- The names of the parameters, in order. -/
def names (m : MinosErrors α) : List String := m.entries.map (·.name)

/-- Whether a parameter has an interval. -/
def contains (m : MinosErrors α) (name : String) : Bool := m.entries.any (·.name == name)

/-- The interval of a parameter. -/
def find? (m : MinosErrors α) (name : String) : Option (MinosError α) :=
  m.entries.find? (·.name == name)

/-- The interval of a key; a position counts the intervals. -/
def get (m : MinosErrors α) : Key → Except (FitError α) (MinosError α)
  | .index i => do
    let k ← signedIndex i m.len
    match m.entries[k]? with
    | some e => pure e
    | none => throw (.outOfRange i m.len)
  | .name text =>
    match m.find? text with
    | some e => .ok e
    | none => .error (.unknownName text)

/-- The entries with `e` in the place of the one of its name, or at the end. -/
def insertInto (e : MinosError α) : List (MinosError α) → List (MinosError α)
  | [] => [e]
  | x :: rest => if x.name = e.name then e :: rest else x :: insertInto e rest

/-- The collection with one more interval. -/
def insert (m : MinosErrors α) (e : MinosError α) : MinosErrors α := ⟨insertInto e m.entries⟩

end MinosErrors
end FitSession
