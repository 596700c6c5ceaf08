/-!
# Values of a snapshot

A snapshot of a parameter state is a flat dictionary. Its values are of three kinds.

* `SnapshotValue`: a flag, a number, or a pair of optional bounds.
-/

namespace FitSession

/-- One value of a snapshot. A missing bound means that this side is unbounded. -/
inductive SnapshotValue (α : Type)
  | flag (on : Bool)
  | number (x : α)
  | limit (lower upper : Option α)
deriving BEq, Repr

end FitSession
