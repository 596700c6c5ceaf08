import FitSession.Registry

/-!
# Keys

One parameter is addressed by its name or by a signed position.

* `Key`, `Key.resolve`: a key and the position it stands for.
-/

namespace FitSession

/-- One parameter, by signed position or by name. -/
inductive Key
  | index (i : Int)
  | name (text : String)
deriving DecidableEq, Repr

/-- The position that a key stands for. -/
def Key.resolve {α : Type} (registry : Registry) : Key → Except (FitError α) Nat
  | .index i => registry.indexAt i
  | .name text => registry.indexOf text

end FitSession
