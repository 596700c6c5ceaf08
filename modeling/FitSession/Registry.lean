import FitSession.Failure

/-!
# Registries

A registry is the ordered list of the parameter names of a session. It is fixed when it is built,
holds at least one name and none twice, so that a name and a position say the same.

* `Registry.enter`, `Registry.tabulate`: the table of positions, filled name by name;
* `Registry`, `Registry.ofNames`, `Registry.positional`: validated names, and made-up ones;
* `Registry.indexOf`, `Registry.name?`: from a name to its position and back;
* `signedIndex`: positions that count from either end.
-/

namespace FitSession

namespace Registry

/-- One more name in a table of positions; a name that the table has is not entered again. -/
def enter (table : List (String × Nat)) (item : String × Nat) :
    Except String (List (String × Nat)) :=
  match table.lookup item.1 with
  | some _ => .error item.1
  | none => .ok (item :: table)

/-- The table of the positions of some names, or the first name that is there twice. -/
def tabulate (names : List String) : Except String (List (String × Nat)) :=
  names.zipIdx.foldlM enter []

end Registry

/-- The ordered parameter names of a session, and a table in which they are looked up. -/
structure Registry where
  names : List String
  table : List (String × Nat)
  nonempty : names ≠ []
  tabulated : Registry.tabulate names = .ok table

/-- A position that counts from the front, or from the end when it is negative. -/
def signedIndex {α : Type} (index : Int) (len : Nat) : Except (FitError α) Nat :=
  let resolved := if index < 0 then index + len else index
  if resolved < 0 ∨ (len : Int) ≤ resolved then .error (.outOfRange index len)
  else .ok resolved.toNat

namespace Registry

variable {α : Type}

/-- The registry of a list of names. -/
def ofNames (names : List String) : Except (FitError α) Registry :=
  if nonempty : names = [] then .error (.configuration .noParameters)
  else
    match tabulated : tabulate names with
    | .error name => .error (.configuration (.repeatedName name))
    | .ok table => .ok ⟨names, table, nonempty, tabulated⟩

/-- The name made up for position `i`. -/
def positionalName (i : Nat) : String := s!"x[{i}]"

/-- The registry of `n` parameters with made-up names. -/
def positional (n : Nat) : Except (FitError α) Registry :=
  ofNames ((List.range n).map positionalName)

/-- The number of parameters. -/
def len (r : Registry) : Nat := r.names.length

/-- The name at a position. -/
def name? (r : Registry) (i : Nat) : Option String := r.names[i]?

/-- The name at a position, empty if there is none. -/
def nameAt (r : Registry) (i : Nat) : String := (r.name? i).getD ""

/-- Whether a name is registered. -/
def contains (r : Registry) (name : String) : Bool := (r.table.lookup name).isSome

/-- The position of a name. -/
def indexOf (r : Registry) (name : String) : Except (FitError α) Nat :=
  match r.table.lookup name with
  | some i => .ok i
  | none => .error (.unknownName name)

/-- The position that a signed position stands for. -/
def indexAt (r : Registry) (index : Int) : Except (FitError α) Nat :=
  signedIndex index r.len

end Registry
end FitSession
