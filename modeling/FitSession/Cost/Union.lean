/-!
# Unions of names

Lists of names that overlap have a union, in which each name stands at the place where it is first
seen. While the lists are read, it is known of every name seen so far where it stands.

* `NameTable`, `NameTable.place`: the names seen so far, and the place of one more;
* `unionOf`: the union of lists of names, and the places of each list in it.
-/

namespace FitSession

/-- The names seen so far in their order, and the place of each. -/
structure NameTable where
  names : List String
  places : List (String × Nat)

namespace NameTable

/-- No name has been seen. -/
def empty : NameTable := ⟨[], []⟩

/-- The place of a name; one that has not been seen gets the next place. -/
def place (name : String) : StateM NameTable Nat := do
  let table ← get
  match table.places.lookup name with
  | some i => pure i
  | none => do
    let next := table.names.length
    set (⟨table.names ++ [name], (name, next) :: table.places⟩ : NameTable)
    pure next

/-- The places of the names of each list. -/
def placeAll (lists : List (List String)) : StateM NameTable (List (List Nat)) :=
  lists.mapM fun names => names.mapM place

end NameTable

/-- The union of lists of names, and the places of each list in it. -/
def unionOf (lists : List (List String)) : List String × List (List Nat) :=
  let (maps, table) := (NameTable.placeAll lists).run .empty
  (table.names, maps)

end FitSession
