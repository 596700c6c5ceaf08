import FitSession.Start

/-!
# Snapshots

A snapshot is a parameter state as a flat dictionary in the order of its keys: the value of
parameter `x` under `x`, its error under `error_x`, its flag under `fix_x` and its limit, if it has
one, under `limit_x`. Whether a key with such a beginning belongs to another parameter is told by
the rest of it: it does if the rest is itself the key of a number.

* `Snapshot`, `Snapshot.insert`, `Snapshot.get?`: the dictionary;
* `Snapshot.ofState`: the snapshot of a state;
* `Snapshot.readKey`: the field and the parameter that a key stands for;
* `Snapshot.toStartSpec`, `Snapshot.rename`: what a snapshot asks of a new fit, and new names.
-/

namespace FitSession

/-- A dictionary with ascending keys. -/
structure Snapshot (α : Type) where
  entries : List (String × SnapshotValue α)

/-- The entries with a new value for a key, which is added at its place if it is missing. -/
def insertSorted {β : Type} (key : String) (x : β) : List (String × β) → List (String × β)
  | [] => [(key, x)]
  | (k, y) :: rest =>
    if key = k then (key, x) :: rest
    else if key < k then (key, x) :: (k, y) :: rest
    else (k, y) :: insertSorted key x rest

/-- What precedes the name in the key of an error. -/
def errorKeyStart : String := "error_"

/-- What precedes the name in the key of a flag. -/
def fixKeyStart : String := "fix_"

/-- What precedes the name in the key of a limit. -/
def limitKeyStart : String := "limit_"

/-- What follows `start` in `key`, if it begins so. -/
def afterStart (start key : String) : Option String :=
  if start.toList.isPrefixOf key.toList then
    some (String.ofList (key.toList.drop start.length))
  else none

namespace Snapshot

variable {α : Type}

/-- The dictionary without keys. -/
def empty : Snapshot α := ⟨[]⟩

/-- The dictionary with a value for a key. -/
def insert (s : Snapshot α) (key : String) (v : SnapshotValue α) : Snapshot α :=
  ⟨insertSorted key v s.entries⟩

/-- The value of a key. -/
def get? (s : Snapshot α) (key : String) : Option (SnapshotValue α) :=
  (s.entries.find? fun (k, _) => k == key).map (·.2)

/-- The number of keys. -/
def len (s : Snapshot α) : Nat := s.entries.length

/-- The dictionary of a list of keys and values; a later value holds. -/
def ofList (items : List (String × SnapshotValue α)) : Snapshot α :=
  items.foldl (fun s (k, v) => s.insert k v) empty

/-- The keys of one parameter. -/
def itemsOfEntry [Scalar α] (name : String) (e : Entry α) : List (String × SnapshotValue α) :=
  [(name, .number e.value), (errorKeyStart ++ name, .number e.error),
    (fixKeyStart ++ name, .flag e.fixed)]
    ++ if e.limit.isBounded then
        [(limitKeyStart ++ name, .limit e.limit.lowerBound e.limit.upperBound)]
      else []

/-- The snapshot of a state. -/
def ofState [Scalar α] (registry : Registry) (state : ParameterState α) : Snapshot α :=
  ofList ((registry.names.zip state.entries).flatMap fun (name, e) => itemsOfEntry name e)

/-- The value of a parameter. -/
def value? (s : Snapshot α) (name : String) : Option α :=
  match s.get? name with
  | some (.number x) => some x
  | _ => none

/-- The error of a parameter. -/
def error? (s : Snapshot α) (name : String) : Option α := s.value? (errorKeyStart ++ name)

/-- The flag of a parameter. -/
def fixed? (s : Snapshot α) (name : String) : Option Bool :=
  match s.get? (fixKeyStart ++ name) with
  | some (.flag on) => some on
  | _ => none

/-- The limit of a parameter. -/
def limit? (s : Snapshot α) (name : String) : Option (LimitSpec α) :=
  match s.get? (limitKeyStart ++ name) with
  | some (.limit lower upper) => some ⟨lower, upper⟩
  | _ => none

/-- Whether a name is the key of a number. -/
def isPlain (s : Snapshot α) (name : String) : Bool :=
  match s.get? name with
  | some (.number _) => true
  | _ => false

/-- The field that a key stands for and the parameter it belongs to. -/
def readKey (s : Snapshot α) (key : String) : KeyedField × String :=
  let reading (field : KeyedField) : Option (KeyedField × String) :=
    match afterStart field.keyStart key with
    | some name => if s.isPlain name then some (field, name) else none
    | none => none
  (reading .error <|> reading .fixed <|> reading .limit).getD (.value, key)

/-- The snapshot with every parameter renamed. -/
def rename (s : Snapshot α) (f : String → String) : Snapshot α :=
  ofList <| s.entries.map fun (key, v) =>
    let (field, name) := s.readKey key
    (field.keyStart ++ f name, v)

/-- The start `spec` with what one key asks for. The value must be of the kind of its field. -/
def addEntry (s : Snapshot α) (spec : StartSpec α) (entry : String × SnapshotValue α) :
    Except (FitError α) (StartSpec α) :=
  match s.readKey entry.1, entry.2 with
  | (.value, name), .number x => .ok { spec with values := spec.values ++ [(name, x)] }
  | (.error, name), .number x => .ok { spec with errors := spec.errors ++ [(name, x)] }
  | (.fixed, name), .flag on => .ok { spec with fixed := spec.fixed ++ [(name, on)] }
  | (.limit, name), .limit lower upper =>
    .ok { spec with limits := spec.limits ++ [(name, ⟨lower, upper⟩)] }
  | _, v => .error (.configuration (.unexpectedEntry entry.1 v))

/-- What the snapshot asks of a new fit. -/
def toStartSpec (s : Snapshot α) : Except (FitError α) (StartSpec α) :=
  s.entries.foldlM s.addEntry ⟨none, none, [], [], [], []⟩

end Snapshot
end FitSession
