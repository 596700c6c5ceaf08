import FitSession.Dense
import FitSession.Limit

/-!
# Parameter states

A state holds one entry per parameter and, when one is known, a covariance over the parameters
that are free. A value that is written is clamped into its limit; a limit that is written clamps
the value already there. Fixing a parameter removes its row and column from the covariance;
releasing one discards the covariance.

* `Entry`: value, error, flag and bounds of one parameter;
* `checkValue`, `checkError`: what may be written;
* `ParameterState`, with `setValue`, `setError`, `setFixed`, `setLimit`: the writes;
* `ParameterState.freeIndices`: the parameters that take part in a minimization.
-/

namespace FitSession

/-- The numeric state of one parameter. -/
structure Entry (α : Type) where
  value : α
  error : α
  fixed : Bool
  lower : α
  upper : α
deriving Repr

/-- The entries of all parameters and the covariance of the free ones. -/
structure ParameterState (α : Type) where
  entries : List (Entry α)
  covariance : Option (DenseMatrix α)
deriving Repr

variable {α : Type} [Scalar α]

namespace Entry

/-- A free parameter without bounds. -/
def free (value error : α) : Entry α := ⟨value, error, false, Scalar.negInf, Scalar.inf⟩

/-- The bounds as a limit. -/
def limit (e : Entry α) : Limit α := ⟨e.lower, e.upper⟩

/-- Fixed by its flag or by a limit that leaves a single point. -/
def isFixed (e : Entry α) : Bool := e.fixed || e.limit.isDegenerate

/-- Equality of all fields. -/
instance : BEq (Entry α) :=
  ⟨fun a b => a.value == b.value && a.error == b.error && a.fixed == b.fixed
    && a.lower == b.lower && a.upper == b.upper⟩

end Entry

/-- A value must be finite. -/
def checkValue (index : Nat) (value : α) : Except (FitError α) Unit :=
  if Scalar.isFinite value then .ok () else .error (.invalidValue index value .valueNotFinite)

/-- An error must be finite and not negative. -/
def checkError (index : Nat) (error : α) : Except (FitError α) Unit :=
  if Scalar.isFinite error && !decide (error < 0) then .ok ()
  else .error (.invalidValue index error .errorNotAllowed)

namespace ParameterState

/-- The state without parameters. -/
def empty : ParameterState α := ⟨[], none⟩

/-- Entries without a covariance. -/
def ofEntries (entries : List (Entry α)) : ParameterState α := ⟨entries, none⟩

/-- Equality of the entries; the covariance is not compared. -/
instance : BEq (ParameterState α) := ⟨fun a b => a.entries == b.entries⟩

/-- One more parameter at the end. -/
def push (s : ParameterState α) (e : Entry α) : ParameterState α :=
  { s with entries := s.entries ++ [e] }

/-- The number of parameters. -/
def len (s : ParameterState α) : Nat := s.entries.length

/-- The entry of parameter `index`. -/
def entry? (s : ParameterState α) (index : Nat) : Option (Entry α) := s.entries[index]?

/-- The values of all parameters. -/
def values (s : ParameterState α) : List α := s.entries.map (·.value)

/-- The errors of all parameters. -/
def errors (s : ParameterState α) : List α := s.entries.map (·.error)

/-- The positions of the parameters that are not fixed. -/
def freeIndices (s : ParameterState α) : List Nat :=
  (s.entries.zipIdx.filter fun (e, _) => !e.isFixed).map (·.2)

/-- The number of parameters that are not fixed. -/
def nFree (s : ParameterState α) : Nat := s.entries.countP fun e => !e.isFixed

/-- Whether a covariance is known. -/
def hasCovariance (s : ParameterState α) : Bool := s.covariance.isSome

/-- The state with another covariance, or with none. -/
def withCovariance (s : ParameterState α) (c : Option (DenseMatrix α)) : ParameterState α :=
  { s with covariance := c }

/-- The entry of parameter `index`, or the failure that there is none. -/
def entryOrFail (s : ParameterState α) (index : Nat) : Except (FitError α) (Entry α) :=
  match s.entries[index]? with
  | some e => .ok e
  | none => .error (.outOfRange index s.len)

/-- The covariance without row and column `pos`. -/
def dropFromCovariance (pos : Nat) (c : DenseMatrix α) : Option (DenseMatrix α) :=
  if pos < c.nrows then
    let keep := (List.range c.nrows).filter (· ≠ pos)
    some (c.submatrix keep keep)
  else none

/-- Replaces entry `index` and keeps the covariance in step with the free parameters. -/
def replaceEntry (s : ParameterState α) (index : Nat) (old new : Entry α) : ParameterState α :=
  let entries := s.entries.set index new
  if old.isFixed = new.isFixed then { s with entries }
  else if new.isFixed then
    let pos := (entries.take index).countP fun e => !e.isFixed
    ⟨entries, s.covariance.bind (dropFromCovariance pos)⟩
  else ⟨entries, none⟩

/-- Writes a value, clamped into the limit of its parameter. -/
def setValue (s : ParameterState α) (index : Nat) (value : α) :
    Except (FitError α) (ParameterState α) := do
  checkValue index value
  let e ← s.entryOrFail index
  pure { s with entries := s.entries.set index { e with value := e.limit.clamp value } }

/-- Writes an error. -/
def setError (s : ParameterState α) (index : Nat) (error : α) :
    Except (FitError α) (ParameterState α) := do
  checkError index error
  let e ← s.entryOrFail index
  pure { s with entries := s.entries.set index { e with error } }

/-- Writes the fixed flag. -/
def setFixed (s : ParameterState α) (index : Nat) (fixed : Bool) :
    Except (FitError α) (ParameterState α) := do
  let e ← s.entryOrFail index
  pure (s.replaceEntry index e { e with fixed })

/-- Writes a limit: the value is clamped into it, the error is kept, and a limit that leaves a
single point fixes the parameter. -/
def setLimit (s : ParameterState α) (index : Nat) (limit : Limit α) :
    Except (FitError α) (ParameterState α) := do
  let e ← s.entryOrFail index
  pure <| s.replaceEntry index e
    { value := limit.clamp e.value, error := e.error, fixed := e.fixed || limit.isDegenerate,
      lower := limit.lower, upper := limit.upper }

/-- The entries with `change` applied at the chosen positions, each with its number. -/
def updateAt (change : Entry α → α → Entry α) (entries : List (Entry α)) (positions : List Nat)
    (xs : List α) : List (Entry α) :=
  (positions.zip xs).foldl (fun es (i, x) => es.modify i (change · x)) entries

/-- Overwrites the values at the chosen positions as they are. -/
def overwriteValues (s : ParameterState α) (positions : List Nat) (values : List α) :
    ParameterState α :=
  { s with entries := updateAt (fun e value => { e with value }) s.entries positions values }

/-- Overwrites the errors at the chosen positions as they are. -/
def overwriteErrors (s : ParameterState α) (positions : List Nat) (errors : List α) :
    ParameterState α :=
  { s with entries := updateAt (fun e error => { e with error }) s.entries positions errors }

end ParameterState
end FitSession
