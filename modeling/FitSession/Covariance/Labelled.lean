import FitSession.Address.Key
import FitSession.Numeral.Written
import FitSession.State
import FitSession.Text.Pad

/-!
# Labelled matrices

A covariance or a correlation with the names of its rows and columns. A state keeps the covariance
of its free parameters only; the full one has zeros for the others.

* `LabelledMatrix`, `LabelledMatrix.ofParts`, `LabelledMatrix.get`: names and entries;
* `LabelledMatrix.correlation`: the entries in units of the diagonal;
* `rowSlots`, `DenseMatrix.spread`: a covariance with zeros for the parameters that are not free;
* `ParameterState.labelledCovariance`: the covariance of a state, full or of the free parameters;
* `LabelledMatrix.write`: a table.
-/

namespace FitSession

/-- A square matrix with a name for each row and column. -/
structure LabelledMatrix (α : Type) where
  names : List String
  data : DenseMatrix α

namespace LabelledMatrix

variable {α : Type}

/-- A matrix that must have as many rows and columns as there are names. -/
def ofParts (names : List String) (data : DenseMatrix α) :
    Except (FitError α) (LabelledMatrix α) :=
  if data.hasSize names.length then .ok ⟨names, data⟩
  else .error (.lengthMismatch names.length data.nrows)

/-- The number of rows. -/
def len (m : LabelledMatrix α) : Nat := m.names.length

/-- The position of a key. -/
def position (m : LabelledMatrix α) : Key → Except (FitError α) Nat
  | .index i => signedIndex i m.len
  | .name text =>
    match m.names.findIdx? (· == text) with
    | some i => .ok i
    | none => .error (.unknownName text)

variable [Scalar α]

/-- The entry of a row key and a column key. -/
def get (m : LabelledMatrix α) (row col : Key) : Except (FitError α) α := do
  let i ← m.position row
  let j ← m.position col
  pure (m.data.get i j)

/-- What keeps the divisor of a correlation from being zero. -/
def correlationGuard : α := 1e-100

/-- The entries divided by the roots of their diagonal entries. -/
def correlation (m : LabelledMatrix α) : LabelledMatrix α where
  names := m.names
  data := DenseMatrix.ofFn m.data.nrows m.data.ncols fun i j =>
    m.data.get i j / (Scalar.sqrt (m.data.get i i * m.data.get j j) + correlationGuard)

end LabelledMatrix

section Covariance

variable {α : Type} [Scalar α]

/-- A slot for each parameter, into which the rows of the free ones are written. -/
def rowSlots (free : List Nat) (n : Nat) : List (Option Nat) :=
  free.zipIdx.foldl (fun slots (i, row) => slots.set i (some row)) (List.replicate n none)

/-- A covariance spread over all parameters, with zeros for those that are not free. -/
def DenseMatrix.spread (c : DenseMatrix α) (free : List Nat) (n : Nat) : DenseMatrix α :=
  let rows := rowSlots free n
  DenseMatrix.ofFn n n fun i j =>
    match rows[i]?.join, rows[j]?.join with
    | some a, some b => c.get a b
    | _, _ => 0

/-- The covariance of a state, of all parameters or of the free ones. -/
def ParameterState.labelledCovariance (s : ParameterState α) (registry : Registry)
    (onlyFree : Bool) : Except (FitError α) (LabelledMatrix α) := do
  match s.covariance with
  | none => throw (.fitFailed .covarianceMissing)
  | some c =>
    let free := s.freeIndices
    if !c.hasSize free.length then
      throw (.fitFailed (.covarianceShape c.nrows c.ncols free.length))
    if onlyFree then LabelledMatrix.ofParts (free.filterMap registry.name?) c
    else
      LabelledMatrix.ofParts ((List.range s.len).filterMap registry.name?) (c.spread free s.len)

end Covariance

namespace LabelledMatrix

/-- The width of the columns of a table. -/
def width (names : List String) : Nat := max ((names.map (·.utf8ByteSize)).foldl max 0) 10

/-- A table with the names on its upper and left sides. -/
def write (m : LabelledMatrix Float) : String :=
  let w := width m.names
  let cells (row : List String) : String := String.join (row.map fun c => " " ++ padLeft w c)
  let line (i : Nat) (name : String) : String :=
    "\n" ++ padLeft w name
      ++ cells ((List.range m.len).map fun j => writeScientific 4 .onlyMinus (m.data.get i j))
  padLeft w "" ++ cells m.names ++ String.join (m.names.zipIdx.map fun (name, i) => line i name)

end LabelledMatrix
end FitSession
