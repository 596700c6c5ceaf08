import FitSession.State

/-!
# Columns

A state has four columns: values, errors, fixed flags and limits. A column knows how to read its
field, which input it accepts, and how to write an accepted item.

* `Column`: the operations of a column;
* `valueColumn`, `errorColumn`, `fixedColumn`, `limitColumn`: the four columns.
-/

namespace FitSession

/-- One column of a state. `prepare` validates an input for a position without touching a state. -/
structure Column (α Item Input : Type) where
  read : Entry α → Item
  prepare : Nat → Input → Except (FitError α) Item
  write : ParameterState α → Nat → Item → Except (FitError α) (ParameterState α)

variable {α : Type} [Scalar α]

/-- The values. -/
def valueColumn : Column α α α where
  read e := e.value
  prepare index x := do checkValue index x; pure x
  write s index x := s.setValue index x

/-- The errors. -/
def errorColumn : Column α α α where
  read e := e.error
  prepare index x := do checkError index x; pure x
  write s index x := s.setError index x

/-- The fixed flags; a limit that leaves a single point reads as fixed. -/
def fixedColumn : Column α Bool Bool where
  read e := e.isFixed
  prepare _ on := pure on
  write s index on := s.setFixed index on

/-- The limits. -/
def limitColumn : Column α (Limit α) (LimitSpec α) where
  read e := e.limit
  prepare _ spec := spec.toLimit
  write s index l := s.setLimit index l

end FitSession
