import FitSession.Coordinates.Transform
import FitSession.State

/-!
# Parameter maps

For one minimization it is settled which parameters are free and how each is transformed. A
minimizer then works on the list of the internal coordinates of the free parameters, while the
cost always gets all parameters.

* `ParameterMap`, `ParameterMap.ofState`: the map of a state;
* `toInternal`, `start`, `toExternal`, `freeValues`: points in both coordinates;
* `jacobian`, `carriedCovariance`: derivatives and covariances carried over;
* `simplexSteps`, `touchesLimit`: steps for a simplex, and nearness to a bound.
-/

namespace FitSession

/-- The free parameters of a minimization and their transforms. -/
structure ParameterMap (α : Type) where
  /-- The values of all parameters; the fixed ones keep theirs. -/
  base : List α
  free : List Nat
  transforms : List (BoundTransform α)

namespace ParameterMap

variable {α : Type} [Scalar α]

/-- The map of a state. -/
def ofState (s : ParameterState α) : ParameterMap α where
  base := s.values
  free := s.freeIndices
  transforms := (s.entries.filter fun e => !e.isFixed).map fun e => .ofLimit e.limit

/-- The number of free parameters. -/
def nFree (m : ParameterMap α) : Nat := m.free.length

/-- The free parameters of a state, each changed by its transform. -/
def freeMapped (m : ParameterMap α) (s : ParameterState α) (f : BoundTransform α → α → α) :
    List α :=
  List.zipWith (fun i t => f t ((s.entry? i).elim 0 (·.value))) m.free m.transforms

/-- The internal coordinates of a state. -/
def toInternal (m : ParameterMap α) (s : ParameterState α) : List α :=
  m.freeMapped s BoundTransform.toInternal

/-- The internal coordinates of a state as a start, kept away from the bounds. -/
def start (m : ParameterMap α) (s : ParameterState α) : List α :=
  m.freeMapped s BoundTransform.startInternal

/-- The free parameters at an internal point. -/
def freeValues (m : ParameterMap α) (theta : List α) : List α :=
  List.zipWith BoundTransform.toExternal m.transforms theta

/-- All parameters at an internal point. -/
def toExternal (m : ParameterMap α) (theta : List α) : List α :=
  (m.free.zip (m.freeValues theta)).foldl (fun args (i, x) => args.set i x) m.base

/-- The derivatives of the free parameters by their internal coordinates. -/
def jacobian (m : ParameterMap α) (theta : List α) : List α :=
  List.zipWith BoundTransform.slope m.transforms theta

/-- An internal covariance carried over to the free parameters. -/
def carriedCovariance (m : ParameterMap α) (theta : List α) (internal : DenseMatrix α) :
    DenseMatrix α :=
  let jac := m.jacobian theta
  DenseMatrix.ofFn jac.length jac.length fun i j =>
    jac[i]?.getD 0 * internal.get i j * jac[j]?.getD 0

/-- The step of a coordinate with derivative `d` for a parameter error; the error itself where the
transform is flat. -/
def internalStep (least error d : α) : α :=
  let step := if Scalar.epsilon < Scalar.abs d then error / Scalar.abs d else error
  if Scalar.isFinite step then Scalar.maxNum step least else least

/-- Steps in internal coordinates for the errors of a state, not below `least`. -/
def simplexSteps (m : ParameterMap α) (s : ParameterState α) (theta : List α) (least : α) :
    List α :=
  List.zipWith (fun i d => internalStep least ((s.entry? i).elim 0 (·.error)) d) m.free
    (m.jacobian theta)

/-- Whether a free parameter is near one of its bounds. -/
def touchesLimit (m : ParameterMap α) (theta : List α) : Bool :=
  (List.zipWith (fun t x => BoundTransform.isAtLimit t (t.toExternal x)) m.transforms theta).any
    (·)

end ParameterMap
end FitSession
