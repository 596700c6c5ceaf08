import FitSession.Scratch
import FitSession.Session.Fit

/-!
# Scans

Tables of the cost around the current state. A scan changes nothing but the counters and the
warnings.

* `Bound`, `Session.scanGrid`, `evenlySpaced`: the points of a scan;
* `Session.valuesOver`, `Session.rowsOver`: the cost with points written over the arguments;
* `Session.profile`: the cost along one parameter, all others held;
* `Session.minimizedProfile`: the cost along one parameter, minimized over all others;
* `Session.contour`: the cost on a grid of two parameters;
* `Session.contourLine`: the line on which two parameters reach a number of standard deviations.
-/

namespace FitSession

/-- The range of a scan: a number of errors around the value, or its ends. -/
inductive Bound (α : Type)
  | sigma (n : α)
  | range (lower upper : α)
deriving Repr

/-- The cost along one parameter. -/
structure ProfileTable (α : Type) where
  x : List α
  fval : List α

/-- The minimized cost along one parameter, and where the minimization was valid. -/
structure MinimizedProfile (α : Type) where
  x : List α
  fval : List α
  valid : List Bool

/-- The cost on a grid; row `i` belongs to `x[i]` and column `j` to `y[j]`. -/
structure GridTable (α : Type) where
  x : List α
  y : List α
  fval : List (List α)

/-- A contour line, and the asymmetric errors of its two parameters. -/
structure ContourLine (α : Type) where
  x : MinosError α
  y : MinosError α
  points : List (α × α)

variable {σ α : Type} [Scalar α]

/-- The range of a scan unless told otherwise. -/
def Bound.standard : Bound α := .sigma 2

/-- A list of `n` points from `lo` to `hi` at even distances. -/
def evenlySpaced (lo hi : α) (n : Nat) : List α :=
  let step := (hi - lo) / Scalar.ofCount (n - 1)
  (List.range n).map fun i => if i + 1 = n then hi else lo + step * Scalar.ofCount i

/-- The least number of points of a contour line. -/
def leastContourPoints : Nat := 4

namespace Session

/-- The ends of a scan of an entry, before they are moved into its limit. -/
def scanEnds (e : Entry α) : Bound α → α × α
  | .sigma n => (e.value - n * e.error, e.value + n * e.error)
  | .range lo hi => (lo, hi)

/-- Records that a range hangs on errors that are not accurate, if it does. -/
def reportInaccurate : Bound α → Action σ α Unit
  | .sigma _ => do
    let s ← get
    if !s.accurate then Action.warn .inaccurateErrors
  | .range _ _ => pure ()

/-- The points of a scan of parameter `index`, within its limit. -/
def scanGrid (index bins : Nat) (bound : Bound α) : Action σ α (List α) := do
  if bins < 2 then throw (.configuration (.scanBins bins))
  let s ← get
  let e ← Action.ofExcept (s.currentState.entryOrFail index)
  reportInaccurate bound
  let (from_, to_) := scanEnds e bound
  let lo := e.limit.clamp from_
  let hi := e.limit.clamp to_
  if Scalar.isFinite lo && Scalar.isFinite hi && decide (lo < hi) then
    pure (evenlySpaced lo hi bins)
  else throw (.configuration (.scanRange lo hi))

/-- What is subtracted from the values of a scan: the cost at the stored minimum, or nothing. -/
def scanBaseline (subtractMin : Bool) : Action σ α α := do
  if subtractMin then
    let m ← Action.storedMinimum "subtract_min"
    pure m.fval
  else pure 0

/-- The costs with each of the points written over one argument, less an offset. -/
def valuesOver (cost : Cost α) (offset : α) (index : Nat) (x : List α) :
    StateT (List α) (Run σ α) (List α) :=
  x.mapM fun xi => do
    Scratch.write index xi
    let f ← Scratch.ask cost.evaluate
    pure (f - offset)

/-- The costs for each pair of points that are written over two arguments, less an offset. -/
def rowsOver (cost : Cost α) (offset : α) (ix iy : Nat) (xs ys : List α) :
    StateT (List α) (Run σ α) (List (List α)) :=
  xs.mapM fun x => do
    Scratch.write ix x
    valuesOver cost offset iy ys

/-- The cost along one parameter, all others held. -/
def profile (key : Key) (bins : Nat) (bound : Bound α) (subtractMin : Bool) :
    Action σ α (ProfileTable α) := do
  let offset ← scanBaseline subtractMin
  let s ← get
  let index ← Action.ofExcept (key.resolve s.registry)
  let x ← scanGrid index bins bound
  let args := s.currentState.values
  let fval ← Action.atBench ((valuesOver s.cost offset index x).run' args)
  pure ⟨x, fval⟩

/-- Minimizations with one parameter held at each of the given values. -/
def minimizeAt (s : Session σ α) (base : ParameterState α) (index : Nat)
    (options : EngineOptions α) (x : List α) : Run σ α (List (FunctionMinimum α)) :=
  x.mapM fun xi => do
    let state ← Run.ofExcept (base.setValue index xi)
    s.engine.migrad s.cost state options

/-- The least of a list of values, infinity for none. -/
def leastOf (xs : List α) : α := xs.foldl Scalar.minNum Scalar.inf

/-- The cost along one parameter, minimized over all others. Points at which the minimization is
not valid are reported. -/
def minimizedProfile (key : Key) (bins : Nat) (bound : Bound α) (subtractMin : Bool) :
    Action σ α (MinimizedProfile α) := do
  let s ← get
  let index ← Action.ofExcept (key.resolve s.registry)
  let x ← scanGrid index bins bound
  Action.reportErrordef
  let options ← Action.ofExcept (s.engineOptions none none 0)
  let base ← Action.ofExcept (s.currentState.setFixed index true)
  let minima ← Action.atBench (s.minimizeAt base index options x)
  (x.zip minima).forM fun (xi, m) => do
    if !m.isValid then Action.warn (.scanPointInvalid (s.registry.nameAt index) xi)
  let fval := minima.map (·.fval)
  let offset := leastOf fval
  pure ⟨x, if subtractMin then fval.map (· - offset) else fval, minima.map (·.isValid)⟩

/-- The cost on a grid of two parameters, all others held. -/
def contour (keyX keyY : Key) (bins : Nat) (boundX boundY : Bound α) (subtractMin : Bool) :
    Action σ α (GridTable α) := do
  let offset ← scanBaseline subtractMin
  let s ← get
  let ix ← Action.ofExcept (keyX.resolve s.registry)
  let iy ← Action.ofExcept (keyY.resolve s.registry)
  if ix = iy then throw (.configuration .sameContourParameter)
  let xs ← scanGrid ix bins boundX
  let ys ← scanGrid iy bins boundY
  let args := s.currentState.values
  let fval ← Action.atBench ((rowsOver s.cost offset ix iy xs ys).run' args)
  pure ⟨xs, ys, fval⟩

/-- A parameter that a contour line can be drawn for must be free. -/
def checkFree (s : Session σ α) (index : Nat) : Except (FitError α) Unit :=
  if s.isFree index then .ok ()
  else .error (.configuration (.contourLineFixed (s.registry.nameAt index)))

/-- The contour line of two parameters around a minimum, and their asymmetric errors. -/
def lineWithErrors (s : Session σ α) (m : FunctionMinimum α) (ix iy points : Nat)
    (options : EngineOptions α) : Run σ α (ContourLine α) := do
  let ex ← s.engine.minos s.cost m ix options
  let ey ← s.engine.minos s.cost m iy options
  let points ← s.engine.contourLine s.cost m ix iy points options
  pure ⟨⟨s.registry.nameAt ix, ex⟩, ⟨s.registry.nameAt iy, ey⟩, points⟩

/-- The line on which two parameters reach `sigma` standard deviations. -/
def contourLine (keyX keyY : Key) (points : Nat) (sigma : α) : Action σ α (ContourLine α) := do
  Action.ofExcept (checkSigma sigma)
  if points < leastContourPoints then
    throw (.configuration (.contourLinePoints leastContourPoints points))
  let s ← get
  let ix ← Action.ofExcept (keyX.resolve s.registry)
  let iy ← Action.ofExcept (keyY.resolve s.registry)
  if ix = iy then throw (.configuration .sameContourLineParameter)
  let m ← Action.validMinimum "mncontour"
  Action.ofExcept (s.checkFree ix)
  Action.ofExcept (s.checkFree iy)
  Action.reportErrordef
  let options ← Action.ofExcept (s.engineOptions none none s.printLevel)
  Action.atBench (Run.withScaledUp (sigma * sigma) (s.lineWithErrors m ix iy points options))

end Session
end FitSession
