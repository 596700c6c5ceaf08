import FitSession.Session.Basic
import FitSession.Session.Confidence

/-!
# Fits

What a session lets its engine do: find a minimum, compute its covariance, find asymmetric errors.
The results become the current state or join what is already known; nothing is forgotten before
`reset`.

* `MigradOptions`, `Session.migrad`: a minimization, repeated until it is valid;
* `Session.hesse`: the covariance of the current state;
* `Session.minos`, `Session.minosAtConfidence`: asymmetric errors of chosen parameters;
* `Session.reset`: back to the initial state.
-/

namespace FitSession

/-- The options of a minimization. -/
structure MigradOptions (α : Type) where
  callLimit : Option Nat
  precision : Option α
  /-- How often a minimization that is not valid is attempted. -/
  retry : Nat
deriving Repr

variable {σ α : Type}

namespace MigradOptions

/-- How often a minimization is attempted unless told otherwise. -/
def standardRetry : Nat := 5

/-- The options unless told otherwise. -/
def standard : MigradOptions α := ⟨none, none, standardRetry⟩

/-- There must be an attempt, and a precision must be finite and positive. -/
def check [Scalar α] (o : MigradOptions α) : Except (FitError α) Unit := do
  if o.retry < 1 then throw (.configuration (.retries o.retry))
  checkPrecision o.precision

/-- Options that have been checked. -/
def ofParts [Scalar α] (callLimit : Option Nat) (precision : Option α) (retry : Nat) :
    Except (FitError α) (MigradOptions α) := do
  let o : MigradOptions α := ⟨callLimit, precision, retry⟩
  o.check
  pure o

end MigradOptions

/-- Whether another attempt would be of no use. -/
def FunctionMinimum.isFinal (m : FunctionMinimum α) : Bool := m.isValid || m.hasReachedCallLimit

/-- Minimizations, each from the result of the one before, until one is final or `left` more have
been made. The answer is the last minimum and the number of attempts. -/
def attempts (fit : ParameterState α → Run σ α (FunctionMinimum α)) :
    (left made : Nat) → ParameterState α → Run σ α (FunctionMinimum α × Nat)
  | left, made, start => do
    let m ← fit start
    match left with
    | 0 => pure (m, made + 1)
    | left + 1 => if m.isFinal then pure (m, made + 1) else attempts fit left (made + 1) m.state

variable [Scalar α]

namespace Session

/-- The options of an engine call with the settings of a session. -/
def engineOptions (s : Session σ α) (callLimit : Option Nat) (precision : Option α)
    (printLevel : Int) : Except (FitError α) (EngineOptions α) :=
  EngineOptions.ofParts s.strategy callLimit s.tol precision printLevel

/-- The session with a new minimum, whose state is now the current one. -/
def withMinimum (s : Session σ α) (m : FunctionMinimum α) : Session σ α :=
  { s with fmin := some m, slot := .minimum, frozen := true }

/-- Records that a covariance was forced, if it was. -/
def reportForced (m : FunctionMinimum α) : Action σ α Unit := do
  if m.hasMadePosdefCovar then Action.warn .covarianceMadePosDef

/-- Looks for a minimum from the current state, and reports what is wrong with it. -/
def findMinimum (o : MigradOptions α) : Action σ α (FunctionMinimum α) := do
  Action.ofExcept o.check
  Action.reportErrordef
  let s ← get
  let options ← Action.ofExcept (s.engineOptions o.callLimit o.precision s.printLevel)
  let (m, made) ← Action.atBench <|
    attempts (fun start => s.engine.migrad s.cost start options) (o.retry - 1) 0 s.currentState
  if !m.isValid then Action.warn (.invalidMinimum made)
  reportForced m
  pure m

/-- Finds a minimum from the current state. -/
def migrad (o : MigradOptions α) : Action σ α Unit := do
  let m ← findMinimum o
  modify (·.withMinimum m)

/-- Computes the covariance of the stored minimum, whose state is the current one. -/
def hesseAtMinimum (m : FunctionMinimum α) (callLimit : Option Nat) : Action σ α Unit := do
  let s ← get
  let refined ← Action.atMinimum m (s.engine.refinement s.cost callLimit)
  modify fun s => { s with slot := .minimum }
  reportForced refined

/-- Computes the covariance of the current state alone. Without a minimum there has to be one. -/
def hesseAtState (callLimit : Option Nat) : Action σ α Unit := do
  let s ← get
  match ← Action.atBench (s.engine.hesseState s.cost s.currentState callLimit) with
  | some state =>
    if state.hasCovariance || s.fmin.isSome then modify fun s => { s with slot := .detached state }
    else throw (.fitFailed .hesseWithoutCovariance)
  | none => if s.fmin.isNone then throw (.fitFailed .hesseWithoutCovariance)

/-- Computes the covariance of the current state. -/
def hesse (callLimit : Option Nat) : Action σ α Unit := do
  Action.reportErrordef
  let s ← get
  match s.isAtMinimum, s.fmin with
  | true, some m => hesseAtMinimum m callLimit
  | _, _ => hesseAtState callLimit

/-- The positions of the named parameters; without names those of all free parameters. -/
def requested (s : Session σ α) (names : List String) : Except (FitError α) (List Nat) :=
  if names.isEmpty then .ok s.currentState.freeIndices
  else names.mapM s.registry.indexOf

/-- Whether a parameter is free in the current state. -/
def isFree (s : Session σ α) (index : Nat) : Bool :=
  (s.currentState.entry? index).any fun e => !e.isFixed

/-- Finds the asymmetric errors of the given parameters, one after another. -/
def intervals (s : Session σ α) (m : FunctionMinimum α) (options : EngineOptions α)
    (indices : List Nat) : Run σ α (List (MinosError α)) :=
  indices.mapM fun index => do
    let interval ← s.engine.minos s.cost m index options
    pure ⟨s.registry.nameAt index, interval⟩

/-- The session with new intervals, and with the counters in its minimum. -/
def withIntervals (s : Session σ α) (found : List (MinosError α)) : Session σ α :=
  { s with
    merrors := found.foldl (·.insert ·) s.merrors
    fmin := s.fmin.map fun m => { m with nfcn := s.bench.nfcn, ngrad := s.bench.ngrad } }

/-- A number of standard deviations must be finite and positive. -/
def checkSigma (sigma : α) : Except (FitError α) Unit :=
  if isPositive sigma then .ok () else .error (.configuration (.sigma sigma))

/-- Looks for the asymmetric errors of the named parameters at `sigma` standard deviations. Fixed
parameters are left out and reported. -/
def findIntervals (names : List String) (sigma : α) (callLimit : Option Nat) :
    Action σ α (List (MinosError α)) := do
  Action.ofExcept (checkSigma sigma)
  let m ← Action.validMinimum "MINOS"
  let s ← get
  let indices ← Action.ofExcept (s.requested names)
  Action.reportErrordef
  let options ← Action.ofExcept (s.engineOptions callLimit none s.printLevel)
  let (free, fixed) := indices.partition s.isFree
  let found ← Action.atBench (Run.withScaledUp (sigma * sigma) (s.intervals m options free))
  fixed.forM fun index => Action.warn (.fixedParameterSkipped (s.registry.nameAt index))
  pure found

/-- Finds the asymmetric errors of the named parameters at `sigma` standard deviations. -/
def minos (names : List String) (sigma : α) (callLimit : Option Nat) : Action σ α Unit := do
  let found ← findIntervals names sigma callLimit
  modify (·.withIntervals found)

/-- Finds the asymmetric errors of the named parameters at a confidence level. -/
def minosAtConfidence (names : List String) (level : α) (callLimit : Option Nat) :
    Action σ α Unit := do
  let sigma ← Action.ofExcept (sigmaForConfidence level)
  minos names sigma callLimit

/-- Forgets all results and returns to the initial state. -/
def reset : Action σ α Unit :=
  modify fun s =>
    { s with slot := .initial, fmin := none, merrors := .empty, bench := s.bench.withoutCounts }

end Session
end FitSession
