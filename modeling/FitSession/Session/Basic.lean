import FitSession.Engine.Basic
import FitSession.Session.MinosErrors
import FitSession.Start

/-!
# Sessions

A session ties a cost to named parameters and to an engine. Its current state lives in one of three
places: it is the initial state, or that of the stored minimum, or a state of its own. A write
never changes a stored minimum, and changes the initial state only as long as no minimum has been
found.

* `Slot`, `Session`: where the current state lives, and the session;
* `Session.currentState`, `Session.isAtMinimum`: the current state;
* `Session.replaceState`, `Session.opened`: the session with another current state, and with its
  own one where it may be written;
* `Action`: what is done with a session, may fail, and then keeps what it has done so far;
* `Action.atBench`, `Action.atMinimum`, `Action.warn`, `Action.reportErrordef`,
  `Action.storedMinimum`: the parts of which the actions are made.
-/

namespace FitSession

/-- Where the current state of a session lives. -/
inductive Slot (α : Type)
  | initial
  | minimum
  | detached (state : ParameterState α)

/-- A cost, its parameters, and what is known about its minimum. -/
structure Session (σ α : Type) where
  cost : Cost α
  bench : Bench σ α
  registry : Registry
  startState : ParameterState α
  slot : Slot α
  fmin : Option (FunctionMinimum α)
  merrors : MinosErrors α
  engine : Engine σ α
  strategy : Strategy
  /-- The factor of the goal for the distance to the minimum. -/
  tol : α
  printLevel : Int
  /-- The errordef was given, or it was reported that it was not. -/
  errordefSettled : Bool
  /-- A minimum has been stored; the initial state is not written any more. -/
  frozen : Bool
  warnings : List (Warning α)

variable {σ α β : Type}

namespace Session

/-- The current state. -/
def currentState (s : Session σ α) : ParameterState α :=
  match s.slot, s.fmin with
  | .detached state, _ => state
  | .minimum, some m => m.state
  | .minimum, none => s.startState
  | .initial, _ => s.startState

/-- Whether the current state is that of the stored minimum, or equal to it. -/
def isAtMinimum [Scalar α] (s : Session σ α) : Bool :=
  match s.slot, s.fmin with
  | .minimum, some _ => true
  | .detached state, some m => state == m.state
  | _, _ => false

/-- The session with another current state. Before any minimum it is the initial state that is
replaced; later the current state is kept apart. -/
def replaceState (s : Session σ α) (state : ParameterState α) : Session σ α :=
  match s.slot, s.frozen with
  | .initial, false => { s with startState := state }
  | _, _ => { s with slot := .detached state }

/-- The session with its current state where it may be written, apart from every result. -/
def opened (s : Session σ α) : Session σ α := s.replaceState s.currentState

/-- The rise of the cost that marks one standard deviation. -/
def errordef (s : Session σ α) : α := s.bench.up

/-- Whether there is a valid minimum. -/
def valid (s : Session σ α) : Bool := s.fmin.any (·.isValid)

/-- Whether there is a minimum with an accurate covariance. -/
def accurate (s : Session σ α) : Bool := s.fmin.any (·.hasAccurateCovar)

/-- The session with one more warning. -/
def withWarning (s : Session σ α) (w : Warning α) : Session σ α :=
  { s with warnings := s.warnings ++ [w] }

end Session

/-- What is done with a session. A failure keeps the session as it was left. -/
abbrev Action (σ α β : Type) : Type := EStateM (FitError α) (Session σ α) β

namespace Action

/-- An action that does nothing but give an answer or fail. -/
def ofExcept (x : Except (FitError α) β) : Action σ α β :=
  match x with
  | .ok b => pure b
  | .error e => throw e

/-- Work at the bench of the session. -/
def atBench (work : Run σ α β) : Action σ α β := fun s =>
  match work s.bench with
  | .ok x bench => .ok x { s with bench }
  | .error e bench => .error e { s with bench }

/-- Work on the stored minimum `m`, which is stored as it was left. -/
def atMinimum (m : FunctionMinimum α) (work : Refinement σ α) : Action σ α (FunctionMinimum α) :=
  fun s =>
    match work (s.bench, m) with
    | .ok () (bench, m) => .ok m { s with bench, fmin := some m }
    | .error e (bench, m) => .error e { s with bench, fmin := some m }

/-- Records a warning. -/
def warn (w : Warning α) : Action σ α Unit := modify (·.withWarning w)

/-- Records once that the errordef was never given. -/
def reportErrordef : Action σ α Unit := do
  let s ← get
  if !s.errordefSettled then
    set { s with errordefSettled := true }
    warn .errordefUnset

/-- The stored minimum, which `operation` needs. -/
def storedMinimum (operation : String) : Action σ α (FunctionMinimum α) := do
  let s ← get
  match s.fmin with
  | some m => pure m
  | none => throw (.precondition (.minimumMissing operation))

/-- The stored minimum, which `operation` needs to be valid. -/
def validMinimum (operation : String) : Action σ α (FunctionMinimum α) := do
  let m ← storedMinimum operation
  if m.isValid then pure m else throw (.precondition (.minimumInvalid operation))

end Action
end FitSession
