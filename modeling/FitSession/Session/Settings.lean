import FitSession.Session.Basic
import FitSession.Warning

/-!
# Settings

What a caller may change about a session at any time. The errordef of the stored minimum follows
that of the session.

* `Session.setErrordef`, `Session.setTol`, `Session.setStrategy`: settings of the fits;
* `Session.setPrintLevel`: the print level, which may become that of all sessions;
* `Session.drainWarnings`: the recorded warnings, which are then forgotten.
-/

namespace FitSession

variable {σ α : Type} [Scalar α]

/-- An errordef must be finite and positive. -/
def requireErrordef (up : α) : Except (FitError α) Unit :=
  if isPositive up then .ok () else .error (.configuration (.errordef up))

/-- The factor of the goal for the distance to the minimum must be finite and positive. -/
def requireTolerance (tol : α) : Except (FitError α) Unit :=
  if isPositive tol then .ok () else .error (.configuration (.edmTolerance tol))

namespace Session

/-- Sets the errordef. -/
def setErrordef (up : α) : Action σ α Unit := do
  Action.ofExcept (requireErrordef up)
  modify fun s =>
    { s with
      bench := { s.bench with up }, errordefSettled := true,
      fmin := s.fmin.map fun m => { m with up } }

/-- Sets the factor of the goal for the distance to the minimum. -/
def setTol (tol : α) : Action σ α Unit := do
  Action.ofExcept (requireTolerance tol)
  modify fun s => { s with tol }

omit [Scalar α] in
/-- Sets how much effort goes into covariances. -/
def setStrategy (strategy : Strategy) : Action σ α Unit := modify fun s => { s with strategy }

omit [Scalar α] in
/-- Sets the print level. It is reported when it also becomes that of all sessions. -/
def setPrintLevel (shared level : Int) : Action σ α Unit := do
  modify fun s => { s with printLevel := level }
  if needsSharedLevel shared level then Action.warn (.globalPrintLevel level)

omit [Scalar α] in
/-- The recorded warnings, which the session forgets. -/
def drainWarnings : Action σ α (List (Warning α)) := do
  let s ← get
  set { s with warnings := [] }
  pure s.warnings

end Session
end FitSession
