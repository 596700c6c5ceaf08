import FitSession.Proofs.Column
import FitSession.Session.Builder
import FitSession.Session.Scan

/-!
# Commands and runs

Everything that a caller may do with a session, as data, so that a run is a list of commands.
Each may succeed or fail; the run goes on with the session that is left.

* `ViewWrite.run`: writes through the views of a session;
* `Command`, `Command.run`, `Command.LendsErrordef`: the commands, and those with which the errordef
  is up to the engine;
* `Session.after`, `Session.afterAll`: the session that one command leaves, or many;
* `afterAll_invariant`, `afterAll_related`: what each command keeps, a run keeps.
-/

namespace FitSession

variable {σ α Item Input : Type}

/-- A write to one column, done through a view of a session. -/
def Write.run (c : Column α Item Input) : Write Input → Action σ α Unit
  | .item key input => Session.setItem c key input
  | .slice walk assign => Session.setSlice c walk assign

variable [Scalar α]

/-- A write through one of the four views, done to a session. -/
def ViewWrite.run : ViewWrite α → Action σ α Unit
  | .values w => w.run valueColumn
  | .errors w => w.run errorColumn
  | .fixed w => w.run fixedColumn
  | .limits w => w.run limitColumn

/-- What a caller may do with a session. -/
inductive Command (α : Type)
  | write (w : ViewWrite α)
  | migrad (o : MigradOptions α)
  | hesse (callLimit : Option Nat)
  | minos (names : List String) (sigma : α) (callLimit : Option Nat)
  | minosAtConfidence (names : List String) (level : α) (callLimit : Option Nat)
  | profile (key : Key) (bins : Nat) (bound : Bound α) (subtractMin : Bool)
  | minimizedProfile (key : Key) (bins : Nat) (bound : Bound α) (subtractMin : Bool)
  | contour (keyX keyY : Key) (bins : Nat) (boundX boundY : Bound α) (subtractMin : Bool)
  | contourLine (keyX keyY : Key) (points : Nat) (sigma : α)
  | setErrordef (up : α)
  | setTol (tol : α)
  | setStrategy (strategy : Strategy)
  | setPrintLevel (shared level : Int)
  | drainWarnings
  | reset

/-- The command itself. Its answer is left out; what it does to the session is not. -/
def Command.run : Command α → Action σ α Unit
  | .write w => w.run
  | .migrad o => Session.migrad o
  | .hesse callLimit => Session.hesse callLimit
  | .minos names sigma callLimit => Session.minos names sigma callLimit
  | .minosAtConfidence names level callLimit => Session.minosAtConfidence names level callLimit
  | .profile key bins bound subtractMin =>
    discard (Session.profile key bins bound subtractMin)
  | .minimizedProfile key bins bound subtractMin =>
    discard (Session.minimizedProfile key bins bound subtractMin)
  | .contour keyX keyY bins boundX boundY subtractMin =>
    discard (Session.contour keyX keyY bins boundX boundY subtractMin)
  | .contourLine keyX keyY points sigma =>
    discard (Session.contourLine keyX keyY points sigma)
  | .setErrordef up => Session.setErrordef up
  | .setTol tol => Session.setTol tol
  | .setStrategy strategy => Session.setStrategy strategy
  | .setPrintLevel shared level => Session.setPrintLevel shared level
  | .drainWarnings => discard Session.drainWarnings
  | .reset => Session.reset

/-- The command hands the errordef of the session as it is to an engine of any kind. Others that do
this hand on a scaled one, and put the errordef back in any case. -/
def Command.LendsErrordef : Command α → Prop
  | .migrad _ | .minimizedProfile _ _ _ _ => True
  | _ => False

namespace Session

/-- The session that a command leaves, whether it succeeds or fails. -/
def after (s : Session σ α) (c : Command α) : Session σ α := endState (c.run s)

/-- The session that a run leaves. -/
def afterAll (s : Session σ α) (cs : List (Command α)) : Session σ α := cs.foldl after s

theorem after_of_ok {s t : Session σ α} {c : Command α} (h : c.run s = .ok () t) :
    s.after c = t := by
  rw [after, h]
  rfl

@[simp] theorem afterAll_nil (s : Session σ α) : s.afterAll [] = s := rfl

@[simp] theorem afterAll_cons (s : Session σ α) (c : Command α) (cs : List (Command α)) :
    s.afterAll (c :: cs) = (s.after c).afterAll cs := rfl

/-- What every command keeps, a run keeps. -/
theorem afterAll_related {R : Session σ α → Session σ α → Prop} [hR : Chains R]
    (h : ∀ s c, R s (after s c)) (s : Session σ α) (cs : List (Command α)) :
    R s (s.afterAll cs) := by
  induction cs generalizing s with
  | nil => exact hR.refl s
  | cons c cs ih => exact hR.trans (h s c) (ih (s.after c))

/-- An invariant of every command holds after every run. -/
theorem afterAll_invariant {I : Session σ α → Prop} (h : ∀ s c, I s → I (after s c))
    {s : Session σ α} (hs : I s) (cs : List (Command α)) : I (s.afterAll cs) :=
  afterAll_related (R := fun s t => I s → I t) h s cs hs

end Session
end FitSession
