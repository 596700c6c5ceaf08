import FitSession.Minimizer.Lbfgs
import FitSession.Minimizer.LineSearch.HagerZhang
import FitSession.Minimizer.LineSearch.MoreThuente
import FitSession.Minimizer.Simplex

/-!
# Options of the solvers

* `LineSearchKind`, `LineSearchKind.ofName`: the line searches by name;
* `SolverOptions`, `SolverOptions.ofParts`, `SolverOptions.adaptedTo`: tolerances and memory, and
  their adaptation to the goal of one call;
* `Solvers`, `SolverOptions.solvers`: the two solvers of a minimization, for any choice of either.
-/

namespace FitSession

/-- The line searches. -/
inductive LineSearchKind
  | moreThuente
  | hagerZhang
deriving DecidableEq, Repr

/-- The options of the solvers. -/
structure SolverOptions (α : Type) where
  lineSearch : LineSearchKind
  /-- The gradient length below which a minimization has converged. -/
  gradientTolerance : α
  /-- The change of the cost below which a minimization has converged. -/
  costTolerance : Option α
  /-- The number of pairs that a quasi-Newton method remembers. -/
  memory : Option Nat
  /-- The spread of costs below which a simplex has settled. -/
  spreadTolerance : α
deriving Repr

variable {α : Type}

namespace LineSearchKind

/-- The line search of a name, in capitals or not. -/
def ofName (text : String) : Except (FitError α) LineSearchKind :=
  let lowered := text.toLower
  if lowered = "morethuente" then .ok .moreThuente
  else if lowered = "hagerzhang" then .ok .hagerZhang
  else .error (.configuration (.lineSearchName text))

variable [Scalar α]

/-- The line search itself. -/
def search : LineSearchKind → Ray α → Search α (LinePoint α)
  | .moreThuente => FitSession.moreThuente
  | .hagerZhang => FitSession.hagerZhang

end LineSearchKind

/-- The two solvers of a minimization. Each gets the number of iterations it may use. -/
structure Solvers (α : Type) where
  /-- The main solver, from a start. -/
  descent : List α → Nat → Search α (Outcome α)
  /-- The solver that needs no gradient, from a start with a step on each axis. -/
  fallback : List α → List α → Nat → Except (FitError α) (Search α (Outcome α))

namespace SolverOptions

variable [Scalar α]

/-- The number of remembered pairs unless told otherwise. -/
def standardMemory : Nat := 7

/-- The options unless told otherwise. -/
def standard : SolverOptions α := ⟨.moreThuente, 1e-5, none, none, 1e-10⟩

/-- A cost tolerance must be finite and positive, if there is one. -/
def checkCostTolerance : Option α → Except (FitError α) Unit
  | none => .ok ()
  | some x => if isPositive x then .ok () else .error (.configuration (.costTolerance x))

/-- Options that have been checked. -/
def ofParts (lineSearch : LineSearchKind) (gradientTolerance : α) (costTolerance : Option α)
    (memory : Option Nat) : Except (FitError α) (SolverOptions α) := do
  checkGradientTolerance gradientTolerance
  checkCostTolerance costTolerance
  if memory = some 0 then throw (.configuration .emptyMemory)
  pure { standard with lineSearch, gradientTolerance, costTolerance, memory }

/-- The options of one call: the gradient tolerance follows the goal for the distance to the
minimum, but neither exceeds the given one nor falls below what the precision of the objective
allows. -/
def adaptedTo (o : SolverOptions α) (goal : α) (precision : Option α) : SolverOptions α :=
  let floor := Scalar.sqrt (precision.getD Scalar.epsilon)
  let wanted := Scalar.maxNum (1e-3 * Scalar.sqrt goal) floor
  { o with
    gradientTolerance := Scalar.minNum wanted (Scalar.maxNum o.gradientTolerance floor) }

/-- The settings of the quasi-Newton method. -/
def lbfgsSettings (o : SolverOptions α) : Lbfgs.Settings α :=
  ⟨o.gradientTolerance, o.costTolerance.getD Scalar.epsilon, o.memory.getD standardMemory⟩

/-- Tolerances below zero are refused by the quasi-Newton method itself. -/
def lbfgsFault (o : SolverOptions α) : Option (SolverFault α) :=
  if o.gradientTolerance < 0 then
    some (.invalidParameter "`L-BFGS`: gradient tolerance must be >= 0.")
  else if o.costTolerance.any fun x => decide (x < 0) then
    some (.invalidParameter "`L-BFGS`: cost tolerance must be >= 0.")
  else none

/-- A quasi-Newton minimization of at most `limit` steps. -/
def descent (o : SolverOptions α) (theta : List α) (limit : Nat) : Search α (Outcome α) :=
  match o.lbfgsFault with
  | some fault => .fail fault
  | none => (Lbfgs.solver o.lineSearch.search o.lbfgsSettings theta).run limit

/-- A simplex minimization of at most `limit` steps. -/
def fallback (o : SolverOptions α) (theta steps : List α) (limit : Nat) :
    Except (FitError α) (Search α (Outcome α)) :=
  if o.spreadTolerance < 0 then
    .error (.invalidParameter "`Nelder-Mead`: sd_tolerance must be >= 0.")
  else .ok ((Simplex.solver o.spreadTolerance (Simplex.vertices theta steps)).run limit)

/-- The solvers with these options. -/
def solvers (o : SolverOptions α) : Solvers α := ⟨o.descent, o.fallback⟩

end SolverOptions
end FitSession
