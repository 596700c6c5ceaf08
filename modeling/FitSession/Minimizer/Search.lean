import FitSession.Minimizer.Fault

/-!
# Searches

A search is a finite plan for asking an objective: each question is a value or a gradient at a
point, and the plan goes on from the answer, which may be a fault. What a solver does is a search;
nothing in it can reach the objective otherwise than by asking.

* `Search`: the plans, and their monad;
* `Search.value`, `Search.gradient`: questions whose fault ends the plan;
* `Search.attempt`: a plan whose fault is an answer.
-/

namespace FitSession

/-- A finite plan for asking an objective. -/
inductive Search (α β : Type)
  | done (x : β)
  | fail (fault : SolverFault α)
  | askValue (theta : List α) (next : Except (SolverFault α) α → Search α β)
  | askGradient (theta : List α) (next : Except (SolverFault α) (List α) → Search α β)

namespace Search

variable {α β γ : Type}

/-- The plan `s`, continued from its result. -/
def bind (s : Search α β) (f : β → Search α γ) : Search α γ :=
  match s with
  | done x => f x
  | fail fault => fail fault
  | askValue theta next => askValue theta fun answer => (next answer).bind f
  | askGradient theta next => askGradient theta fun answer => (next answer).bind f

instance : Monad (Search α) where
  pure := done
  bind := bind

/-- The result of an answer, or the end of the plan. -/
def ofAnswer (answer : Except (SolverFault α) β) : Search α β :=
  match answer with
  | .ok x => done x
  | .error fault => fail fault

/-- The value at a point. -/
def value (theta : List α) : Search α α := askValue theta ofAnswer

/-- The gradient at a point. -/
def gradient (theta : List α) : Search α (List α) := askGradient theta ofAnswer

/-- The plan `s`, with its fault as an answer. -/
def attempt (s : Search α β) : Search α (Except (SolverFault α) β) :=
  match s with
  | done x => done (.ok x)
  | fail fault => done (.error fault)
  | askValue theta next => askValue theta fun answer => (next answer).attempt
  | askGradient theta next => askGradient theta fun answer => (next answer).attempt

end Search
end FitSession
