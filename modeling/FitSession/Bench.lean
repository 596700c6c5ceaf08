import FitSession.Cost

/-!
# The bench

Whoever minimizes a cost works at a bench: it counts the evaluations, holds the rise of the
objective that marks one standard deviation, and leaves room for a memory of the worker's own. What
happened at the bench stays when the work fails.

* `Bench`, `Run`: the bench, and work at it that may fail;
* `Cost.evaluate`, `Cost.differentiate`: counted evaluations;
* `Run.withScaledUp`: work with a scaled errordef, which is restored in any case;
* `Run.withMemory`: work with another memory;
* `Run.attempt`: work whose failure is an answer.
-/

namespace FitSession

/-- Errordef, counters and the memory of whoever works. -/
structure Bench (σ α : Type) where
  up : α
  nfcn : Nat
  ngrad : Nat
  memory : σ

/-- Work at a bench that may fail; a failure keeps the bench as it was left. -/
abbrev Run (σ α β : Type) : Type := EStateM (FitError α) (Bench σ α) β

variable {σ τ α β : Type}

/-- The value of a cost. The evaluation is counted whether it succeeds or not. -/
def Cost.evaluate (cost : Cost α) (args : List α) : Run σ α α := do
  modify fun b => { b with nfcn := b.nfcn + 1 }
  match cost.value args with
  | .ok x => pure x
  | .error e => throw e

/-- The gradient of a cost. Only an evaluation that succeeds is counted. -/
def Cost.differentiate (cost : Cost α) (args : List α) : Run σ α (List α) := do
  match cost.grad args with
  | .ok g => do
    modify fun b => { b with ngrad := b.ngrad + 1 }
    pure g
  | .error e => throw e

namespace Bench

/-- The bench before any evaluation. -/
def fresh (up : α) (memory : σ) : Bench σ α := ⟨up, 0, 0, memory⟩

/-- The bench with both counters at zero. -/
def withoutCounts (b : Bench σ α) : Bench σ α := { b with nfcn := 0, ngrad := 0 }

end Bench

namespace Run

/-- Work that does nothing but give an answer or fail. -/
def ofExcept (x : Except (FitError α) β) : Run σ α β :=
  match x with
  | .ok b => pure b
  | .error e => throw e

/-- Work with the errordef times `factor`. Afterwards the errordef is what it was. -/
def withScaledUp [Mul α] (factor : α) (work : Run σ α β) : Run σ α β := fun b =>
  match work { b with up := b.up * factor } with
  | .ok x after => .ok x { after with up := b.up }
  | .error e after => .error e { after with up := b.up }

/-- Work with a memory of its own, which is handed out at the end; the memory of the bench is kept
aside. -/
def withMemory (memory : τ) (work : Run τ α β) : Run σ α (β × τ) := fun b =>
  match work ⟨b.up, b.nfcn, b.ngrad, memory⟩ with
  | .ok x after => .ok (x, after.memory) ⟨after.up, after.nfcn, after.ngrad, b.memory⟩
  | .error e after => .error e ⟨after.up, after.nfcn, after.ngrad, b.memory⟩

/-- Work whose failure is an answer like any other. -/
def attempt (work : Run σ α β) : Run σ α (Except (FitError α) β) := fun b =>
  match work b with
  | .ok x after => .ok (.ok x) after
  | .error e after => .ok (.error e) after

end Run
end FitSession
