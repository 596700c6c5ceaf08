import FitSession.Session.Settings
import FitSession.Snapshot

/-!
# Building sessions

A session is described by its cost and what is set for it; everything is checked when it is built.
Settings given by name hold against those of a snapshot. The errordef is the given one, else that
of the cost, else 1, which is reported when it is first used.

* `SessionSpec`: what is set for a session;
* `SessionSpec.start`: the start of its fit;
* `SessionSpec.build`: the session.
-/

namespace FitSession

/-- What is set for a session. -/
structure SessionSpec (α : Type) where
  params : StartSpec α
  snapshot : Option (Snapshot α)
  errordef : Option α
  strategy : Strategy
  tol : α
  printLevel : Int
  chain : NameChain α

namespace SessionSpec

variable {σ α : Type} [Scalar α]

/-- Nothing set. -/
def standard : SessionSpec α := ⟨.empty, none, none, .standard, 0.1, 0, .standard⟩

/-- What is asked of the start: the snapshot, and over it what is set by name. -/
def startSpec (spec : SessionSpec α) : Except (FitError α) (StartSpec α) :=
  match spec.snapshot with
  | some snapshot => do
    let base ← snapshot.toStartSpec
    pure (base.followedBy spec.params)
  | none => .ok spec.params

/-- The errordef that is set or declared, if there is one. -/
def givenErrordef (spec : SessionSpec α) (cost : Cost α) : Except (FitError α) (Option α) :=
  match spec.errordef <|> cost.errordef with
  | some up => do
    requireErrordef up
    pure (some up)
  | none => .ok none

/-- The report on a print level that also becomes that of all sessions. -/
def levelWarnings (spec : SessionSpec α) (shared : Int) : List (Warning α) :=
  if needsSharedLevel shared spec.printLevel then [.globalPrintLevel spec.printLevel] else []

/-- The session of a cost and an engine with a fresh memory, while `shared` is the print level of
all sessions. -/
def build (spec : SessionSpec α) (cost : Cost α) (engine : Engine σ α) (memory : σ)
    (shared : Int) : Except (FitError α) (Session σ α) := do
  let params ← spec.startSpec
  let errordef ← spec.givenErrordef cost
  requireTolerance spec.tol
  let start ← params.build cost spec.chain
  pure
    { cost, bench := .fresh (errordef.getD 1) memory, registry := start.registry,
      startState := start.state, slot := .initial, fmin := none, merrors := .empty, engine,
      strategy := spec.strategy, tol := spec.tol, printLevel := spec.printLevel,
      errordefSettled := errordef.isSome, frozen := false,
      warnings := start.warnings ++ spec.levelWarnings shared }

end SessionSpec
end FitSession
