import FitSession.Engine.Basic
import FitSession.State

/-!
# The scripted engine

An engine that answers from a script, to rehearse a session without any numerics. It keeps a log of
its calls. Each call takes the next record of its kind, and the last record stays for ever; then it
evaluates the cost as often as the record says, at the state it was given.

* `EngineCall`: the calls as they are logged;
* `Adjustment`, `Adjustment.apply`: what an answer makes of a state;
* `Record`, `Script`: prepared answers, and the script with its log;
* `scriptedEngine`: the engine.
-/

namespace FitSession

/-- A call of an engine. -/
inductive EngineCall (α : Type)
  | migrad (values : List α) (fixed : List Bool) (options : EngineOptions α) (up : α)
  | hesse (atMinimum : Bool) (values : List α) (callLimit : Option Nat) (up : α)
  | minos (index : Nat) (options : EngineOptions α) (up fval : α)
  | contourLine (ix iy count : Nat) (options : EngineOptions α) (up : α)
deriving Repr

/-- What an answer makes of a state: values and errors from the first parameter on, and the
covariance. -/
structure Adjustment (α : Type) where
  values : List α
  errors : List α
  covariance : Option (DenseMatrix α)
deriving Repr

/-- A prepared answer, or the reason to fail, and how often the cost is evaluated before. -/
structure Record (α ρ : Type) where
  failure : Option String
  evals : Nat
  grads : Nat
  answer : ρ

/-- The answer of a minimization. Flags on the covariance that are left open follow from whether
there is one. -/
structure FitRecord (α : Type) where
  adjustment : Adjustment α
  /-- The minimum but for its state, errordef, goal and counters. -/
  minimum : FunctionMinimum α
  hasCovariance : Option Bool
  hasAccurateCovar : Option Bool
  hasPosdefCovar : Option Bool
  hesseFailed : Option Bool

/-- The answer of a computation of the covariance. -/
structure HesseRecord (α : Type) where
  adjustment : Adjustment α
  /-- There is no answer for a state. -/
  isVoid : Bool
  madePosdef : Bool
  isValid : Option Bool

/-- The records that are left, and the log. -/
structure Script (α : Type) where
  migrad : List (Record α (FitRecord α))
  hesse : List (Record α (HesseRecord α))
  minos : List (Record α (Interval α))
  contourLine : List (Record α (List (α × α)))
  log : List (EngineCall α)

variable {α ρ : Type} [Scalar α]

/-- The script without records. -/
def Script.empty : Script α := ⟨[], [], [], [], []⟩

/-- The script with an empty log. -/
def Script.withoutLog (s : Script α) : Script α := { s with log := [] }

/-- What an answer makes of a state. -/
def Adjustment.apply (r : Adjustment α) (state : ParameterState α) :
    Except (FitError α) (ParameterState α) := do
  let s ← r.values.zipIdx.foldlM (fun s (x, i) => s.setValue i x) state
  let s ← r.errors.zipIdx.foldlM (fun s (x, i) => s.setError i x) s
  pure (s.withCovariance r.covariance)

namespace Scripted

/-- Adds a call to the log. -/
def note (call : EngineCall α) : Run (Script α) α Unit :=
  modify fun b => { b with memory := { b.memory with log := b.memory.log ++ [call] } }

/-- The next record of a list, of which the last one stays. -/
def next (records : Script α → List (Record α ρ))
    (withRecords : Script α → List (Record α ρ) → Script α) : Run (Script α) α (Record α ρ) := do
  let b ← get
  match records b.memory with
  | [] => throw (.fitFailed (.stated "script is empty"))
  | [last] => pure last
  | record :: rest => do
    set { b with memory := withRecords b.memory rest }
    pure record

/-- The evaluations that a record asks for. -/
def spend (cost : Cost α) (record : Record α ρ) (args : List α) : Run (Script α) α Unit := do
  (List.range record.evals).forM fun _ => do
    let _ ← cost.evaluate args
  (List.range record.grads).forM fun _ => do
    let _ ← cost.differentiate args

/-- The next answer, after its evaluations. -/
def answer (records : Script α → List (Record α ρ))
    (withRecords : Script α → List (Record α ρ) → Script α) (cost : Cost α) (args : List α) :
    Run (Script α) α ρ := do
  let record ← next records withRecords
  match record.failure with
  | some reason => throw (.fitFailed (.stated reason))
  | none => do
    spend cost record args
    pure record.answer

/-- A minimization. -/
def fit : Fit (Script α) α := fun cost state options => do
  let b ← get
  note (.migrad state.values (state.entries.map (·.isFixed)) options b.up)
  let r ← answer (·.migrad) (fun s rest => { s with migrad := rest }) cost state.values
  let after ← Run.ofExcept (r.adjustment.apply state)
  let b ← get
  let known := after.hasCovariance
  let sound := known && !r.minimum.hasMadePosdefCovar
  pure
    { r.minimum with
      state := after, up := b.up, edmGoal := edmGoal options.tolerance b.up, nfcn := b.nfcn,
      ngrad := b.ngrad, hasCovariance := r.hasCovariance.getD known,
      hasAccurateCovar := r.hasAccurateCovar.getD sound,
      hasPosdefCovar := r.hasPosdefCovar.getD sound, hesseFailed := r.hesseFailed.getD !known }

/-- The next covariance, for a minimum or for a state. -/
def hesse (atMinimum : Bool) (cost : Cost α) (state : ParameterState α)
    (callLimit : Option Nat) : Run (Script α) α (HesseRecord α) := do
  let b ← get
  note (.hesse atMinimum state.values callLimit b.up)
  answer (·.hesse) (fun s rest => { s with hesse := rest }) cost state.values

/-- A minimum with the next covariance. -/
def refine (cost : Cost α) (m : FunctionMinimum α) (callLimit : Option Nat) :
    Run (Script α) α (FunctionMinimum α) := do
  let r ← hesse true cost m.state callLimit
  let state ← Run.ofExcept (r.adjustment.apply m.state)
  let known := state.hasCovariance
  pure
    { m with
      state, hasCovariance := known, hesseFailed := !known, hasMadePosdefCovar := r.madePosdef,
      hasAccurateCovar := known && !r.madePosdef, isValid := r.isValid.getD m.isValid }

end Scripted

/-- The engine that answers from its script. -/
def scriptedEngine : Engine (Script α) α where
  migrad := Scripted.fit
  refinement cost callLimit := .ofRun fun m => Scripted.refine cost m callLimit
  hesseState cost state callLimit := do
    let r ← Scripted.hesse false cost state callLimit
    if r.isVoid then pure none
    else
      let after ← Run.ofExcept (r.adjustment.apply state)
      pure (some after)
  minos cost m index options := do
    let b ← get
    Scripted.note (.minos index options b.up m.fval)
    Scripted.answer (·.minos) (fun s rest => { s with minos := rest }) cost m.state.values
  contourLine cost m ix iy count options := do
    let b ← get
    Scripted.note (.contourLine ix iy count options b.up)
    Scripted.answer (·.contourLine) (fun s rest => { s with contourLine := rest }) cost
      m.state.values

end FitSession
