import FitSession.Engine.QuasiNewton
import FitSession.Proofs.Start
import FitSession.Session.Builder
import FitSession.Session.Fit

/-!
# Sessions that have just been built

* `SessionSpec.made`, `SessionSpec.exists_of_build`: what sessions are built of;
* `Fresh`, `SessionSpec.fresh_of_build`: **a session that has just been built** has one entry for
  each name, no results and no covariance;
* `sumOfSquares`, `oneParameter`, `twoParameters`: sessions to look at.
-/

namespace FitSession

variable {σ α : Type} [Scalar α]

/-- A session of a cost and an engine that has no results yet. -/
structure Fresh (cost : Cost α) (engine : Engine σ α) (s : Session σ α) : Prop where
  cost : s.cost = cost
  engine : s.engine = engine
  slot : s.slot = .initial
  fmin : s.fmin = none
  frozen : s.frozen = false
  len : s.startState.len = s.registry.len
  covariance : s.startState.covariance = none

section Build

variable {spec : SessionSpec α} {cost : Cost α} {engine : Engine σ α} {memory : σ} {shared : Int}
  {s : Session σ α}

/-- The session of an errordef, if there is one, and a start. -/
def SessionSpec.made (spec : SessionSpec α) (cost : Cost α) (engine : Engine σ α) (memory : σ)
    (shared : Int) (errordef : Option α) (start : Start α) : Session σ α :=
  { cost, bench := .fresh (errordef.getD 1) memory, registry := start.registry,
    startState := start.state, slot := .initial, fmin := none, merrors := .empty, engine,
    strategy := spec.strategy, tol := spec.tol, printLevel := spec.printLevel,
    errordefSettled := errordef.isSome, frozen := false,
    warnings := start.warnings ++ spec.levelWarnings shared }

/-- A session that has just been built is made of an errordef, if there is one, and a start. -/
theorem SessionSpec.exists_of_build (h : spec.build cost engine memory shared = .ok s) :
    ∃ params errordef start, spec.givenErrordef cost = .ok errordef ∧
      StartSpec.build params cost spec.chain = .ok start ∧
      s = spec.made cost engine memory shared errordef start := by
  obtain ⟨params, -, h⟩ := except_bind_eq_ok.mp h
  obtain ⟨errordef, hgiven, h⟩ := except_bind_eq_ok.mp h
  obtain ⟨_, -, h⟩ := except_bind_eq_ok.mp h
  obtain ⟨start, hstart, h⟩ := except_bind_eq_ok.mp h
  cases h
  exact ⟨params, errordef, start, hgiven, hstart, rfl⟩

theorem SessionSpec.fresh_of_build (h : spec.build cost engine memory shared = .ok s) :
    Fresh cost engine s := by
  obtain ⟨params, errordef, start, -, hstart, rfl⟩ := exists_of_build h
  exact ⟨rfl, rfl, rfl, rfl, rfl, (StartSpec.of_build hstart).1, (StartSpec.of_build hstart).2⟩

end Build

/-- The sum of the squares of all parameters. -/
def sumOfSquares : Cost Float := .ofFunction fun xs => .ok (Scalar.dot xs xs)

/-- One parameter `x` that starts at 1. -/
def oneParameter : SessionSpec Float :=
  { SessionSpec.standard with
    params := { StartSpec.empty with names := some ["x"], values := [("x", 1)] } }

/-- Two parameters `x` and `y` that start at 1 and 2. -/
def twoParameters : SessionSpec Float :=
  { SessionSpec.standard with
    params := { StartSpec.empty with names := some ["x", "y"], values := [("x", 1), ("y", 2)] } }

/-- What is seen of the session with one parameter is true of a session that can be built. -/
theorem exists_build_oneParameter {τ : Type} (engine : Engine τ Float) (memory : τ)
    {P : Session τ Float → Bool}
    (h : (oneParameter.build sumOfSquares engine memory 0).toOption.any P = true) :
    ∃ s, oneParameter.build sumOfSquares engine memory 0 = .ok s ∧ P s = true :=
  exists_ok_of_any h

theorem exists_fit_oneParameter :
    ∃ s₀ s₁ : Session Unit Float,
      oneParameter.build sumOfSquares (quasiNewton .standard) () 0 = .ok s₀ ∧
        Session.migrad .standard s₀ = .ok () s₁ := by
  obtain ⟨s₀, hbuild, hfit⟩ := exists_build_oneParameter (quasiNewton .standard) ()
    (P := fun s => succeeded (Session.migrad .standard s)) (by decide +kernel)
  obtain ⟨_, s₁, hfit⟩ := exists_ok_of_succeeded hfit
  exact ⟨s₀, s₁, hbuild, hfit⟩

end FitSession
