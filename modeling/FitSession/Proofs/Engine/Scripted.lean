import FitSession.Engine.Scripted
import FitSession.Proofs.Column
import FitSession.Proofs.Engine.Contract

/-!
# The scripted engine keeps the rules

Whatever its script says, and wherever it says that a call fails.

* `scriptedEngine_keepsErrordef`: **the engine leaves the errordef**;
* `scriptedEngine_keepsLength`: so does it with the number of entries of a state;
* `answerAt`, `unitInterval`, `EngineCall.starts`, `EngineCall.scans`: answers for small scripts,
  and what is read off their logs.
-/

namespace FitSession

variable {α ρ : Type} [Scalar α]

/-! ## The errordef -/

namespace Scripted

omit [Scalar α] in
theorem sameUp_note (call : EngineCall α) : Keeps Bench.SameUp (note call) :=
  keeps_modify fun _ => rfl

omit [Scalar α] in
theorem sameUp_next (records : Script α → List (Record α ρ))
    (withRecords : Script α → List (Record α ρ) → Script α) :
    Keeps Bench.SameUp (next records withRecords) := by
  intro b
  unfold next
  rw [get_bind_apply]
  rcases records b.memory with _ | ⟨record, _ | ⟨second, rest⟩⟩ <;> rfl

omit [Scalar α] in
theorem sameUp_spend (cost : Cost α) (record : Record α ρ) (args : List α) :
    Keeps Bench.SameUp (spend cost record args) := by
  refine (Keeps.forM (fun _ => ?_) _).bind fun _ => Keeps.forM (fun _ => ?_) _
  · exact (keeps_evaluate cost args).bind fun _ => Keeps.pure _
  · exact (keeps_differentiate cost args).bind fun _ => Keeps.pure _

omit [Scalar α] in
theorem sameUp_answer (records : Script α → List (Record α ρ))
    (withRecords : Script α → List (Record α ρ) → Script α) (cost : Cost α) (args : List α) :
    Keeps Bench.SameUp (answer records withRecords cost args) := by
  refine (sameUp_next records withRecords).bind fun record => ?_
  cases record.failure with
  | some reason => exact Keeps.throw _
  | none => exact (sameUp_spend cost record args).bind fun _ => Keeps.pure _

theorem sameUp_fit (cost : Cost α) (state : ParameterState α) (o : EngineOptions α) :
    Keeps Bench.SameUp (fit cost state o) := by
  refine Keeps.get_bind fun b => (sameUp_note _).bind fun _ => ?_
  refine (sameUp_answer _ _ cost _).bind fun r => (keeps_runOfExcept _).bind fun after => ?_
  exact Keeps.get_bind fun b => Keeps.pure _

omit [Scalar α] in
theorem sameUp_hesse (atMinimum : Bool) (cost : Cost α) (state : ParameterState α)
    (callLimit : Option Nat) : Keeps Bench.SameUp (hesse atMinimum cost state callLimit) :=
  Keeps.get_bind fun _ => (sameUp_note _).bind fun _ => sameUp_answer _ _ cost _

theorem sameUp_refine (cost : Cost α) (m : FunctionMinimum α) (callLimit : Option Nat) :
    Keeps Bench.SameUp (refine cost m callLimit) :=
  (sameUp_hesse true cost m.state callLimit).bind fun _ =>
    (keeps_runOfExcept _).bind fun _ => Keeps.pure _

end Scripted

/-- **The engine leaves the errordef.** -/
theorem scriptedEngine_keepsErrordef : (scriptedEngine : Engine (Script α) α).KeepsErrordef where
  migrad := Scripted.sameUp_fit
  refinement cost callLimit := Refinement.bench_ofRun fun m =>
    Scripted.sameUp_refine cost m callLimit
  hesseState cost state callLimit := by
    refine (Scripted.sameUp_hesse false cost state callLimit).bind fun r => ?_
    exact Keeps.ite (Keeps.pure _) ((keeps_runOfExcept _).bind fun after => Keeps.pure _)
  minos cost m _ _ := Keeps.get_bind fun _ => (Scripted.sameUp_note _).bind fun _ =>
    Scripted.sameUp_answer _ _ cost m.state.values
  contourLine cost m _ _ _ _ := Keeps.get_bind fun _ => (Scripted.sameUp_note _).bind fun _ =>
    Scripted.sameUp_answer _ _ cost m.state.values

/-! ## States -/

/-- An answer only writes to a state, and sets its covariance. -/
theorem Adjustment.apply_keeps {P : ParameterState α → Prop} (hP : WriteInvariant P)
    (hcovariance : ∀ s c, P s → P (s.withCovariance c)) {r : Adjustment α}
    {s t : ParameterState α} (hs : P s) (h : r.apply s = .ok t) : P t := by
  obtain ⟨s₁, h₁, h⟩ := except_bind_eq_ok.mp h
  obtain ⟨s₂, h₂, h⟩ := except_bind_eq_ok.mp h
  cases h
  have hs₁ : P s₁ := foldlM_keeps (fun _ _ _ => hP.value) hs h₁
  have hs₂ : P s₂ := foldlM_keeps (fun _ _ _ => hP.error) hs₁ h₂
  exact hcovariance s₂ _ hs₂

theorem Adjustment.len_apply {r : Adjustment α} {n : Nat} {s t : ParameterState α}
    (hs : s.len = n) (h : r.apply s = .ok t) : t.len = n :=
  apply_keeps (writeInvariant_len n) (fun _ _ hs => hs) hs h

theorem Scripted.len_refine (cost : Cost α) (callLimit : Option Nat) {m : FunctionMinimum α}
    {n : Nat} (hm : m.state.len = n) :
    Returns (fun refined => refined.state.len = n) (refine cost m callLimit) :=
  Returns.bind_right fun _ => (returns_runOfExcept fun _ h => Adjustment.len_apply hm h).bind
    fun _ hstate => Returns.pure hstate

/-- The engine keeps the number of entries of a state. -/
theorem scriptedEngine_keepsLength : (scriptedEngine : Engine (Script α) α).KeepsLength := by
  refine fun cost n => ⟨fun start o hs => ?_, fun callLimit => ?_, fun state callLimit hs => ?_⟩
  · refine Returns.get_bind fun b => Returns.bind_right fun _ => Returns.bind_right fun r => ?_
    refine (returns_runOfExcept fun _ h => Adjustment.len_apply hs h).bind fun _ hafter => ?_
    exact Returns.get_bind fun b => Returns.pure hafter
  · exact Refinement.keeps_ofRun (P := fun state => state.len = n) fun m hm =>
      Scripted.len_refine cost callLimit hm
  · refine Returns.bind_right fun r => Returns.ite (Returns.pure fun _ h => nomatch h) ?_
    refine (returns_runOfExcept fun _ h => Adjustment.len_apply hs h).bind fun _ hafter => ?_
    exact Returns.pure fun _ ht => Option.some.inj ht ▸ hafter

/-! ## Prepared answers and the log -/

/-- A prepared answer that moves the first parameter to `x`. -/
def answerAt (x : Float) (isValid : Bool) : Record Float (FitRecord Float) where
  failure := none
  evals := 0
  grads := 0
  answer :=
    { adjustment := ⟨[x], [], none⟩
      minimum :=
        { fval := 0, edm := 0, up := 1, edmGoal := 0, isValid, hasValidParameters := isValid,
          hasAccurateCovar := true, hasPosdefCovar := true, hasMadePosdefCovar := false,
          hesseFailed := false, hasCovariance := true, isAboveMaxEdm := false,
          hasReachedCallLimit := false, hasParametersAtLimit := false, nfcn := 0, ngrad := 0,
          state := .empty }
      hasCovariance := none, hasAccurateCovar := none, hasPosdefCovar := none, hesseFailed := none }

/-- A prepared interval from `-1` to `1`. -/
def unitInterval : Record Float (Interval Float) where
  failure := none
  evals := 0
  grads := 0
  answer :=
    { lower := -1, upper := 1, isValid := true, lowerValid := true, upperValid := true,
      atLowerLimit := false, atUpperLimit := false, atLowerMaxFcn := false, atUpperMaxFcn := false,
      lowerNewMin := false, upperNewMin := false, nfcn := 0, min := 0 }

/-- The points at which minimizations start, as they are logged. -/
def EngineCall.starts (calls : List (EngineCall Float)) : List (List Float) :=
  calls.filterMap fun
    | .migrad values _ _ _ => some values
    | _ => none

/-- The parameters whose intervals were searched, as they are logged. -/
def EngineCall.scans (calls : List (EngineCall Float)) : List Nat :=
  calls.filterMap fun
    | .minos i _ _ _ => some i
    | _ => none

end FitSession
