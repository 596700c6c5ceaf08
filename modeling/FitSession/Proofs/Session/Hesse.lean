import FitSession.Proofs.Engine.QuasiNewton
import FitSession.Proofs.Session.Change

/-!
# The covariance of a session

A covariance is computed in one of two ways: at the stored minimum, which is refined in place, or
for the current state alone. Which one it is hangs on where the current state lives and on whether
it is equal to that of the minimum.

* `ParameterState.SameButErrors`, `FunctionMinimum.RefinedTo`: what a covariance may change;
* `Session.HesseEnds`, `Session.hesseEnds_of_eq_ok`: **the ends of a computation that succeeds**,
  with any engine;
* `Change.fmin_eq_none`: with its current state in its initial one, a session has no minimum;
* `Session.RefinesInOrder`, `refines_in_order`: **what a covariance leaves** after any run.
-/

namespace FitSession

variable {σ α : Type} [Scalar α]

/-! ## What a covariance may change -/

/-- The states differ at most in the errors of free parameters and in the covariance. -/
def ParameterState.SameButErrors (s t : ParameterState α) : Prop :=
  List.Forall₂ (fun e e' : Entry α =>
    e' = { e with error := e'.error } ∧ (e.isFixed = true → e' = e)) s.entries t.entries

/-- The entries agree in value, bounds and flag: these are the same, or equal as numbers. -/
structure Entry.Agrees (e e' : Entry α) : Prop where
  value : e'.value = e.value ∨ (e.value == e'.value) = true
  fixed : e'.fixed = e.fixed
  lower : e'.lower = e.lower ∨ (e.lower == e'.lower) = true
  upper : e'.upper = e.upper ∨ (e.upper == e'.upper) = true

/-- The states agree in the values, bounds and flags of all parameters. -/
def ParameterState.Agrees (s t : ParameterState α) : Prop :=
  List.Forall₂ Entry.Agrees s.entries t.entries

theorem ParameterState.Agrees.refl (s : ParameterState α) : s.Agrees s :=
  List.forall₂_same.mpr fun _ _ => ⟨.inl rfl, rfl, .inl rfl, .inl rfl⟩

theorem ParameterState.agrees_of_beq {s t : ParameterState α} (h : (s == t) = true) :
    s.Agrees t := by
  obtain ⟨entries, c⟩ := s
  obtain ⟨entries', c'⟩ := t
  change (entries == entries') = true at h
  change List.Forall₂ Entry.Agrees entries entries'
  induction entries generalizing entries' with
  | nil =>
    cases entries' with
    | nil => exact .nil
    | cons => cases h
  | cons e entries ih =>
    cases entries' with
    | nil => cases h
    | cons e' entries' =>
      obtain ⟨he, h⟩ := Bool.and_eq_true_iff.mp h
      change (e.value == e'.value && e.error == e'.error && e.fixed == e'.fixed
        && e.lower == e'.lower && e.upper == e'.upper) = true at he
      simp only [Bool.and_eq_true] at he
      obtain ⟨⟨⟨⟨hvalue, -⟩, hfixed⟩, hlower⟩, hupper⟩ := he
      exact .cons ⟨.inr hvalue, (eq_of_beq hfixed).symm, .inr hlower, .inr hupper⟩ (ih entries' h)

/-- Other errors do not matter. -/
theorem ParameterState.Agrees.of_sameButErrors {s t u : ParameterState α} (h : s.Agrees t)
    (herrors : t.SameButErrors u) : s.Agrees u := by
  obtain ⟨entries, c⟩ := s
  obtain ⟨entries', c'⟩ := t
  obtain ⟨entries'', c''⟩ := u
  change List.Forall₂ _ entries' entries'' at herrors
  change List.Forall₂ Entry.Agrees entries entries' at h
  change List.Forall₂ Entry.Agrees entries entries''
  induction herrors generalizing entries with
  | nil => exact h
  | cons herror _ ih =>
    obtain ⟨e, entries, he, hrest, rfl⟩ := List.forall₂_cons_right_iff.mp h
    refine .cons ?_ (ih entries hrest)
    rw [herror.1]
    exact ⟨he.value, he.fixed, he.lower, he.upper⟩

section Curvature

variable (s : ParameterState α) (free : List Nat) (c : Option (Curvature α))

theorem ParameterState.entries_withCurvature_some (c : Curvature α) :
    (s.withCurvature free (some c)).entries =
      updateAt (fun e error => { e with error }) s.entries free
        (c.external.diagonal.map fun v => Scalar.sqrt (Scalar.maxNum v 0)) := rfl

/-- A curvature says nothing about values, flags and bounds. -/
theorem ParameterState.settings_withCurvature :
    (s.withCurvature free c).entries.map (fun e => (e.value, e.fixed, e.lower, e.upper)) =
      s.entries.map fun e => (e.value, e.fixed, e.lower, e.upper) := by
  cases c with
  | none => rfl
  | some c =>
    rw [entries_withCurvature_some]
    exact map_updateAt (by intros; rfl) _ _ _

/-- A curvature says nothing about parameters that are not free. -/
theorem ParameterState.getElem?_withCurvature_of_not_mem {i : Nat} (hi : i ∉ free) :
    (s.withCurvature free c).entries[i]? = s.entries[i]? := by
  cases c with
  | none => rfl
  | some c => rw [entries_withCurvature_some, getElem?_updateAt_of_not_mem hi]

/-- A curvature says something about the errors of the free parameters, and about nothing else. -/
theorem ParameterState.sameButErrors_withCurvature :
    s.SameButErrors (s.withCurvature s.freeIndices c) := by
  have hsettings := s.settings_withCurvature s.freeIndices c
  have hlen := congrArg List.length hsettings
  rw [List.length_map, List.length_map] at hlen
  refine List.forall₂_iff_get.mpr ⟨hlen.symm, fun i hi hi' => ⟨?_, fun hfixed => ?_⟩⟩
  · have hentry := congrArg (·[i]?) hsettings
    simp only [List.getElem?_map, List.getElem?_eq_getElem hi, List.getElem?_eq_getElem hi',
      Option.map_some, Option.some.injEq, Prod.mk.injEq] at hentry
    obtain ⟨hvalue, hflag, hlower, hupper⟩ := hentry
    simp only [List.get_eq_getElem, ← hvalue, ← hflag, ← hlower, ← hupper]
  · have hnot : i ∉ s.freeIndices := by
      rw [mem_freeIndices, flags, List.getElem?_map, List.getElem?_eq_getElem hi]
      simpa using hfixed
    have hsame := s.getElem?_withCurvature_of_not_mem s.freeIndices c hnot
    rw [List.getElem?_eq_getElem hi, List.getElem?_eq_getElem hi'] at hsame
    exact Option.some.inj hsame

end Curvature

/-- What the covariance at a minimum may change of the minimum. The lowest value, its errordef and
the goal of its fit stay, and so do the flags on its parameters. -/
structure FunctionMinimum.RefinedTo (m m' : FunctionMinimum α) : Prop where
  rest : m' = { m with
    edm := m'.edm, isValid := m'.isValid, hasAccurateCovar := m'.hasAccurateCovar,
    hasPosdefCovar := m'.hasPosdefCovar, hasMadePosdefCovar := m'.hasMadePosdefCovar,
    hesseFailed := m'.hesseFailed, hasCovariance := m'.hasCovariance,
    isAboveMaxEdm := m'.isAboveMaxEdm, hasReachedCallLimit := m'.hasReachedCallLimit,
    nfcn := m'.nfcn, ngrad := m'.ngrad, state := m'.state }
  state : m.state.SameButErrors m'.state

section Refined

variable [Differences α]

/-- A state is refined by a curvature of its cost. -/
theorem returns_refineState (cost : Cost α) (state : ParameterState α) :
    Returns (fun r => r.1 = state.withCurvature state.freeIndices r.2)
      (refineState cost state : Run σ α _) :=
  Returns.bind_right fun _ => Returns.pure rfl

theorem returns_refineMinimum (cost : Cost α) (m : FunctionMinimum α) (callLimit : Option Nat) :
    Returns m.RefinedTo (refineMinimum cost m callLimit : Run σ α _) := by
  refine Returns.get_bind fun _ => (returns_refineState cost m.state).bind fun (state, c) hr => ?_
  obtain rfl : state = m.state.withCurvature m.state.freeIndices c := hr
  exact Returns.get_bind fun _ => Returns.pure ⟨rfl, m.state.sameButErrors_withCurvature c⟩

end Refined

/-! ## How a computation succeeds -/

namespace Session

variable {s t u : Session σ α} {m : FunctionMinimum α} {callLimit : Option Nat}

/-- What is reported of a minimum whose covariance was computed. -/
def forcedReport (m : FunctionMinimum α) : List (Warning α) :=
  if m.hasMadePosdefCovar then [.covarianceMadePosDef] else []

omit [Scalar α] in
theorem reportForced_apply (m : FunctionMinimum α) (s : Session σ α) :
    reportForced m s = .ok () { s with warnings := s.warnings ++ forcedReport m } := by
  unfold reportForced forcedReport
  cases m.hasMadePosdefCovar with
  | true => rfl
  | false =>
    change EStateM.Result.ok () s = .ok () { s with warnings := s.warnings ++ [] }
    rw [List.append_nil]

/-- The ends of a computation of the covariance that succeeds. It refines the stored minimum, whose
state is the current one then; or it puts the refined current state apart; or there is no covariance
to be had and it leaves everything as it is. -/
inductive HesseEnds (s : Session σ α) (callLimit : Option Nat) : Session σ α → Prop
  | refined {m m' : FunctionMinimum α} {b : Bench σ α} (hat : s.isAtMinimum = true)
    (hm : s.fmin = some m)
    (hrefined : s.engine.refinement s.cost callLimit (s.bench, m) = .ok () (b, m')) :
    HesseEnds s callLimit { s.reported with
      bench := b, fmin := some m', slot := .minimum,
      warnings := s.reported.warnings ++ forcedReport m' }
  | apart {state : ParameterState α} {b : Bench σ α} (hat : s.isAtMinimum = false)
    (hstate : s.engine.hesseState s.cost s.currentState callLimit s.bench = .ok (some state) b)
    (hcovariance : state.hasCovariance = true ∨ s.fmin.isSome = true) :
    HesseEnds s callLimit { s.reported with bench := b, slot := .detached state }
  | kept {b : Bench σ α} (hat : s.isAtMinimum = false)
    (hstate : s.engine.hesseState s.cost s.currentState callLimit s.bench = .ok none b)
    (hfmin : s.fmin.isSome = true) : HesseEnds s callLimit { s.reported with bench := b }

theorem exists_of_isAtMinimum (h : s.isAtMinimum = true) : ∃ m, s.fmin = some m := by
  unfold isAtMinimum at h
  split at h
  · exact ⟨_, ‹_›⟩
  · exact ⟨_, ‹_›⟩
  · cases h

omit [Scalar α] in
theorem ends_hesseAtMinimum (h : hesseAtMinimum m callLimit s = .ok () u) :
    ∃ b m', s.engine.refinement s.cost callLimit (s.bench, m) = .ok () (b, m') ∧
      u = { s with
        bench := b, fmin := some m', slot := .minimum,
        warnings := s.warnings ++ forcedReport m' } := by
  unfold hesseAtMinimum at h
  rw [get_bind_apply, bind_apply, Action.atMinimum] at h
  cases hw : s.engine.refinement s.cost callLimit (s.bench, m) with
  | error e q =>
    rw [hw] at h
    cases h
  | ok _ q =>
    rw [hw] at h
    change reportForced q.2 { s with bench := q.1, fmin := some q.2, slot := .minimum } = _ at h
    rw [reportForced_apply] at h
    cases h
    exact ⟨q.1, q.2, rfl, rfl⟩

omit [Scalar α] in
theorem ends_hesseAtState (h : hesseAtState callLimit s = .ok () u) :
    ∃ answer b, s.engine.hesseState s.cost s.currentState callLimit s.bench = .ok answer b ∧
      match answer with
      | some state => (state.hasCovariance = true ∨ s.fmin.isSome = true) ∧
          u = { s with bench := b, slot := .detached state }
      | none => s.fmin.isSome = true ∧ u = { s with bench := b } := by
  unfold hesseAtState at h
  rw [get_bind_apply, bind_apply, Action.atBench] at h
  cases hw : s.engine.hesseState s.cost s.currentState callLimit s.bench with
  | error e b =>
    rw [hw] at h
    cases h
  | ok answer b =>
    rw [hw] at h
    refine ⟨answer, b, rfl, ?_⟩
    cases answer with
    | none =>
      change (if s.fmin.isNone then _ else _ : Action σ α Unit) { s with bench := b } = _ at h
      split at h
      · cases h
      · rename_i hfmin
        cases h
        exact ⟨by simpa [Option.isSome_iff_ne_none] using hfmin, rfl⟩
    | some state =>
      change (if state.hasCovariance || s.fmin.isSome then _ else _ : Action σ α Unit)
        { s with bench := b } = _ at h
      split at h
      · rename_i hcovariance
        cases h
        exact ⟨by simpa using hcovariance, rfl⟩
      · cases h

theorem hesse_of_isAtMinimum (hat : s.isAtMinimum = true) (hm : s.fmin = some m) :
    hesse callLimit s = hesseAtMinimum m callLimit s.reported := by
  unfold hesse
  rw [bind_of_ok (reportErrordef_eq s), get_bind_apply, show s.reported.isAtMinimum = true from hat,
    show s.reported.fmin = some m from hm]

theorem hesse_of_not_isAtMinimum (hat : s.isAtMinimum = false) :
    hesse callLimit s = hesseAtState callLimit s.reported := by
  unfold hesse
  rw [bind_of_ok (reportErrordef_eq s), get_bind_apply,
    show s.reported.isAtMinimum = false from hat]

/-- **A computation of the covariance that succeeds has one of three ends.** -/
theorem hesseEnds_of_eq_ok (h : hesse callLimit s = .ok () u) : HesseEnds s callLimit u := by
  cases hat : s.isAtMinimum with
  | true =>
    obtain ⟨m, hm⟩ := exists_of_isAtMinimum hat
    rw [hesse_of_isAtMinimum hat hm] at h
    obtain ⟨b, m', hrefined, rfl⟩ := ends_hesseAtMinimum h
    exact .refined hat hm hrefined
  | false =>
    rw [hesse_of_not_isAtMinimum hat] at h
    obtain ⟨answer, b, hstate, h⟩ := ends_hesseAtState h
    cases answer with
    | none =>
      obtain ⟨hfmin, rfl⟩ := h
      exact .kept hat hstate hfmin
    | some state =>
      obtain ⟨hcovariance, rfl⟩ := h
      exact .apart hat hstate hcovariance

end Session

/-! ## Where the current state lives -/

/-- With its current state in its initial one, a session has no minimum. -/
theorem Change.fmin_eq_none {s u : Session σ α} {c : Command α} (h : Change s c u)
    (hs : s.slot = .initial → s.fmin = none) : u.slot = .initial → u.fmin = none := by
  obtain ⟨edit, beside⟩ := h
  rw [beside.results]
  cases edit with
  | none => exact hs
  | @written _ st =>
    intro hslot
    rw [Session.fmin_replaceState]
    refine hs ?_
    unfold Session.replaceState at hslot
    split at hslot
    · assumption
    · cases hslot
  | minimum => exact nofun
  | refined hm _ _ hslot =>
    intro hinitial
    rcases hslot with rfl | rfl
    · rw [hs hinitial] at hm
      cases hm
    · cases hinitial
  | apart => exact nofun
  | counted => simpa using hs
  | errordef => simpa using hs
  | settings => exact hs
  | drained => exact hs
  | reset => exact fun _ => rfl

namespace Session

variable {s u : Session σ α} {m : FunctionMinimum α} {callLimit : Option Nat}

/-- The current state is that of the minimum if it lives there or is equal to it. -/
theorem isAtMinimum_iff (hs : s.slot = .initial → s.fmin = none) (hm : s.fmin = some m) :
    s.isAtMinimum = true ↔ s.slot = .minimum ∨ (s.currentState == m.state) = true := by
  unfold isAtMinimum currentState
  cases hslot : s.slot with
  | initial =>
    rw [hs hslot] at hm
    cases hm
  | minimum => simp [hm]
  | detached state => simp [hm]

theorem agrees_of_isAtMinimum (h : s.isAtMinimum = true) (hm : s.fmin = some m) :
    s.currentState.Agrees m.state := by
  unfold isAtMinimum at h
  unfold currentState
  cases hslot : s.slot with
  | initial => simp [hslot] at h
  | minimum =>
    rw [hm]
    exact .refl m.state
  | detached state =>
    simp only [hslot, hm] at h
    exact ParameterState.agrees_of_beq h

/-- What a computation of the covariance leaves. Errordef, initial state, intervals and settings are
as they were, and so are the values, bounds and flags of the current state. If the current state was
that of the stored minimum, or equal to it, the engine has refined that minimum, and its state is
the current one. If not, the minimum is as it was, and the current state has new errors of free
parameters and a new covariance at most. Without a minimum it has a covariance in any case. -/
structure RefinesInOrder (callLimit : Option Nat) (s u : Session σ α) : Prop where
  rest : u = { s with
    bench := u.bench, slot := u.slot, fmin := u.fmin, errordefSettled := u.errordefSettled,
    warnings := u.warnings }
  errordef : u.errordef = s.errordef
  settings : s.currentState.Agrees u.currentState
  inPlace : ∀ m, s.fmin = some m → s.slot = .minimum ∨ (s.currentState == m.state) = true →
    ∃ m', s.engine.refinement s.cost callLimit (s.bench, m) = .ok () (u.bench, m') ∧
      u.fmin = some m' ∧ u.currentState = m'.state ∧ m.RefinedTo m'
  apart : (∀ m, s.fmin = some m → s.slot ≠ .minimum ∧ (s.currentState == m.state) = false) →
    s.engine.hesseState s.cost s.currentState callLimit s.bench =
        .ok (some u.currentState) u.bench ∧
      u.fmin = s.fmin ∧ s.currentState.SameButErrors u.currentState
  covariance : s.fmin = none → u.currentState.hasCovariance = true

variable [Differences α] {choose : SolverOptions α → Solvers α} {solver : SolverOptions α}

theorem HesseEnds.refinesInOrder (hengine : s.engine = quasiNewtonWith choose solver)
    (hs : s.slot = .initial → s.fmin = none) (h : HesseEnds s callLimit u) :
    RefinesInOrder callLimit s u := by
  cases h with
  | @refined m m' b hat hm hrefined =>
    have hwork : refineMinimum s.cost m callLimit s.bench = .ok m' b := by
      rw [hengine] at hrefined
      change Refinement.ofRun (fun m => refineMinimum s.cost m callLimit) (s.bench, m) = _
        at hrefined
      exact Refinement.ofRun_eq_ok hrefined
    have hrefines : m.RefinedTo m' := returns_refineMinimum s.cost m callLimit _ _ _ hwork
    refine ⟨rfl, ((onward_refineMinimum s.cost m callLimit).of_ok hwork).up, ?_, ?_, ?_, ?_⟩
    · exact (agrees_of_isAtMinimum hat hm).of_sameButErrors hrefines.state
    · intro m₁ hm₁ _
      obtain rfl : m = m₁ := Option.some.inj (hm.symm.trans hm₁)
      exact ⟨m', hrefined, rfl, rfl, hrefines⟩
    · intro hapart
      obtain ⟨hslot, hne⟩ := hapart m hm
      rcases (isAtMinimum_iff hs hm).mp hat with h | h
      · exact absurd h hslot
      · rw [hne] at h
        cases h
    · intro hnone
      rw [hnone] at hm
      cases hm
  | @apart state b hat hstate hcovariance =>
    obtain ⟨hup, herrors⟩ : b.up = s.bench.up ∧ s.currentState.SameButErrors state := by
      rw [hengine] at hstate
      obtain ⟨r, b', hwork, hr⟩ := bind_eq_ok.mp hstate
      cases hr
      refine ⟨((onward_refineState s.cost s.currentState).of_ok hwork).up, ?_⟩
      rw [returns_refineState s.cost s.currentState _ _ _ hwork]
      exact s.currentState.sameButErrors_withCurvature r.2
    refine ⟨rfl, hup, (ParameterState.Agrees.refl _).of_sameButErrors herrors, ?_, ?_, ?_⟩
    · intro m hm hat'
      rw [(isAtMinimum_iff hs hm).mpr hat'] at hat
      cases hat
    · exact fun _ => ⟨hstate, rfl, herrors⟩
    · intro hnone
      have hsome : state.hasCovariance = true := by simpa [hnone] using hcovariance
      exact hsome
  | @kept b hat hstate hfmin =>
    -- this engine always answers with a state
    rw [hengine] at hstate
    obtain ⟨r, b', -, hr⟩ := bind_eq_ok.mp hstate
    cases hr

/-- **What a covariance leaves.** After any run with the quasi-Newton engine, whatever its solvers
and its differences, a computation of the covariance that succeeds changes errors of free parameters
and the covariance only, of the stored minimum where the current state is that of the minimum, else
of the current state alone. -/
theorem refines_in_order {spec : SessionSpec α} {cost : Cost α} {memory : σ} {shared : Int}
    {s₀ : Session σ α}
    (hbuild : spec.build cost (quasiNewtonWith choose solver) memory shared = .ok s₀)
    (cs : List (Command α)) (h : hesse callLimit (s₀.afterAll cs) = .ok () u) :
    RefinesInOrder callLimit (s₀.afterAll cs) u := by
  have hfresh := SessionSpec.fresh_of_build hbuild
  have hstored : (s₀.afterAll cs).slot = .initial → (s₀.afterAll cs).fmin = none :=
    afterAll_invariant (I := fun s => s.slot = .initial → s.fmin = none)
      (fun s c hs => (change_after s c).fmin_eq_none hs) (fun _ => hfresh.fmin) cs
  have hengine := ((s₀.afterAll_sameSetup cs).engine).trans hfresh.engine
  exact (hesseEnds_of_eq_ok h).refinesInOrder hengine hstored

/-- A fit of one parameter, which is then put to 3 and back to the minimum. -/
def fitMovedAndBack : List (Command Float) :=
  [.migrad .standard, .write (.values (.item (.name "x") 3)),
    .write (.values (.item (.name "x") 0))]

/-- After a fit of one parameter that was moved and moved back, the covariance is that of the
minimum, whose state is then the current one. Before any fit, the current state gets one. -/
theorem refines_in_order_oneParameter :
    ∃ s₀ u v : Session Unit Float,
      oneParameter.build sumOfSquares (quasiNewton .standard) () 0 = .ok s₀ ∧
        hesse none (s₀.afterAll fitMovedAndBack) = .ok () u ∧
          (∃ m m', (s₀.afterAll fitMovedAndBack).fmin = some m ∧ u.fmin = some m' ∧
            u.currentState = m'.state ∧ m.RefinedTo m') ∧
            hesse none s₀ = .ok () v ∧ v.currentState.hasCovariance = true := by
  obtain ⟨s₀, hbuild, h⟩ := exists_build_oneParameter (quasiNewton .standard) ()
    (P := fun s => succeeded (hesse none (s.afterAll fitMovedAndBack)) &&
      (s.afterAll fitMovedAndBack).fmin.any
        (fun m => (s.afterAll fitMovedAndBack).currentState == m.state) &&
      succeeded (hesse none s)) (by decide +kernel)
  simp only [Bool.and_eq_true, Option.any_eq_true] at h
  obtain ⟨⟨hback, m, hm, hequal⟩, hstart⟩ := h
  obtain ⟨_, u, hu⟩ := exists_ok_of_succeeded hback
  obtain ⟨_, v, hv⟩ := exists_ok_of_succeeded hstart
  obtain ⟨m', -, hm', hcurrent, hrefined⟩ :=
    (refines_in_order hbuild fitMovedAndBack hu).inPlace m hm (.inr hequal)
  have hcovariance := (refines_in_order hbuild [] hv).covariance
    (SessionSpec.fresh_of_build hbuild).fmin
  exact ⟨s₀, u, v, hbuild, hu, ⟨m, m', hm, hm', hcurrent, hrefined⟩, hv, hcovariance⟩

end Session

end FitSession
