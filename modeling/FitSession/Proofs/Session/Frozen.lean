import FitSession.Proofs.Engine.QuasiNewton
import FitSession.Proofs.Session.Change

/-!
# The frozen initial state and reset

Once a minimum has been found, the initial state of a session stays what it is, and a reset brings
the session back to it. All resets of one run lead to the same session, but for settings, warnings
and what the engine remembers, so that the fits after them only differ if the settings do.

* `frozen_of_migrad`, `frozen_afterAll`: **the initial state stays** after a minimization that
  succeeded;
* `IsReset`, `isReset_after_reset`: what a reset always brings about;
* `SameButSettings`, `sameButSettings_of_resets`: **any two resets lead to the same session**;
* `coupled_migrad`: with a deterministic engine, minimizations of sessions that are alike are alike;
* `frozen_start_and_resets`: all of this together.
-/

namespace FitSession

variable {σ α : Type}

/-! ## Sessions that are alike -/

/-- Sessions of the engine `E` that differ at most in warnings, in what was reported, and in what
the engine remembers. -/
def Session.Alike (E : Engine σ α) (s t : Session σ α) : Prop :=
  s.engine = E ∧ SameResults s t ∧ s.bench.Alike t.bench

section Alike

variable {E : Engine σ α} {β : Type}

theorem coupled_ofExcept (x : Except (FitError α) β) :
    Coupled (Session.Alike E) (Action.ofExcept x) := by
  cases x with
  | ok b => exact Coupled.pure b
  | error e => exact Coupled.throw e

theorem coupled_warn (w : Warning α) : Coupled (Session.Alike E) (Action.warn w) := by
  refine Coupled.modify fun s t ⟨hE, h, hb⟩ => ⟨hE, ?_, hb⟩
  rw [h]
  rfl

theorem coupled_reportErrordef : Coupled (Session.Alike E) Action.reportErrordef := by
  intro s t ⟨hE, h, hb⟩
  rw [reportErrordef_apply, reportErrordef_apply]
  refine ⟨rfl, ?_, ?_, ?_⟩
  · split <;> exact hE
  · rw [h]
    split <;> split <;> rfl
  · split <;> split <;> exact hb

theorem coupled_atBench {work : Run σ α β} (hw : Coupled Bench.Alike work) :
    Coupled (Session.Alike E) (Action.atBench work) := by
  intro s t ⟨hE, h, hb⟩
  have hend := hw s.bench t.bench hb
  unfold Action.atBench
  cases hs : work s.bench with
  | ok x b =>
    cases ht : work t.bench with
    | ok y c =>
      rw [hs, ht] at hend
      refine ⟨hend.1, hE, ?_, hend.2⟩
      rw [h]
      rfl
    | error e c => simp [hs, ht, SameEnd] at hend
  | error d b =>
    cases ht : work t.bench with
    | ok y c => simp [hs, ht, SameEnd] at hend
    | error e c =>
      rw [hs, ht] at hend
      refine ⟨hend.1, hE, ?_, hend.2⟩
      rw [h]
      rfl

variable [Scalar α]

theorem Session.coupled_findMinimum (hE : E.IsDeterministic) (o : MigradOptions α) :
    Coupled (Session.Alike E) (Session.findMinimum o) := by
  refine (coupled_ofExcept _).bind fun _ => coupled_reportErrordef.bind fun _ => ?_
  refine Coupled.get_bind (fun s t h => by rw [h.2.1]; rfl) fun s t hs => ?_
  refine (coupled_ofExcept _).bind fun options => ?_
  refine (coupled_atBench (coupled_attempts (fun start => ?_) _ _ _)).bind fun (m, made) => ?_
  · rw [hs.1]
    exact hE s.cost start options
  · have tail : Coupled (Session.Alike E) (Session.reportForced m >>= fun _ => pure m) :=
      (Coupled.ite (coupled_warn _) (Coupled.pure _)).bind fun _ => Coupled.pure m
    exact Coupled.ite ((coupled_warn _).bind fun _ => tail) tail

/-- With a deterministic engine, minimizations of sessions that are alike end alike. -/
theorem Session.coupled_migrad (hE : E.IsDeterministic) (o : MigradOptions α) :
    Coupled (Session.Alike E) (Session.migrad o) := by
  refine (coupled_findMinimum hE o).bind fun m => Coupled.modify fun s t ⟨hs, h, hb⟩ => ?_
  refine ⟨hs, ?_, hb⟩
  rw [h]
  rfl

end Alike

variable [Scalar α]

/-! ## The initial state -/

/-- A minimization that succeeds freezes the initial state as it is. -/
theorem frozen_of_migrad {o : MigradOptions α} {s t : Session σ α}
    (h : Session.migrad o s = .ok () t) : t.frozen = true ∧ t.startState = s.startState := by
  obtain ⟨m, u, hm, h⟩ := bind_eq_ok.mp h
  cases h
  have hkept := (Session.beside_findMinimum o s).results
  rw [hm] at hkept
  refine ⟨rfl, ?_⟩
  rw [show SameResults s u from hkept]
  rfl

theorem frozen_afterAll {s : Session σ α} (h : s.frozen = true) (cs : List (Command α)) :
    (s.afterAll cs).frozen = true ∧ (s.afterAll cs).startState = s.startState :=
  Session.afterAll_related
    (R := fun s t => s.frozen = true → t.frozen = true ∧ t.startState = s.startState)
    (fun s c => (change_after s c).frozen) s cs h

/-! ## Resets -/

/-- What a reset always brings about. -/
structure IsReset (s : Session σ α) : Prop where
  current : s.currentState = s.startState
  fmin : s.fmin = none
  merrors : s.merrors = .empty
  nfcn : s.bench.nfcn = 0
  ngrad : s.bench.ngrad = 0

theorem isReset_after_reset (s : Session σ α) : IsReset (s.after .reset) :=
  ⟨rfl, rfl, rfl, rfl, rfl⟩

/-- The sessions differ at most in the settings, in warnings and what was reported, and in what the
engine remembers. -/
def SameButSettings (s t : Session σ α) : Prop :=
  t = { s with
    bench := { s.bench with up := t.bench.up, memory := t.bench.memory }, strategy := t.strategy,
    tol := t.tol, printLevel := t.printLevel, errordefSettled := t.errordefSettled,
    warnings := t.warnings }

/-- **Any two resets lead to the same session** but for the settings, once the initial state is
frozen. -/
theorem sameButSettings_of_resets {s : Session σ α} (h : s.frozen = true)
    (later later' : List (Command α)) :
    SameButSettings ((s.afterAll later).after .reset) ((s.afterAll later').after .reset) := by
  have hs := s.afterAll_sameSetup later
  have hs' := s.afterAll_sameSetup later'
  have hf := frozen_afterAll h later
  have hf' := frozen_afterAll h later'
  have hregistry := hs'.registry.trans hs.registry.symm
  have hcost := hs'.cost.trans hs.cost.symm
  have hengine := hs'.engine.trans hs.engine.symm
  have hstart := hf'.2.trans hf.2.symm
  have hfrozen := hf'.1.trans hf.1.symm
  generalize s.afterAll later = t at hregistry hcost hengine hstart hfrozen ⊢
  generalize s.afterAll later' = t' at hregistry hcost hengine hstart hfrozen ⊢
  rcases t with ⟨⟩
  rcases t' with ⟨⟩
  subst hregistry hcost hengine hstart hfrozen
  rfl

/-- The settings are the same. -/
structure SameSettings (s t : Session σ α) : Prop where
  errordef : t.errordef = s.errordef
  strategy : t.strategy = s.strategy
  tol : t.tol = s.tol
  printLevel : t.printLevel = s.printLevel

omit [Scalar α] in
theorem SameButSettings.alike {s t : Session σ α} (h : SameButSettings s t)
    (hsame : SameSettings s t) : Session.Alike s.engine s t := by
  unfold SameButSettings at h
  rw [hsame.strategy, hsame.tol, hsame.printLevel, show t.bench.up = s.bench.up from
    hsame.errordef] at h
  refine ⟨rfl, ?_, ?_⟩
  · rw [h]
    rfl
  · rw [h]
    rfl

/-- **The frozen initial state and resets.** Once a minimization of a session has succeeded, nothing
that is done later changes the initial state. A reset never fails; it makes the initial state the
current one, forgets all results and sets both counters to zero. Any two resets after that
minimization lead to the same session but for the settings; if these are the same as well and the
engine is deterministic, the next minimizations end in the same way, and leave sessions that only
differ in warnings and in what the engine remembers. -/
theorem frozen_start_and_resets {o : MigradOptions α} {s s₁ : Session σ α}
    (hfit : Session.migrad o s = .ok () s₁) :
    (∀ later, (s₁.afterAll later).startState = s.startState) ∧
      (∀ t : Session σ α, ∃ r, Session.reset t = .ok () r ∧ IsReset r ∧
        r.startState = t.startState) ∧
      ∀ later later',
        let r := (s₁.afterAll later).after .reset
        let r' := (s₁.afterAll later').after .reset
        SameButSettings r r' ∧
          (s.engine.IsDeterministic → SameSettings r r' → ∀ o',
            SameEnd (Session.Alike s.engine) (Session.migrad o' r) (Session.migrad o' r')) := by
  obtain ⟨hfrozen, hstart⟩ := frozen_of_migrad hfit
  refine ⟨fun later => ?_, fun t => ⟨_, rfl, isReset_after_reset t, rfl⟩, fun later later' => ?_⟩
  · rw [(frozen_afterAll hfrozen later).2, hstart]
  · have hsame := sameButSettings_of_resets hfrozen later later'
    refine ⟨hsame, fun hE hsettings o' => ?_⟩
    have hengine : ((s₁.afterAll later).after .reset).engine = s.engine := by
      have hchange := Session.change_migrad o s
      rw [hfit] at hchange
      exact (s₁.afterAll_sameSetup later).engine.trans hchange.sameSetup.engine
    exact Session.coupled_migrad hE o' _ _ (hengine ▸ hsame.alike hsettings)

/-- One reset after a fit of one parameter is like two. -/
theorem frozen_start_and_resets_oneParameter :
    ∃ s₀ s₁ : Session Unit Float,
      oneParameter.build sumOfSquares (quasiNewton .standard) () 0 = .ok s₀ ∧
        Session.migrad .standard s₀ = .ok () s₁ ∧
          (∀ later, (s₁.afterAll later).startState = s₀.startState) ∧
            ∀ o', SameEnd (Session.Alike s₀.engine) (Session.migrad o' (s₁.after .reset))
              (Session.migrad o' ((s₁.after .reset).after .reset)) := by
  obtain ⟨s₀, s₁, hbuild, hfit⟩ := exists_fit_oneParameter
  obtain ⟨hstart, -, hresets⟩ := frozen_start_and_resets hfit
  have hE : s₀.engine.IsDeterministic := by
    rw [(SessionSpec.fresh_of_build hbuild).engine]
    exact quasiNewtonWith_isDeterministic
  exact ⟨s₀, s₁, hbuild, hfit, hstart, (hresets [] [.reset]).2 hE ⟨rfl, rfl, rfl, rfl⟩⟩

end FitSession
