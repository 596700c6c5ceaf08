import FitSession.Proofs.Engine.Contract
import FitSession.Proofs.Session.ScanValues

/-!
# Work that leaves the results of a session

Most of what is done with a session only counts evaluations, records warnings, or notes that the
errordef was reported. What happens at the bench is up to the engine, or to the session where it
hands out a scaled errordef.

* `SameResults`, `SameSetup`: sessions that differ at most in that; they have the same cost,
  parameters and engine;
* `Reports`: sessions of which the second has more warnings, and among them at most one report of a
  missing errordef;
* `Beside`, `Aside`: both, and a relation between the benches, for sessions with a given engine;
* `aside_atBench` and others: the parts of the actions that work aside;
* `aside_profile`, `aside_minimizedProfile`, `aside_contour`, `aside_contourLine`: **scans leave the
  results of a session**.
-/

namespace FitSession

variable {σ α β γ : Type}

/-- The sessions differ at most in the bench, the warnings and what was reported. -/
def SameResults (s t : Session σ α) : Prop :=
  t = { s with bench := t.bench, errordefSettled := t.errordefSettled, warnings := t.warnings }

instance : Chains (SameResults : Session σ α → Session σ α → Prop) where
  refl _ := rfl
  trans hst htu := by
    unfold SameResults at *
    rw [htu, hst]

theorem SameResults.currentState_eq {s t : Session σ α} (h : SameResults s t) :
    t.currentState = s.currentState := by
  rw [h]
  rfl

/-- The sessions have the same cost, parameters and engine. -/
structure SameSetup (s t : Session σ α) : Prop where
  registry : t.registry = s.registry
  cost : t.cost = s.cost
  engine : t.engine = s.engine

theorem SameResults.sameSetup {s t : Session σ α} (h : SameResults s t) : SameSetup s t := by
  rw [h]
  exact ⟨rfl, rfl, rfl⟩

instance : Chains (SameSetup : Session σ α → Session σ α → Prop) where
  refl _ := ⟨rfl, rfl, rfl⟩
  trans h₁ h₂ :=
    ⟨h₂.registry.trans h₁.registry, h₂.cost.trans h₁.cost, h₂.engine.trans h₁.engine⟩

/-! ## Warnings -/

/-- Whether a warning is the report of a missing errordef. -/
def Warning.isErrordefUnset : Warning α → Bool
  | .errordefUnset => true
  | _ => false

/-- How many of the warnings report a missing errordef. -/
def unsetReports (ws : List (Warning α)) : Nat := ws.countP (·.isErrordefUnset)

@[simp] theorem unsetReports_nil : unsetReports ([] : List (Warning α)) = 0 := rfl

@[simp] theorem unsetReports_append (ws vs : List (Warning α)) :
    unsetReports (ws ++ vs) = unsetReports ws + unsetReports vs := List.countP_append

/-- How often a session may still report a missing errordef. -/
def Session.reportsLeft (s : Session σ α) : Nat := if s.errordefSettled then 0 else 1

/-- The second session has more warnings at the end, and its reports of a missing errordef are taken
from those that were left to the first one. -/
def Reports (s t : Session σ α) : Prop :=
  ∃ ws, t.warnings = s.warnings ++ ws ∧ unsetReports ws + t.reportsLeft ≤ s.reportsLeft

theorem Reports.of_same {s t : Session σ α} (hw : t.warnings = s.warnings)
    (h : t.errordefSettled = s.errordefSettled) : Reports s t :=
  ⟨[], by rw [hw, List.append_nil], by simp [Session.reportsLeft, h]⟩

instance : Chains (Reports : Session σ α → Session σ α → Prop) where
  refl s := .of_same rfl rfl
  trans hst htu := by
    obtain ⟨ws, hws, hleft⟩ := hst
    obtain ⟨vs, hvs, hleft'⟩ := htu
    refine ⟨ws ++ vs, by rw [hvs, hws, List.append_assoc], ?_⟩
    rw [unsetReports_append]
    omega

/-! ## Work on the side -/

/-- The second session is the first one after work on the side: it has the same results, it may have
more warnings, and its bench is related to that of the first one. -/
structure Beside (R : Bench σ α → Bench σ α → Prop) (s t : Session σ α) : Prop where
  results : SameResults s t
  bench : R s.bench t.bench
  reports : Reports s t

/-- What work with the engine `E` may do on the side. -/
def Aside (E : Engine σ α) (R : Bench σ α → Bench σ α → Prop) (s t : Session σ α) : Prop :=
  s.engine = E → Beside R s t

variable {E : Engine σ α} {R : Bench σ α → Bench σ α → Prop}

instance [hR : Chains R] : Chains (Beside R) where
  refl s := ⟨rfl, hR.refl _, Chains.refl s⟩
  trans hst htu :=
    ⟨Chains.trans hst.results htu.results, hR.trans hst.bench htu.bench,
      Chains.trans hst.reports htu.reports⟩

instance [hR : Chains R] : Chains (Aside E R) where
  refl s _ := Chains.refl s
  trans hst htu hs := Chains.trans (hst hs) (htu (by rw [(hst hs).results]; exact hs))

/-- Another bench is a matter on the side. -/
theorem Beside.withBench {s t : Session σ α} (h : Beside R s t) {b : Bench σ α}
    (hb : R s.bench b) : Beside R s { t with bench := b } := by
  refine ⟨?_, hb, h.reports⟩
  rw [h.results]
  rfl

/-! ## Parts of actions -/

/-- Work that reads the session first, and knows its engine then. -/
theorem aside_get_bind {f : Session σ α → Action σ α β}
    (hf : ∀ s, s.engine = E → Keeps (Aside E R) (f s)) :
    Keeps (Aside E R) (MonadState.get >>= f) := Keeps.get_bind_of hf

theorem aside_atBench {work : Run σ α β} (h : Keeps R work) :
    Keeps (Aside E R) (Action.atBench work) := by
  intro s _
  unfold Action.atBench
  cases hw : work s.bench with
  | ok x bench => exact ⟨rfl, h.of_ok hw, .of_same rfl rfl⟩
  | error e bench => exact ⟨rfl, h.of_error hw, .of_same rfl rfl⟩

theorem reportErrordef_apply (s : Session σ α) :
    Action.reportErrordef s =
      .ok () (if s.errordefSettled then s
        else { s with
          errordefSettled := true, warnings := s.warnings ++ [Warning.errordefUnset] }) := by
  change (if _ then _ else _ : Action σ α Unit) s = _
  cases h : s.errordefSettled <;> rfl

/-- What a session has to report before it uses an errordef. -/
def Session.unsetReport (s : Session σ α) : List (Warning α) :=
  if s.errordefSettled then [] else [.errordefUnset]

/-- The session after that report. -/
def Session.reported (s : Session σ α) : Session σ α :=
  { s with errordefSettled := true, warnings := s.warnings ++ s.unsetReport }

theorem reportErrordef_eq (s : Session σ α) : Action.reportErrordef s = .ok () s.reported := by
  rw [reportErrordef_apply, Session.reported, Session.unsetReport]
  cases h : s.errordefSettled
  · rfl
  · rw [if_pos rfl, if_pos rfl, List.append_nil, ← h]

section

variable [hR : Chains R]

theorem aside_ofExcept (x : Except (FitError α) β) :
    Keeps (Aside E R) (Action.ofExcept x : Action σ α β) := by
  cases x with
  | ok b => exact Keeps.pure b
  | error e => exact Keeps.throw e

/-- Any other warning than the report of a missing errordef. -/
theorem aside_warn {w : Warning α} (h : w.isErrordefUnset = false) :
    Keeps (Aside E R) (Action.warn w : Action σ α Unit) := by
  refine keeps_modify fun s _ => ⟨rfl, hR.refl _, [w], rfl, ?_⟩
  change unsetReports [w] + s.reportsLeft ≤ s.reportsLeft
  simp [unsetReports, h]

theorem aside_reportErrordef : Keeps (Aside E R) (Action.reportErrordef : Action σ α Unit) := by
  intro s _
  rw [reportErrordef_apply]
  cases h : s.errordefSettled with
  | true => exact ⟨rfl, hR.refl _, .of_same rfl rfl⟩
  | false =>
    refine ⟨rfl, hR.refl _, [.errordefUnset], rfl, ?_⟩
    simp [unsetReports, Warning.isErrordefUnset, Session.reportsLeft, h]

theorem aside_storedMinimum (operation : String) :
    Keeps (Aside E R) (Action.storedMinimum operation : Action σ α (FunctionMinimum α)) := by
  refine aside_get_bind fun s _ => ?_
  cases s.fmin with
  | some m => exact Keeps.pure m
  | none => exact Keeps.throw _

theorem aside_validMinimum (operation : String) :
    Keeps (Aside E R) (Action.validMinimum operation : Action σ α (FunctionMinimum α)) :=
  (aside_storedMinimum operation).bind fun m => Keeps.ite (Keeps.pure m) (Keeps.throw _)

end

/-! ## Scans -/

namespace Session

section

variable [Chains R]

theorem aside_reportForced (m : FunctionMinimum α) :
    Keeps (Aside E R) (reportForced m : Action σ α Unit) :=
  Keeps.ite (aside_warn rfl) (Keeps.pure _)

theorem aside_reportInaccurate (bound : Bound α) :
    Keeps (Aside E R) (reportInaccurate bound : Action σ α Unit) := by
  cases bound with
  | sigma n => exact aside_get_bind fun s _ => Keeps.ite (aside_warn rfl) (Keeps.pure _)
  | range lower upper => exact Keeps.pure _

variable [Scalar α]

theorem aside_scanGrid (index bins : Nat) (bound : Bound α) :
    Keeps (Aside E R) (scanGrid index bins bound : Action σ α (List α)) := by
  unfold scanGrid
  refine Keeps.guard (aside_get_bind fun s _ => ?_)
  refine (aside_ofExcept _).bind fun e => (aside_reportInaccurate bound).bind fun _ => ?_
  exact Keeps.ite (Keeps.pure _) (Keeps.throw _)

theorem aside_scanBaseline (subtractMin : Bool) :
    Keeps (Aside E R) (scanBaseline subtractMin : Action σ α α) :=
  Keeps.ite ((aside_storedMinimum _).bind fun _ => Keeps.pure _) (Keeps.pure _)

/-- A scan of minimized values leaves the results of a session. -/
theorem aside_minimizedProfile (hE : ∀ cost start o, Keeps R (E.migrad cost start o)) (key : Key)
    (bins : Nat) (bound : Bound α) (subtractMin : Bool) :
    Keeps (Aside E R)
      (minimizedProfile key bins bound subtractMin : Action σ α (MinimizedProfile α)) := by
  refine aside_get_bind fun s hs => (aside_ofExcept _).bind fun index => ?_
  refine (aside_scanGrid index bins bound).bind fun x => aside_reportErrordef.bind fun _ => ?_
  refine (aside_ofExcept _).bind fun options => (aside_ofExcept _).bind fun base => ?_
  refine (aside_atBench ?_).bind fun minima => ?_
  · subst hs
    exact Keeps.mapM (fun xi => (keeps_runOfExcept _).bind fun state => hE _ _ _) x
  · exact (Keeps.forM (fun _ => Keeps.ite (aside_warn rfl) (Keeps.pure _)) _).bind fun _ =>
      Keeps.pure _

/-- A search for a contour line leaves the results of a session. -/
theorem aside_contourLine (keyX keyY : Key) (points : Nat) (sigma : α)
    (h : ∀ (s : Session σ α) m ix iy o, s.engine = E →
      Keeps R (Run.withScaledUp (sigma * sigma) (s.lineWithErrors m ix iy points o))) :
    Keeps (Aside E R) (contourLine keyX keyY points sigma : Action σ α (ContourLine α)) := by
  refine (aside_ofExcept _).bind fun _ => Keeps.guard (aside_get_bind fun s hs => ?_)
  refine (aside_ofExcept _).bind fun ix => (aside_ofExcept _).bind fun iy => Keeps.guard ?_
  refine (aside_validMinimum _).bind fun m => (aside_ofExcept _).bind fun _ => ?_
  refine (aside_ofExcept _).bind fun _ => aside_reportErrordef.bind fun _ => ?_
  exact (aside_ofExcept _).bind fun options => aside_atBench (h s m ix iy options hs)

end

variable [Scalar α] [IgnoresCounts R]

theorem keeps_valuesAlong (s : Session σ α) (offset : α) (args : α → List α) (x : List α) :
    Keeps R (s.valuesAlong offset args x) :=
  Keeps.mapM (fun _ => (keeps_evaluate _ _).bind fun _ => Keeps.pure _) x

/-- A scan of values leaves the results of a session. -/
theorem aside_profile (key : Key) (bins : Nat) (bound : Bound α) (subtractMin : Bool) :
    Keeps (Aside E R) (profile key bins bound subtractMin : Action σ α (ProfileTable α)) := by
  refine (aside_scanBaseline subtractMin).bind fun offset => aside_get_bind fun s _ => ?_
  refine (aside_ofExcept _).bind fun index => (aside_scanGrid index bins bound).bind fun x => ?_
  refine (aside_atBench ?_).bind fun fval => Keeps.pure _
  rw [run'_valuesOver]
  exact keeps_valuesAlong s offset _ x

/-- A scan of a grid leaves the results of a session. -/
theorem aside_contour (keyX keyY : Key) (bins : Nat) (boundX boundY : Bound α)
    (subtractMin : Bool) :
    Keeps (Aside E R)
      (contour keyX keyY bins boundX boundY subtractMin : Action σ α (GridTable α)) := by
  refine (aside_scanBaseline subtractMin).bind fun offset => aside_get_bind fun s _ => ?_
  refine (aside_ofExcept _).bind fun ix => (aside_ofExcept _).bind fun iy => Keeps.guard ?_
  refine (aside_scanGrid ix bins boundX).bind fun xs =>
    (aside_scanGrid iy bins boundY).bind fun ys => ?_
  refine (aside_atBench ?_).bind fun fval => Keeps.pure _
  rw [run'_rowsOver]
  exact Keeps.mapM (fun x => keeps_valuesAlong s offset _ ys) xs

end Session
end FitSession
