import FitSession.Engine.QuasiNewton
import FitSession.Proofs.Derivative
import FitSession.Proofs.Minimizer.Solvers

/-!
# The space of a problem

If the solvers and the differences stay in a space, a problem is only ever asked at its points, so
that the lowest point that is remembered is one of them as well.

* `Steady`: work that leaves the errordef, and the lowest point in its space, and goes on counting;
* `Problem.steady_value`, `Problem.steady_gradient`: questions;
* `Problem.steady_answer`, `Problem.returns_answer`: **a search that stays in the space**;
* `Problem.steady_minimize`, `Problem.steady_curvature`: minimizations and curvatures.
-/

namespace FitSession

variable {α β : Type} {I : List α → Prop}

/-- The lowest point, if there is one, is in the set `I`. -/
def Best.IsIn (I : List α → Prop) (best : Best α) : Prop :=
  ∀ x theta, best = some (x, theta) → I theta

/-- Work that leaves the errordef, goes on counting and, if the lowest point was in the set `I`,
leaves one that is. -/
def Steady (I : List α → Prop) (b b' : Bench (Best α) α) : Prop :=
  Best.IsIn I b.memory → Best.IsIn I b'.memory ∧ b.Onward b'

instance : IgnoresCounts (Steady I : Bench (Best α) α → Bench (Best α) α → Prop) where
  refl b hb := ⟨hb, Chains.refl b⟩
  trans hst htu hs := by
    obtain ⟨ht, hup⟩ := hst hs
    obtain ⟨hu, hup'⟩ := htu ht
    exact ⟨hu, Chains.trans hup hup'⟩
  evaluated b hb := ⟨hb, IgnoresCounts.evaluated b⟩
  differentiated b hb := ⟨hb, IgnoresCounts.differentiated b⟩

/-- Work that starts without a lowest point leaves the errordef and goes on counting. -/
theorem onward_withMemory_none {σ : Type} {work : Run (Best α) α β} (h : Keeps (Steady I) work) :
    Keeps Bench.Onward (Run.withMemory none work : Run σ α (β × Best α)) := by
  intro b
  have hb := (h ⟨b.up, b.nfcn, b.ngrad, none⟩ (fun _ _ hnone => nomatch hnone)).2
  unfold Run.withMemory
  cases hw : work ⟨b.up, b.nfcn, b.ngrad, none⟩ with
  | ok x after =>
    rw [hw] at hb
    exact ⟨hb.up, hb.nfcn, hb.ngrad⟩
  | error e after =>
    rw [hw] at hb
    exact ⟨hb.up, hb.nfcn, hb.ngrad⟩

variable [Scalar α]

/-- The lowest value after one more is the new one, or the one that was known. -/
theorem Best.record_cases (best : Best α) (x : α) (theta : List α) :
    best.record x theta = some (x, theta) ∨
      ∃ found, best = some found ∧ best.record x theta = some found := by
  cases best with
  | none => exact .inl rfl
  | some found =>
    unfold record
    dsimp only
    split
    · exact .inr ⟨found, rfl, rfl⟩
    · exact .inl rfl

theorem Best.isIn_record {best : Best α} {theta : List α} (hb : Best.IsIn I best)
    (h : I theta) (x : α) : Best.IsIn I (Best.record best x theta) := by
  intro y t hy
  rcases best.record_cases x theta with hnew | ⟨found, hbest, hold⟩
  · rw [hnew] at hy
    cases hy
    exact h
  · rw [hold, ← hbest] at hy
    exact hb y t hy

theorem Best.isIn_note {best : Best α} {theta : List α} (hb : Best.IsIn I best)
    (h : I theta) (answer : Except (FitError α) α) :
    Best.IsIn I (Memory.note best theta answer) := by
  cases answer with
  | ok x => exact Best.isIn_record hb h x
  | error e => exact hb

namespace Problem

variable [Differences α] {p : Problem α} {theta : List α}

/-! ## Questions -/

omit [Differences α] in
theorem steady_value (h : I theta) : Keeps (Steady I) (p.value theta) := by
  refine (keeps_attempt (keeps_evaluate _ _)).bind fun answer => ?_
  refine (keeps_modify fun b hb => ⟨?_, rfl, Nat.le_refl _, Nat.le_refl _⟩).bind fun _ =>
    keeps_runOfExcept _
  exact Best.isIn_note hb h (answer >>= finiteCost)

theorem steady_differenceGradient (hI : IsSpace I) (h : I theta) :
    Keeps (Steady I) (p.differenceGradient theta) := by
  have hsample (t : List α) (ht : I t) : Keeps (Steady I) (p.value t).attempt :=
    keeps_attempt (steady_value ht)
  refine (keeps_checkedSlopes hsample (hI.central h) _).bind fun central => ?_
  cases central with
  | ok g => exact Keeps.pure g
  | error e =>
    refine (keeps_checkedSlopes hsample (hI.forward h) _).bind fun forward => ?_
    exact keeps_runOfExcept forward

omit [Differences α] in
theorem steady_givenGradient : Keeps (Steady I) (p.givenGradient theta) :=
  (keeps_differentiate _ _).bind fun _ => Keeps.guard (Keeps.pure _)

theorem steady_gradient (hI : IsSpace I) (h : I theta) :
    Keeps (Steady I) (p.gradient theta) := by
  refine Keeps.ite ?_ (steady_differenceGradient hI h)
  refine (keeps_attempt steady_givenGradient).bind fun given => ?_
  cases given with
  | ok g => exact (keeps_runOfExcept _).bind fun _ => Keeps.pure g
  | error e => cases e <;> first | exact steady_differenceGradient hI h | exact Keeps.throw _

section Lengths

variable {μ : Type} [Memory μ α]

theorem returns_differenceGradient :
    Returns (fun g => g.length = theta.length ∧ ∀ x ∈ g, Scalar.isFinite x = true)
      (p.differenceGradient theta : Run μ α _) := by
  refine (returns_checkedSlopes _ _ _).bind fun central hcentral => ?_
  cases central with
  | ok g => exact Returns.pure (hcentral g rfl)
  | error e => exact (returns_checkedSlopes _ _ _).bind fun _ h => returns_runOfExcept h

/-- A gradient has a finite component for each coordinate. -/
theorem returns_gradient :
    Returns (fun g => g.length = theta.length ∧ ∀ x ∈ g, Scalar.isFinite x = true)
      (p.gradient theta : Run μ α _) := by
  refine Returns.ite (Returns.bind_right fun given => ?_) returns_differenceGradient
  cases given with
  | ok g =>
    refine Returns.bind (P := fun _ => g.length = theta.length ∧ ∀ x ∈ g, Scalar.isFinite x = true)
      ?_ fun _ h => Returns.pure h
    exact returns_runOfExcept fun _ h => checkGradient_eq_ok.mp h
  | error e => cases e <;> first | exact returns_differenceGradient | exact Returns.throw _

/-- Second derivatives have a row for each coordinate. -/
theorem returns_hessian (useGradient : Bool) :
    Returns (fun r => ∀ h, r = .ok h → h.nrows = theta.length)
      (p.hessian theta useGradient : Run μ α _) :=
  Returns.ite (returns_hessianOfGradients _ _) (returns_attempt (returns_hessianOfValues _ _))

end Lengths

/-! ## Searches -/

/-- A search that stays in the space keeps the lowest point there. -/
theorem steady_answer (hI : IsSpace I) {P : β → Prop} {s : Search α β} (h : s.StaysWithin I P) :
    Keeps (Steady I) (p.answer s) := by
  induction s with
  | done x => exact Keeps.pure x
  | fail fault => exact Keeps.throw _
  | askValue theta next ih =>
    exact (keeps_attempt (steady_value h.1)).bind fun x => ih _ (h.2 _)
  | askGradient theta next ih =>
    refine (keeps_attempt (steady_gradient hI h.1)).bind_of (returns_attempt returns_gradient) ?_
    refine fun g hg => ih _ (h.2 _ fun v hv => ?_)
    cases g with
    | ok w => exact Except.ok.inj hv ▸ (hg w rfl).1
    | error e => cases hv

/-- What a search gives that stays in the space has the property of its results. -/
theorem returns_answer {μ : Type} [Memory μ α] {P : β → Prop} {s : Search α β}
    (h : s.StaysWithin I P) : Returns P (p.answer s : Run μ α β) := by
  induction s with
  | done x => exact Returns.pure h
  | fail fault => exact Returns.throw _
  | askValue theta next ih => exact Returns.bind_right fun x => ih _ (h.2 _)
  | askGradient theta next ih =>
    refine (returns_attempt returns_gradient).bind fun g hg => ih _ (h.2 _ fun v hv => ?_)
    cases g with
    | ok w => exact Except.ok.inj hv ▸ (hg w rfl).1
    | error e => cases hv

/-! ## Minimizations -/

section Minimizations

variable {solvers : Solvers α} {start : List α}

omit [Differences α] in
/-- The lowest point may be used as one of the space. -/
theorem steady_bestPoint_bind {otherwise : List α} {f : List α → Run (Best α) α β}
    (h : I otherwise) (hf : ∀ t, I t → Keeps (Steady I) (f t)) :
    Keeps (Steady I) (bestPoint otherwise >>= f) := by
  intro b hb
  refine hf (b.memory.elim otherwise (·.2)) ?_ b hb
  cases hm : b.memory with
  | none => exact h
  | some best => exact hb best.1 best.2 hm

theorem steady_isFlatAt (hI : IsSpace I) (h : I theta) (tolerance : α) :
    Keeps (Steady I) (p.isFlatAt theta tolerance) := by
  refine (keeps_attempt (steady_gradient hI h)).bind fun g => ?_
  cases g with
  | ok g => exact Keeps.pure _
  | error e => exact Keeps.pure _

theorem steady_descend (hI : IsSpace I) (hsolvers : solvers.StayWithin I) (h : I start)
    (tolerance : α) (limit : Nat) : Keeps (Steady I) (p.descend solvers start tolerance limit) := by
  have hdescent := hsolvers.descent start limit h
  refine (keeps_attempt (steady_answer hI hdescent)).bind_of
    (returns_attempt (returns_answer hdescent)) fun r hr => ?_
  cases r with
  | ok outcome =>
    exact steady_bestPoint_bind (hr outcome rfl) fun t ht => steady_isFlatAt hI ht _
  | error e => exact Keeps.pure false

theorem steady_fallBack (hI : IsSpace I) (hsolvers : solvers.StayWithin I) (h : I start)
    (state : ParameterState α) (limit : Nat) :
    Keeps (Steady I) (p.fallBack solvers state start limit) := by
  refine steady_bestPoint_bind h fun theta htheta => ?_
  extract_lets steps
  refine (keeps_runOfExcept _).bind_of (returns_runOfExcept fun _ hsearch => hsearch) ?_
  intro search hsearch
  refine (keeps_attempt (steady_answer hI (hsolvers.fallback htheta hsearch))).bind fun r => ?_
  cases r with
  | ok outcome => exact Keeps.pure _
  | error e => exact Keeps.get_bind fun b => Keeps.ite (Keeps.throw e) (Keeps.pure _)

theorem steady_minimize (hI : IsSpace I) (hsolvers : solvers.StayWithin I) (h : I start)
    (state : ParameterState α) (tolerance : α) (callLimit : Nat) :
    Keeps (Steady I) (p.minimize solvers state start tolerance callLimit) := by
  refine Keeps.get_bind fun before => (steady_value h).bind fun _ => ?_
  refine (steady_gradient hI h).bind fun g => Keeps.ite (Keeps.pure _) ?_
  refine (steady_descend hI hsolvers h tolerance _).bind fun flat => Keeps.ite (Keeps.pure _) ?_
  exact Keeps.get_bind fun b => steady_fallBack hI hsolvers h state _

theorem steady_hessian (hI : IsSpace I) (h : I theta) (useGradient : Bool) :
    Keeps (Steady I) (p.hessian theta useGradient) := by
  refine Keeps.ite (keeps_hessianOfGradients (fun t ht => ?_) rfl) (keeps_attempt ?_)
  · refine (keeps_attempt (steady_gradient hI (hI.congr h ht))).bind fun g => ?_
    cases g with
    | ok g => exact Keeps.pure g
    | error e => exact Keeps.pure _
  · exact keeps_hessianOfValues (fun t ht => steady_value (hI.congr h ht)) rfl

theorem steady_curvature (hI : IsSpace I) (h : I theta) (useGradient : Bool) :
    Keeps (Steady I) (p.curvature theta useGradient) := by
  refine (steady_hessian hI h useGradient).bind fun r => ?_
  cases r with
  | error e => exact Keeps.ite (Keeps.pure _) (Keeps.throw e)
  | ok m =>
    dsimp only
    cases invertCurvature m with
    | none => exact Keeps.pure _
    | some inv =>
      refine (keeps_attempt (steady_gradient hI h)).bind fun g => ?_
      cases g with
      | ok g => exact Keeps.get_bind fun b => Keeps.pure _
      | error e => exact Keeps.get_bind fun b => Keeps.pure _

end Minimizations

end Problem
end FitSession
