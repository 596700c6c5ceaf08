import FitSession.Proofs.Coordinates.Map
import FitSession.Proofs.Coordinates.Problem
import FitSession.Proofs.Engine.Contract
import FitSession.Proofs.Engine.Profile

/-!
# The quasi-Newton engine keeps the rules

This is so whatever its solvers and its differences ask for. Only a covariance is known to have a
row for each free parameter because they stay in a space.

* `steady_searchMinimum`, `returns_searchMinimum`: a search, and the curvature where it ends;
* `quasiNewtonWith_keepsErrordef`, `quasiNewtonWith_followsErrordef`: **the engine leaves the
  errordef**, and marks minima with it;
* `StayInSpaces`, `Remeasured`, `quasiNewtonWith_respects`: **what the engine makes of a state** is
  that state with new numbers and a new covariance;
* `quasiNewtonWith_keepsLength`, `quasiNewtonWith_refinesWhole`, `quasiNewtonWith_isDeterministic`:
  the other rules.
-/

namespace FitSession

variable {σ α : Type} [Scalar α] [Differences α] {choose : SolverOptions α → Solvers α}
  {solver : SolverOptions α}

/-! ## The end of a search -/

section Search

variable {p : Problem α} {solvers : Solvers α} {state : ParameterState α} {I : List α → Prop}

theorem steady_searchMinimum (hI : IsSpace I) (hsolvers : solvers.StayWithin I)
    (h : I (p.map.start state)) (tolerance : α) (callLimit : Nat) (useGradient : Bool) :
    Keeps (Steady I) (searchMinimum p solvers state tolerance callLimit useGradient) := by
  refine (Problem.steady_minimize hI hsolvers h state tolerance callLimit).bind fun _ => ?_
  refine Keeps.get_bind_of fun b hb => ?_
  cases hm : b.memory with
  | none => exact Keeps.throw (R := Steady I) _
  | some best =>
    have htheta := hb best.1 best.2 hm
    exact (Problem.steady_curvature hI htheta useGradient).bind fun c => Keeps.pure _

/-- At some point of the set `I`, the curvature of the problem is `c`. -/
def Problem.Measures (p : Problem α) (I : List α → Prop) (c : Option (Curvature α)) : Prop :=
  ∃ theta useGradient, ∃ b b' : Bench (Best α) α,
    I theta ∧ p.curvature theta useGradient b = .ok c b'

/-- The curvature that a search gives is that of its lowest point. -/
theorem returns_searchMinimum (hI : IsSpace I) (hsolvers : solvers.StayWithin I)
    (h : I (p.map.start state)) (tolerance : α) (callLimit : Nat) (useGradient : Bool) :
    Returns (fun r => p.Measures I r.1.2.2) (Run.withMemory (none : Best α)
      (searchMinimum p solvers state tolerance callLimit useGradient) : Run σ α _) := by
  refine returns_withMemory (β := α × List α × Option (Curvature α))
    (P := fun r => p.Measures I r.2.2) fun b r b' hmemory hr => ?_
  obtain ⟨_, b₁, hminimize, hr⟩ := bind_eq_ok.mp hr
  have hsteady := Problem.steady_minimize (p := p) hI hsolvers h state tolerance callLimit
  have hb₁ := (hsteady.of_ok hminimize fun _ _ hb => by simp [hmemory] at hb).1
  rw [get_bind_apply] at hr
  cases hm : b₁.memory with
  | none =>
    rw [show Memory.lowest b₁.memory = none from hm] at hr
    cases hr
  | some best =>
    rw [show Memory.lowest b₁.memory = some best from hm] at hr
    obtain ⟨c, _, hcurvature, hr⟩ := bind_eq_ok.mp hr
    cases hr
    exact ⟨best.2, useGradient, b₁, b', hb₁ _ _ hm, hcurvature⟩

end Search

/-! ## The errordef -/

theorem onward_quasiNewtonFit (cost : Cost α) (state : ParameterState α) (o : EngineOptions α) :
    Keeps Bench.Onward (quasiNewtonFit choose solver cost state o : Run σ α _) := by
  refine Keeps.get_bind fun before => Keeps.ite ?_ ?_
  · exact (keeps_evaluate _ _).bind fun fval => Keeps.get_bind fun b => Keeps.pure _
  · refine (onward_withMemory_none (I := fun _ => True) ?_).bind fun _ =>
      Keeps.get_bind fun b => Keeps.pure _
    exact steady_searchMinimum isSpace_all (Solvers.stayWithin_all _) trivial _ _ _

theorem onward_refineState (cost : Cost α) (state : ParameterState α) :
    Keeps Bench.Onward (refineState cost state : Run σ α _) := by
  refine (onward_withMemory_none (I := fun _ => True) ?_).bind fun _ => Keeps.pure _
  exact Problem.steady_curvature isSpace_all trivial false

theorem onward_refineMinimum (cost : Cost α) (m : FunctionMinimum α) (callLimit : Option Nat) :
    Keeps Bench.Onward (refineMinimum cost m callLimit : Run σ α _) :=
  Keeps.get_bind fun _ => (onward_refineState cost m.state).bind fun _ =>
    Keeps.get_bind fun _ => Keeps.pure _

/-- The engine leaves the errordef and goes on counting. -/
theorem quasiNewtonWith_movesOn : (quasiNewtonWith choose solver : Engine σ α).MovesOn where
  migrad := onward_quasiNewtonFit
  refinement cost callLimit :=
    Refinement.bench_ofRun fun m => onward_refineMinimum cost m callLimit
  hesseState cost state _ := (onward_refineState cost state).bind fun _ => Keeps.pure _
  minos := keeps_profileInterval onward_quasiNewtonFit
  contourLine := keeps_profileContour onward_quasiNewtonFit

/-- **The engine leaves the errordef.** -/
theorem quasiNewtonWith_keepsErrordef :
    (quasiNewtonWith choose solver : Engine σ α).KeepsErrordef :=
  quasiNewtonWith_movesOn.keepsErrordef

/-- A minimum is marked with the errordef at the bench where the fit began. -/
theorem up_quasiNewtonFit {cost : Cost α} {state : ParameterState α} {o : EngineOptions α}
    {b b' : Bench σ α} {m : FunctionMinimum α}
    (h : quasiNewtonFit choose solver cost state o b = .ok m b') : m.up = b.up := by
  change (MonadState.get >>= _ : Run σ α _) b = _ at h
  rw [get_bind_apply] at h
  extract_lets goal map at h
  split at h
  · obtain ⟨fval, c, hfval, h⟩ := bind_eq_ok.mp h
    obtain ⟨_, _, hget, h⟩ := bind_eq_ok.mp h
    cases hget
    cases h
    exact (keeps_evaluate (R := Bench.SameUp) cost state.values).of_ok hfval
  · exact Returns.bind_right (Q := fun m => m.up = b.up)
      (fun _ => Returns.get_bind fun _ => Returns.pure rfl) _ _ _ h

theorem up_refineMinimum (cost : Cost α) (m : FunctionMinimum α) (callLimit : Option Nat) :
    Returns (fun refined => refined.up = m.up) (refineMinimum cost m callLimit : Run σ α _) :=
  Returns.get_bind fun _ => Returns.bind_right fun _ => Returns.get_bind fun _ => Returns.pure rfl

/-- **Its minima say with which errordef they were found.** -/
theorem quasiNewtonWith_followsErrordef :
    (quasiNewtonWith choose solver : Engine σ α).FollowsErrordef where
  toKeepsErrordef := quasiNewtonWith_keepsErrordef
  up_migrad := up_quasiNewtonFit
  up_refinement cost callLimit := Refinement.up_ofRun fun m => up_refineMinimum cost m callLimit

/-! ## What is made of a state -/

/-- A state at an internal point, with what a curvature tells. -/
def ParameterState.movedTo (state : ParameterState α) (theta : List α)
    (c : Option (Curvature α)) : ParameterState α :=
  (state.overwriteValues state.freeIndices
    ((ParameterMap.ofState state).freeValues theta)).withCurvature state.freeIndices c

omit [Differences α] in
/-- Without coordinates, a state stays where it is. -/
theorem movedTo_nil (state : ParameterState α) (c : Option (Curvature α)) :
    state.movedTo [] c = state.withCurvature state.freeIndices c := by
  rw [ParameterState.movedTo, ParameterMap.freeValues, List.zipWith_nil_right,
    ParameterState.overwriteValues_nil]

/-- In the `n`th space of a family are the points of `n` coordinates, and solvers and differences
stay there. -/
structure StayInSpaces (choose : SolverOptions α → Solvers α) (I : Nat → List α → Prop) :
    Prop where
  isSpace : ∀ n, IsSpace (I n)
  start : ∀ {n : Nat} {theta : List α}, theta.length = n → I n theta
  solvers : ∀ n o, (choose o).StayWithin (I n)

omit [Scalar α] in
/-- All points are a space for any solvers and differences. -/
theorem stayInSpaces_all (choose : SolverOptions α → Solvers α) :
    StayInSpaces choose fun _ _ => True where
  isSpace _ := isSpace_all
  start _ := trivial
  solvers _ o := (choose o).stayWithin_all

/-- What the engine makes of a state: that state at an internal point, with the errors and the
covariance of a curvature. Without a free parameter the covariance is the empty one. -/
inductive Remeasured (I : Nat → List α → Prop) (cost : Cost α) (s : ParameterState α) :
    ParameterState α → Prop
  | fixed (h : s.nFree = 0) : Remeasured I cost s (s.withCovariance (some ⟨[]⟩))
  | free (theta : List α) {c : Option (Curvature α)}
    (hc : Problem.Measures ⟨cost, .ofState s⟩ (I s.nFree) c) :
      Remeasured I cost s (s.movedTo theta c)

section Remeasured

variable {I : Nat → List α → Prop} (h : StayInSpaces choose I)

include h

theorem remeasured_quasiNewtonFit (cost : Cost α) (state : ParameterState α)
    (o : EngineOptions α) : Returns (fun m => Remeasured I cost state m.state)
      (quasiNewtonFit choose solver cost state o : Run σ α _) := by
  refine Returns.get_bind fun before => ?_
  extract_lets goal map
  split
  · rename_i hfixed
    refine Returns.bind_right fun _ => Returns.get_bind fun _ => Returns.pure ?_
    exact .fixed ((ParameterMap.nFree_ofState state).symm.trans hfixed)
  · refine Returns.bind (returns_searchMinimum (h.isSpace state.nFree) (h.solvers _ _) ?_ _ _ _)
      fun _ hc => Returns.get_bind fun _ => Returns.pure (.free _ hc)
    exact h.start (ParameterMap.length_start state state)

theorem remeasured_refineState (cost : Cost α) (state : ParameterState α) :
    Returns (fun r => Remeasured I cost state r.1) (refineState cost state : Run σ α _) := by
  have hmeasured : Returns (fun r => Problem.Measures ⟨cost, .ofState state⟩ (I state.nFree) r.1)
      (Run.withMemory (none : Best α) (Problem.curvature ⟨cost, .ofState state⟩
        ((ParameterMap.ofState state).toInternal state) false) : Run σ α _) :=
    returns_withMemory fun b _ b' _ hc =>
      ⟨_, false, b, b', h.start (ParameterMap.length_toInternal state state), hc⟩
  refine hmeasured.bind fun _ hc => Returns.pure ?_
  have hmoved := Remeasured.free [] hc
  rwa [movedTo_nil] at hmoved

theorem remeasured_refineMinimum (cost : Cost α) (m : FunctionMinimum α)
    (callLimit : Option Nat) :
    Returns (fun refined => Remeasured I cost m.state refined.state)
      (refineMinimum cost m callLimit : Run σ α _) :=
  Returns.get_bind fun _ => (remeasured_refineState h cost m.state).bind fun _ hr =>
    Returns.get_bind fun _ => Returns.pure hr

/-- **What the engine makes of a state is that state with new numbers**, and with the covariance of
its free parameters. -/
theorem quasiNewtonWith_respects {cost : Cost α} {P : ParameterState α → Prop}
    (hP : ∀ s t, P s → Remeasured I cost s t → P t) :
    (quasiNewtonWith choose solver : Engine σ α).Respects cost P where
  migrad start o hs b m b' hm := hP _ _ hs (remeasured_quasiNewtonFit h cost start o b m b' hm)
  refinement callLimit := Refinement.keeps_ofRun fun m hs b refined b' hm =>
    hP _ _ hs (remeasured_refineMinimum h cost m callLimit b refined b' hm)
  hesseState state _ hs :=
    (remeasured_refineState h cost state).bind fun _ hr => Returns.pure fun _ ht =>
      Option.some.inj ht ▸ hP _ _ hs hr

end Remeasured

omit [Differences α] in
theorem ParameterState.flags_withCurvature (s : ParameterState α) (free : List Nat)
    (c : Option (Curvature α)) : (s.withCurvature free c).flags = s.flags := by
  cases c with
  | none => rfl
  | some c => exact s.flags_overwriteErrors free _

omit [Differences α] in
theorem ParameterState.flags_movedTo (s : ParameterState α) (theta : List α)
    (c : Option (Curvature α)) : (s.movedTo theta c).flags = s.flags := by
  rw [movedTo, flags_withCurvature, flags_overwriteValues]

/-- New numbers fix or free no parameter. -/
theorem Remeasured.flags {I : Nat → List α → Prop} {cost : Cost α} {s t : ParameterState α}
    (h : Remeasured I cost s t) : t.flags = s.flags := by
  cases h with
  | fixed => rfl
  | free theta => exact ParameterState.flags_movedTo s theta _

theorem quasiNewtonWith_keepsLength : (quasiNewtonWith choose solver : Engine σ α).KeepsLength :=
  fun _ _ => quasiNewtonWith_respects (stayInSpaces_all choose) fun _ _ hs h =>
    (ParameterState.len_congr h.flags).trans hs

/-- A covariance is stored as a whole or not at all. -/
theorem quasiNewtonWith_refinesWhole :
    (quasiNewtonWith choose solver : Engine σ α).RefinesWhole := by
  intro cost limit b m e b' m' h
  change Refinement.ofRun (fun m => refineMinimum cost m limit) (b, m) = _ at h
  exact Refinement.ofRun_eq_error h

/-! ## Determinism -/

omit [Differences α] in
theorem coupled_fixedMinimum (cost : Cost α) (state : ParameterState α) (goal : α) :
    Coupled Bench.Alike (fixedMinimum cost state goal : Run σ α (FunctionMinimum α)) :=
  (coupled_evaluate cost state.values).bind fun _ =>
    Coupled.get_bind (fun b b' h => by rw [h]) fun _ _ _ => Coupled.pure _

/-- The engine remembers nothing from call to call. -/
theorem quasiNewtonWith_isDeterministic :
    (quasiNewtonWith choose solver : Engine σ α).IsDeterministic := by
  intro cost state o
  refine Coupled.get_bind (fun b b' h => by rw [h]) fun before _ _ => ?_
  refine Coupled.ite (coupled_fixedMinimum _ _ _) ?_
  refine (coupled_withMemory _ _).bind fun ((fval, theta, curvature), _) => ?_
  exact Coupled.get_bind (fun b b' h => by rw [h]) fun b _ _ => Coupled.pure _

end FitSession
