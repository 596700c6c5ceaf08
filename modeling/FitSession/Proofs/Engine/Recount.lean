import FitSession.Proofs.Coordinates.History
import FitSession.Proofs.Engine.Contract

/-!
# Work with other counters

The quasi-Newton engine reads the counters only to tell how many evaluations it has used itself.
What it gives does not hang on what was counted before.

* `Bench.Recounted`: benches with one errordef, at which as much has been counted since two given
  counts;
* `Problem.Replays`, `parallels_replays`: the same for the bench of a problem;
* `matching_quasiNewtonFit`, `matching_refineMinimum`: minimizations and covariances;
* `inStep_profileInterval`, `inStep_profileContour`: searches on profiles;
* `quasiNewtonWith_ignoresHistory`: **the engine ignores the history of its bench**.
-/

namespace FitSession

variable {σ α β : Type} {n n' : Nat}

/-! ## Benches -/

/-- The benches have the same errordef, and as many evaluations are counted since there were `n` at
the first and `n'` at the second one. -/
structure Bench.Recounted (n n' : Nat) (b c : Bench σ α) : Prop where
  up : c.up = b.up
  nfcn : c.nfcn + n = b.nfcn + n'

/-- What is counted from one point to another is the same at both benches. -/
theorem Bench.Recounted.used {b b' c c' : Bench σ α} (h : b.Recounted n n' c)
    (h' : b'.Recounted n n' c') : c'.nfcn - c.nfcn = b'.nfcn - b.nfcn := by
  have := h.nfcn
  have := h'.nfcn
  omega

/-- Work that only hangs on differences of counters does not hang on the counters. -/
theorem matching_sameUp {γ : Type} {V : β → γ → Prop} {x : Run σ α β} {y : Run σ α γ}
    (h : ∀ n n', Matching (Bench.Recounted n n') V x y) : Matching Bench.SameUp V x y := by
  intro b c hup
  have hstart : b.Recounted b.nfcn c.nfcn c := ⟨hup, Nat.add_comm _ _⟩
  exact (h b.nfcn c.nfcn b c hstart).mono fun _ _ h => h.up

theorem inStep_sameUp {x y : Run σ α β} (h : ∀ n n', InStep (Bench.Recounted n n') x y) :
    InStep Bench.SameUp x y :=
  matching_eq_iff.mp (matching_sameUp fun n n' => matching_eq_iff.mpr (h n n'))

theorem recounted_evaluate (cost : Cost α) (args : List α) :
    Coupled (Bench.Recounted n n') (cost.evaluate args : Run σ α α) := by
  refine inStep_evaluate (fun b c h => ⟨h.up, ?_⟩) cost args
  have := h.nfcn
  simp only
  omega

/-! ## Problems -/

/-- The benches remember the same, and otherwise only differ in what was counted before. -/
structure Problem.Replays (n n' : Nat) (b c : Bench (Best α) α) : Prop
    extends b.Recounted n n' c where
  memory : c.memory = b.memory

theorem parallels_replays [Scalar α] [Differences α] (p : Problem α) :
    Parallels p (Problem.Replays n n') where
  lowest h := by rw [h.memory]
  up h := h.up
  nfcn h h' := h.used h'.toRecounted
  noted {b c} theta h := by
    refine ⟨⟨h.up, ?_⟩, ?_⟩
    · have := h.nfcn
      simp only [Bench.noted]
      omega
    · simp only [Bench.noted, h.memory]
  differentiated h := ⟨⟨h.up, h.nfcn⟩, h.memory⟩

/-- Work that starts without a lowest point. -/
theorem inStep_withMemory {work : Run (Best α) α β}
    (h : Coupled (Problem.Replays n n') work) : Coupled (Bench.Recounted n n')
      (Run.withMemory (none : Best α) work : Run σ α (β × Best α)) := by
  intro b c hbc
  have hend := h ⟨b.up, b.nfcn, b.ngrad, none⟩ ⟨c.up, c.nfcn, c.ngrad, none⟩
    ⟨⟨hbc.up, hbc.nfcn⟩, rfl⟩
  unfold Run.withMemory
  cases hb : work ⟨b.up, b.nfcn, b.ngrad, none⟩ with
  | ok x b' =>
    rw [hb] at hend
    obtain ⟨c', hc, hend⟩ := hend.of_ok
    rw [hc]
    exact ⟨by rw [hend.memory], hend.up, hend.nfcn⟩
  | error e b' =>
    rw [hb] at hend
    obtain ⟨c', hc, hend⟩ := hend.of_error
    rw [hc]
    exact ⟨rfl, hend.up, hend.nfcn⟩

/-! ## Minimizations and covariances -/

variable [Scalar α] {choose : SolverOptions α → Solvers α} {solver : SolverOptions α}

theorem matching_fixedMinimum (cost : Cost α) (state : ParameterState α) (goal : α) :
    Matching (Bench.Recounted n n') FunctionMinimum.SameButCounts
      (fixedMinimum cost state goal : Run σ α _) (fixedMinimum cost state goal) := by
  refine Matching.inStep_bind (recounted_evaluate cost state.values) fun fval => ?_
  refine Matching.get_bind fun b c h => Matching.pure (FunctionMinimum.SameButCounts.refreshed ?_)
  simp only [FunctionMinimum.SameButCounts, h.up]

section Differentiated

variable [Differences α]

/-- A minimization with other counters is the same but for the counters. -/
theorem matching_quasiNewtonFit (cost : Cost α) (state : ParameterState α)
    (o : EngineOptions α) : Matching (Bench.Recounted n n') FunctionMinimum.SameButCounts
      (quasiNewtonFit choose solver cost state o : Run σ α _)
      (quasiNewtonFit choose solver cost state o) := by
  refine Matching.get_bind fun before before' hbefore => ?_
  rw [hbefore.up]
  refine Matching.ite (matching_fixedMinimum cost state _) ?_
  refine Matching.inStep_bind (inStep_withMemory ?_) fun ((fval, theta, curvature), _) => ?_
  · exact (parallels_replays _).inStep_searchMinimum _ state _ _ _
  · refine Matching.get_bind fun b c h => Matching.pure ?_
    refine FunctionMinimum.SameButCounts.refreshed ?_
    simp only [FunctionMinimum.SameButCounts, hbefore.used h]

theorem inStep_refineState (cost : Cost α) (state : ParameterState α) :
    Coupled (Bench.Recounted n n') (refineState cost state : Run σ α _) :=
  (inStep_withMemory ((parallels_replays _).inStep_curvature _ false)).bind fun _ => Coupled.pure _

theorem matching_refineMinimum (cost : Cost α) (callLimit : Option Nat) {m m' : FunctionMinimum α}
    (hm : m.SameButCounts m') : Matching (Bench.Recounted n n') FunctionMinimum.SameButCounts
      (refineMinimum cost m callLimit : Run σ α _) (refineMinimum cost m' callLimit) := by
  rw [hm]
  refine Matching.get_bind fun before before' hbefore => ?_
  refine Matching.inStep_bind (inStep_refineState cost m.state) fun (state, curvature) => ?_
  refine Matching.get_bind fun b c h => Matching.pure (FunctionMinimum.SameButCounts.refreshed ?_)
  simp only [FunctionMinimum.SameButCounts, hbefore.used h]

end Differentiated

/-! ## Searches on profiles -/

section Profiles

theorem inStep_searchCrossing {rise : α → Run σ α α}
    (h : ∀ t, Coupled (Bench.Recounted n n') (rise t)) {goal goal' : CrossingGoal α}
    (hgoal : goal' = { goal with nfcn := goal'.nfcn }) (hnfcn : goal'.nfcn + n = goal.nfcn + n') :
    ∀ fuel fence offset, InStep (Bench.Recounted n n')
      (searchCrossing rise goal fuel fence offset) (searchCrossing rise goal' fuel fence offset)
  | 0, _, offset => InStep.pure (Crossing.invalid offset)
  | fuel + 1, fence, offset => by
    refine InStep.bind (h offset) fun df => InStep.get_bind fun b c hbc => ?_
    have hused : callsSince goal'.nfcn c.nfcn = callsSince goal.nfcn b.nfcn := by
      have := hbc.nfcn
      unfold callsSince
      split_ifs <;> omega
    have ih := inStep_searchCrossing h hgoal hnfcn fuel
    rw [hused]
    rw [hgoal] at ih ⊢
    refine InStep.ite (InStep.pure _) (InStep.ite (InStep.pure _) (InStep.ite (InStep.pure _) ?_))
    exact InStep.ite (InStep.pure _) (InStep.ite (InStep.pure _) (ih _ _))

variable {fit : Fit σ α} (hfit : ∀ cost state o, Matching (Bench.Recounted n n')
  FunctionMinimum.SameButCounts (fit cost state o) (fit cost state o)) {m m' : FunctionMinimum α}
  (hm : m.SameButCounts m')
include hfit

theorem inStep_rise (p : Profile σ α) (hp : p.fit = fit) (offset : α) :
    Coupled (Bench.Recounted n n') (p.rise offset) := by
  subst hp
  refine InStep.bind (inStep_runOfExcept _) fun state => ?_
  refine (hfit _ _ _).bind_inStep fun found found' hfound => ?_
  rw [hfound]
  exact InStep.pure _

theorem inStep_risePlane (p : Plane σ α) (hp : p.fit = fit) (point : α × α) :
    Coupled (Bench.Recounted n n') (p.rise point) := by
  subst hp
  refine InStep.bind (inStep_runOfExcept _) fun atX => ?_
  refine InStep.bind (inStep_runOfExcept _) fun state => ?_
  refine (hfit _ _ _).bind_inStep fun found found' hfound => ?_
  rw [hfound]
  exact InStep.pure _

include hm

theorem inStep_crossingAt (cost : Cost α) (index : Nat) (sign : α) (o : EngineOptions α)
    (limit : Nat) : InStep (Bench.Recounted n n') (crossingAt fit cost m index sign o limit)
      (crossingAt fit cost m' index sign o limit) := by
  rw [hm]
  refine InStep.get_bind fun b c h => ?_
  dsimp only
  cases m.state.entry? index with
  | none => exact InStep.pure _
  | some entry =>
    refine InStep.bind (inStep_runOfExcept _) fun pinned => ?_
    rw [h.up]
    exact inStep_searchCrossing (inStep_rise hfit _ rfl) rfl h.nfcn _ _ _

/-- An interval is the same whatever was counted before. -/
theorem inStep_profileInterval (cost : Cost α) (index : Nat) (o : EngineOptions α) :
    InStep (Bench.Recounted n n') (profileInterval fit cost m index o)
      (profileInterval fit cost m' index o) := by
  have hcrossing := inStep_crossingAt hfit hm cost index
  rw [hm] at hcrossing ⊢
  refine InStep.get_bind fun before before' hbefore => ?_
  refine InStep.bind (inStep_runOfExcept _) fun entry => ?_
  refine (hcrossing _ o _).bind fun lo => InStep.get_bind fun between between' hbetween => ?_
  rw [hbefore.used hbetween]
  refine (hcrossing _ o _).bind fun hi => InStep.get_bind fun b c h => ?_
  rw [hbefore.used h]
  exact InStep.pure _

omit hfit hm in
theorem inStep_searchRay {rise : α → Run σ α α}
    (h : ∀ t, Coupled (Bench.Recounted n n') (rise t)) (up room : α) :
    ∀ fuel fence t, Coupled (Bench.Recounted n n') (searchRay rise up room fuel fence t)
  | 0, _, _ => InStep.pure none
  | fuel + 1, fence, t => by
    refine InStep.bind (h t) fun df => InStep.ite (InStep.pure _) (InStep.ite (InStep.pure _) ?_)
    exact inStep_searchRay h up room fuel _ _

/-- A contour line is the same whatever was counted before. -/
theorem inStep_profileContour (cost : Cost α) (ix iy count : Nat) (o : EngineOptions α) :
    InStep (Bench.Recounted n n') (profileContour fit cost m ix iy count o)
      (profileContour fit cost m' ix iy count o) := by
  rw [hm]
  refine InStep.bind (inStep_runOfExcept _) fun _ => InStep.bind (inStep_runOfExcept _) fun _ => ?_
  unfold contourPoints
  dsimp only
  split
  · refine InStep.get_bind fun b c h => ?_
    rw [h.up]
    refine InStep.bind (inStep_runOfExcept _) fun first => ?_
    refine InStep.bind (inStep_runOfExcept _) fun pinned => ?_
    refine InStep.bind (InStep.mapM (fun heading => ?_) _) fun found => InStep.pure _
    refine InStep.bind (inStep_searchRay (fun t => ?_) _ _ _ _ _) fun t => InStep.pure _
    exact inStep_risePlane hfit _ rfl _
  · exact InStep.pure _

end Profiles

/-! ## The engine -/

/-- **The engine ignores the history of its bench**, with any solvers and any differences. -/
theorem quasiNewtonWith_ignoresHistory [Differences α] :
    (quasiNewtonWith choose solver : Engine σ α).IgnoresHistory where
  migrad cost start o := matching_sameUp fun _ _ => matching_quasiNewtonFit cost start o
  refinement cost limit := Refinement.inStep_ofRun fun _ _ hm =>
    matching_sameUp fun _ _ => matching_refineMinimum cost limit hm
  hesseState cost state _ := inStep_sameUp fun _ _ =>
    InStep.bind (inStep_refineState cost state) fun _ => InStep.pure _
  minos cost _ _ index o hm := inStep_sameUp fun _ _ =>
    inStep_profileInterval matching_quasiNewtonFit hm cost index o
  contourLine cost _ _ ix iy count o hm := inStep_sameUp fun _ _ =>
    inStep_profileContour matching_quasiNewtonFit hm cost ix iy count o

end FitSession
