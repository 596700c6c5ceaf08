import FitSession.Proofs.Coordinates.History

/-!
# The evaluations of a fit

At which arguments a fit evaluates its cost, from its first step to its last: in the search for the
lowest point and in the differences that give the curvature there. A fit itself only remembers the
lowest value; a search that remembers all evaluations runs beside it.

* `fitSearch`, `traces_fitSearch`: the search of a fit, with a memory of any kind;
* `endState_quasiNewtonFit`: the bench that a fit leaves is that of its search;
* `fitArguments`, `nfcn_quasiNewtonFit`: **the arguments of all evaluations of a fit**, as many as
  are counted;
* `refinementArguments`, `nfcn_refineState`: the same for the covariance of a state.
-/

namespace FitSession

variable {σ μ α : Type} [Scalar α] [Differences α] [Memory μ α]
  (choose : SolverOptions α → Solvers α) (solver : SolverOptions α) (cost : Cost α)
  (state : ParameterState α) (o : EngineOptions α)

/-! ## The search -/

/-- The search of a fit at a given errordef, with a memory of any kind. -/
def fitSearch (up : α) : Run μ α (α × List α × Option (Curvature α)) :=
  let map := ParameterMap.ofState state
  let adapted := solver.adaptedTo (edmGoal o.tolerance up) o.precision
  searchMinimum ⟨cost, map⟩ (choose adapted) state adapted.gradientTolerance
    (o.callLimit.getD (standardCallLimit map.nFree)) (cost.hasGrad && o.strategy != .careful)

/-- The search of a fit goes on beside the same search that remembers everything. -/
theorem traces_fitSearch (b : Bench σ α) :
    SameEnd (Traces ⟨cost, .ofState state⟩ b.nfcn)
      (fitSearch choose solver cost state o b.up ⟨b.up, b.nfcn, b.ngrad, ([] : History α)⟩)
      (fitSearch choose solver cost state o b.up ⟨b.up, b.nfcn, b.ngrad, (none : Best α)⟩) :=
  (parallels_traces ⟨cost, .ofState state⟩ b.nfcn).inStep_searchMinimum _ state _ _ _ _ _
    (Traces.start _ b.up b.nfcn b.ngrad)

variable {state} in
/-- The bench that a fit leaves is that of its search, but for the memory. -/
theorem endState_quasiNewtonFit (hfree : (ParameterMap.ofState state).nFree ≠ 0) (b : Bench σ α) :
    endState (quasiNewtonFit choose solver cost state o b) =
      let c := endState (fitSearch choose solver cost state o b.up
        ⟨b.up, b.nfcn, b.ngrad, (none : Best α)⟩)
      ⟨c.up, c.nfcn, c.ngrad, b.memory⟩ := by
  unfold quasiNewtonFit
  rw [get_bind_apply, if_neg hfree]
  exact endState_withMemory_bind (fun r => Keeps.get_bind fun c => Keeps.pure _) b

/-! ## Arguments -/

/-- The arguments at which a fit from a bench evaluates its cost, in their order. -/
def fitArguments (b : Bench σ α) : List (List α) :=
  let map := ParameterMap.ofState state
  if map.nFree = 0 then [state.values]
  else
    let history : History α := (endState (fitSearch choose solver cost state o b.up
      ⟨b.up, b.nfcn, b.ngrad, []⟩)).memory
    history.map fun e => map.toExternal e.1

/-- A fit evaluates its cost as often as it counts. -/
theorem nfcn_quasiNewtonFit (b : Bench σ α) :
    (endState (quasiNewtonFit choose solver cost state o b)).nfcn =
      b.nfcn + (fitArguments choose solver cost state o b).length := by
  by_cases hfree : (ParameterMap.ofState state).nFree = 0
  · unfold quasiNewtonFit fitArguments
    rw [get_bind_apply, if_pos hfree, if_pos hfree]
    change (endState ((cost.evaluate state.values >>= _) b)).nfcn = _
    unfold Cost.evaluate
    cases cost.value state.values <;> rfl
  · have htraces := (traces_fitSearch choose solver cost state o b).endState
    rw [endState_quasiNewtonFit choose solver cost o hfree, fitArguments, if_neg hfree,
      htraces.same]
    simp only [List.length_map]
    exact htraces.counted

theorem endState_refineState (b : Bench σ α) :
    endState (refineState cost state b) =
      let map := ParameterMap.ofState state
      let c := endState (Problem.curvature ⟨cost, map⟩ (map.toInternal state) false
        ⟨b.up, b.nfcn, b.ngrad, (none : Best α)⟩)
      ⟨c.up, c.nfcn, c.ngrad, b.memory⟩ := by
  unfold refineState
  exact endState_withMemory_bind (fun r => Keeps.pure _) b

/-- The arguments at which the cost is evaluated for the covariance of a state, in their order. -/
def refinementArguments (b : Bench σ α) : List (List α) :=
  let map := ParameterMap.ofState state
  let history : History α := (endState (Problem.curvature ⟨cost, map⟩ (map.toInternal state) false
    ⟨b.up, b.nfcn, b.ngrad, []⟩)).memory
  history.map fun e => map.toExternal e.1

/-- For a covariance, the cost is evaluated as often as is counted. -/
theorem nfcn_refineState (b : Bench σ α) :
    (endState (refineState cost state b)).nfcn =
      b.nfcn + (refinementArguments cost state b).length := by
  have htraces := ((parallels_traces ⟨cost, .ofState state⟩ b.nfcn).inStep_curvature
    ((ParameterMap.ofState state).toInternal state) false _ _
    (Traces.start _ b.up b.nfcn b.ngrad)).endState
  rw [endState_refineState, refinementArguments]
  extract_lets map c
  rw [show c = _ from htraces.same]
  simp only [List.length_map]
  exact htraces.counted

end FitSession
