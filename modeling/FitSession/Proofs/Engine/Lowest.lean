import FitSession.Proofs.Coordinates.History
import FitSession.Proofs.Covariance.Alignment
import FitSession.Proofs.Session.Built

/-!
# The lowest point of a fit

A fit reports the lowest value that it met, with its point, whatever its solvers ask for.

* `minimizationPhase`, `historyOf`: the work of a fit up to its lowest point, and the history of
  that work;
* `parts_of_fit`, `exists_lowest_of_fit`, `fixed_of_fit`: the parts of a fit that succeeded;
* `exists_fit_of_parts`: a fit from its parts;
* `FunctionMinimum.IsLowestOf`, `FunctionMinimum.KeepsParameters`: what is reported;
* `fit_reports_lowest`: **every fit of free parameters reports the lowest of its values**.
-/

namespace FitSession

variable {σ μ α : Type} [Scalar α] [Differences α] [Memory μ α]
  {choose : SolverOptions α → Solvers α} {solver : SolverOptions α} {cost : Cost α}
  {state : ParameterState α} {o : EngineOptions α}

/-! ## The minimization phase -/

/-- The work of a fit up to its lowest point, with a memory of any kind. -/
def minimizationPhase (choose : SolverOptions α → Solvers α) (solver : SolverOptions α)
    (cost : Cost α) (state : ParameterState α) (o : EngineOptions α) (up : α) : Run μ α Unit :=
  let map := ParameterMap.ofState state
  let adapted := solver.adaptedTo (edmGoal o.tolerance up) o.precision
  Problem.minimize ⟨cost, map⟩ (choose adapted) state (map.start state) adapted.gradientTolerance
    (o.callLimit.getD (standardCallLimit map.nFree))

/-- The bench after the minimization phase of a fit, with a memory that starts empty. -/
def afterMinimization (choose : SolverOptions α → Solvers α) (solver : SolverOptions α)
    (cost : Cost α) (state : ParameterState α) (o : EngineOptions α) (b : Bench σ α)
    (memory : μ) : Bench μ α :=
  endState (minimizationPhase choose solver cost state o b.up ⟨b.up, b.nfcn, b.ngrad, memory⟩)

/-- The bench after the minimization phase of a fit that notes all of its evaluations. -/
def historyOf (choose : SolverOptions α → Solvers α) (solver : SolverOptions α)
    (cost : Cost α) (state : ParameterState α) (o : EngineOptions α) (b : Bench σ α) : History α :=
  (afterMinimization choose solver cost state o b ([] : History α)).memory

/-- The engine works with the lowest value only, and does what it would do with all of them. -/
theorem traces_afterMinimization (choose : SolverOptions α → Solvers α)
    (solver : SolverOptions α) (cost : Cost α) (state : ParameterState α) (o : EngineOptions α)
    (b : Bench σ α) :
    Traces ⟨cost, .ofState state⟩ b.nfcn
      (afterMinimization choose solver cost state o b ([] : History α))
      (afterMinimization choose solver cost state o b (none : Best α)) := by
  have hparallels := parallels_traces (⟨cost, .ofState state⟩ : Problem α) b.nfcn
  exact (hparallels.inStep_minimize _ _ _ _ _ _ _ (Traces.start _ b.up b.nfcn b.ngrad)).endState

/-- Solvers and differences that stay in the space lead to a point with a coordinate for each free
parameter. -/
theorem steady_minimizationPhase (hspace : IsSpace fun theta : List α => theta.length = state.nFree)
    (hchoose : ∀ s, (choose s).StayIn state.nFree) (up : α) :
    Keeps (Steady fun theta => theta.length = state.nFree)
      (minimizationPhase choose solver cost state o up) :=
  Problem.steady_minimize hspace (hchoose _) (ParameterMap.length_start state state) state _ _

/-- The parts of a fit that succeeded: the lowest point, and the curvature there. -/
theorem parts_of_fit {b b' : Bench σ α} {m : FunctionMinimum α} (hfree : 0 < state.nFree)
    (h : quasiNewtonFit choose solver cost state o b = .ok m b') :
    ∃ theta c b₁ b₂,
      minimizationPhase choose solver cost state o b.up ⟨b.up, b.nfcn, b.ngrad, none⟩ =
        .ok () b₁ ∧
      b₁.memory = some (m.fval, theta) ∧
      Problem.curvature ⟨cost, .ofState state⟩ theta (cost.hasGrad && o.strategy != .careful) b₁ =
        .ok c b₂ ∧
      m.state = state.movedTo theta c ∧ m.hasMadePosdefCovar = c.elim false (·.madePosdef) ∧
      m.edm = c.elim Scalar.inf (·.edm) := by
  unfold quasiNewtonFit at h
  rw [get_bind_apply] at h
  have hnot : ¬(ParameterMap.ofState state).nFree = 0 := by
    rw [ParameterMap.nFree_ofState]
    omega
  rw [if_neg hnot] at h
  obtain ⟨⟨⟨fval, theta, c⟩, best⟩, b₃, hsearch, h⟩ := bind_eq_ok.mp h
  cases h
  unfold Run.withMemory at hsearch
  split at hsearch
  · rename_i r b₂ hwork
    cases hsearch
    obtain ⟨_, b₁, hminimize, hwork⟩ := bind_eq_ok.mp hwork
    rw [get_bind_apply] at hwork
    cases hmemory : b₁.memory with
    | none =>
      rw [hmemory] at hwork
      cases hwork
    | some found =>
      rw [hmemory] at hwork
      obtain ⟨c, b₂, hcurvature, hwork⟩ := bind_eq_ok.mp hwork
      cases hwork
      exact ⟨found.2, c, b₁, b₂, hminimize, hmemory, hcurvature, rfl, rfl, rfl⟩
  · cases hsearch

/-- A fit whose parts succeed does so. -/
theorem exists_fit_of_parts {b : Bench σ α} {b₁ b₂ : Bench (Best α) α} {fval : α}
    {theta : List α} {c : Option (Curvature α)} (hfree : 0 < state.nFree)
    (hphase : minimizationPhase choose solver cost state o b.up ⟨b.up, b.nfcn, b.ngrad, none⟩ =
      .ok () b₁) (hmemory : b₁.memory = some (fval, theta))
    (hcurvature : Problem.curvature ⟨cost, .ofState state⟩ theta
      (cost.hasGrad && o.strategy != .careful) b₁ = .ok c b₂) :
    ∃ m b', quasiNewtonFit choose solver cost state o b = .ok m b' ∧
      m.hasMadePosdefCovar = c.elim false (·.madePosdef) := by
  have hnot : ¬(ParameterMap.ofState state).nFree = 0 := by
    rw [ParameterMap.nFree_ofState]
    omega
  let adapted := solver.adaptedTo (edmGoal o.tolerance b.up) o.precision
  let limit := o.callLimit.getD (standardCallLimit (ParameterMap.ofState state).nFree)
  have hwork : searchMinimum ⟨cost, .ofState state⟩ (choose adapted) state
      adapted.gradientTolerance limit (cost.hasGrad && o.strategy != .careful)
      ⟨b.up, b.nfcn, b.ngrad, (none : Best α)⟩ = .ok (fval, theta, c) b₂ := by
    unfold searchMinimum
    refine (bind_of_ok hphase _).trans ?_
    rw [get_bind_apply, hmemory]
    dsimp only [Memory.lowest, id]
    rw [bind_of_ok hcurvature]
    rfl
  have hsearch : Run.withMemory (none : Best α) (searchMinimum ⟨cost, .ofState state⟩
      (choose adapted) state adapted.gradientTolerance limit
      (cost.hasGrad && o.strategy != .careful)) b =
        .ok ((fval, theta, c), b₂.memory) ⟨b₂.up, b₂.nfcn, b₂.ngrad, b.memory⟩ := by
    unfold Run.withMemory
    rw [hwork]
  unfold quasiNewtonFit
  rw [get_bind_apply, if_neg hnot]
  exact ⟨_, _, bind_of_ok hsearch _, rfl⟩

theorem exists_lowest_of_fit {b b' : Bench σ α} {m : FunctionMinimum α} (hfree : 0 < state.nFree)
    (h : quasiNewtonFit choose solver cost state o b = .ok m b') :
    ∃ theta c useGradient b₁ b₂,
      minimizationPhase choose solver cost state o b.up ⟨b.up, b.nfcn, b.ngrad, none⟩ =
        .ok () b₁ ∧
      b₁.memory = some (m.fval, theta) ∧
      Problem.curvature ⟨cost, .ofState state⟩ theta useGradient b₁ = .ok c b₂ ∧
      m.state = state.movedTo theta c := by
  obtain ⟨theta, c, b₁, b₂, hphase, hmemory, hcurvature, hstate, -⟩ := parts_of_fit hfree h
  exact ⟨theta, c, _, b₁, b₂, hphase, hmemory, hcurvature, hstate⟩

/-- Without free parameters, a fit is one evaluation. -/
theorem fixed_of_fit {b b' : Bench σ α} {m : FunctionMinimum α} (hfixed : state.nFree = 0)
    (h : quasiNewtonFit choose solver cost state o b = .ok m b') :
    cost.value state.values = .ok m.fval ∧ m.state = state.withCovariance (some ⟨[]⟩) := by
  unfold quasiNewtonFit at h
  rw [get_bind_apply, if_pos ((ParameterMap.nFree_ofState state).trans hfixed)] at h
  obtain ⟨fval, b₁, hevaluate, h⟩ := bind_eq_ok.mp h
  cases h
  refine ⟨?_, rfl⟩
  unfold Cost.evaluate at hevaluate
  rw [bind_apply] at hevaluate
  cases hvalue : cost.value state.values with
  | error e =>
    rw [hvalue] at hevaluate
    cases hevaluate
  | ok x =>
    rw [hvalue] at hevaluate
    cases hevaluate
    rfl

/-! ## What is reported -/

/-- The value that is reported is the lowest one of a history, and that of the cost at the values
that are reported. -/
structure FunctionMinimum.IsLowestOf (m : FunctionMinimum α) (cost : Cost α)
    (state : ParameterState α) (history : History α) : Prop where
  finite : Scalar.isFinite m.fval = true
  value : cost.value m.state.values = .ok m.fval
  met : ∃ theta, (theta, .ok m.fval) ∈ history ∧
    (ParameterMap.ofState state).toExternal theta = m.state.values
  least : ∀ e ∈ history, ∀ x,
    cost.value ((ParameterMap.ofState state).toExternal e.1) = .ok x →
      Scalar.isFinite x = true → ¬x < m.fval

/-- The state that is reported has the parameters of another one. Only values and errors of free
parameters may be new, and the errors are those of the covariance if there is one. -/
structure FunctionMinimum.KeepsParameters (m : FunctionMinimum α) (state : ParameterState α) :
    Prop where
  len : m.state.len = state.len
  fixed : ∀ (i : Nat) (e : Entry α), state.entries[i]? = some e → e.isFixed = true →
    m.state.entries[i]? = some e
  free : ∀ (i : Nat) (e : Entry α), state.entries[i]? = some e → e.isFixed = false →
    ∃ e', m.state.entries[i]? = some e' ∧ e'.fixed = e.fixed ∧ e'.limit = e.limit
  error : ∀ c, m.state.covariance = some c → ∀ k i, state.freeIndices[k]? = some i →
    k < c.nrows → ∃ e, m.state.entries[i]? = some e ∧
      e.error = Scalar.sqrt (Scalar.maxNum (c.get k k) 0)

section State

omit [Differences α]

variable (state) (theta : List α) (c : Option (Curvature α))

/-- The values at an internal point are those that the cost gets there. -/
theorem values_movedTo :
    (state.movedTo theta c).values = (ParameterMap.ofState state).toExternal theta := by
  have hvalues := state.values_overwriteValues state.freeIndices
    ((ParameterMap.ofState state).freeValues theta)
  cases c with
  | none => exact hvalues
  | some c => exact (ParameterState.values_overwriteErrors _ _ _).trans hvalues

theorem entries_movedTo_none : (state.movedTo theta none).entries =
    ParameterState.updateAt (fun e value => { e with value }) state.entries state.freeIndices
      ((ParameterMap.ofState state).freeValues theta) := rfl

theorem entries_movedTo_some (c : Curvature α) : (state.movedTo theta (some c)).entries =
    ParameterState.updateAt (fun e error => { e with error }) (state.movedTo theta none).entries
      state.freeIndices (c.external.diagonal.map fun v => Scalar.sqrt (Scalar.maxNum v 0)) := rfl

theorem getElem?_movedTo_of_not_mem {i : Nat} (hi : i ∉ state.freeIndices) :
    (state.movedTo theta c).entries[i]? = state.entries[i]? := by
  have hvalues : (state.movedTo theta none).entries[i]? = state.entries[i]? := by
    rw [entries_movedTo_none, ParameterState.getElem?_updateAt_of_not_mem hi]
  cases c with
  | none => exact hvalues
  | some c => rw [entries_movedTo_some, ParameterState.getElem?_updateAt_of_not_mem hi, hvalues]

/-- The flags and the limits stay what they were. -/
theorem settings_movedTo : (state.movedTo theta c).entries.map (fun e => (e.fixed, e.limit)) =
    state.entries.map fun e => (e.fixed, e.limit) := by
  have hvalues : (state.movedTo theta none).entries.map (fun e => (e.fixed, e.limit)) =
      state.entries.map fun e => (e.fixed, e.limit) := by
    rw [entries_movedTo_none]
    exact ParameterState.map_updateAt (by intros; rfl) _ _ _
  cases c with
  | none => exact hvalues
  | some c =>
    rw [← hvalues, entries_movedTo_some]
    exact ParameterState.map_updateAt (by intros; rfl) _ _ _

theorem len_movedTo : (state.movedTo theta c).len = state.len := by
  simpa [ParameterState.len] using congrArg List.length (settings_movedTo state theta c)

/-- The error of a free parameter is that of its diagonal element. -/
theorem error_movedTo {c : Curvature α} {k i : Nat} (hi : state.freeIndices[k]? = some i)
    (hk : k < c.external.nrows) : ∃ e, (state.movedTo theta (some c)).entries[i]? = some e ∧
      e.error = Scalar.sqrt (Scalar.maxNum (c.external.get k k) 0) := by
  have hdiagonal : (c.external.diagonal.map fun v => Scalar.sqrt (Scalar.maxNum v 0))[k]? =
      some (Scalar.sqrt (Scalar.maxNum (c.external.get k k) 0)) := by
    simp [DenseMatrix.diagonal, hk]
  have hlen : i < (state.movedTo theta none).len := by
    rw [len_movedTo]
    exact ParameterState.lt_of_mem_freeIndices (List.mem_of_getElem? hi)
  rw [entries_movedTo_some,
    ParameterState.getElem?_updateAt state.nodup_freeIndices hi hdiagonal,
    List.getElem?_eq_getElem hlen, Option.map_some]
  exact ⟨_, rfl, rfl⟩

end State

omit [Differences α] in
theorem keepsParameters_of_movedTo {m : FunctionMinimum α} {theta : List α}
    {c : Option (Curvature α)} (h : m.state = state.movedTo theta c) : m.KeepsParameters state where
  len := h ▸ len_movedTo state theta c
  fixed i e he hfixed := by
    rw [h, getElem?_movedTo_of_not_mem state theta c, he]
    rw [ParameterState.mem_freeIndices, ParameterState.flags, List.getElem?_map, he]
    simp [hfixed]
  free i e he hfree := by
    have hsettings := congrArg (·[i]?) (settings_movedTo state theta c)
    simp only [List.getElem?_map, he, Option.map_some, Option.map_eq_some_iff] at hsettings
    obtain ⟨e', he', heq⟩ := hsettings
    obtain ⟨hfixed, hlimit⟩ := Prod.ext_iff.mp heq
    exact ⟨e', h ▸ he', hfixed, hlimit⟩
  error c' hc' k i hi hk := by
    cases c with
    | none =>
      rw [h] at hc'
      cases hc'
    | some c =>
      rw [h] at hc'
      cases hc'
      rw [h]
      exact error_movedTo state theta hi hk

/-- The covariance of a fit has a row for each free parameter. -/
theorem isSquare_movedTo {theta : List α} {c : Option (Curvature α)}
    (hc : Problem.Measures ⟨cost, .ofState state⟩ (fun theta => theta.length = state.nFree) c) :
    ∀ v, (state.movedTo theta c).covariance = some v → v.IsSquare state.nFree := by
  intro v hv
  cases c with
  | none => cases hv
  | some c =>
    cases hv
    exact isSquare_of_measures hc

/-- **Every fit of free parameters reports the lowest of its values**, whatever its solvers and its
differences ask for. If these stay in the space of the free parameters, the covariance has a row
for each of them. -/
theorem fit_reports_lowest [OrderedScalar α] {b b' : Bench σ α} {m : FunctionMinimum α}
    (hfree : 0 < state.nFree)
    (h : (quasiNewtonWith choose solver).migrad cost state o b = .ok m b') :
    Traces ⟨cost, .ofState state⟩ b.nfcn
        (afterMinimization choose solver cost state o b ([] : History α))
        (afterMinimization choose solver cost state o b (none : Best α)) ∧
      m.IsLowestOf cost state (historyOf choose solver cost state o b) ∧
      m.KeepsParameters state ∧
      (IsSpace (fun theta : List α => theta.length = state.nFree) →
        (∀ s, (choose s).StayIn state.nFree) →
        ∀ c, m.state.covariance = some c → c.IsSquare state.nFree) := by
  obtain ⟨theta, c, useGradient, b₁, b₂, hphase, hmemory, hcurvature, hstate⟩ :=
    exists_lowest_of_fit hfree h
  have htraces := traces_afterMinimization choose solver cost state o b
  have hend : afterMinimization choose solver cost state o b (none : Best α) = b₁ := by
    rw [afterMinimization, hphase, endState_ok]
  have hlowest := htraces.isLowest (hend ▸ hmemory)
  have hvalue := Problem.valueAt_eq_ok.mp (htraces.answers _ hlowest.mem).symm
  have hvalues : m.state.values = (ParameterMap.ofState state).toExternal theta := by
    rw [hstate, values_movedTo]
  refine ⟨htraces, ⟨hvalue.2, ?_, ⟨theta, hlowest.mem, hvalues.symm⟩, ?_⟩,
    keepsParameters_of_movedTo hstate, fun hspace hchoose => ?_⟩
  · rw [hvalues]
    exact hvalue.1
  · intro e he x hx hfinite
    rw [OrderedScalar.not_lt hvalue.2 hfinite]
    exact hlowest.least e he x
      ((htraces.answers e he).trans (Problem.valueAt_eq_ok.mpr ⟨hx, hfinite⟩))
  · have hsteady := (steady_minimizationPhase hspace hchoose b.up).of_ok hphase
    have htheta : theta.length = state.nFree :=
      (hsteady fun _ _ hnone => nomatch hnone).1 _ _ hmemory
    rw [hstate]
    exact isSquare_movedTo ⟨theta, useGradient, b₁, b₂, htheta, hcurvature⟩

/-- The state with one parameter at 1. -/
def startOfOne : ParameterState Float := .ofEntries [.free 1 0.1]

theorem fit_reports_lowest_startOfOne : ∃ (m : FunctionMinimum Float) (b' : Bench Unit Float),
    0 < startOfOne.nFree ∧
      (quasiNewton .standard).migrad sumOfSquares startOfOne .default (.fresh 1 ()) = .ok m b' ∧
      m.IsLowestOf sumOfSquares startOfOne
        (historyOf SolverOptions.solvers .standard sumOfSquares startOfOne .default
          (.fresh 1 () : Bench Unit Float)) ∧
      m.KeepsParameters startOfOne ∧
      ∀ c, m.state.covariance = some c → c.IsSquare startOfOne.nFree := by
  have hfree : 0 < startOfOne.nFree := by decide +kernel
  have hfit : succeeded ((quasiNewton .standard).migrad sumOfSquares startOfOne .default
      (.fresh 1 () : Bench Unit Float)) = true := by decide +kernel
  obtain ⟨m, b', h⟩ := exists_ok_of_succeeded hfit
  unfold quasiNewton at h
  obtain ⟨-, hlowest, hkeeps, hsquare⟩ := fit_reports_lowest hfree h
  exact ⟨m, b', hfree, h, hlowest, hkeeps, hsquare (isSpace_length _) fun o => o.solvers_stayIn⟩

end FitSession
