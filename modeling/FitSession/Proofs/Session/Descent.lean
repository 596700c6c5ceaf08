import FitSession.Proofs.Engine.FiniteObjective
import FitSession.Proofs.Session.Attempts

/-!
# No fit ends above its start

A fit does not start at the values of a state but at their images: a free parameter with bounds goes
through its transform and back, and near a bound it is moved inwards, where the transform is not
flat. The image is what a fit never ends above. Where it is the state's own point, this makes the
values of repeated attempts a descent.

* `Entry.startPoint`, `toExternal_start`: where a search starts, as the cost sees it;
* `Entry.KeepsStart`, `ParameterState.StartsAtValues`: images that are the values themselves;
* `Problem.minimize_notes_start`: the start is among the evaluations;
* `FunctionMinimum.DescendsFrom`, `descendsFrom_of_fit`: one fit;
* `Session.Descends`, `Session.descends_of_migrad`: the attempts of a session;
* `fits_descend`: **no fit ends above its start**, and no attempt above the start of its search;
* `fit_above_values`: a fit that ends above the values of its state.
-/

namespace FitSession

/-! ## Where a search starts -/

section Start

variable {α : Type} [Scalar α]

/-- A start for `y` that is not moved: its internal coordinate is not nearer to a bound than a start
may be. -/
def BoundTransform.IsClear (t : BoundTransform α) (y : α) : Prop :=
  let x := t.toInternal y
  let edge : α := Scalar.halfPi - boundNudge
  match t with
  | .unbounded => True
  | .lower _ | .upper _ => Scalar.isNaN x = false ∧ ¬x < boundNudge
  | .double _ _ => ¬x < -edge ∧ ¬edge < x

theorem BoundTransform.startInternal_of_isClear {t : BoundTransform α} {y : α} (h : t.IsClear y) :
    t.startInternal y = t.toInternal y := by
  cases t with
  | unbounded => rfl
  | lower lo => simp only [startInternal, Scalar.maxNum, h.1, h.2, Bool.false_eq_true, if_false]
  | upper hi => simp only [startInternal, Scalar.maxNum, h.1, h.2, Bool.false_eq_true, if_false]
  | double lo hi => simp only [startInternal, Scalar.clampTo, if_neg h.1, if_neg h.2]

namespace Entry

/-- The value of a parameter where a search starts. -/
def startPoint (e : Entry α) : α :=
  let t := BoundTransform.ofLimit e.limit
  if e.isFixed then e.value else t.toExternal (t.startInternal e.value)

variable {e : Entry α}

theorem startPoint_of_fixed (h : e.isFixed = true) : e.startPoint = e.value := by
  rw [startPoint, if_pos h]

theorem startPoint_of_free (h : e.isFixed = false) : e.startPoint =
    (BoundTransform.ofLimit e.limit).toExternal
      ((BoundTransform.ofLimit e.limit).startInternal e.value) := by
  rw [startPoint, if_neg (Bool.eq_false_iff.mp h)]

/-- A parameter without bounds starts at its value. -/
theorem startPoint_of_unbounded (h : e.limit.isBounded = false) : e.startPoint = e.value := by
  cases hfixed : e.isFixed with
  | true => exact startPoint_of_fixed hfixed
  | false =>
    obtain ⟨hlower, hupper⟩ := Bool.or_eq_false_iff.mp h
    rw [startPoint_of_free hfixed, BoundTransform.ofLimit, Limit.lowerBound, Limit.upperBound,
      hlower, hupper]
    rfl

/-- Away from its bounds, a parameter starts where its transform leads and leads back. -/
theorem startPoint_of_isClear (hfree : e.isFixed = false)
    (h : (BoundTransform.ofLimit e.limit).IsClear e.value) : e.startPoint =
      (BoundTransform.ofLimit e.limit).toExternal
        ((BoundTransform.ofLimit e.limit).toInternal e.value) := by
  rw [startPoint_of_free hfree, BoundTransform.startInternal_of_isClear h]

/-- Nothing moves the start of a parameter: it is fixed, or has no bounds, or is away from them at a
value that its transform leads back to. -/
def KeepsStart (e : Entry α) : Prop :=
  let t := BoundTransform.ofLimit e.limit
  e.isFixed = true ∨ e.limit.isBounded = false ∨
    t.IsClear e.value ∧ t.toExternal (t.toInternal e.value) = e.value

theorem KeepsStart.startPoint_eq (h : e.KeepsStart) : e.startPoint = e.value := by
  rcases h with hfixed | hunbounded | ⟨hclear, hback⟩
  · exact startPoint_of_fixed hfixed
  · exact startPoint_of_unbounded hunbounded
  · cases hfixed : e.isFixed with
    | true => exact startPoint_of_fixed hfixed
    | false => rw [startPoint_of_isClear hfixed hclear, hback]

/-- With a lower bound of 0, a start at a quarter is not moved. -/
example : (⟨0.25, 0.1, false, 0, Scalar.inf⟩ : Entry Float).startPoint = 0.25 := by decide +kernel

end Entry

namespace ParameterState

/-- The values of all parameters where a search starts. -/
def startPoint (s : ParameterState α) : List α := s.entries.map Entry.startPoint

/-- A search starts at the values themselves. -/
def StartsAtValues (s : ParameterState α) : Prop := ∀ e ∈ s.entries, e.startPoint = e.value

variable {s : ParameterState α}

theorem StartsAtValues.startPoint_eq (h : s.StartsAtValues) : s.startPoint = s.values :=
  List.map_congr_left h

theorem startsAtValues_of_keepsStart (h : ∀ e ∈ s.entries, e.KeepsStart) : s.StartsAtValues :=
  fun e he => (h e he).startPoint_eq

theorem startsAtValues_of_fixed (h : s.nFree = 0) : s.StartsAtValues := by
  refine startsAtValues_of_keepsStart fun e he => .inl ?_
  simpa using List.countP_eq_zero.mp h e he

end ParameterState

namespace ParameterMap

/-- **What the cost gets at the start of a search.** -/
theorem toExternal_start (s : ParameterState α) :
    (ofState s).toExternal ((ofState s).start s) = s.startPoint :=
  toExternal_freeMapped s _

end ParameterMap
end Start

/-! ## The start is evaluated -/

section Noted

variable {σ μ α : Type} [Scalar α] [Differences α] [Memory μ α]

/-- What is true once the value at the start is noted, and stays true whatever is evaluated, is true
when a minimization is over. -/
theorem Problem.minimize_notes_start {p : Problem α} {solvers : Solvers α}
    {state : ParameterState α} {start : List α} {x : α} (hx : p.valueAt start = .ok x)
    {I : μ → Prop} (hI : ∀ memory theta, I memory → I (Memory.note memory theta (p.valueAt theta)))
    {b : Bench μ α} (hb : I (Memory.note b.memory start (.ok x))) (tolerance : α)
    (callLimit : Nat) :
    I (endState (p.minimize solvers state start tolerance callLimit b)).memory := by
  have hkept := parallels_invariant hI
  unfold Problem.minimize
  rw [get_bind_apply, bind_of_ok (Problem.value_eq_ok hx b)]
  refine (Coupled.ends (I := fun c : Bench μ α => I c.memory) ?_ _ hb).state
  refine (hkept.inStep_gradient start).bind fun g => InStep.ite (InStep.pure _) ?_
  refine (hkept.inStep_descend solvers start tolerance _).bind fun flat => ?_
  refine InStep.ite (InStep.pure _) (InStep.get_bind fun c c' hc => ?_)
  rw [hc.1]
  exact hkept.inStep_fallBack solvers state start _

variable {choose : SolverOptions α → Solvers α} {solver : SolverOptions α} {cost : Cost α}
  {state : ParameterState α} {o : EngineOptions α}

/-- The first evaluation of a fit that succeeds is that of its start. -/
theorem start_mem_historyOf {b b' : Bench σ α} {m : FunctionMinimum α} (hfree : 0 < state.nFree)
    (h : quasiNewtonFit choose solver cost state o b = .ok m b') :
    ∃ x, cost.value state.startPoint = .ok x ∧ Scalar.isFinite x = true ∧
      ((ParameterMap.ofState state).start state, .ok x) ∈
        historyOf choose solver cost state o b := by
  obtain ⟨_, _, _, b₁, -, hphase, -⟩ := exists_lowest_of_fit hfree h
  cases hstart : Problem.valueAt ⟨cost, .ofState state⟩
    ((ParameterMap.ofState state).start state) with
  | error e =>
    unfold minimizationPhase Problem.minimize at hphase
    rw [get_bind_apply] at hphase
    obtain ⟨_, _, hvalue, -⟩ := bind_eq_ok.mp hphase
    rw [Problem.value_apply, hstart] at hvalue
    cases hvalue
  | ok x =>
    obtain ⟨hvalue, hfinite⟩ := Problem.valueAt_eq_ok.mp hstart
    refine ⟨x, ParameterMap.toExternal_start state ▸ hvalue, hfinite, ?_⟩
    refine Problem.minimize_notes_start (I := fun history : History α =>
        ((ParameterMap.ofState state).start state, .ok x) ∈ history) hstart
      (fun _ _ hmem => ?_) ?_ _ _
    · exact List.mem_append_left _ hmem
    · exact List.mem_append_right _ (List.mem_singleton.mpr rfl)

end Noted

/-! ## One fit -/

section Fit

variable {σ α : Type} [Scalar α]

/-- The value that is reported is that of the cost at the values that are reported, and is not above
the one where the search from a state starts. -/
structure FunctionMinimum.DescendsFrom (m : FunctionMinimum α) (cost : Cost α)
    (state : ParameterState α) : Prop where
  value : cost.value m.state.values = .ok m.fval
  start : ∃ x, cost.value state.startPoint = .ok x ∧
    (0 < state.nFree → Scalar.isFinite x = true) ∧
      (Scalar.isFinite x = true → Scalar.isFinite m.fval = true ∧ m.fval ≤ x)

/-- From values that are where the search starts, a finite value of the cost is not exceeded. -/
theorem FunctionMinimum.DescendsFrom.fval_le {m : FunctionMinimum α} {cost : Cost α}
    {state : ParameterState α} (h : m.DescendsFrom cost state) (hstarts : state.StartsAtValues)
    {x : α} (hx : cost.value state.values = .ok x) (hfinite : Scalar.isFinite x = true) :
    m.fval ≤ x := by
  obtain ⟨y, hy, -, hle⟩ := h.start
  obtain rfl : y = x := Except.ok.inj (by rw [← hy, hstarts.startPoint_eq, hx])
  exact (hle hfinite).2

variable [OrderedScalar α] [Differences α] {choose : SolverOptions α → Solvers α} {solver : SolverOptions α}
  {cost : Cost α} {state : ParameterState α} {o : EngineOptions α}

/-- No fit ends above the start of its search. -/
theorem descendsFrom_of_fit {b b' : Bench σ α} {m : FunctionMinimum α}
    (h : quasiNewtonFit choose solver cost state o b = .ok m b') : m.DescendsFrom cost state := by
  rcases state.nFree.eq_zero_or_pos with hfixed | hfree
  · have hstart := (ParameterState.startsAtValues_of_fixed hfixed).startPoint_eq
    obtain ⟨hvalue, hstate⟩ := fixed_of_fit hfixed h
    refine ⟨hstate ▸ hvalue, m.fval, hstart ▸ hvalue, fun hfree => ?_, fun hfinite => ?_⟩
    · exact absurd hfixed hfree.ne'
    · exact ⟨hfinite, (OrderedScalar.le_total hfinite hfinite).elim id id⟩
  · obtain ⟨-, hlowest, -⟩ := fit_reports_lowest hfree h
    obtain ⟨x, hx, hfinite, hmem⟩ := start_mem_historyOf hfree h
    refine ⟨hlowest.value, x, hx, fun _ => hfinite, fun _ => ⟨hlowest.finite, ?_⟩⟩
    have hnot := hlowest.least _ hmem x (ParameterMap.toExternal_start state ▸ hx) hfinite
    exact (OrderedScalar.not_lt hlowest.finite hfinite).mp hnot

end Fit

/-! ## Repeated fits -/

section Attempts

variable {σ α : Type} [Scalar α]

/-- The minima of a successful minimization: all attempts in their order, of which the last one is
stored, start where the one before ended and do not end above that start. -/
def Session.Descends (s : Session σ α) (o : MigradOptions α) (u : Session σ α) : Prop :=
  ∃ ms m last b, Rejects (s.call o) s.currentState s.bench ms last b ∧
    s.call o last b = .ok m u.bench ∧ u.fmin = some m ∧
      (∀ first ∈ (ms ++ [m]).head?, first.DescendsFrom s.cost s.currentState) ∧
        (ms ++ [m]).IsChain fun m m' => m'.DescendsFrom s.cost m.state ∧
          (m.state.StartsAtValues → Scalar.isFinite m.fval = true → m'.fval ≤ m.fval)

variable [OrderedScalar α] [Differences α] {choose : SolverOptions α → Solvers α} {solver : SolverOptions α}

theorem Session.descends_of_migrad {s u : Session σ α} {o : MigradOptions α}
    (hengine : s.engine = quasiNewtonWith choose solver) (htol : isPositive s.tol = true)
    (h : migrad o s = .ok () u) : s.Descends o u := by
  have hcall {start b m c} (hm : s.call o start b = .ok m c) : m.DescendsFrom s.cost start := by
    unfold call at hm
    rw [hengine] at hm
    exact descendsFrom_of_fit hm
  obtain ⟨m, made, hattempts, hfmin⟩ := attempts_of_migrad htol h
  obtain ⟨ms, last, b, hrejects, -, hlast⟩ :=
    attempts_eq (s.call o) (o.retry - 1) 0 s.currentState s.bench
  cases hm : s.call o last b with
  | error e c =>
    rw [hm] at hlast
    cases hattempts.symm.trans hlast
  | ok m' c =>
    rw [hm] at hlast
    cases hattempts.symm.trans hlast.2
    obtain ⟨hfirst, hchain⟩ := hrejects.isChain (P := fun start m => m.DescendsFrom s.cost start)
      hcall hm
    refine ⟨ms, m, last, b, hrejects, hm, hfmin, hfirst, hchain.imp ?_⟩
    rintro m m' ⟨⟨start, hbefore⟩, hnext⟩
    exact ⟨hnext, fun hstarts hfinite => hnext.fval_le hstarts hbefore.value hfinite⟩

/-- **No fit ends above the start of its search**, whatever the cost, the bounds, the options, the
solvers and the differences. If the search starts at the values of the state, as it does without
bounds and away from them, the cost of these values is not exceeded. Nor does any attempt of a
session end above the start that the one before has left, and from a start at its values it does not
end above the one before. -/
theorem fits_descend {cost : Cost α} :
    (∀ {state : ParameterState α} {o : EngineOptions α} {b b' : Bench σ α} {m : FunctionMinimum α},
      (quasiNewtonWith choose solver).migrad cost state o b = .ok m b' →
        m.DescendsFrom cost state ∧
          ((∀ e ∈ state.entries, e.KeepsStart) → state.StartsAtValues) ∧
          (state.StartsAtValues → ∀ x, cost.value state.values = .ok x →
            Scalar.isFinite x = true → m.fval ≤ x)) ∧
      ∀ {spec : SessionSpec α} {memory : σ} {shared : Int} {s₀ : Session σ α},
        spec.build cost (quasiNewtonWith choose solver) memory shared = .ok s₀ →
          ∀ (cs : List (Command α)) (o : MigradOptions α) (u : Session σ α),
            Session.migrad o (s₀.afterAll cs) = .ok () u → (s₀.afterAll cs).Descends o u := by
  constructor
  · intro state o b b' m h
    have hdescends := descendsFrom_of_fit h
    exact ⟨hdescends, ParameterState.startsAtValues_of_keepsStart,
      fun hstarts _ hx hfinite => hdescends.fval_le hstarts hx hfinite⟩
  · intro spec memory shared s₀ hbuild cs o u h
    have hengine : (s₀.afterAll cs).engine = quasiNewtonWith choose solver :=
      (s₀.afterAll_sameSetup cs).engine.trans (SessionSpec.fresh_of_build hbuild).engine
    exact Session.descends_of_migrad hengine (Session.tolerance_afterAll hbuild cs) h

end Attempts

/-- From a parameter at 1 without bounds, the sum of squares does not end above 1, in a fit and in a
session. -/
theorem fits_descend_startOfOne :
    (∃ (m : FunctionMinimum Float) (b' : Bench Unit Float),
      (quasiNewton .standard).migrad sumOfSquares startOfOne .default (.fresh 1 ()) = .ok m b' ∧
        m.DescendsFrom sumOfSquares startOfOne ∧ m.fval ≤ 1) ∧
      ∃ s₀ s₁ : Session Unit Float,
        oneParameter.build sumOfSquares (quasiNewton .standard) () 0 = .ok s₀ ∧
          Session.migrad .standard s₀ = .ok () s₁ ∧ s₀.Descends .standard s₁ := by
  constructor
  · have hfit : succeeded ((quasiNewton .standard).migrad sumOfSquares startOfOne .default
        (.fresh 1 () : Bench Unit Float)) = true := by decide +kernel
    obtain ⟨m, b', h⟩ := exists_ok_of_succeeded hfit
    unfold quasiNewton at h
    obtain ⟨hdescends, hstarts, hle⟩ := fits_descend.1 h
    have hkeeps : ∀ e ∈ startOfOne.entries, e.KeepsStart := by
      intro e he
      obtain rfl := List.mem_singleton.mp he
      exact .inr (.inl (by decide +kernel))
    have hvalue : sumOfSquares.value startOfOne.values = .ok 1 :=
      congrArg Except.ok (by decide +kernel)
    exact ⟨m, b', h, hdescends, hle (hstarts hkeeps) 1 hvalue rfl⟩
  · obtain ⟨s₀, s₁, hbuild, hfit⟩ := exists_fit_oneParameter
    have hbuild' := hbuild
    unfold quasiNewton at hbuild'
    exact ⟨s₀, s₁, hbuild, hfit, fits_descend.2 hbuild' [] .standard s₁ hfit⟩

/-- A slope that is nearly flat. -/
def slightSlope : Cost Float := .ofFunction fun xs => .ok (1e-5 * Scalar.sum xs)

/-- A parameter at its lower bound of 1. -/
def startAtBound : ParameterState Float := .ofEntries [⟨1, 0.1, false, 1, Scalar.inf⟩]

/-- At a bound, the search starts inside of it. There the slope already counts as flat, and the fit
ends where it started, above the value at the bound. -/
theorem fit_above_values :
    ∃ (m : FunctionMinimum Float) (b' : Bench Unit Float),
      (∀ e ∈ startAtBound.entries, e.lower ≤ e.value ∧ e.value ≤ e.upper) ∧
        slightSlope.value startAtBound.values = .ok 1e-5 ∧ (1e-5 : Float).isFinite = true ∧
          (quasiNewton .standard).migrad slightSlope startAtBound .default (.fresh 1 ()) =
              .ok m b' ∧
            ¬m.fval ≤ 1e-5 := by
  let fit := (quasiNewton .standard).migrad slightSlope startAtBound .default
    (.fresh 1 () : Bench Unit Float)
  have hfit : (answerOf fit).toOption.any (fun m => !decide (m.fval ≤ 1e-5)) = true := by
    decide +kernel
  obtain ⟨m, hm, hnot⟩ := exists_ok_of_any hfit
  have hend := outcome_answerOf fit
  rw [hm] at hend
  refine ⟨m, endState fit, by decide +kernel, ?_, rfl, hend.symm, by simpa using hnot⟩
  exact congrArg Except.ok (by decide +kernel)

end FitSession
