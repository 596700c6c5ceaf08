import FitSession.Proofs.Double.Arithmetic
import FitSession.Proofs.Engine.QuasiNewton

/-!
# Flags of a minimum

A minimum carries flags that are set in three places: by a minimization, by one without free
parameters, and when its covariance is computed. They always tell the same story.

* `FunctionMinimum.IsConsistent`, `FunctionMinimum.Counts`: the flags agree, and the counters of a
  minimum are those of a bench;
* `isConsistent_quasiNewtonFit`, `isConsistent_refineMinimum`: **the engine sets the flags
  consistently**;
* `not_edm_lt_zero`: a minimum without free parameters is never above the limit of its distance.
-/

namespace FitSession

variable {σ α : Type} [Scalar α]

namespace FunctionMinimum

/-- The flags of a minimum agree with each other, with its state and with its numbers. -/
structure IsConsistent (m : FunctionMinimum α) : Prop where
  isValid_iff : m.isValid ↔ m.hasValidParameters ∧ m.hasCovariance ∧ ¬m.hesseFailed ∧
    ¬m.isAboveMaxEdm ∧ ¬m.hasReachedCallLimit
  hasCovariance_iff : m.hasCovariance ↔ m.state.hasCovariance
  hesseFailed_iff : m.hesseFailed ↔ ¬m.hasCovariance
  posdef_iff : m.hasCovariance ↔ m.hasPosdefCovar ≠ m.hasMadePosdefCovar
  posdef_of_not : ¬m.hasCovariance → ¬m.hasPosdefCovar ∧ ¬m.hasMadePosdefCovar
  posdef_of_accurate : m.hasAccurateCovar → m.hasPosdefCovar
  isAboveMaxEdm_iff : m.isAboveMaxEdm ↔ 10 * m.edmGoal < m.edm

/-- No flag hangs on the counters. -/
theorem IsConsistent.withCounts {m : FunctionMinimum α} (h : m.IsConsistent) (nfcn ngrad : Nat) :
    { m with nfcn, ngrad }.IsConsistent :=
  { h with }

/-- No flag hangs on the errordef. -/
theorem IsConsistent.withUp {m : FunctionMinimum α} (h : m.IsConsistent) (up : α) :
    { m with up }.IsConsistent :=
  { h with }

/-- The counters of a minimum are those of a bench. -/
structure Counts (m : FunctionMinimum α) (b : Bench σ α) : Prop where
  nfcn : m.nfcn = b.nfcn
  ngrad : m.ngrad = b.ngrad

end FunctionMinimum

variable [Differences α] {choose : SolverOptions α → Solvers α} {solver : SolverOptions α}
  {cost : Cost α} {state : ParameterState α} {o : EngineOptions α} {b b' : Bench σ α}
  {m : FunctionMinimum α}

omit [Differences α] in
/-- Flags that agree, and a validity that is told by them. -/
theorem isConsistent_refreshed (hstate : m.state.hasCovariance = m.hasCovariance)
    (hfailed : m.hesseFailed = !m.hasCovariance)
    (hposdef : m.hasPosdefCovar = (m.hasCovariance && !m.hasMadePosdefCovar))
    (hmade : m.hasMadePosdefCovar → m.hasCovariance)
    (haccurate : m.hasAccurateCovar → m.hasPosdefCovar)
    (hedm : m.isAboveMaxEdm ↔ 10 * m.edmGoal < m.edm) : m.refreshed.IsConsistent where
  isValid_iff := by simp [FunctionMinimum.refreshed, and_assoc]
  hasCovariance_iff := by simp [FunctionMinimum.refreshed, hstate]
  hesseFailed_iff := by simp [FunctionMinimum.refreshed, hfailed]
  posdef_iff := by
    change m.hasCovariance ↔ m.hasPosdefCovar ≠ m.hasMadePosdefCovar
    rw [hposdef]
    cases hm : m.hasMadePosdefCovar with
    | true => simp [hmade hm]
    | false => simp
  posdef_of_not h := by
    change ¬m.hasPosdefCovar ∧ ¬m.hasMadePosdefCovar
    have hnone : m.hasCovariance = false := Bool.eq_false_iff.mpr h
    exact ⟨by simp [hposdef, hnone], fun hm => h (hmade hm)⟩
  posdef_of_accurate := haccurate
  isAboveMaxEdm_iff := hedm

omit [Differences α] in
theorem ParameterState.hasCovariance_withCurvature (s : ParameterState α) (free : List Nat)
    (c : Option (Curvature α)) : (s.withCurvature free c).hasCovariance = c.isSome := by
  cases c <;> rfl

omit [Scalar α] [Differences α] in
/-- A covariance that was forced is one. -/
theorem isSome_of_madePosdef {c : Option (Curvature α)}
    (h : c.elim false (·.madePosdef) = true) : c.isSome = true := by
  cases c with
  | none => cases h
  | some c => rfl

/-- The flags of a minimization, and its counters. Without free parameters it aims at a distance of
which zero must not exceed the tenfold. -/
theorem isConsistent_quasiNewtonFit (h : quasiNewtonFit choose solver cost state o b = .ok m b')
    (hgoal : ¬10 * edmGoal o.tolerance b.up < 0) : m.IsConsistent ∧ m.Counts b' := by
  unfold quasiNewtonFit at h
  rw [get_bind_apply] at h
  extract_lets goal map at h
  split at h
  · obtain ⟨fval, c, -, h⟩ := bind_eq_ok.mp h
    cases h
    refine ⟨isConsistent_refreshed rfl rfl rfl nofun (fun _ => rfl) ?_, rfl, rfl⟩
    exact ⟨nofun, fun habove => absurd habove hgoal⟩
  · obtain ⟨⟨⟨fval, theta, curvature⟩, best⟩, c, -, h⟩ := bind_eq_ok.mp h
    cases h
    refine ⟨isConsistent_refreshed ?_ ?_ rfl isSome_of_madePosdef ?_ decide_eq_true_iff, rfl, rfl⟩
    · exact ParameterState.hasCovariance_withCurvature _ _ _
    · exact (Option.not_isSome _).symm
    · exact fun haccurate => (Bool.and_eq_true_iff.mp haccurate).1

/-- The flags of a minimum whose covariance is computed, and its counters. -/
theorem isConsistent_refineMinimum {refined : FunctionMinimum α} {callLimit : Option Nat}
    (h : refineMinimum cost m callLimit b = .ok refined b') (hm : m.IsConsistent) :
    refined.IsConsistent ∧ refined.Counts b' := by
  unfold refineMinimum at h
  rw [get_bind_apply] at h
  obtain ⟨⟨state, curvature⟩, c, hstate, h⟩ := bind_eq_ok.mp h
  obtain ⟨⟨_, best⟩, d, -, hstate⟩ := bind_eq_ok.mp hstate
  cases hstate
  cases h
  refine ⟨isConsistent_refreshed ?_ ?_ rfl isSome_of_madePosdef id ?_, rfl, rfl⟩
  · exact ParameterState.hasCovariance_withCurvature _ _ _
  · exact (Option.not_isSome _).symm
  · cases curvature with
    | none => exact hm.isAboveMaxEdm_iff
    | some curvature => exact decide_eq_true_iff

/-- Work on a minimum goes on counting. It leaves the minimum as it was, or with flags that agree
and with the counters of the bench. -/
theorem refinement_quasiNewtonWith (cost : Cost α) (callLimit : Option Nat) (b : Bench σ α)
    (hm : m.IsConsistent) {q : Bench σ α × FunctionMinimum α}
    (hq : endState ((quasiNewtonWith choose solver : Engine σ α).refinement cost callLimit (b, m)) =
      q) :
    b.Onward q.1 ∧ (q.2 = m ∨ q.2.IsConsistent ∧ q.2.Counts q.1) := by
  have hbench := onward_refineMinimum cost m callLimit b
  change endState (Refinement.ofRun (fun m => refineMinimum cost m callLimit) (b, m)) = q at hq
  simp only [Refinement.ofRun] at hq
  cases hw : refineMinimum cost m callLimit b with
  | ok refined b' =>
    rw [hw] at hbench hq
    subst hq
    exact ⟨hbench, .inr (isConsistent_refineMinimum hw hm)⟩
  | error e b' =>
    rw [hw] at hbench hq
    subst hq
    exact ⟨hbench, .inl rfl⟩

theorem nonneg_of_isPositive {x : Float} (h : isPositive x = true) : 0 ≤ x :=
  float_le_of_lt (of_decide_eq_true (Bool.and_eq_true_iff.mp h).2)

/-- With a tolerance and an errordef that are not negative, zero is no distance to worry about. -/
theorem not_edm_lt_zero {tolerance up : Float} (htolerance : 0 ≤ tolerance) (hup : 0 ≤ up) :
    ¬10 * edmGoal tolerance up < 0 := by
  intro h
  have hgoal := (isNaN_of_lt h).1
  have hscaled := (isNaN_of_mul hgoal).2
  have hnonneg : 0 ≤ edmGoal tolerance up :=
    float_mul_nonneg
      (float_mul_nonneg (by decide +kernel) htolerance (isNaN_of_mul hscaled).1) hup hscaled
  exact (float_not_lt hgoal rfl).mpr (float_mul_nonneg (by decide +kernel) hnonneg hgoal) h

end FitSession
