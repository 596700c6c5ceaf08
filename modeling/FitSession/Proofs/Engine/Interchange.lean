import FitSession.Proofs.Engine.Evaluations
import FitSession.Proofs.Session.Built
import FitSession.Proofs.State

/-!
# What a fit sees of a state

A fit gets a whole state, but it only sees the values of all parameters, which of them are fixed,
and the errors and limits of those that are free. Any two states that agree there may be put in
each other's place.

* `Entry.Interchanges`, `ParameterState.Interchanges`: states that agree in all that a fit sees;
* `ofState_congr`, `simplexSteps_congr`: they lead to the same problem and the same steps;
* `Interchanges.overwriteValues`, `Interchanges.withCurvature`: and to results that agree again;
* `SameFromOutside`, `fits_interchange`: **fits and covariances from such states are the same**.
-/

namespace FitSession

variable {σ μ α : Type} [Scalar α]

/-! ## States -/

/-- Entries that a fit does not tell apart. How one is fixed, by its flag or by a limit that leaves
a single point, does not matter, and then neither do its error and its limit. -/
structure Entry.Interchanges (e e' : Entry α) : Prop where
  value : e'.value = e.value
  isFixed : e'.isFixed = e.isFixed
  error : e.isFixed = false → e'.error = e.error
  limit : e.isFixed = false → e'.limit = e.limit

/-- States that a fit does not tell apart, entry by entry. Nothing is said about the covariance. -/
def ParameterState.Interchanges (s s' : ParameterState α) : Prop :=
  List.Forall₂ Entry.Interchanges s.entries s'.entries

variable {s s' : ParameterState α}

namespace ParameterState.Interchanges

theorem values_eq (h : s.Interchanges s') : s'.values = s.values := by
  have hvalues : s.entries.map (·.value) = s'.entries.map (·.value) :=
    List.forall₂_eq_eq_eq ▸ List.rel_map (fun _ _ he => he.value.symm) h
  exact hvalues.symm

theorem flags_eq (h : s.Interchanges s') : s'.flags = s.flags := by
  have hflags : s.entries.map (·.isFixed) = s'.entries.map (·.isFixed) :=
    List.forall₂_eq_eq_eq ▸ List.rel_map (fun _ _ he => he.isFixed.symm) h
  exact hflags.symm

theorem entry (h : s.Interchanges s') {i : Nat} {e : Entry α} (he : s.entries[i]? = some e) :
    ∃ e', s'.entries[i]? = some e' ∧ e.Interchanges e' := by
  obtain ⟨hi, rfl⟩ := List.getElem?_eq_some_iff.mp he
  have hlen := List.Forall₂.length_eq h
  have hi' : i < s'.entries.length := hlen ▸ hi
  exact ⟨s'.entries[i], List.getElem?_eq_getElem hi', List.Forall₂.get h hi hi'⟩

/-- The transforms are those of the free parameters. -/
theorem transforms_eq (h : s.Interchanges s') : (ParameterMap.ofState s').transforms =
    (ParameterMap.ofState s).transforms := by
  obtain ⟨es, _⟩ := s
  obtain ⟨es', _⟩ := s'
  change List.Forall₂ Entry.Interchanges es es' at h
  simp only [ParameterMap.ofState]
  induction h with
  | nil => rfl
  | @cons e e' es es' he _ ih =>
    cases hfixed : e.isFixed with
    | true =>
      have hfixed' : e'.isFixed = true := he.isFixed.trans hfixed
      rw [List.filter_cons_of_neg (by simp [hfixed']), List.filter_cons_of_neg (by simp [hfixed])]
      exact ih
    | false =>
      have hfixed' : e'.isFixed = false := he.isFixed.trans hfixed
      rw [List.filter_cons_of_pos (by simp [hfixed']), List.filter_cons_of_pos (by simp [hfixed]),
        List.map_cons, List.map_cons, ih, he.limit hfixed]

/-- The problem of a fit is the same. -/
theorem ofState_congr (h : s.Interchanges s') :
    ParameterMap.ofState s' = ParameterMap.ofState s := by
  have hfree : s'.freeIndices = s.freeIndices := ParameterState.freeIndices_congr h.flags_eq
  have htransforms := h.transforms_eq
  simp only [ParameterMap.ofState] at htransforms ⊢
  rw [h.values_eq, hfree, htransforms]

/-- A fit starts at the same point. -/
theorem freeMapped_congr (h : s.Interchanges s') (map : ParameterMap α)
    (f : BoundTransform α → α → α) : map.freeMapped s' f = map.freeMapped s f := by
  have hvalue (i : Nat) : (s'.entry? i).elim 0 (·.value) = (s.entry? i).elim 0 (·.value) := by
    have hget := congrArg (·[i]?) h.values_eq
    simp only [ParameterState.values, List.getElem?_map] at hget
    unfold ParameterState.entry?
    cases hs : s.entries[i]? <;> cases hs' : s'.entries[i]? <;> simp_all
  unfold ParameterMap.freeMapped
  simp only [hvalue]

/-- The steps of the simplex are those for the errors of the free parameters. -/
theorem simplexSteps_congr (h : s.Interchanges s') (theta : List α) (least : α) :
    (ParameterMap.ofState s).simplexSteps s' theta least =
      (ParameterMap.ofState s).simplexSteps s theta least := by
  have herror {i : Nat} (hi : i ∈ s.freeIndices) :
      (s'.entry? i).elim 0 (·.error) = (s.entry? i).elim 0 (·.error) := by
    rw [ParameterState.mem_freeIndices, ParameterState.flags, List.getElem?_map,
      Option.map_eq_some_iff] at hi
    obtain ⟨e, he, hfree⟩ := hi
    obtain ⟨e', he', hagree⟩ := h.entry he
    rw [ParameterState.entry?, ParameterState.entry?, he, he', Option.elim_some, Option.elim_some,
      hagree.error hfree]
  unfold ParameterMap.simplexSteps
  refine zipWith_congr_left (fun i hi d => ?_) _
  have hi : i ∈ s.freeIndices := hi
  simp only [herror hi]

/-! ## Results -/

omit [Scalar α] in
theorem forall₂_modify {V : Entry α → Entry α → Prop} {f : Entry α → Entry α}
    (hf : ∀ e e', V e e' → V (f e) (f e')) {es es' : List (Entry α)} (h : List.Forall₂ V es es')
    (i : Nat) : List.Forall₂ V (es.modify i f) (es'.modify i f) := by
  induction h generalizing i with
  | nil => simp
  | cons he _ ih =>
    cases i with
    | zero => simpa using ⟨hf _ _ he, by assumption⟩
    | succ i => simpa using ⟨he, ih i⟩

/-- Entries that agree still do when both are changed in the same way at some positions. -/
theorem updateAt {change : Entry α → α → Entry α}
    (hchange : ∀ e e' x, e.Interchanges e' → (change e x).Interchanges (change e' x))
    {es es' : List (Entry α)} (h : List.Forall₂ Entry.Interchanges es es') (positions : List Nat)
    (xs : List α) : List.Forall₂ Entry.Interchanges
      (ParameterState.updateAt change es positions xs)
      (ParameterState.updateAt change es' positions xs) := by
  unfold ParameterState.updateAt
  generalize positions.zip xs = writes
  induction writes generalizing es es' with
  | nil => exact h
  | cons w writes ih => exact ih (forall₂_modify (fun e e' => hchange e e' w.2) h w.1)

theorem overwriteValues (h : s.Interchanges s') (positions : List Nat) (values : List α) :
    (s.overwriteValues positions values).Interchanges (s'.overwriteValues positions values) := by
  have hchange (e e' : Entry α) (value : α) (he : e.Interchanges e') :
      Entry.Interchanges { e with value } { e' with value } :=
    ⟨rfl, he.isFixed, he.error, he.limit⟩
  exact updateAt hchange h positions values

theorem overwriteErrors (h : s.Interchanges s') (positions : List Nat) (errors : List α) :
    (s.overwriteErrors positions errors).Interchanges (s'.overwriteErrors positions errors) := by
  have hchange (e e' : Entry α) (error : α) (he : e.Interchanges e') :
      Entry.Interchanges { e with error } { e' with error } :=
    ⟨he.value, he.isFixed, fun _ => rfl, he.limit⟩
  exact updateAt hchange h positions errors

end ParameterState.Interchanges

/-- The states agree in all that a fit sees, and have the same covariance. -/
structure ParameterState.SameFromOutside (t t' : ParameterState α) : Prop where
  interchanges : t.Interchanges t'
  covariance : t'.covariance = t.covariance

/-- The minima are the same, but for what a fit does not see of their states. -/
structure FunctionMinimum.SameFromOutside (m m' : FunctionMinimum α) : Prop where
  same : m' = { m with state := m'.state }
  state : m.state.SameFromOutside m'.state

theorem FunctionMinimum.SameFromOutside.refreshed {m m' : FunctionMinimum α}
    (h : m.SameFromOutside m') : m.refreshed.SameFromOutside m'.refreshed := by
  refine ⟨?_, h.state⟩
  rw [h.same]
  rfl

/-- With what a curvature tells, the states have the same covariance. -/
theorem ParameterState.Interchanges.withCurvature (h : s.Interchanges s') (free : List Nat)
    (c : Option (Curvature α)) :
    (s.withCurvature free c).SameFromOutside (s'.withCurvature free c) := by
  cases c with
  | none => exact ⟨h, rfl⟩
  | some c => exact ⟨h.overwriteErrors free _, rfl⟩

/-! ## Fits -/

section Fits

variable [Differences α] {choose : SolverOptions α → Solvers α} {solver : SolverOptions α}
  (h : s.Interchanges s') (cost : Cost α) (o : EngineOptions α)
include h

/-- The search from both states is one and the same, whatever is remembered of it. -/
theorem fitSearch_congr [Memory μ α] (up : α) :
    (fitSearch choose solver cost s' o up : Run μ α _) =
      fitSearch choose solver cost s o up := by
  have hfallBack (solvers : Solvers α) (start : List α) (limit : Nat) :
      (Problem.fallBack ⟨cost, .ofState s⟩ solvers s' start limit : Run μ α Unit) =
        Problem.fallBack ⟨cost, .ofState s⟩ solvers s start limit := by
    unfold Problem.fallBack
    simp only [h.simplexSteps_congr]
  have hminimize (solvers : Solvers α) (start : List α) (tolerance : α) (limit : Nat) :
      (Problem.minimize ⟨cost, .ofState s⟩ solvers s' start tolerance limit : Run μ α Unit) =
        Problem.minimize ⟨cost, .ofState s⟩ solvers s start tolerance limit := by
    unfold Problem.minimize
    simp only [hfallBack]
  unfold fitSearch searchMinimum
  simp only [h.ofState_congr, hminimize, ParameterMap.start, h.freeMapped_congr]

theorem fitArguments_congr (b : Bench σ α) : fitArguments choose solver cost s' o b =
    fitArguments choose solver cost s o b := by
  unfold fitArguments
  rw [h.ofState_congr, h.values_eq, fitSearch_congr h]

theorem refinementArguments_congr (b : Bench σ α) :
    refinementArguments cost s' b = refinementArguments cost s b := by
  unfold refinementArguments
  simp only [h.ofState_congr, ParameterMap.toInternal, h.freeMapped_congr]

omit [Differences α] in
theorem matching_fixedMinimum_of_interchanges (goal : α) :
    Matching Eq FunctionMinimum.SameFromOutside (fixedMinimum cost s goal : Run σ α _)
      (fixedMinimum cost s' goal) := by
  unfold fixedMinimum
  rw [h.values_eq]
  refine Matching.inStep_bind InStep.refl fun fval => Matching.get_bind fun b c hbc => ?_
  subst hbc
  have hstate : (s.withCovariance (some ⟨[]⟩)).SameFromOutside (s'.withCovariance (some ⟨[]⟩)) :=
    ⟨h, rfl⟩
  exact Matching.pure (FunctionMinimum.SameFromOutside.refreshed ⟨rfl, hstate⟩)

/-- Fits from both states end in the same way, at the same bench. -/
theorem matching_quasiNewtonFit_of_interchanges :
    Matching Eq FunctionMinimum.SameFromOutside (quasiNewtonFit choose solver cost s o : Run σ α _)
      (quasiNewtonFit choose solver cost s' o) := by
  refine Matching.get_bind fun before _ hbefore => ?_
  subst hbefore
  rw [h.ofState_congr]
  refine Matching.ite (matching_fixedMinimum_of_interchanges h cost _) ?_
  have hsearch : (fitSearch choose solver cost s' o before.up : Run (Best α) α _) =
    fitSearch choose solver cost s o before.up := fitSearch_congr h cost o before.up
  rw [fitSearch, fitSearch, h.ofState_congr] at hsearch
  dsimp only at hsearch ⊢
  rw [hsearch]
  refine Matching.inStep_bind InStep.refl fun ((fval, theta, curvature), _) => ?_
  refine Matching.get_bind fun b c hbc => ?_
  subst hbc
  have hvalues := h.overwriteValues (ParameterMap.ofState s).free
    ((ParameterMap.ofState s).freeValues theta)
  exact Matching.pure (FunctionMinimum.SameFromOutside.refreshed
    ⟨rfl, hvalues.withCurvature _ curvature⟩)

theorem matching_refineState_of_interchanges :
    Matching Eq (fun r r' => r.1.SameFromOutside r'.1) (refineState cost s : Run σ α _)
      (refineState cost s') := by
  unfold refineState
  simp only [h.ofState_congr, ParameterMap.toInternal, h.freeMapped_congr]
  refine Matching.inStep_bind InStep.refl fun (curvature, _) => ?_
  exact Matching.pure (h.withCurvature _ curvature)

end Fits

/-- **Fits and covariances only see the values of all parameters, which of them are fixed, and the
errors and limits of those that are free.** From states that agree there, and at the same bench, the
cost is evaluated at the same arguments, and the ends are the same: the same failure, or results of
which all is the same but for the errors and limits of the parameters that are fixed. This is so for
any solvers and differences. -/
theorem fits_interchange [Differences α] {choose : SolverOptions α → Solvers α}
    {solver : SolverOptions α} (h : s.Interchanges s') (cost : Cost α) (o : EngineOptions α)
    (callLimit : Option Nat) (b : Bench σ α) :
    let E : Engine σ α := quasiNewtonWith choose solver
    (fitArguments choose solver cost s' o b = fitArguments choose solver cost s o b ∧
      Matched Eq FunctionMinimum.SameFromOutside (E.migrad cost s o b) (E.migrad cost s' o b)) ∧
    (refinementArguments cost s' b = refinementArguments cost s b ∧
      Matched Eq (Option.Rel ParameterState.SameFromOutside) (E.hesseState cost s callLimit b)
        (E.hesseState cost s' callLimit b)) := by
  intro E
  have hfit : Matched Eq FunctionMinimum.SameFromOutside (E.migrad cost s o b)
      (E.migrad cost s' o b) := matching_quasiNewtonFit_of_interchanges h cost o b b rfl
  have hrefined : Matching Eq (Option.Rel ParameterState.SameFromOutside)
      (E.hesseState cost s callLimit) (E.hesseState cost s' callLimit) :=
    (matching_refineState_of_interchanges h cost).bind fun r r' hr =>
      Matching.pure (.some hr)
  exact ⟨⟨fitArguments_congr h cost o b, hfit⟩, refinementArguments_congr h cost b,
    hrefined b b rfl⟩

/-- A free parameter at 1, and one at 2 that is fixed by its flag. -/
def fixedByFlag : ParameterState Float :=
  ⟨[.free 1 0.1, ⟨2, 0.5, true, 0, Scalar.inf⟩], some ⟨[[0.25]]⟩⟩

/-- A free parameter at 1, and one at 2 whose limit leaves a single point. -/
def fixedByLimit : ParameterState Float := ⟨[.free 1 0.1, ⟨2, 0.125, false, 2, 2⟩], none⟩

theorem fits_interchange_fixed :
    fixedByFlag.Interchanges fixedByLimit ∧
      succeeded ((quasiNewton .standard).migrad sumOfSquares fixedByFlag .default
        (.fresh 1 () : Bench Unit Float)) = true ∧
      Matched Eq FunctionMinimum.SameFromOutside
        ((quasiNewton .standard).migrad sumOfSquares fixedByFlag .default
          (.fresh 1 () : Bench Unit Float))
        ((quasiNewton .standard).migrad sumOfSquares fixedByLimit .default (.fresh 1 ())) := by
  have hflag : Entry.isFixed (⟨2, 0.5, true, 0, Scalar.inf⟩ : Entry Float) = true := rfl
  have hlimit : Entry.isFixed (⟨2, 0.125, false, 2, 2⟩ : Entry Float) = true := by decide +kernel
  have h : fixedByFlag.Interchanges fixedByLimit := by
    refine .cons ⟨rfl, rfl, fun _ => rfl, fun _ => rfl⟩ (.cons ⟨rfl, ?_, ?_, ?_⟩ .nil)
    · rw [hflag, hlimit]
    · rw [hflag]
      exact fun h => nomatch h
    · rw [hflag]
      exact fun h => nomatch h
  have hfit : succeeded ((quasiNewton .standard).migrad sumOfSquares fixedByFlag .default
      (.fresh 1 () : Bench Unit Float)) = true := by decide +kernel
  exact ⟨h, hfit, (fits_interchange h sumOfSquares .default none (.fresh 1 ())).1.2⟩

end FitSession
