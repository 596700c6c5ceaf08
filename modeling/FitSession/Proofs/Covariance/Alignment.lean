import FitSession.Proofs.Engine.QuasiNewton

/-!
# Covariances in step with the free parameters

A covariance has no labels. It means something because its rows follow the free parameters of its
state, whatever happens to these.

* `Measured`: what the curvature of a cost gives for the free parameters of a state;
* `Aligned`, `IsAligned`: a covariance that has a row for each free parameter of its state, with the
  entries that were measured for that parameter;
* `stayInSpaces_length`: where the library's own solvers and differences stay;
* `writeInvariant_isAligned`: **no write brings the covariance out of step**;
* `Remeasured.isAligned`: nor does the quasi-Newton engine.
-/

namespace FitSession

variable {σ α : Type} [Scalar α] {cost : Cost α} {s t : ParameterState α} {c : DenseMatrix α}

/-- The matrix is the covariance that a curvature of the cost gave in the coordinates of the free
parameters of a state, or the empty one if there were none. -/
inductive Measured (cost : Cost α) (s : ParameterState α) : DenseMatrix α → Prop
  | fixed (h : s.nFree = 0) : Measured cost s ⟨[]⟩
  | curvature {c : Curvature α}
    (hc : Problem.Measures ⟨cost, .ofState s⟩ (fun theta => theta.length = s.nFree) (some c)) :
    Measured cost s c.external

/-- The matrix has one row and column for each free parameter of a state. The entry of two of them
is the one that was measured for these two, at a state in which they were free as well. -/
structure Aligned (cost : Cost α) (s : ParameterState α) (c : DenseMatrix α) : Prop where
  square : c.IsSquare s.nFree
  measured : ∃ r v, Measured cost r v ∧ s.freeIndices ⊆ r.freeIndices ∧
    ∀ i ∈ s.freeIndices, ∀ j ∈ s.freeIndices,
      c.get (s.row i) (s.row j) = v.get (r.row i) (r.row j)

/-- The covariance of the state, if it has one, is in step with its free parameters. -/
def IsAligned (cost : Cost α) (s : ParameterState α) : Prop :=
  ∀ c, s.covariance = some c → Aligned cost s c

/-! ## Writes -/

/-- A covariance is in step with all states that have the same flags. -/
theorem Aligned.congr (h : Aligned cost s c) (hflags : t.flags = s.flags) : Aligned cost t c := by
  have hfree := ParameterState.freeIndices_congr hflags
  obtain ⟨r, v, hv, hsub, hget⟩ := h.measured
  refine ⟨?_, r, v, hv, hfree ▸ hsub, ?_⟩
  · rw [← ParameterState.length_freeIndices, hfree, ParameterState.length_freeIndices]
    exact h.square
  · unfold ParameterState.row at hget ⊢
    rwa [hfree]

/-- Without the row and column of a parameter that is fixed, a covariance stays in step. -/
theorem Aligned.drop {i : Nat} {c' : DenseMatrix α} (h : Aligned cost s c)
    (hflags : t.flags = s.flags.set i true) (hi : i ∈ s.freeIndices)
    (hc' : ParameterState.dropFromCovariance (s.row i) c = some c') : Aligned cost t c' := by
  have hrows : c.nrows = s.nFree := h.square.rows
  have hkeep : ∀ k ∈ s.rowsLeft i, k < s.nFree := fun k hk =>
    List.mem_range.mp (List.mem_filter.mp hk).1
  have hc' : c' = c.submatrix (s.rowsLeft i) (s.rowsLeft i) := by
    rw [ParameterState.dropFromCovariance, hrows, if_pos (ParameterState.row_lt hi)] at hc'
    exact (Option.some.inj hc').symm
  subst hc'
  have hsub : t.freeIndices ⊆ s.freeIndices := by
    rw [ParameterState.freeIndices_fix hflags]
    exact fun _ hj => (List.mem_filter.mp hj).1
  obtain ⟨r, v, hv, hsub', hget⟩ := h.measured
  refine ⟨?_, r, v, hv, fun _ hj => hsub' (hsub hj), fun j hj k hk => ?_⟩
  · have hsquare := DenseMatrix.isSquare_submatrix h.square hkeep
    rwa [ParameterState.length_rowsLeft hflags hi] at hsquare
  · rw [← hget j (hsub hj) k (hsub hk)]
    exact DenseMatrix.get_submatrix h.square hkeep (ParameterState.getElem?_rowsLeft hflags hi hj)
      (ParameterState.getElem?_rowsLeft hflags hi hk)

namespace ParameterState

variable {i : Nat} {old new : Entry α}

theorem flags_replaceEntry (s : ParameterState α) (i : Nat) (old new : Entry α) :
    (s.replaceEntry i old new).flags = s.flags.set i new.isFixed := by
  rw [flags, entries_replaceEntry, List.map_set]
  rfl

theorem covariance_release (hold : old.isFixed = true) (hnew : new.isFixed = false) :
    (s.replaceEntry i old new).covariance = none := by
  simp [replaceEntry, hold, hnew]

theorem covariance_fix (hi : i ∈ s.freeIndices) (hold : old.isFixed = false)
    (hnew : new.isFixed = true) :
    (s.replaceEntry i old new).covariance =
      s.covariance.bind (dropFromCovariance (s.row i)) := by
  rw [replaceEntry, if_neg (by simp [hold, hnew]), if_pos hnew, ← countP_take_eq_row hi]
  simp only [List.take_set_of_le (Nat.le_refl i)]

end ParameterState

/-- Replacing an entry keeps the covariance in step. -/
theorem IsAligned.replaceEntry {i : Nat} {old new : Entry α} (h : IsAligned cost s)
    (hi : s.entries[i]? = some old) : IsAligned cost (s.replaceEntry i old new) := by
  have hflags := s.flags_replaceEntry i old new
  have hflag : s.flags[i]? = some old.isFixed := by
    rw [ParameterState.flags, List.getElem?_map, hi]
    rfl
  intro c hc
  by_cases hsame : old.isFixed = new.isFixed
  · -- the flags are what they were, and the covariance is kept
    rw [ParameterState.replaceEntry_of_isFixed_eq hsame] at hc
    refine (h c hc).congr (hflags.trans ?_)
    obtain ⟨hlt, hget⟩ := List.getElem?_eq_some_iff.mp hflag
    rw [← hsame, ← hget, List.set_getElem_self]
  · cases hnew : new.isFixed with
    | false =>
      have hold : old.isFixed = true := by simpa [hnew] using hsame
      rw [ParameterState.covariance_release hold hnew] at hc
      cases hc
    | true =>
      have hold : old.isFixed = false := by simpa [hnew] using hsame
      have hfree : i ∈ s.freeIndices := s.mem_freeIndices.mpr (hold ▸ hflag)
      rw [ParameterState.covariance_fix hfree hold hnew] at hc
      obtain ⟨c₀, hc₀, hc⟩ := Option.bind_eq_some_iff.mp hc
      exact (h c₀ hc₀).drop (hnew ▸ hflags) hfree hc

/-- No write brings the covariance out of step. -/
theorem writeInvariant_isAligned (cost : Cost α) : WriteInvariant (IsAligned cost) :=
  writeInvariant_of_replaceEntry fun _ _ _ _ hs hold => hs.replaceEntry hold

/-! ## Measurements -/

/-- A curvature has one row and column for each coordinate. -/
theorem isSquare_of_measures [Differences α] {c : Curvature α}
    (h : Problem.Measures ⟨cost, .ofState s⟩ (fun theta => theta.length = s.nFree) (some c)) :
    c.external.IsSquare s.nFree := by
  obtain ⟨theta, useGradient, b, b', htheta, hc⟩ := h
  obtain ⟨r, _, -, hc⟩ := bind_eq_ok.mp hc
  cases r with
  | error e =>
    dsimp only at hc
    split at hc <;> cases hc
  | ok m =>
    dsimp only at hc
    cases hinv : invertCurvature m with
    | none =>
      rw [hinv] at hc
      cases hc
    | some inv =>
      rw [hinv] at hc
      obtain ⟨g, _, -, hc⟩ := bind_eq_ok.mp hc
      obtain ⟨_, _, -, hc⟩ := bind_eq_ok.mp hc
      cases hc
      exact ParameterMap.isSquare_carriedCovariance htheta _

theorem Measured.isSquare (h : Measured cost s c) : c.IsSquare s.nFree := by
  cases h with
  | fixed h => exact ⟨h.symm, fun _ hrow => nomatch hrow⟩
  | curvature hc => exact isSquare_of_measures hc

/-- What is measured for a state is in step with it. -/
theorem Measured.aligned (h : Measured cost s c) : Aligned cost s c :=
  ⟨h.isSquare, s, c, h, fun _ hi => hi, fun _ _ _ _ => rfl⟩

/-- The library's own solvers and differences stay at points with one coordinate for each free
parameter. -/
theorem stayInSpaces_length :
    StayInSpaces (α := α) SolverOptions.solvers fun n theta => theta.length = n where
  isSpace := isSpace_length
  start h := h
  solvers _ o := o.solvers_stayIn

/-- What the engine makes of a state has a covariance in step with it. -/
theorem Remeasured.isAligned (h : Remeasured (fun n theta => theta.length = n) cost s t) :
    IsAligned cost t := by
  intro c hc
  cases h with
  | fixed h =>
    cases hc
    exact (Measured.fixed h).aligned.congr rfl
  | @free theta measured hmeasured =>
    cases measured with
    | none => cases hc
    | some c =>
      cases hc
      exact (Measured.curvature hmeasured).aligned.congr (s.flags_movedTo theta _)

end FitSession
