import FitSession.Proofs.Covariance.Alignment

/-!
# Covariances under edits

A parameter may be fixed by its flag and by its limit, and either may hide the other. Whatever is
called in which order, the covariance has the rows of the parameters that are still free, unless one
was released meanwhile.

* `Setter`, `ParameterState.afterCall`, `ParameterState.afterCalls`: calls of setters as data;
* `Setter.exists_of_run`: what is accepted replaces one entry;
* `ParameterState.Releases`, `ParameterState.ReleasesAny`: calls after which a fixed parameter is
  free;
* `ParameterState.reduced`, `dropFromCovariance_eq_reduced`, `reduced_reduced`: the rows and columns
  of some parameters;
* `covariance_afterCalls`: **the covariance after any sequence of calls**.
-/

namespace FitSession

variable {α : Type} [Scalar α]

/-! ## Calls as data -/

/-- A call of a setter of a state. A limit is taken as it is, whether it is in order or not. -/
inductive Setter (α : Type)
  | value (index : Nat) (x : α)
  | error (index : Nat) (x : α)
  | fixed (index : Nat) (on : Bool)
  | limit (index : Nat) (l : Limit α)

namespace Setter

/-- The entry that is meant. -/
def index : Setter α → Nat
  | value i _ | error i _ | fixed i _ | limit i _ => i

/-- The call, done to a state. -/
def run (s : ParameterState α) : Setter α → Except (FitError α) (ParameterState α)
  | value i x => s.setValue i x
  | error i x => s.setError i x
  | fixed i on => s.setFixed i on
  | limit i l => s.setLimit i l

/-- Whether the call takes away what may fix a parameter: it clears a flag, or puts a limit that
leaves more than a point in the place of another. -/
def Frees : Setter α → Prop
  | value _ _ | error _ _ => False
  | fixed _ on => on = false
  | limit _ l => l.isDegenerate = false

end Setter

namespace ParameterState

/-- The state that a call leaves, whether it is accepted or refused. -/
def afterCall (s : ParameterState α) (call : Setter α) : ParameterState α :=
  match call.run s with
  | .ok t => t
  | .error _ => s

/-- The state that a sequence of calls leaves. -/
def afterCalls (s : ParameterState α) (calls : List (Setter α)) : ParameterState α :=
  calls.foldl afterCall s

/-- Some parameter is fixed before the call and free after it. -/
def Releases (s : ParameterState α) (call : Setter α) : Prop :=
  (true, false) ∈ s.flags.zip (s.afterCall call).flags

/-- Some call of the sequence releases a parameter. -/
def ReleasesAny (s : ParameterState α) : List (Setter α) → Prop
  | [] => False
  | call :: calls => s.Releases call ∨ (s.afterCall call).ReleasesAny calls

instance (s : ParameterState α) (call : Setter α) : Decidable (s.Releases call) :=
  inferInstanceAs (Decidable (_ ∈ _))

instance decidableReleasesAny :
    (s : ParameterState α) → (calls : List (Setter α)) → Decidable (s.ReleasesAny calls)
  | _, [] => inferInstanceAs (Decidable False)
  | s, call :: calls =>
    have := decidableReleasesAny (s.afterCall call) calls
    inferInstanceAs (Decidable (_ ∨ _))

end ParameterState

/-! ## What a call does -/

variable {s t : ParameterState α} {call : Setter α} {i : Nat} {old new : Entry α}

/-- A call that is accepted replaces one entry. It leaves a fixed parameter fixed, unless it takes
away what may fix it. -/
theorem Setter.exists_of_run (h : call.run s = .ok t) :
    ∃ i old new, s.entries[i]? = some old ∧ t = s.replaceEntry i old new ∧
      (old.isFixed = true → new.isFixed = false → call.Frees) := by
  cases call with
  | value i x =>
    obtain ⟨_, -, h⟩ := except_bind_eq_ok.mp h
    obtain ⟨e, he, h⟩ := except_bind_eq_ok.mp h
    cases h
    let moved : Entry α := { e with value := e.limit.clamp x }
    have hsame : e.isFixed = moved.isFixed := rfl
    refine ⟨i, e, moved, s.entryOrFail_eq_ok.mp he,
      (ParameterState.replaceEntry_of_isFixed_eq hsame).symm, fun hold hnew => ?_⟩
    rw [← hsame, hold] at hnew
    cases hnew
  | error i x =>
    obtain ⟨_, -, h⟩ := except_bind_eq_ok.mp h
    obtain ⟨e, he, h⟩ := except_bind_eq_ok.mp h
    cases h
    let moved : Entry α := { e with error := x }
    have hsame : e.isFixed = moved.isFixed := rfl
    refine ⟨i, e, moved, s.entryOrFail_eq_ok.mp he,
      (ParameterState.replaceEntry_of_isFixed_eq hsame).symm, fun hold hnew => ?_⟩
    rw [← hsame, hold] at hnew
    cases hnew
  | fixed i on =>
    obtain ⟨e, he, h⟩ := except_bind_eq_ok.mp h
    cases h
    refine ⟨i, e, _, s.entryOrFail_eq_ok.mp he, rfl, fun _ hnew => ?_⟩
    exact (Bool.or_eq_false_iff.mp hnew).1
  | limit i l =>
    obtain ⟨e, he, h⟩ := except_bind_eq_ok.mp h
    cases h
    refine ⟨i, e, _, s.entryOrFail_eq_ok.mp he, rfl, fun _ hnew => ?_⟩
    exact (Bool.or_eq_false_iff.mp hnew).2

namespace ParameterState

theorem afterCall_of_ok (h : call.run s = .ok t) : s.afterCall call = t := by
  rw [afterCall, h]

theorem afterCall_of_error {error : FitError α} (h : call.run s = .error error) :
    s.afterCall call = s := by
  rw [afterCall, h]

theorem releases_iff : s.Releases call ↔
    ∃ i : Nat, s.flags[i]? = some true ∧ (s.afterCall call).flags[i]? = some false := by
  rw [Releases, List.mem_iff_getElem?]
  exact exists_congr fun i => List.getElem?_zip_eq_some

theorem getElem?_flags (h : s.entries[i]? = some old) : s.flags[i]? = some old.isFixed := by
  rw [flags, List.getElem?_map, h, Option.map_some]

theorem flags_replaceEntry_self (h : s.entries[i]? = some old) (hsame : old.isFixed = new.isFixed) :
    (s.replaceEntry i old new).flags = s.flags := by
  obtain ⟨hlt, hget⟩ := List.getElem?_eq_some_iff.mp (getElem?_flags h)
  rw [flags_replaceEntry, ← hsame, ← hget, List.set_getElem_self]

/-- A call releases a parameter exactly if it leaves an entry free that was fixed. -/
theorem releases_iff_of_replaceEntry (h : s.entries[i]? = some old)
    (hafter : s.afterCall call = s.replaceEntry i old new) :
    s.Releases call ↔ old.isFixed = true ∧ new.isFixed = false := by
  rw [releases_iff, hafter, flags_replaceEntry]
  have hflag := getElem?_flags h
  have hlt := (List.getElem?_eq_some_iff.mp hflag).1
  constructor
  · rintro ⟨k, hk, hk'⟩
    by_cases hki : i = k
    · subst hki
      rw [List.getElem?_set_self hlt] at hk'
      exact ⟨Option.some.inj (hflag.symm.trans hk), Option.some.inj hk'⟩
    · rw [List.getElem?_set_ne hki, hk] at hk'
      cases hk'
  · rintro ⟨hold, hnew⟩
    exact ⟨i, hold ▸ hflag, by rw [List.getElem?_set_self hlt, hnew]⟩

/-- A parameter is only released by a call that takes away what may fix it. -/
theorem Releases.frees (h : s.Releases call) : call.Frees := by
  cases hrun : call.run s with
  | error error =>
    obtain ⟨i, hfixed, hfree⟩ := releases_iff.mp h
    rw [afterCall_of_error hrun, hfixed] at hfree
    cases hfree
  | ok t =>
    obtain ⟨i, old, new, he, rfl, hfrees⟩ := call.exists_of_run hrun
    obtain ⟨hold, hnew⟩ := (releases_iff_of_replaceEntry he (afterCall_of_ok hrun)).mp h
    exact hfrees hold hnew

/-! ## Rows and columns of some parameters -/

/-- The rows and columns of some parameters in a covariance of the state. -/
def reduced (s : ParameterState α) (c : DenseMatrix α) (free : List Nat) : DenseMatrix α :=
  ⟨free.map fun i => free.map fun j => c.get (s.row i) (s.row j)⟩

variable {c : DenseMatrix α} {free : List Nat}

theorem isSquare_reduced : (s.reduced c free).IsSquare free.length where
  rows := List.length_map _
  entries row hrow := by
    obtain ⟨i, -, rfl⟩ := List.mem_map.mp hrow
    exact List.length_map _

theorem row_getElem {k : Nat} (hk : k < s.freeIndices.length) : s.row s.freeIndices[k] = k :=
  s.nodup_freeIndices.idxOf_getElem k hk

theorem reduced_freeIndices (h : c.IsSquare s.nFree) : s.reduced c s.freeIndices = c := by
  obtain ⟨rows⟩ := c
  refine congrArg DenseMatrix.mk (List.ext_getElem ?_ fun k hk hk' => ?_)
  · rw [List.length_map, length_freeIndices, ← h.rows]
  have hrow := h.entries _ (List.getElem_mem hk')
  refine List.ext_getElem ?_ fun l hl hl' => ?_
  · rw [List.getElem_map, List.length_map, length_freeIndices, hrow]
  · simp only [List.getElem_map, row_getElem]
    rw [DenseMatrix.get, List.getElem?_eq_getElem hk', Option.getD_some,
      List.getElem?_eq_getElem hl', Option.getD_some]

/-- What is taken from rows and columns that were taken before is taken from the whole. -/
theorem reduced_reduced (h : free ⊆ t.freeIndices) :
    t.reduced (s.reduced c t.freeIndices) free = s.reduced c free := by
  refine congrArg DenseMatrix.mk (List.map_congr_left fun i hi => ?_)
  refine List.map_congr_left fun j hj => ?_
  simp only [reduced, DenseMatrix.get, List.getElem?_map, getElem?_row (h hi), getElem?_row (h hj),
    Option.map_some, Option.getD_some]

theorem freeIndices_fix_subset (hflags : t.flags = s.flags.set i true) :
    t.freeIndices ⊆ s.freeIndices := by
  rw [freeIndices_fix hflags]
  exact fun _ hj => (List.mem_filter.mp hj).1

section Fix

variable (hflags : t.flags = s.flags.set i true) (hi : i ∈ s.freeIndices)
include hflags hi

theorem rowsLeft_eq_map_row : s.rowsLeft i = t.freeIndices.map s.row := by
  rw [freeIndices_eq_map_rowsLeft hflags hi, List.map_map]
  conv_lhs => rw [← List.map_id (s.rowsLeft i)]
  refine List.map_congr_left fun k hk => ?_
  have hlt : k < s.freeIndices.length := by
    rw [length_freeIndices]
    exact List.mem_range.mp (List.mem_filter.mp hk).1
  rw [Function.comp_apply, List.getElem?_eq_getElem hlt, Option.getD_some, row_getElem, id_eq]

/-- Dropping the row and column of a parameter that is fixed leaves those of the others. -/
theorem dropFromCovariance_eq_reduced (h : c.IsSquare s.nFree) :
    dropFromCovariance (s.row i) c = some (s.reduced c t.freeIndices) := by
  have hrows : c.nrows = s.nFree := h.rows
  have hkeep : ∀ k ∈ s.rowsLeft i, k < s.nFree := fun k hk =>
    List.mem_range.mp (List.mem_filter.mp hk).1
  rw [dropFromCovariance, hrows, if_pos (row_lt hi)]
  change some (c.submatrix (s.rowsLeft i) (s.rowsLeft i)) = _
  rw [DenseMatrix.submatrix_eq_map h hkeep, rowsLeft_eq_map_row hflags hi, List.map_map]
  simp only [reduced, List.map_map, Function.comp_def]

end Fix

/-! ## One call -/

/-- Without a covariance, no call makes one. -/
theorem covariance_afterCall_of_none (h : s.covariance = none) :
    (s.afterCall call).covariance = none := by
  cases hrun : call.run s with
  | error error => rwa [afterCall_of_error hrun]
  | ok t =>
    obtain ⟨i, old, new, -, rfl, -⟩ := call.exists_of_run hrun
    rw [afterCall_of_ok hrun, replaceEntry, h]
    split_ifs <;> rfl

theorem covariance_afterCalls_of_none (h : s.covariance = none) (calls : List (Setter α)) :
    (s.afterCalls calls).covariance = none := by
  induction calls generalizing s with
  | nil => exact h
  | cons call calls ih => exact ih (covariance_afterCall_of_none h)

/-- A call that releases a parameter discards the covariance. -/
theorem covariance_afterCall_of_releases (h : s.Releases call) :
    (s.afterCall call).covariance = none := by
  cases hrun : call.run s with
  | error error =>
    obtain ⟨i, hfixed, hfree⟩ := releases_iff.mp h
    rw [afterCall_of_error hrun, hfixed] at hfree
    cases hfree
  | ok t =>
    obtain ⟨i, old, new, he, rfl, -⟩ := call.exists_of_run hrun
    obtain ⟨hold, hnew⟩ := (releases_iff_of_replaceEntry he (afterCall_of_ok hrun)).mp h
    rw [afterCall_of_ok hrun, covariance_release hold hnew]

/-- A call that releases none leaves the rows and columns of the parameters that are still free. -/
theorem covariance_afterCall (hc : s.covariance = some c) (hsquare : c.IsSquare s.nFree)
    (h : ¬s.Releases call) :
    (s.afterCall call).freeIndices ⊆ s.freeIndices ∧
      (s.afterCall call).covariance = some (s.reduced c (s.afterCall call).freeIndices) := by
  have hsame {t : ParameterState α} (hflags : t.flags = s.flags)
      (hcovariance : t.covariance = s.covariance) : t.freeIndices ⊆ s.freeIndices ∧
        t.covariance = some (s.reduced c t.freeIndices) := by
    rw [freeIndices_congr hflags, reduced_freeIndices hsquare, hcovariance, hc]
    exact ⟨fun _ hj => hj, rfl⟩
  cases hrun : call.run s with
  | error error =>
    rw [afterCall_of_error hrun]
    exact hsame rfl rfl
  | ok t =>
    obtain ⟨i, old, new, he, rfl, -⟩ := call.exists_of_run hrun
    rw [releases_iff_of_replaceEntry he (afterCall_of_ok hrun)] at h
    rw [afterCall_of_ok hrun]
    by_cases heq : old.isFixed = new.isFixed
    · refine hsame (flags_replaceEntry_self he heq) ?_
      rw [replaceEntry_of_isFixed_eq heq]
    · cases hold : old.isFixed with
      | true => exact absurd ⟨hold, by simpa [hold] using heq⟩ h
      | false =>
        have hnew : new.isFixed = true := by simpa [hold] using heq
        have hfree : i ∈ s.freeIndices := s.mem_freeIndices.mpr (hold ▸ getElem?_flags he)
        have hflags := hnew ▸ s.flags_replaceEntry i old new
        rw [covariance_fix hfree hold hnew, hc, Option.bind_some]
        exact ⟨freeIndices_fix_subset hflags,
          dropFromCovariance_eq_reduced hflags hfree hsquare⟩

end ParameterState

/-! ## Sequences of calls -/

variable {c : DenseMatrix α}

/-- **A covariance under edits.** If some call of a sequence released a parameter, there is no
covariance any more; else it has the rows and columns of the parameters that are still free, in their
order, with the entries that were there. Only a flag that is cleared or a limit that leaves more than
a point releases a parameter. -/
theorem covariance_afterCalls (hc : s.covariance = some c) (hsquare : c.IsSquare s.nFree)
    (calls : List (Setter α)) :
    (s.ReleasesAny calls → (s.afterCalls calls).covariance = none) ∧
      (¬s.ReleasesAny calls → (s.afterCalls calls).freeIndices ⊆ s.freeIndices ∧
        (s.afterCalls calls).covariance = some (s.reduced c (s.afterCalls calls).freeIndices)) ∧
      ∀ (t : ParameterState α) (call : Setter α), t.Releases call → call.Frees := by
  refine ⟨?_, ?_, fun _ _ h => h.frees⟩
  · -- once the covariance is gone, it does not come back
    clear hc hsquare
    induction calls generalizing s with
    | nil => exact False.elim
    | cons call calls ih =>
      rintro (h | h)
      · exact ParameterState.covariance_afterCalls_of_none
          (ParameterState.covariance_afterCall_of_releases h) calls
      · exact ih h
  · induction calls generalizing s c with
    | nil =>
      intro _
      change _ ∧ s.covariance = some (s.reduced c s.freeIndices)
      rw [ParameterState.reduced_freeIndices hsquare]
      exact ⟨fun _ hj => hj, hc⟩
    | cons call calls ih =>
      intro h
      obtain ⟨hcall, hcalls⟩ := not_or.mp h
      obtain ⟨hsub, hc'⟩ := ParameterState.covariance_afterCall hc hsquare hcall
      have hsquare' : (s.reduced c (s.afterCall call).freeIndices).IsSquare _ :=
        ParameterState.isSquare_reduced
      rw [ParameterState.length_freeIndices] at hsquare'
      obtain ⟨hsub', hc''⟩ := ih hc' hsquare' hcalls
      rw [ParameterState.reduced_reduced hsub'] at hc''
      exact ⟨fun _ hj => hsub (hsub' hj), hc''⟩

/-- Three free parameters with a covariance. -/
def threeFree : ParameterState Float :=
  ⟨[.free 1 0.1, .free 2 0.1, .free 3 0.1], some ⟨[[1, 2, 3], [2, 5, 6], [3, 6, 9]]⟩⟩

/-- A limit that fixes a parameter hides that its flag is cleared; it is released with the limit. -/
theorem covariance_afterCalls_hidden :
    (∃ c, threeFree.covariance = some c ∧ c.IsSquare threeFree.nFree) ∧
      (threeFree.afterCalls [.limit 0 ⟨2, 2⟩, .fixed 0 false, .value 0 7]).covariance =
        some ⟨[[5, 6], [6, 9]]⟩ ∧
      (threeFree.afterCalls [.limit 0 ⟨2, 2⟩, .fixed 0 false, .limit 0 .unbounded]).covariance =
        none := by
  have hsquare : (⟨[[1, 2, 3], [2, 5, 6], [3, 6, 9]]⟩ : DenseMatrix Float).IsSquare
      threeFree.nFree := ⟨by decide +kernel, by decide +kernel⟩
  refine ⟨⟨_, rfl, hsquare⟩, ?_, (covariance_afterCalls rfl hsquare _).1 (by decide +kernel)⟩
  rw [((covariance_afterCalls rfl hsquare _).2.1 (by decide +kernel)).2]
  exact congrArg (some ∘ DenseMatrix.mk) (by decide +kernel)

end FitSession
