import FitSession.Proofs.Column
import FitSession.Proofs.Positions

/-!
# Free parameters of a state

Which parameters are free only hangs on the flags of the entries. Numbers may be overwritten, and
one flag changes one position.

* `ParameterState.flags`: the fixed flags of all parameters;
* `mem_freeIndices`, `nodup_freeIndices`, `length_freeIndices`: the free parameters;
* `freeIndices_congr`: **states with the same flags have the same free parameters**;
* `ParameterState.row`, `countP_take_eq_row`: the row of a free parameter in a covariance;
* `freeIndices_fix`, `rowsLeft`, `getElem?_rowsLeft`: **what is left when a parameter is fixed**;
* `getElem?_updateAt`, `values_overwriteValues`: numbers that are overwritten.
-/

namespace FitSession

variable {α : Type}

/-! ## Flags and free parameters -/

namespace ParameterState

variable [Scalar α] (s : ParameterState α)

/-- The fixed flags of all parameters. -/
def flags : List Bool := s.entries.map (·.isFixed)

theorem length_flags : s.flags.length = s.len := List.length_map _

theorem freeIndices_eq_filter :
    s.freeIndices = (List.range s.len).filter fun i => s.flags[i]?.any not := by
  unfold freeIndices
  rw [positions_eq_filter fun e : Entry α => !e.isFixed]
  refine List.filter_congr fun i _ => ?_
  cases h : s.entries[i]? <;> simp [flags, h]

theorem nodup_freeIndices : s.freeIndices.Nodup := by
  rw [freeIndices_eq_filter]
  exact List.nodup_range.filter _

theorem mem_freeIndices {i : Nat} : i ∈ s.freeIndices ↔ s.flags[i]? = some false := by
  rw [freeIndices_eq_filter, List.mem_filter, List.mem_range]
  constructor
  · rintro ⟨_, h⟩
    cases hi : s.flags[i]? with
    | none => simp [hi] at h
    | some b => simpa [hi] using h
  · intro h
    have hlt := (List.getElem?_eq_some_iff.mp h).1
    exact ⟨by simpa [flags, len] using hlt, by simp [h]⟩

variable {s} in
theorem lt_of_mem_freeIndices {i : Nat} (h : i ∈ s.freeIndices) : i < s.len := by
  rw [freeIndices_eq_filter, List.mem_filter] at h
  exact List.mem_range.mp h.1

theorem length_freeIndices : s.freeIndices.length = s.nFree := by
  unfold freeIndices nFree
  rw [List.length_map, ← List.countP_eq_length_filter]
  conv_rhs => rw [← List.zipIdx_map_fst 0 s.entries, List.countP_map]
  rfl

variable {s} {t : ParameterState α}

theorem nFree_pos_of_mem {i : Nat} (h : i ∈ s.freeIndices) : 0 < s.nFree := by
  rw [← length_freeIndices]
  exact List.length_pos_of_mem h

theorem len_congr (h : t.flags = s.flags) : t.len = s.len := by
  rw [← length_flags, h, length_flags]

/-- The row of a free parameter in a covariance. -/
def row (s : ParameterState α) (i : Nat) : Nat := s.freeIndices.idxOf i

theorem getElem?_row {i : Nat} (h : i ∈ s.freeIndices) : s.freeIndices[s.row i]? = some i := by
  rw [row, List.getElem?_eq_getElem (List.idxOf_lt_length_of_mem h), List.getElem_idxOf]

theorem idxOf?_eq_row {i : Nat} (h : i ∈ s.freeIndices) :
    s.freeIndices.idxOf? i = some (s.row i) :=
  findIdx?_of_nodup s.nodup_freeIndices (getElem?_row h)

theorem row_lt {i : Nat} (h : i ∈ s.freeIndices) : s.row i < s.nFree :=
  s.length_freeIndices ▸ List.idxOf_lt_length_of_mem h

/-- States with the same flags have the same free parameters. -/
theorem freeIndices_congr (h : t.flags = s.flags) : t.freeIndices = s.freeIndices := by
  rw [freeIndices_eq_filter, freeIndices_eq_filter, len_congr h, h]

theorem nFree_congr (h : t.flags = s.flags) :
    t.nFree = s.nFree := by
  rw [← length_freeIndices, ← length_freeIndices, freeIndices_congr h]

/-- A parameter that is fixed is not free any more; all others are what they were. -/
theorem freeIndices_fix {i : Nat} (h : t.flags = s.flags.set i true) :
    t.freeIndices = s.freeIndices.filter (· ≠ i) := by
  have hlen : t.len = s.len := by simpa [flags, len] using congrArg List.length h
  rw [freeIndices_eq_filter, freeIndices_eq_filter, h, hlen, List.filter_filter]
  refine List.filter_congr fun k hk => ?_
  by_cases hki : k = i
  · subst hki
    have : k < s.flags.length := by simpa [flags, len] using hk
    simp [this]
  · simp [List.getElem?_set_ne (Ne.symm hki), hki]

/-- The row of a free parameter is the number of free parameters before it. -/
theorem countP_take_eq_row {i : Nat} (h : i ∈ s.freeIndices) :
    (s.entries.take i).countP (fun e => !e.isFixed) = s.row i := by
  have hi : i < s.len := lt_of_mem_freeIndices h
  -- the free parameters before `i` are those of the state without the rest
  have hbefore : (⟨s.entries.take i, none⟩ : ParameterState α).freeIndices =
      (List.range i).filter fun k => s.flags[k]?.any not := by
    rw [freeIndices_eq_filter]
    have hlen : (⟨s.entries.take i, none⟩ : ParameterState α).len = i := by
      rw [len] at hi
      simp [len]
      omega
    rw [hlen]
    refine List.filter_congr fun k hk => ?_
    simp [flags, List.getElem?_take_of_lt (List.mem_range.mp hk)]
  have hnot : i ∉ (⟨s.entries.take i, none⟩ : ParameterState α).freeIndices := by
    simp [hbefore]
  obtain ⟨m, hm⟩ : ∃ m, s.len = i + (m + 1) := ⟨s.len - i - 1, by omega⟩
  rw [freeIndices_eq_filter] at h
  have hfree := (List.mem_filter.mp h).2
  rw [row, freeIndices_eq_filter, hm, List.range_add, List.filter_append, ← hbefore,
    List.idxOf_append, if_neg hnot, List.range_succ_eq_map, List.map_cons, Nat.add_zero,
    List.filter_cons_of_pos (p := fun k => s.flags[k]?.any not) hfree, List.idxOf_cons_self,
    Nat.zero_add, length_freeIndices]
  rfl

/-- The rows that are left when parameter `i` is fixed. -/
def rowsLeft (s : ParameterState α) (i : Nat) : List Nat :=
  (List.range s.nFree).filter (· ≠ s.row i)

section Fix

variable {i : Nat} (h : t.flags = s.flags.set i true) (hi : i ∈ s.freeIndices)
include h hi

theorem freeIndices_eq_map_rowsLeft :
    t.freeIndices = (s.rowsLeft i).map fun k => s.freeIndices[k]?.getD 0 := by
  rw [freeIndices_fix h, filter_ne_eq_map s.nodup_freeIndices hi, length_freeIndices]
  rfl

theorem length_rowsLeft : (s.rowsLeft i).length = t.nFree := by
  rw [← length_freeIndices, freeIndices_eq_map_rowsLeft h hi, List.length_map]

/-- The rows of the other parameters close up. -/
theorem getElem?_rowsLeft {j : Nat} (hj : j ∈ t.freeIndices) :
    (s.rowsLeft i)[t.row j]? = some (s.row j) := by
  have hrow := getElem?_row hj
  rw [freeIndices_eq_map_rowsLeft h hi, List.getElem?_map, Option.map_eq_some_iff] at hrow
  obtain ⟨k, hk, hkj⟩ := hrow
  have hlt : k < s.freeIndices.length := by
    rw [length_freeIndices]
    exact List.mem_range.mp (List.mem_filter.mp (List.mem_of_getElem? hk)).1
  rw [List.getElem?_eq_getElem hlt, Option.getD_some] at hkj
  rw [hk, row, ← hkj, s.nodup_freeIndices.idxOf_getElem]

end Fix

/-! ## Numbers that are overwritten -/

omit [Scalar α] in
/-- What a change of entries does not concern is not changed when it is made at some positions. -/
theorem map_updateAt {γ : Type} {g : Entry α → γ} {change : Entry α → α → Entry α}
    (h : ∀ e x, g (change e x) = g e) (entries : List (Entry α)) (positions : List Nat)
    (xs : List α) : (updateAt change entries positions xs).map g = entries.map g := by
  unfold updateAt
  generalize positions.zip xs = writes
  induction writes generalizing entries with
  | nil => rfl
  | cons w writes ih =>
    rw [List.foldl_cons, ih]
    refine List.ext_getElem (by simp) fun k _ _ => ?_
    by_cases hk : w.1 = k <;> simp [hk, h]

section

variable {change : Entry α → α → Entry α} {entries : List (Entry α)} {positions : List Nat}
  {xs : List α} {i : Nat}

omit [Scalar α] in
/-- Entries at other positions are not changed. -/
theorem getElem?_updateAt_of_not_mem (h : i ∉ positions) :
    (updateAt change entries positions xs)[i]? = entries[i]? := by
  have hzip : i ∉ (positions.zip xs).map Prod.fst :=
    fun hmem => h ((map_fst_zip_sublist _ _).subset hmem)
  unfold updateAt
  generalize positions.zip xs = writes at hzip
  induction writes generalizing entries with
  | nil => rfl
  | cons w writes ih =>
    rw [List.map_cons, List.mem_cons, not_or] at hzip
    rw [List.foldl_cons, ih hzip.2, List.getElem?_modify_ne _ _ (Ne.symm hzip.1)]

omit [Scalar α] in
/-- The entry at a position is changed with the number that goes with it. -/
theorem getElem?_updateAt {k : Nat} {x : α} (hpositions : positions.Nodup)
    (hi : positions[k]? = some i) (hx : xs[k]? = some x) :
    (updateAt change entries positions xs)[i]? = entries[i]?.map (change · x) := by
  induction positions generalizing entries xs k with
  | nil => simp at hi
  | cons position positions ih =>
    obtain ⟨hnot, hpositions⟩ := List.nodup_cons.mp hpositions
    cases xs with
    | nil => simp at hx
    | cons y ys =>
      change (updateAt change (entries.modify position (change · y)) positions ys)[i]? = _
      cases k with
      | zero =>
        obtain rfl : position = i := by simpa using hi
        obtain rfl : y = x := by simpa using hx
        rw [getElem?_updateAt_of_not_mem hnot, List.getElem?_modify_eq]
        rfl
      | succ k =>
        have hi : positions[k]? = some i := by simpa using hi
        have hne : position ≠ i := fun h => hnot (h ▸ List.mem_of_getElem? hi)
        rw [ih hpositions hi (by simpa using hx), List.getElem?_modify_ne _ _ hne]

end

variable (s)

omit [Scalar α] in
/-- Values that are overwritten are written into the list of all values. -/
theorem values_overwriteValues (positions : List Nat) (values : List α) :
    (s.overwriteValues positions values).values =
      (positions.zip values).foldl (fun args (i, x) => args.set i x) s.values := by
  obtain ⟨entries, c⟩ := s
  unfold overwriteValues updateAt ParameterState.values
  generalize positions.zip values = writes
  induction writes generalizing entries with
  | nil => rfl
  | cons w writes ih =>
    rw [List.foldl_cons, List.foldl_cons, ih]
    congr 1
    refine List.ext_getElem (by simp) fun k _ _ => ?_
    by_cases hk : w.1 = k <;> simp [hk]

omit [Scalar α] in
theorem values_overwriteErrors (positions : List Nat) (errors : List α) :
    (s.overwriteErrors positions errors).values = s.values := by
  have h (e : Entry α) (error : α) : { e with error }.value = e.value := rfl
  exact map_updateAt h s.entries positions errors

theorem flags_overwriteValues (positions : List Nat) (values : List α) :
    (s.overwriteValues positions values).flags = s.flags := by
  have h (e : Entry α) (value : α) : { e with value }.isFixed = e.isFixed := rfl
  exact map_updateAt h s.entries positions values

theorem flags_overwriteErrors (positions : List Nat) (errors : List α) :
    (s.overwriteErrors positions errors).flags = s.flags := by
  have h (e : Entry α) (error : α) : { e with error }.isFixed = e.isFixed := rfl
  exact map_updateAt h s.entries positions errors

omit [Scalar α] in
theorem overwriteValues_nil (positions : List Nat) : s.overwriteValues positions [] = s := by
  rw [overwriteValues, updateAt, List.zip_nil_right]
  rfl

end ParameterState
end FitSession
