import FitSession.Proofs.Column
import Mathlib.Data.List.InsertIdx

/-!
# Writes to different entries

Entries are replaced one by one. Each replacement may take a row and a column out of the covariance
or discard it, and the number of the row hangs on which parameters are free at that time.

* `dropFromCovariance_eq`: dropping a row and a column, by position;
* `dropFromCovariance_comm`: two rows may be dropped in either order;
* `Entry.carry`, `ParameterState.replaceEntry_eq`: what becomes of the covariance;
* **`ParameterState.replaceEntry_comm`**: two entries may be replaced in either order.
-/

namespace FitSession

variable {α β : Type}

/-! ## Lists without some of their items -/

/-- Every position but one of the first `n` is chosen. -/
theorem filterMap_getElem?_ne (l : List β) (n p : Nat) :
    ((List.range n).filter (· ≠ p)).filterMap (l[·]?) = (l.take n).eraseIdx p := by
  induction n with
  | zero => rfl
  | succ n ih =>
    rw [List.range_succ, List.filter_append, List.filterMap_append, ih]
    rcases Nat.lt_or_ge n l.length with hn | hn
    · have hlen : (l.take n).length = n := List.length_take_of_le (Nat.le_of_lt hn)
      have hstay (h : n ≤ p) : (l.take n).eraseIdx p = l.take n :=
        List.eraseIdx_eq_self.mpr (hlen.symm ▸ h)
      rw [List.take_add_one, List.getElem?_eq_getElem hn, List.eraseIdx_append, hlen]
      rcases Nat.lt_trichotomy p n with hp | rfl | hp
      · simp [hp, Nat.ne_of_gt hp, hn]
      · simp [hstay]
      · obtain ⟨d, rfl⟩ := Nat.exists_eq_add_of_lt hp
        have hpast : n + d + 1 - n = d + 1 := by omega
        simp [hstay (Nat.le_of_lt hp), hpast, Nat.ne_of_lt hp, hn]
    · have hnone : ((List.filter (· ≠ p) [n]).filterMap (l[·]?)) = [] := by
        refine List.filterMap_eq_nil_iff.mpr fun i hi => ?_
        rw [List.mem_singleton.mp (List.mem_filter.mp hi).1, List.getElem?_eq_none hn]
      rw [hnone, List.append_nil, List.take_of_length_le hn,
        List.take_of_length_le (Nat.le_succ_of_le hn)]

theorem eraseIdx_comm (l : List β) {p q : Nat} (h : p < q) :
    (l.eraseIdx p).eraseIdx (q - 1) = (l.eraseIdx q).eraseIdx p := by
  refine List.ext_getElem? fun i => ?_
  simp only [List.getElem?_eraseIdx]
  grind

namespace ParameterState

/-! ## Rows and columns -/

/-- A row and a column are dropped by their position. -/
theorem dropFromCovariance_eq (c : DenseMatrix α) (p : Nat) : dropFromCovariance p c =
    if p < c.nrows then some ⟨(c.rows.eraseIdx p).map fun row => (row.take c.nrows).eraseIdx p⟩
    else none := by
  unfold dropFromCovariance DenseMatrix.submatrix
  simp only [filterMap_getElem?_ne, ← List.map_filterMap]
  rw [DenseMatrix.nrows, List.take_length]

/-- A row that has lost one of its first `n` entries has less than `n` left. -/
theorem take_eraseIdx_take (row : List β) {n p : Nat} (hp : p < n) :
    ((row.take n).eraseIdx p).take (n - 1) = (row.take n).eraseIdx p := by
  refine List.take_of_length_le ?_
  rw [List.length_eraseIdx, List.length_take]
  split <;> omega

/-- Two rows and columns may be dropped in either order. -/
theorem dropFromCovariance_comm (c : DenseMatrix α) {p q : Nat} (h : p < q) :
    (dropFromCovariance p c).bind (dropFromCovariance (q - 1)) =
      (dropFromCovariance q c).bind (dropFromCovariance p) := by
  have hleft {r : Nat} (hr : r < c.nrows) (f : List α → List α) :
      (DenseMatrix.mk ((c.rows.eraseIdx r).map f)).nrows = c.nrows - 1 := by
    rw [DenseMatrix.nrows, List.length_map, List.length_eraseIdx_of_lt hr, DenseMatrix.nrows]
  by_cases hq : q < c.nrows
  · have hp : p < c.nrows := Nat.lt_trans h hq
    rw [dropFromCovariance_eq, dropFromCovariance_eq, if_pos hp, if_pos hq, Option.bind_some,
      Option.bind_some, dropFromCovariance_eq, dropFromCovariance_eq, hleft hp, hleft hq,
      if_pos (by omega), if_pos (by omega)]
    simp only [List.eraseIdx_map, List.map_map, Function.comp_def, take_eraseIdx_take _ hp,
      take_eraseIdx_take _ hq, eraseIdx_comm _ h]
  · rw [dropFromCovariance_eq, dropFromCovariance_eq, if_neg hq, Option.bind_none]
    split
    · next hp => rw [Option.bind_some, dropFromCovariance_eq, hleft hp, if_neg (by omega)]
    · rfl

end ParameterState

/-! ## Entries -/

variable [Scalar α]

/-- What becomes of a covariance when an entry is replaced that has `row` free entries before it. -/
def Entry.carry (old new : Entry α) (row : Nat) (c : Option (DenseMatrix α)) :
    Option (DenseMatrix α) :=
  match old.isFixed, new.isFixed with
  | false, true => c.bind (ParameterState.dropFromCovariance row)
  | true, false => none
  | _, _ => c

/-- Two entries do the same to a covariance in either order, if the rows are counted anew. -/
theorem Entry.carry_comm {old new old' new' : Entry α} {p q q' : Nat} (c : Option (DenseMatrix α))
    (hpq : old.isFixed = false → p < q)
    (hq : q' + (if old.isFixed then 0 else 1) = q + if new.isFixed then 0 else 1) :
    old'.carry new' q' (old.carry new p c) = old.carry new p (old'.carry new' q c) := by
  unfold carry
  cases hold : old.isFixed <;> cases hnew : new.isFixed <;> cases old'.isFixed <;>
    cases new'.isFixed <;> simp only [hold, hnew, if_true, if_false, Bool.false_eq_true] at hq ⊢
  case false.true.false.true =>
    -- both rows go: the later one has moved up
    obtain rfl : q' = q - 1 := by omega
    cases c with
    | none => rfl
    | some c => exact ParameterState.dropFromCovariance_comm c (hpq hold)
  all_goals first
    | rfl
    | obtain rfl : q' = q := by omega
      rfl

namespace ParameterState

/-- The number of free entries before entry `i`. -/
def freeBefore (s : ParameterState α) (i : Nat) : Nat :=
  (s.entries.take i).countP fun e => !e.isFixed

variable {s : ParameterState α} {i j : Nat} {old new old' new' : Entry α}

theorem replaceEntry_eq : s.replaceEntry i old new =
    ⟨s.entries.set i new, old.carry new (s.freeBefore i) s.covariance⟩ := by
  unfold replaceEntry Entry.carry freeBefore
  simp only [List.take_set_of_le (Nat.le_refl i)]
  cases old.isFixed <;> cases new.isFixed <;> rfl

theorem freeBefore_lt (hij : i < j) (hi : s.entries[i]? = some old) (hold : old.isFixed = false) :
    s.freeBefore i < s.freeBefore j := by
  have hsucc : s.freeBefore (i + 1) = s.freeBefore i + 1 := by
    simp [freeBefore, List.take_add_one, hi, hold]
  have hle : s.freeBefore (i + 1) ≤ s.freeBefore j :=
    (List.take_sublist_take_left hij).countP_le
  omega

/-- A later entry has as many free entries before it as it had, but for the one that is replaced. -/
theorem freeBefore_replaceEntry (new : Entry α) (hij : i < j) (hi : s.entries[i]? = some old) :
    (s.replaceEntry i old new).freeBefore j + (if old.isFixed then 0 else 1) =
      s.freeBefore j + if new.isFixed then 0 else 1 := by
  obtain ⟨hlt, hget⟩ := List.getElem?_eq_some_iff.mp hi
  have hlt : i < (s.entries.take j).length := by
    rw [List.length_take]
    omega
  have hget : (s.entries.take j)[i] = old := by rw [List.getElem_take, hget]
  rw [freeBefore, freeBefore, entries_replaceEntry, List.take_set, List.countP_set hlt, hget]
  cases hold : old.isFixed with
  | true => cases new.isFixed <;> rfl
  | false =>
    have : 0 < (s.entries.take j).countP fun e => !e.isFixed :=
      List.countP_pos_iff.mpr ⟨old, hget ▸ List.getElem_mem hlt, by simp [hold]⟩
    cases new.isFixed <;> simp <;> omega

theorem freeBefore_replaceEntry_of_le (hij : i ≤ j) :
    (s.replaceEntry j old new).freeBefore i = s.freeBefore i := by
  rw [freeBefore, entries_replaceEntry, List.take_set_of_le hij, freeBefore]

theorem replaceEntry_comm_of_lt (hij : i < j) (hi : s.entries[i]? = some old) :
    (s.replaceEntry i old new).replaceEntry j old' new' =
      (s.replaceEntry j old' new').replaceEntry i old new := by
  have hrow := freeBefore_replaceEntry new hij hi
  rw [replaceEntry_eq (i := j), replaceEntry_eq (s := s.replaceEntry j old' new'),
    freeBefore_replaceEntry_of_le (Nat.le_of_lt hij), entries_replaceEntry, entries_replaceEntry,
    List.set_comm new new' (Nat.ne_of_lt hij)]
  refine congrArg (ParameterState.mk _) ?_
  rw [replaceEntry_eq] at hrow
  rw [replaceEntry_eq, replaceEntry_eq]
  exact Entry.carry_comm s.covariance (freeBefore_lt hij hi) hrow

/-- **Two entries may be replaced in either order.** -/
theorem replaceEntry_comm (hij : i ≠ j) (hi : s.entries[i]? = some old)
    (hj : s.entries[j]? = some old') :
    (s.replaceEntry i old new).replaceEntry j old' new' =
      (s.replaceEntry j old' new').replaceEntry i old new := by
  rcases Nat.lt_or_gt_of_ne hij with h | h
  · exact replaceEntry_comm_of_lt h hi
  · exact (replaceEntry_comm_of_lt h hj).symm

end ParameterState
end FitSession
