import FitSession.Proofs.Dense.Determinant

/-!
# Exact inverses

In exact arithmetic the inverse of a matrix is what it is called, whatever its size.

* `rowDot`, `clearedRow`: rows of coefficients with right-hand sides behind them;
* `pivotFirst_realRows`, `exists_first`: the steps of elimination on finite numbers;
* `SolvesRows`, `IsDependence`, `elimination`: elimination solves a square system, or finds that its
  columns are dependent;
* `inverse?_ofMatrix`: **the inverse of a matrix**.
-/

namespace FitSession

open Matrix
open Exact (real)

variable {n : ℕ}

/-! ## Elimination -/

/-- Rows of finite numbers. -/
noncomputable def realRows (rows : List (List ℝ)) : List (List Exact) := rows.map (·.map real)

/-- The product of a row with as many unknowns as there are. -/
def rowDot (row unknowns : List ℝ) : ℝ := (List.zipWith (· * ·) row unknowns).sum

@[simp] theorem rowDot_cons (a x : ℝ) (row unknowns : List ℝ) :
    rowDot (a :: row) (x :: unknowns) = a * x + rowDot row unknowns := by
  simp [rowDot]

theorem rowDot_zeros (row : List ℝ) (n : ℕ) : rowDot row (List.replicate n 0) = 0 := by
  induction n generalizing row with
  | zero => simp [rowDot]
  | succ n ih =>
    cases row with
    | nil => simp [rowDot]
    | cons a row => rw [List.replicate_succ, rowDot_cons, ih, mul_zero, add_zero]

theorem headD_map_real (row : List ℝ) : (row.map real).headD 0 = real (row.headD 0) := by
  cases row <;> simp [Exact.ofNat_eq]

/-- A row less a multiple of another one. -/
theorem rowDot_zipWith_sub (factor : ℝ) {row pivot unknowns : List ℝ}
    (hrow : unknowns.length ≤ row.length) (hpivot : unknowns.length ≤ pivot.length) :
    rowDot (List.zipWith (fun x p => x - p * factor) row pivot) unknowns =
      rowDot row unknowns - factor * rowDot pivot unknowns := by
  induction unknowns generalizing row pivot with
  | nil => simp [rowDot]
  | cons x unknowns ih =>
    obtain ⟨a, row, rfl⟩ := List.exists_cons_of_length_pos (Nat.lt_of_lt_of_le (Nat.succ_pos _) hrow)
    obtain ⟨p, pivot, rfl⟩ :=
      List.exists_cons_of_length_pos (Nat.lt_of_lt_of_le (Nat.succ_pos _) hpivot)
    rw [List.zipWith_cons_cons, rowDot_cons, rowDot_cons, rowDot_cons,
      ih (Nat.le_of_succ_le_succ hrow) (Nat.le_of_succ_le_succ hpivot)]
    ring

/-- The place that a search for the largest magnitude ends with. -/
theorem exists_largest (ys : List ℝ) (k : ℕ) (best : ℝ) (place : ℕ) :
    ∃ top at_, ((ys.map real).zipIdx k).foldl (fun (best, place) (y, k) =>
        if best < Scalar.abs y then (Scalar.abs y, k) else (best, place)) (real best, place) =
          (real top, at_) ∧
      best ≤ top ∧ (∀ y ∈ ys, |y| ≤ top) ∧
      ((top = best ∧ at_ = place) ∨ ∃ j, ∃ hj : j < ys.length, at_ = k + j ∧ top = |ys[j]|) := by
  induction ys generalizing k best place with
  | nil => exact ⟨best, place, rfl, le_rfl, by simp, .inl ⟨rfl, rfl⟩⟩
  | cons y ys ih =>
    rw [List.map_cons, List.zipIdx_cons, List.foldl_cons]
    dsimp only
    by_cases hy : best < |y|
    · obtain ⟨top, at_, hfold, hbest, hall, hplace⟩ := ih (k + 1) |y| k
      rw [Exact.abs_real, if_pos (Exact.real_lt_real.mpr hy)]
      refine ⟨top, at_, hfold, hy.le.trans hbest, List.forall_mem_cons.mpr ⟨hbest, hall⟩, .inr ?_⟩
      rcases hplace with ⟨rfl, rfl⟩ | ⟨j, hj, rfl, rfl⟩
      · exact ⟨0, Nat.succ_pos _, rfl, rfl⟩
      · exact ⟨j + 1, Nat.succ_lt_succ hj, by omega, rfl⟩
    · obtain ⟨top, at_, hfold, hbest, hall, hplace⟩ := ih (k + 1) best place
      rw [Exact.abs_real, if_neg (mt Exact.real_lt_real.mp hy)]
      refine ⟨top, at_, hfold, hbest,
        List.forall_mem_cons.mpr ⟨(not_lt.mp hy).trans hbest, hall⟩, ?_⟩
      rcases hplace with hsame | ⟨j, hj, rfl, rfl⟩
      · exact .inl hsame
      · exact .inr ⟨j + 1, Nat.succ_lt_succ hj, by omega, rfl⟩

/-- The largest magnitude of a list stands where it is found. -/
theorem largestAt_map_real (xs : List ℝ) (h : xs ≠ []) :
    ∃ k, largestAt (xs.map real) = k ∧ ∃ hk : k < xs.length, ∀ x ∈ xs, |x| ≤ |xs[k]| := by
  obtain ⟨x, ys, rfl⟩ := List.exists_cons_of_ne_nil h
  obtain ⟨top, found, hfold, hbest, hall, hplace⟩ := exists_largest ys 1 |x| 0
  refine ⟨found, congrArg Prod.snd hfold, ?_⟩
  rcases hplace with ⟨rfl, rfl⟩ | ⟨j, hj, rfl, rfl⟩
  · exact ⟨Nat.succ_pos _, List.forall_mem_cons.mpr ⟨le_rfl, hall⟩⟩
  · refine ⟨by rw [List.length_cons]; omega, ?_⟩
    simp only [Nat.add_comm 1 j, List.getElem_cons_succ]
    exact List.forall_mem_cons.mpr ⟨hbest, hall⟩

/-- The first row after the exchange has the largest first entry. -/
theorem pivotFirst_realRows {rows : List (List ℝ)} (h : rows ≠ []) :
    ∃ pivot rest, pivotFirst (realRows rows) = realRows (pivot :: rest) ∧
      (pivot :: rest).Perm rows ∧ ∀ row ∈ rows, |row.headD 0| ≤ |pivot.headD 0| := by
  have hheads : (realRows rows).map (·.headD 0) = (rows.map (·.headD 0)).map real := by
    simp only [realRows, List.map_map]
    exact List.map_congr_left fun row _ => headD_map_real row
  obtain ⟨k, hfound, hk, hlargest⟩ := largestAt_map_real (rows.map (·.headD 0)) (by simpa)
  have hk : k < rows.length := by simpa using hk
  have hfirst : 0 < rows.length := List.length_pos_of_ne_nil h
  have hexchanged : pivotFirst (realRows rows) =
      realRows ((rows.set k rows[0]).set 0 rows[k]) := by
    unfold pivotFirst
    dsimp only
    rw [hheads, hfound]
    simp [realRows, List.head?_eq_getElem?, hfirst, hk, List.map_set]
  have hcons : (rows.set k rows[0]).set 0 rows[k] = rows[k] :: (rows.set k rows[0]).tail := by
    obtain ⟨a, l, hl⟩ := List.exists_cons_of_ne_nil (l := rows.set k rows[0]) (by simpa using h)
    rw [hl]
    rfl
  refine ⟨rows[k], (rows.set k rows[0]).tail, hcons ▸ hexchanged,
    hcons ▸ List.set_set_perm hk hfirst, fun row hrow => ?_⟩
  simpa using hlargest _ (List.mem_map_of_mem hrow)

/-- What is left of a row when its first entry is cleared. -/
noncomputable def clearedRow (pivot row : List ℝ) : List ℝ :=
  List.zipWith (fun x p => x - p * (row.headD 0 * (1 / pivot.headD 0))) row.tail pivot.tail

theorem clearFirst_map_real {pivot : List ℝ} (hpivot : pivot.headD 0 ≠ 0) (row : List ℝ) :
    clearFirst (1 / (pivot.map real).headD 0) (pivot.map real) (row.map real) =
      (clearedRow pivot row).map real := by
  unfold clearFirst clearedRow
  rw [headD_map_real, headD_map_real, Exact.ofNat_eq, Exact.real_div_real hpivot,
    ← List.map_tail, ← List.map_tail, List.zipWith_map, List.map_zipWith]
  simp

/-- What solved values leave of the right-hand sides of a row. -/
theorem exists_remaining {m : ℕ} (row : List ℝ) (right : List ℝ) (solved : List (List ℝ))
    (hright : right.length = m) (hsolved : ∀ xs ∈ solved, xs.length = m) :
    ∃ remaining : List ℝ, ((row.map real).zip (realRows solved)).foldr
        (fun (u, xs) bs => List.zipWith (fun b x => b - x * u) bs xs) (right.map real) =
          remaining.map real ∧
      remaining.length = m ∧ ∀ c < m, remaining.getD c 0 =
        right.getD c 0 - rowDot row (solved.map (·.getD c 0)) := by
  induction solved generalizing row with
  | nil => exact ⟨right, by simp [realRows], hright, fun c _ => by simp [rowDot]⟩
  | cons xs solved ih =>
    obtain ⟨hxs, hsolved⟩ := List.forall_mem_cons.mp hsolved
    cases row with
    | nil => exact ⟨right, by simp, hright, fun c _ => by simp [rowDot]⟩
    | cons u row =>
      obtain ⟨bs, hfold, hlength, hentries⟩ := ih row hsolved
      refine ⟨List.zipWith (fun b x => b - x * u) bs xs, ?_, by simp [hlength, hxs], ?_⟩
      · simp only [realRows, List.map_cons, List.zip_cons_cons, List.foldr_cons]
        rw [realRows] at hfold
        rw [hfold, List.zipWith_map, List.map_zipWith]
        simp
      · intro c hc
        have hbs : bs.getD c 0 = bs.get ⟨c, hlength ▸ hc⟩ := by simp [hlength, hc]
        have hentry := hentries c hc
        rw [List.map_cons, rowDot_cons]
        simp [hlength, hxs, hc] at hentry ⊢
        rw [hentry]
        ring

/-- Unknowns, one list for each row of a square system, that solve it for `m` right-hand sides,
which stand behind the `n` coefficients of each row. -/
structure SolvesRows (n m : ℕ) (rows unknowns : List (List ℝ)) : Prop where
  length : unknowns.length = n
  entries : ∀ xs ∈ unknowns, xs.length = m
  solves : ∀ c < m, ∀ row ∈ rows, rowDot row (unknowns.map (·.getD c 0)) = row.getD (n + c) 0

/-- A combination of the columns of coefficients that vanishes. -/
structure IsDependence (n : ℕ) (rows : List (List ℝ)) (v : List ℝ) : Prop where
  length : v.length = n
  nonzero : ∃ a ∈ v, a ≠ 0
  vanishes : ∀ row ∈ rows, rowDot row v = 0

section Step

variable {n m : ℕ} {p : ℝ} {pivot : List ℝ} {rest unknowns : List (List ℝ)}
  (hpivot : pivot.length = n + m) (hrest : ∀ row ∈ rest, row.length = n + 1 + m)
include hpivot hrest

/-- The rows that are left, one unknown fewer. -/
theorem rowDot_clearedRow {row v : List ℝ} (hrow : row ∈ rest) (hv : v.length = n) :
    rowDot (clearedRow (p :: pivot) row) v =
      rowDot row.tail v - row.headD 0 / p * rowDot pivot v := by
  have hlength : row.tail.length = n + m := by rw [List.length_tail, hrest row hrow]; omega
  rw [clearedRow, rowDot_zipWith_sub _ (by omega) (by simp; omega)]
  simp [div_eq_mul_inv]

variable (hp : p ≠ 0)
include hp

/-- The solution of the rows that are left, with what the pivot row says of the first unknown. -/
theorem SolvesRows.cons (h : SolvesRows n m (rest.map (clearedRow (p :: pivot))) unknowns)
    {first : List ℝ} (hfirst : first.length = m)
    (hentries : ∀ c < m, p * first.getD c 0 =
      pivot.getD (n + c) 0 - rowDot pivot (unknowns.map (·.getD c 0))) :
    SolvesRows (n + 1) m ((p :: pivot) :: rest) (first :: unknowns) where
  length := by rw [List.length_cons, h.length]
  entries := List.forall_mem_cons.mpr ⟨hfirst, h.entries⟩
  solves c hc := by
    have hindex : n + 1 + c = n + c + 1 := by omega
    refine List.forall_mem_cons.mpr ⟨?_, fun row hrow => ?_⟩
    · rw [List.map_cons, rowDot_cons, hentries c hc, hindex, List.getD_cons_succ]
      ring
    · obtain ⟨a, row', rfl⟩ := List.exists_cons_of_length_pos
        (show 0 < row.length by rw [hrest row hrow]; omega)
      have hlength : row'.length = n + m := by have := hrest _ hrow; simp at this; omega
      have hleft := h.solves c hc _ (List.mem_map_of_mem hrow)
      rw [rowDot_clearedRow hpivot hrest hrow (by rw [List.length_map, h.length])] at hleft
      have hright : (clearedRow (p :: pivot) (a :: row')).getD (n + c) 0 =
          row'.getD (n + c) 0 - pivot.getD (n + c) 0 * (a / p) := by
        have hlt : n + c < n + m := by omega
        simp [clearedRow, hlength, hpivot, hlt, div_eq_mul_inv]
      rw [hright] at hleft
      have hvalue := hentries c hc
      rw [List.map_cons, rowDot_cons, hindex, List.getD_cons_succ]
      simp only [List.tail_cons, List.headD_cons] at hleft
      have hfirst : first.getD c 0 =
          (pivot.getD (n + c) 0 - rowDot pivot (unknowns.map (·.getD c 0))) / p := by
        rw [← hvalue, mul_div_cancel_left₀ _ hp]
      rw [hfirst]
      linear_combination hleft

/-- A dependence of the rows that are left extends to all rows. -/
theorem IsDependence.cons {v : List ℝ}
    (h : IsDependence n (rest.map (clearedRow (p :: pivot))) v) :
    IsDependence (n + 1) ((p :: pivot) :: rest) (-(rowDot pivot v) / p :: v) where
  length := by rw [List.length_cons, h.length]
  nonzero := by
    obtain ⟨a, ha, hne⟩ := h.nonzero
    exact ⟨a, List.mem_cons_of_mem _ ha, hne⟩
  vanishes := by
    refine List.forall_mem_cons.mpr ⟨?_, fun row hrow => ?_⟩
    · rw [rowDot_cons, mul_div_cancel₀ _ hp, neg_add_cancel]
    · obtain ⟨a, row', rfl⟩ := List.exists_cons_of_length_pos
        (show 0 < row.length by rw [hrest row hrow]; omega)
      have hleft := h.vanishes _ (List.mem_map_of_mem hrow)
      rw [rowDot_clearedRow hpivot hrest hrow h.length] at hleft
      simp only [List.tail_cons, List.headD_cons] at hleft
      rw [rowDot_cons]
      linear_combination hleft

end Step

/-- One step of elimination: it ends at a pivot of zero. -/
theorem triangular?_succ {n : ℕ} {rows rest : List (List ℝ)} {pivot : List ℝ}
    (h : pivotFirst (realRows rows) = realRows (pivot :: rest)) :
    triangular? (n + 1) (realRows rows) =
      if pivot.headD 0 = 0 then none
      else (triangular? n (realRows (rest.map (clearedRow pivot)))).map (pivot.map real :: ·) := by
  rw [triangular?, h]
  simp only [realRows, List.map_cons]
  rw [headD_map_real]
  by_cases hp : pivot.headD 0 = 0
  · rw [if_pos (Exact.real_beq_zero.mpr hp), if_pos hp]
  · have hcleared : (rest.map (·.map real)).map (clearFirst (1 / real (pivot.headD 0))
        (pivot.map real)) = (rest.map (clearedRow pivot)).map (·.map real) := by
      simp only [List.map_map]
      refine List.map_congr_left fun row _ => ?_
      have hclear := clearFirst_map_real hp row
      rwa [headD_map_real] at hclear
    rw [if_neg (mt Exact.real_beq_zero.mp hp), if_neg hp, hcleared]

/-- What a row says of its first unknown, once those behind it are known. -/
theorem exists_first {m : ℕ} {p : ℝ} {pivot : List ℝ} {staircase : List (List Exact)}
    {unknowns : List (List ℝ)} (hp : p ≠ 0) (hpivot : pivot.length = unknowns.length + m)
    (hentries : ∀ xs ∈ unknowns, xs.length = m)
    (hback : backSubstitute staircase = realRows unknowns) :
    ∃ first : List ℝ,
      backSubstitute ((p :: pivot).map real :: staircase) = realRows (first :: unknowns) ∧
      first.length = m ∧ ∀ c < m, p * first.getD c 0 =
        pivot.getD (unknowns.length + c) 0 - rowDot pivot (unknowns.map (·.getD c 0)) := by
  obtain ⟨remaining, hfold, hlength, hremaining⟩ := exists_remaining pivot
    (pivot.drop unknowns.length) unknowns (by rw [List.length_drop]; omega) hentries
  refine ⟨remaining.map (· / p), ?_, by rw [List.length_map, hlength], fun c hc => ?_⟩
  · have hright : ((p :: pivot).map real).drop ((realRows unknowns).length + 1) =
        (pivot.drop unknowns.length).map real := by
      rw [realRows, List.length_map, List.map_cons, List.drop_succ_cons, List.map_drop]
    rw [backSubstitute, hback]
    dsimp only
    rw [hright, List.map_cons, List.tail_cons, hfold]
    simp only [realRows, List.map_cons, List.map_map, List.headD_cons]
    exact congrArg (· :: _) (List.map_congr_left fun b _ => Exact.real_div_real hp)
  · have hentry := hremaining c hc
    have hlt : c < remaining.length := by omega
    rw [List.getD_eq_getElem _ _ hlt] at hentry
    rw [List.getD_eq_getElem _ _ (by rwa [List.length_map]), List.getElem_map,
      mul_div_cancel₀ _ hp, hentry]
    simp

/-- **Elimination** solves a square system, or ends at a pivot of zero, and then the columns of
the system are dependent. -/
theorem elimination {n m : ℕ} {rows : List (List ℝ)} (hlength : rows.length = n)
    (hrows : ∀ row ∈ rows, row.length = n + m) :
    (∃ staircase unknowns, triangular? n (realRows rows) = some staircase ∧
        backSubstitute staircase = realRows unknowns ∧ SolvesRows n m rows unknowns) ∨
      triangular? n (realRows rows) = none ∧ ∃ v, IsDependence n rows v := by
  induction n generalizing rows with
  | zero =>
    obtain rfl := List.eq_nil_of_length_eq_zero hlength
    exact .inl ⟨[], [], rfl, rfl, rfl, by simp, by simp⟩
  | succ n ih =>
    obtain ⟨pivot, rest, hexchanged, hperm, hlargest⟩ :=
      pivotFirst_realRows (List.ne_nil_of_length_eq_add_one hlength)
    have hmem {row : List ℝ} (hrow : row ∈ rows) : row ∈ pivot :: rest := hperm.mem_iff.mpr hrow
    obtain ⟨hpivot, hrest⟩ :=
      List.forall_mem_cons.mp fun row hrow => hrows row (hperm.mem_iff.mp hrow)
    obtain ⟨p, pivot, rfl⟩ := List.exists_cons_of_length_pos
      (show 0 < pivot.length by rw [hpivot]; omega)
    have hpivot : pivot.length = n + m := by rw [List.length_cons] at hpivot; omega
    rw [triangular?_succ hexchanged, List.headD_cons]
    by_cases hp : p = 0
    · -- then all entries of the first column vanish
      right
      refine ⟨if_pos hp, 1 :: List.replicate n 0, by simp, ⟨1, List.mem_cons_self, one_ne_zero⟩, ?_⟩
      intro row hrow
      obtain ⟨a, row', rfl⟩ := List.exists_cons_of_length_pos
        (show 0 < row.length by rw [hrows row hrow]; omega)
      have ha : |a| ≤ |p| := hlargest _ hrow
      rw [hp, abs_zero, abs_nonpos_iff] at ha
      rw [rowDot_cons, rowDot_zeros, ha, zero_mul, add_zero]
    · have hcount : (rest.map (clearedRow (p :: pivot))).length = n := by
        have hcount := hperm.length_eq
        rw [List.length_cons] at hcount
        rw [List.length_map]
        omega
      have hcleared : ∀ row ∈ rest.map (clearedRow (p :: pivot)), row.length = n + m := by
        intro row hrow
        obtain ⟨row, hmem, rfl⟩ := List.mem_map.mp hrow
        simp [clearedRow, hrest row hmem, hpivot]
      rw [if_neg hp]
      rcases ih hcount hcleared with ⟨staircase, unknowns, hstaircase, hback, hsolves⟩ | ⟨hnone, v, hv⟩
      · left
        obtain ⟨first, hfirst, hlength, hentries⟩ := exists_first hp
          (by rw [hpivot, hsolves.length]) hsolves.entries hback
        rw [hsolves.length] at hentries
        have hall := hsolves.cons hpivot hrest hp hlength hentries
        refine ⟨_, first :: unknowns, by rw [hstaircase]; rfl, hfirst, hall.length, hall.entries, ?_⟩
        exact fun c hc row hrow => hall.solves c hc row (hmem hrow)
      · right
        have hall := hv.cons hpivot hrest hp
        exact ⟨by rw [hnone]; rfl, _, hall.length, hall.nonzero, fun row hrow =>
          hall.vanishes row (hmem hrow)⟩

/-! ## Inverses -/

/-- The product of the coefficients of a row, what stands behind them left aside. -/
theorem rowDot_ofFn_append {n : ℕ} (f : Fin n → ℝ) (behind : List ℝ) {unknowns : List ℝ}
    (h : unknowns.length = n) :
    rowDot (List.ofFn f ++ behind) unknowns = ∑ j : Fin n, f j * unknowns.getD j 0 := by
  induction n generalizing unknowns with
  | zero =>
    obtain rfl := List.eq_nil_of_length_eq_zero h
    simp [rowDot]
  | succ n ih =>
    obtain ⟨x, unknowns, rfl⟩ := List.exists_cons_of_length_eq_add_one h
    rw [List.ofFn_succ, List.cons_append, rowDot_cons, ih _ (by simpa using h), Fin.sum_univ_succ]
    rfl

namespace DenseMatrix

/-- The rows of a matrix, each with that of the identity behind it. -/
def extendedRows (M : Matrix (Fin n) (Fin n) ℝ) : List (List ℝ) :=
  List.ofFn fun i =>
    (List.ofFn fun j => M i j) ++ List.ofFn fun j => (1 : Matrix (Fin n) (Fin n) ℝ) i j

theorem mem_extendedRows (M : Matrix (Fin n) (Fin n) ℝ) (i : Fin n) :
    (List.ofFn fun j => M i j) ++ (List.ofFn fun j => (1 : Matrix (Fin n) (Fin n) ℝ) i j) ∈
      extendedRows M := List.mem_ofFn.mpr ⟨i, rfl⟩

theorem realRows_extendedRows (M : Matrix (Fin n) (Fin n) ℝ) :
    List.zipWith (· ++ ·) (ofMatrix M).rows (identity n).rows = realRows (extendedRows M) := by
  rw [identity_eq]
  refine List.ext_getElem (by simp [ofMatrix, realRows, extendedRows]) fun i hi _ => ?_
  simp [ofMatrix, realRows, extendedRows, List.map_ofFn, Function.comp_def]

/-- The unknowns as a matrix. -/
def unknownMatrix (unknowns : List (List ℝ)) : Matrix (Fin n) (Fin n) ℝ :=
  fun j c => (unknowns.getD j []).getD c 0

theorem mul_unknownMatrix {M : Matrix (Fin n) (Fin n) ℝ} {unknowns : List (List ℝ)}
    (h : SolvesRows n n (extendedRows M) unknowns) : M * unknownMatrix unknowns = 1 := by
  ext i c
  have hi := h.solves c c.2 _ (mem_extendedRows M i)
  rw [rowDot_ofFn_append _ _ (by rw [List.length_map, h.length])] at hi
  rw [Matrix.mul_apply]
  refine (Finset.sum_congr rfl fun j _ => ?_).trans (hi.trans ?_)
  · have hj : (j : ℕ) < unknowns.length := by rw [h.length]; exact j.2
    simp [unknownMatrix, hj]
  · simp

theorem ofMatrix_unknownMatrix {rows unknowns : List (List ℝ)}
    (h : SolvesRows n n rows unknowns) :
    (⟨realRows unknowns⟩ : DenseMatrix Exact) = ofMatrix (unknownMatrix (n := n) unknowns) := by
  refine congrArg DenseMatrix.mk (List.ext_getElem (by simp [realRows, h.length]) ?_)
  intro j hj _
  have hj : j < unknowns.length := by simpa [realRows] using hj
  have hentries := h.entries _ (List.getElem_mem hj)
  refine List.ext_getElem (by simp [realRows, hentries]) fun c hc _ => ?_
  have hc : c < (unknowns[j]).length := by simpa [realRows] using hc
  simp [realRows, unknownMatrix, hj, hc]

theorem det_eq_zero_of_isDependence {M : Matrix (Fin n) (Fin n) ℝ} {v : List ℝ}
    (h : IsDependence n (extendedRows M) v) : M.det = 0 := by
  refine Matrix.exists_mulVec_eq_zero_iff.mp ⟨fun j => v.getD j 0, fun hzero => ?_, ?_⟩
  · obtain ⟨a, ha, hne⟩ := h.nonzero
    obtain ⟨j, hj, rfl⟩ := List.getElem_of_mem ha
    have hentry := congrFun hzero ⟨j, h.length ▸ hj⟩
    exact hne (by simpa [hj] using hentry)
  · ext i
    have hi := h.vanishes _ (mem_extendedRows M i)
    rw [rowDot_ofFn_append _ _ h.length] at hi
    exact hi

theorem eliminationInverse?_ofMatrix (M : Matrix (Fin n) (Fin n) ℝ) :
    (ofMatrix M).eliminationInverse? = if M.det = 0 then none else some (ofMatrix M⁻¹) := by
  have hlength : (extendedRows M).length = n := by simp [extendedRows]
  have hrows : ∀ row ∈ extendedRows M, row.length = n + n := by
    intro row hrow
    obtain ⟨i, rfl⟩ := List.mem_ofFn.mp hrow
    simp
  unfold eliminationInverse?
  dsimp only
  rw [nrows_ofMatrix, realRows_extendedRows]
  rcases elimination hlength hrows with
    ⟨staircase, unknowns, hstaircase, hback, hsolves⟩ | ⟨hnone, v, hv⟩
  · have hright := mul_unknownMatrix hsolves
    have hdet : M.det ≠ 0 := (Matrix.isUnit_det_of_right_inverse hright).ne_zero
    rw [hstaircase, Option.map_some, hback, ofMatrix_unknownMatrix hsolves, if_neg hdet,
      Matrix.inv_eq_right_inv hright]
  · rw [hnone, if_pos (det_eq_zero_of_isDependence hv)]
    rfl

/-- **The inverse of a matrix.** It is found exactly when the determinant is not zero. -/
theorem inverse?_ofMatrix (M : Matrix (Fin n) (Fin n) ℝ) :
    (ofMatrix M).inverse? = if M.det = 0 then none else some (ofMatrix M⁻¹) := by
  unfold inverse?
  rw [nrows_ofMatrix]
  by_cases hfew : n < 4
  · rw [if_pos hfew, cofactorInverse?_ofMatrix]
  · rw [if_neg hfew]
    by_cases hfour : n = 4
    · subst hfour
      rw [if_pos rfl, fourRowInverse?_ofMatrix]
    · rw [if_neg hfour, eliminationInverse?_ofMatrix]

end DenseMatrix

end FitSession
