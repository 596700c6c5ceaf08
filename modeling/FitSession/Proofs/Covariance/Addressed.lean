import FitSession.Proofs.Address
import FitSession.Proofs.Covariance.Labelled

/-!
# Entries by key

The covariance of the free parameters and that of all parameters are two tables of the same
numbers. An entry has a key for each of three ways to count or call its row and its column, and it
does not matter which of them is used.

* `LabelledMatrix.keysAt`, `LabelledMatrix.get_of_mem_keysAt`: the keys of a position all lead to
  it;
* `freeNames_eq_filter`: the names of the free parameters, in the order of the registry;
* `get_spread_eq_zero`: rows and columns that are not free;
* `TwoTables`, **`twoTables_labelledCovariance`**: the full and the reduced covariance of a state.
-/

namespace FitSession

variable {α : Type} [Scalar α]

/-! ## Keys of a position -/

namespace LabelledMatrix

variable {m : LabelledMatrix α} {a b : Nat}

/-- The keys of a position: as it is, counted from the end, and by its name. -/
def keysAt (m : LabelledMatrix α) (a : Nat) : List Key :=
  [.index a, .index (a - m.len)] ++ (m.names[a]?.map Key.name).toList

omit [Scalar α] in
theorem mem_keysAt {key : Key} : key ∈ m.keysAt a ↔
    key = .index a ∨ key = .index (a - m.len) ∨ ∃ x, m.names[a]? = some x ∧ key = .name x := by
  unfold keysAt
  cases m.names[a]? <;> simp

omit [Scalar α] in
/-- Where no name is there twice, every key of a position leads to it. -/
theorem position_of_mem_keysAt (hnodup : m.names.Nodup) (ha : a < m.len) {key : Key}
    (hkey : key ∈ m.keysAt a) : m.position key = .ok a := by
  rcases mem_keysAt.mp hkey with rfl | rfl | ⟨x, hx, rfl⟩
  · exact signedIndex_ofNat ha
  · exact signedIndex_sub ha
  · simp only [position, findIdx?_of_nodup hnodup hx]

/-- Whichever keys are used for its row and its column, an entry is the same. -/
theorem get_of_mem_keysAt (hnodup : m.names.Nodup) (ha : a < m.len) (hb : b < m.len)
    {row col : Key} (hrow : row ∈ m.keysAt a) (hcol : col ∈ m.keysAt b) :
    m.get row col = .ok (m.data.get a b) := by
  rw [get, position_of_mem_keysAt hnodup ha hrow, position_of_mem_keysAt hnodup hb hcol]
  rfl

end LabelledMatrix

/-! ## Names and rows -/

/-- Names of the items with a property, by position or by item. -/
theorem map_filter_zipIdx {β γ : Type} {p : β → Bool} {f : Nat → γ} :
    ∀ {l : List β} {names : List γ} {k : Nat}, names.length = l.length →
      (∀ i x, names[i]? = some x → f (k + i) = x) →
    ((l.zipIdx k).filter fun (x, _) => p x).map (fun e => f e.2) =
      ((names.zip l).filter fun (_, x) => p x).map (·.1)
  | [], names, k, _, _ => by simp
  | y :: l, [], k, hlen, _ => by cases hlen
  | y :: l, name :: names, k, hlen, hf => by
    have hnext (i : Nat) (x : γ) (hx : names[i]? = some x) : f (k + 1 + i) = x := by
      rw [Nat.add_right_comm]
      exact hf (i + 1) x hx
    have hrest := map_filter_zipIdx (p := p) (Nat.succ.inj hlen) hnext
    have hname : f k = name := hf 0 name rfl
    rw [List.zipIdx_cons, List.zip_cons_cons, List.filter_cons, List.filter_cons]
    cases hy : p y with
    | false => simpa [hy] using hrest
    | true => simpa [hy, hname] using hrest

namespace ParameterState

variable {s : ParameterState α} {registry : Registry} {c : DenseMatrix α}

/-- The names of the free parameters are those of the entries that are not fixed. -/
theorem freeNames_eq_filter (hlen : s.len = registry.len) : s.freeNames registry =
    ((registry.names.zip s.entries).filter fun (_, e) => !e.isFixed).map (·.1) := by
  rw [freeNames, freeIndices, List.map_map]
  refine map_filter_zipIdx (p := fun e : Entry α => !e.isFixed) hlen.symm fun i x hx => ?_
  rw [Nat.zero_add, Registry.nameAt, Registry.name?, hx, Option.getD_some]

theorem not_mem_freeIndices {i : Nat} {e : Entry α} (he : s.entries[i]? = some e)
    (hfixed : e.isFixed = true) : i ∉ s.freeIndices := by
  simp [mem_freeIndices, flags, he, hfixed]

/-- Rows and columns of parameters that are not free hold zeros. -/
theorem get_spread_eq_zero {i j : Nat} (hi : i < s.len) (hj : j < s.len)
    (h : i ∉ s.freeIndices ∨ j ∉ s.freeIndices) :
    (c.spread s.freeIndices s.len).get i j = 0 := by
  unfold DenseMatrix.spread
  extract_lets rows
  rw [DenseMatrix.get_ofFn hi hj, join_rowSlots hi, join_rowSlots hj]
  rcases h with h | h
  · rw [List.idxOf?_eq_none_iff.mpr h]
  · rw [List.idxOf?_eq_none_iff.mpr h]
    cases s.freeIndices.idxOf? i <;> rfl

theorem row_of_getElem? {i a : Nat} (h : s.freeIndices[a]? = some i) : s.row i = a := by
  obtain ⟨ha, rfl⟩ := List.getElem?_eq_some_iff.mp h
  exact s.nodup_freeIndices.idxOf_getElem a ha

/-! ## Two tables -/

/-- The full and the reduced covariance of a state, by name and by position. -/
structure TwoTables (s : ParameterState α) (registry : Registry) (c : DenseMatrix α)
    (full reduced : LabelledMatrix α) : Prop where
  reducedNames :
    reduced.names = ((registry.names.zip s.entries).filter fun (_, e) => !e.isFixed).map (·.1)
  reducedData : reduced.data = c
  fullNames : full.names = registry.names
  fullSize : full.data.IsSquare registry.len
  /-- Rows and columns of free parameters, by their positions among all and among the free ones. -/
  free {i j a b} : s.freeIndices[a]? = some i → s.freeIndices[b]? = some j →
    full.names[i]? = reduced.names[a]? ∧ full.data.get i j = reduced.data.get a b
  /-- Rows and columns of fixed parameters. -/
  fixed {i j e} : s.entries[i]? = some e → e.isFixed = true → j < registry.len →
    full.data.get i j = 0 ∧ full.data.get j i = 0
  /-- Every key of a row and every key of a column lead to one entry, in both tables. -/
  keys {m a b row col} : m ∈ [full, reduced] → a < m.len → b < m.len → row ∈ m.keysAt a →
    col ∈ m.keysAt b → m.get row col = .ok (m.data.get a b)
  /-- Two free parameters have the same entry in both tables. -/
  across {x y} : x ∈ reduced.names → y ∈ reduced.names →
    ∃ v, reduced.get (.name x) (.name y) = .ok v ∧ full.get (.name x) (.name y) = .ok v

/-- **The full and the reduced covariance.** Whatever fixes a parameter, the reduced covariance of a
state is the one it holds, with the names of the free parameters; the full one has the same entries
under the same names, and zeros for the other parameters. -/
theorem twoTables_labelledCovariance (hlen : s.len = registry.len) (hc : s.covariance = some c)
    (hsquare : c.IsSquare s.nFree) :
    ∃ full reduced, s.labelledCovariance registry false = .ok full ∧
      s.labelledCovariance registry true = .ok reduced ∧ s.TwoTables registry c full reduced := by
  refine ⟨_, _, labelledCovariance_eq hlen hc hsquare false,
    labelledCovariance_eq hlen hc hsquare true, ?_⟩
  refine ⟨freeNames_eq_filter hlen, rfl, rfl, ?_, ?_, ?_, ?_, ?_⟩
  · exact hlen ▸ DenseMatrix.isSquare_ofFn _ _
  · intro i j a b hi hj
    have himem := List.mem_of_getElem? hi
    have hname : (s.freeNames registry)[s.row i]? = some (registry.nameAt i) :=
      getElem?_freeNames himem
    rw [row_of_getElem? hi] at hname
    refine ⟨(Registry.name?_eq (hlen ▸ lt_of_mem_freeIndices himem)).trans hname.symm, ?_⟩
    have hget := get_spread (c := c) himem (List.mem_of_getElem? hj)
    rwa [row_of_getElem? hi, row_of_getElem? hj] at hget
  · intro i j e he hfixed hj
    have hi : i < s.len := (List.getElem?_eq_some_iff.mp he).1
    have hnot := not_mem_freeIndices he hfixed
    rw [← hlen] at hj
    exact ⟨get_spread_eq_zero hi hj (.inl hnot), get_spread_eq_zero hj hi (.inr hnot)⟩
  · intro m a b row col hm ha hb hrow hcol
    refine LabelledMatrix.get_of_mem_keysAt ?_ ha hb hrow hcol
    rcases List.mem_pair.mp hm with rfl | rfl
    · exact registry.nodup_names
    · exact nodup_freeNames hlen
  · intro x y hx hy
    obtain ⟨i, hi, rfl⟩ := List.mem_map.mp hx
    obtain ⟨j, hj, rfl⟩ := List.mem_map.mp hy
    exact ⟨_, get_labelled hlen hi hj true, get_labelled hlen hi hj false⟩

/-- Four parameters, of which one is fixed by its flag and one by its limit. -/
def halfFixed : ParameterState Float where
  entries := [⟨0, 1, false, Scalar.negInf, Scalar.inf⟩, ⟨1, 1, true, Scalar.negInf, Scalar.inf⟩,
    ⟨2, 1, false, 2, 2⟩, ⟨3, 1, false, 0, 5⟩]
  covariance := some ⟨[[4, 1], [1, 9]]⟩

/-- Names for them. -/
def fourNames : Registry :=
  ⟨["a", "b", "c", "d"], [("d", 3), ("c", 2), ("b", 1), ("a", 0)], by decide, rfl⟩

theorem twoTables_labelledCovariance_halfFixed : ∃ full reduced : LabelledMatrix Float,
    halfFixed.TwoTables fourNames ⟨[[4, 1], [1, 9]]⟩ full reduced ∧
      reduced.names = ["a", "d"] ∧ full.data.get 0 3 = 1 ∧ full.data.get 2 3 = 0 := by
  have hlen : halfFixed.len = fourNames.len := rfl
  obtain ⟨full, reduced, hfull, hreduced, htables⟩ := twoTables_labelledCovariance
    (c := ⟨[[4, 1], [1, 9]]⟩) hlen rfl ⟨by decide +kernel, by decide +kernel⟩
  refine ⟨full, reduced, htables, ?_, ?_, ?_⟩
  · rw [htables.reducedNames]
    decide +kernel
  · exact (htables.free (a := 0) (b := 1) (by decide +kernel) (by decide +kernel)).2.trans <| by
      rw [htables.reducedData]
      rfl
  · exact (htables.fixed (i := 2) rfl (by decide +kernel) (by decide)).1

end ParameterState
end FitSession
