import FitSession.Coordinates.Map
import FitSession.Proofs.Dense
import FitSession.Proofs.State

/-!
# The coordinates of a state

* `length_start`, `length_toInternal`, `length_jacobian`: the points of the map of a state have one
  coordinate for each free parameter;
* `getElem?_toExternal`, `toExternal_cases`: **coordinate `k` is that of the `k`-th free
  parameter**, and what is no coordinate is a value of the state;
* `toExternal_freeMapped`: free parameters that are carried to internal coordinates and back;
* `isSquare_carriedCovariance`: a covariance that is carried over is one of the free parameters.
-/

namespace FitSession.ParameterMap

variable {α : Type} [Scalar α] (s t : ParameterState α)

theorem nFree_ofState : (ofState s).nFree = s.nFree := s.length_freeIndices

theorem length_transforms : (ofState s).transforms.length = s.nFree := by
  rw [ofState, List.length_map, ← List.countP_eq_length_filter]
  rfl

theorem length_freeMapped (f : BoundTransform α → α → α) :
    ((ofState s).freeMapped t f).length = s.nFree := by
  rw [freeMapped, List.length_zipWith, length_transforms]
  exact (congrArg (min · _) s.length_freeIndices).trans (Nat.min_self _)

/-- A start has one coordinate for each free parameter. -/
theorem length_start : ((ofState s).start t).length = s.nFree := length_freeMapped s t _

/-- An internal point has one coordinate for each free parameter. -/
theorem length_toInternal : ((ofState s).toInternal t).length = s.nFree := length_freeMapped s t _

variable {s} {theta : List α}

/-! ## What the coordinates stand for -/

theorem length_toExternal : ((ofState s).toExternal theta).length = s.len :=
  length_overwrite.trans (List.length_map _)

/-- The transforms are those of the limits of the free parameters, in their order. -/
theorem getElem?_transforms {k i : Nat} {e : Entry α} (hi : s.freeIndices[k]? = some i)
    (he : s.entries[i]? = some e) : (ofState s).transforms[k]? = some (.ofLimit e.limit) := by
  rw [ParameterState.freeIndices, List.getElem?_map, Option.map_eq_some_iff] at hi
  obtain ⟨⟨e', i'⟩, hk, rfl⟩ := hi
  have hmem := (List.mem_filter.mp (List.mem_of_getElem? hk)).1
  have he' : e' = e := Option.some.inj ((List.mem_zipIdx_iff_getElem?.mp hmem).symm.trans he)
  rw [ofState, filter_eq_map_fst, List.getElem?_map, List.getElem?_map, hk, he']
  rfl

/-- Coordinate `k` of a point is that of the `k`-th free parameter. -/
theorem getElem?_toExternal {k i : Nat} {e : Entry α} {x : α} (hi : s.freeIndices[k]? = some i)
    (he : s.entries[i]? = some e) (hx : theta[k]? = some x) :
    ((ofState s).toExternal theta)[i]? = some ((BoundTransform.ofLimit e.limit).toExternal x) := by
  have hvalue : ((ofState s).freeValues theta)[k]? =
      some ((BoundTransform.ofLimit e.limit).toExternal x) := by
    rw [freeValues, List.getElem?_zipWith, getElem?_transforms hi he, hx]
  refine getElem?_overwrite ?_ (List.mem_of_getElem? (i := k) ?_) ?_
  · exact s.nodup_freeIndices.sublist (map_fst_zip_sublist _ _)
  · rw [List.getElem?_zip_eq_some]
    exact ⟨hi, hvalue⟩
  · have hlt := (List.getElem?_eq_some_iff.mp he).1
    simpa [ofState, ParameterState.values] using hlt

/-- A parameter that is not free keeps its value. -/
theorem getElem?_toExternal_of_fixed {i : Nat} (hi : i ∉ s.freeIndices) :
    ((ofState s).toExternal theta)[i]? = s.values[i]? := by
  refine getElem?_overwrite_of_not_mem fun hmem => hi ?_
  exact (map_fst_zip_sublist _ _).subset hmem

theorem getElem?_freeMapped {f : BoundTransform α → α → α} {k i : Nat} {e : Entry α}
    (hi : s.freeIndices[k]? = some i) (he : s.entries[i]? = some e) :
    ((ofState s).freeMapped s f)[k]? = some (f (.ofLimit e.limit) e.value) := by
  have hfree : (ofState s).free[k]? = some i := hi
  have hentry : s.entry? i = some e := he
  rw [freeMapped, List.getElem?_zipWith, hfree, getElem?_transforms hi he]
  simp only [hentry, Option.elim_some]

/-- What becomes of the values of a state whose free parameters are carried to internal coordinates
and back. -/
theorem toExternal_freeMapped (s : ParameterState α) (f : BoundTransform α → α → α) :
    (ofState s).toExternal ((ofState s).freeMapped s f) = s.entries.map fun e =>
      if e.isFixed then e.value
      else (BoundTransform.ofLimit e.limit).toExternal (f (.ofLimit e.limit) e.value) := by
  refine List.ext_getElem? fun i => ?_
  rw [List.getElem?_map]
  cases he : s.entries[i]? with
  | none =>
    rw [Option.map_none, List.getElem?_eq_none_iff, length_toExternal]
    exact List.getElem?_eq_none_iff.mp he
  | some e =>
    have hmem : i ∈ s.freeIndices ↔ e.isFixed = false := by
      rw [ParameterState.mem_freeIndices, ParameterState.flags, List.getElem?_map, he,
        Option.map_some, Option.some_inj]
    rw [Option.map_some]
    cases hfixed : e.isFixed with
    | true =>
      have hnot : i ∉ s.freeIndices := fun h => by simp [hmem.mp h] at hfixed
      rw [getElem?_toExternal_of_fixed hnot, ParameterState.values, List.getElem?_map, he,
        Option.map_some, if_pos rfl]
    | false =>
      have hi := s.getElem?_row (hmem.mpr hfixed)
      rw [getElem?_toExternal hi he (getElem?_freeMapped hi he), if_neg Bool.false_ne_true]

/-- An argument is the value of its parameter, or that of a coordinate if the parameter is free. -/
theorem toExternal_cases {i : Nat} {e : Entry α} {x : α} (he : s.entries[i]? = some e)
    (hx : ((ofState s).toExternal theta)[i]? = some x) :
    x = e.value ∨ e.isFixed = false ∧ ∃ y, x = (BoundTransform.ofLimit e.limit).toExternal y := by
  by_cases hmem : i ∈ (s.freeIndices.zip ((ofState s).freeValues theta)).map Prod.fst
  · obtain ⟨⟨_, v⟩, hzip, rfl⟩ := List.mem_map.mp hmem
    obtain ⟨k, hk⟩ := List.mem_iff_getElem?.mp hzip
    obtain ⟨hi, hv⟩ := List.getElem?_zip_eq_some.mp hk
    rw [freeValues, List.getElem?_zipWith_eq_some] at hv
    obtain ⟨t, y, -, hy, -⟩ := hv
    have hfree := s.mem_freeIndices.mp (List.mem_of_getElem? hi)
    rw [ParameterState.flags, List.getElem?_map, he, Option.map_some] at hfree
    rw [getElem?_toExternal hi he hy] at hx
    exact .inr ⟨Option.some.inj hfree, y, (Option.some.inj hx).symm⟩
  · have hkept : ((ofState s).toExternal theta)[i]? = s.values[i]? :=
      getElem?_overwrite_of_not_mem hmem
    rw [hkept, ParameterState.values, List.getElem?_map, he] at hx
    exact .inl (Option.some.inj hx).symm

theorem length_jacobian (h : theta.length = s.nFree) :
    ((ofState s).jacobian theta).length = s.nFree := by
  rw [jacobian, List.length_zipWith, length_transforms, h, Nat.min_self]

/-- A covariance that is carried over has one row and column for each free parameter. -/
theorem isSquare_carriedCovariance (h : theta.length = s.nFree) (internal : DenseMatrix α) :
    ((ofState s).carriedCovariance theta internal).IsSquare s.nFree := by
  unfold carriedCovariance
  extract_lets jac
  rw [show jac.length = s.nFree from length_jacobian h]
  exact DenseMatrix.isSquare_ofFn s.nFree _

end FitSession.ParameterMap
