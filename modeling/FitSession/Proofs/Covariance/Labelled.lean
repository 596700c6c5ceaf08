import FitSession.Covariance.Labelled
import FitSession.Proofs.Dense
import FitSession.Proofs.Registry
import FitSession.Proofs.State

/-!
# Covariances by name

* `ParameterState.freeNames`, `ParameterState.labels`: the names in a labelled covariance;
* `join_rowSlots`: the rows that are written are those in which the free parameters stand;
* `labelledCovariance_eq`: a covariance with a row for each free parameter can be labelled;
* `get_labelled`: **what is found under two names** is the entry of the parameters that have them.
-/

namespace FitSession

variable {α : Type} [Scalar α]

namespace ParameterState

/-- The names of the free parameters, in the order of the registry. -/
def freeNames (s : ParameterState α) (registry : Registry) : List String :=
  s.freeIndices.map registry.nameAt

/-- The covariance `c` of a state with the names of its free parameters, or spread over all. -/
def labelled (s : ParameterState α) (registry : Registry) (c : DenseMatrix α) :
    (onlyFree : Bool) → LabelledMatrix α
  | true => ⟨s.freeNames registry, c⟩
  | false => ⟨registry.names, c.spread s.freeIndices s.len⟩

variable {s : ParameterState α} {registry : Registry} {c : DenseMatrix α}

theorem filterMap_name?_freeIndices (hlen : s.len = registry.len) :
    s.freeIndices.filterMap registry.name? = s.freeNames registry :=
  filterMap_eq_map fun _ hi => Registry.name?_eq (hlen ▸ lt_of_mem_freeIndices hi)

/-- A covariance with a row for each free parameter can be labelled. -/
theorem labelledCovariance_eq (hlen : s.len = registry.len) (hc : s.covariance = some c)
    (hsquare : c.IsSquare s.nFree) (onlyFree : Bool) :
    s.labelledCovariance registry onlyFree = .ok (s.labelled registry c onlyFree) := by
  have hsize : c.hasSize s.freeIndices.length = true := s.length_freeIndices ▸ hsquare.hasSize
  unfold labelledCovariance
  rw [hc]
  extract_lets free
  dsimp only
  rw [if_neg (by simp [free, hsize])]
  cases onlyFree with
  | true =>
    have hnames : (s.freeNames registry).length = free.length := List.length_map _
    change LabelledMatrix.ofParts (free.filterMap registry.name?) c = _
    rw [filterMap_name?_freeIndices hlen, LabelledMatrix.ofParts, hnames, if_pos hsize]
    rfl
  | false =>
    have hspread : (c.spread free s.len).hasSize registry.names.length = true := by
      rw [hlen]
      exact (DenseMatrix.isSquare_ofFn _ _).hasSize
    change LabelledMatrix.ofParts ((List.range s.len).filterMap registry.name?) _ = _
    rw [hlen, Registry.filterMap_name?_range, ← hlen, LabelledMatrix.ofParts, if_pos hspread]
    rfl

theorem nodup_freeNames (hlen : s.len = registry.len) : (s.freeNames registry).Nodup := by
  refine s.nodup_freeIndices.map_on fun i hi j hj h => ?_
  exact Registry.nameAt_inj (hlen ▸ lt_of_mem_freeIndices hi) (hlen ▸ lt_of_mem_freeIndices hj) h

theorem getElem?_freeNames {i : Nat} (hi : i ∈ s.freeIndices) :
    (s.freeNames registry)[s.row i]? = some (registry.nameAt i) := by
  rw [freeNames, List.getElem?_map, getElem?_row hi]
  rfl

/-- A free parameter is found under its name among the free ones. -/
theorem position_freeName (hlen : s.len = registry.len) {i : Nat} (hi : i ∈ s.freeIndices) :
    (s.labelled registry c true).position (.name (registry.nameAt i)) = .ok (s.row i) := by
  have hfind := findIdx?_of_nodup (nodup_freeNames hlen) (getElem?_freeNames hi)
  simp only [LabelledMatrix.position, labelled, hfind]

/-- A parameter is found under its name among all of them. -/
theorem position_name {i : Nat} (hi : i < registry.len) :
    (s.labelled registry c false).position (.name (registry.nameAt i)) = .ok i := by
  have hfind := findIdx?_of_nodup registry.nodup_names (Registry.name?_eq hi)
  simp only [LabelledMatrix.position, labelled, hfind]

/-- Rows written one after another are those in which the free parameters stand. -/
theorem join_rowSlots {i : Nat} (hi : i < s.len) :
    (rowSlots s.freeIndices s.len)[i]?.join = s.freeIndices.idxOf? i := by
  have hslots : rowSlots s.freeIndices s.len =
      (s.freeIndices.zipIdx.map fun w => (w.1, some w.2)).foldl
        (fun slots w => slots.set w.1 w.2) (List.replicate s.len none) := by
    rw [List.foldl_map]
    rfl
  have hindices : ((s.freeIndices.zipIdx.map fun w => (w.1, some w.2)).map Prod.fst) =
      s.freeIndices := by
    rw [List.map_map]
    exact List.zipIdx_map_fst 0 _
  rw [hslots]
  by_cases hfree : i ∈ s.freeIndices
  · have hwritten : (i, some (s.row i)) ∈ s.freeIndices.zipIdx.map fun w => (w.1, some w.2) :=
      List.mem_map.mpr ⟨(i, s.row i), List.mem_zipIdx_iff_getElem?.mpr (getElem?_row hfree), rfl⟩
    rw [getElem?_overwrite (hindices.symm ▸ s.nodup_freeIndices) hwritten
      (List.length_replicate.symm ▸ hi), idxOf?_eq_row hfree]
    rfl
  · rw [getElem?_overwrite_of_not_mem (hindices.symm ▸ hfree), List.idxOf?_eq_none_iff.mpr hfree,
      List.getElem?_replicate, if_pos hi]
    rfl

theorem get_spread {i j : Nat} (hi : i ∈ s.freeIndices) (hj : j ∈ s.freeIndices) :
    (c.spread s.freeIndices s.len).get i j = c.get (s.row i) (s.row j) := by
  unfold DenseMatrix.spread
  extract_lets rows
  rw [DenseMatrix.get_ofFn (lt_of_mem_freeIndices hi) (lt_of_mem_freeIndices hj),
    join_rowSlots (lt_of_mem_freeIndices hi), join_rowSlots (lt_of_mem_freeIndices hj),
    idxOf?_eq_row hi, idxOf?_eq_row hj]

/-- What is found under two names is the entry of the parameters that have these names. -/
theorem get_labelled (hlen : s.len = registry.len) {i j : Nat} (hi : i ∈ s.freeIndices)
    (hj : j ∈ s.freeIndices) (onlyFree : Bool) :
    (s.labelled registry c onlyFree).get (.name (registry.nameAt i)) (.name (registry.nameAt j)) =
      .ok (c.get (s.row i) (s.row j)) := by
  cases onlyFree with
  | true =>
    rw [LabelledMatrix.get, position_freeName hlen hi, position_freeName hlen hj]
    rfl
  | false =>
    have hi' : i < registry.len := hlen ▸ lt_of_mem_freeIndices hi
    have hj' : j < registry.len := hlen ▸ lt_of_mem_freeIndices hj
    rw [LabelledMatrix.get, position_name hi', position_name hj', ← get_spread hi hj]
    rfl

end ParameterState
end FitSession
