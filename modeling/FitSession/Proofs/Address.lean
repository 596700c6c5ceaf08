import FitSession.Address.Key
import FitSession.Address.Slice
import FitSession.Proofs.Registry

/-!
# Addresses stay within bounds

* `signedIndex_ofNat`, `signedIndex_sub`: a position, from the front and from the end;
* `Key.lt_of_resolve`: a key that is resolved stands for a position of the registry;
* `Slice.lt_of_mem_indices`, `Slice.nodup_indices`: a slice only selects positions of the list,
  and none twice.
-/

namespace FitSession

variable {α β : Type}

/-! ## Keys -/

theorem lt_of_signedIndex {index : Int} {len i : Nat}
    (h : (signedIndex index len : Except (FitError α) Nat) = .ok i) : i < len := by
  unfold signedIndex at h
  generalize (if index < 0 then index + len else index) = resolved at h
  simp only at h
  split at h
  · cases h
  · cases h
    omega

theorem signedIndex_ofNat {a n : Nat} (h : a < n) :
    (signedIndex (a : Int) n : Except (FitError α) Nat) = .ok a := by
  have hin : ¬((a : Int) < 0 ∨ (n : Int) ≤ a) := by omega
  simp only [signedIndex, if_neg (show ¬(a : Int) < 0 by omega), if_neg hin, Int.toNat_natCast]

/-- A negative position counts from the end. -/
theorem signedIndex_sub {a n : Nat} (h : a < n) :
    (signedIndex ((a : Int) - n) n : Except (FitError α) Nat) = .ok a := by
  have hin : ¬((a : Int) < 0 ∨ (n : Int) ≤ a) := by omega
  simp only [signedIndex, if_pos (show (a : Int) - n < 0 by omega), Int.sub_add_cancel, if_neg hin,
    Int.toNat_natCast]

/-- A key that is resolved stands for a position of the registry. -/
theorem Key.lt_of_resolve {registry : Registry} {key : Key} {i : Nat}
    (h : (key.resolve registry : Except (FitError α) Nat) = .ok i) : i < registry.len := by
  cases key with
  | index _ => exact lt_of_signedIndex h
  | name text => exact (List.getElem?_eq_some_iff.mp (Registry.indexOf_eq_ok.mp h)).1

/-! ## Slices -/

namespace Slice

/-- What a walk reaches lies between the position it is at and its stop. -/
theorem bounds_of_mem_walk {s : Slice} {stop i j : Int} (h : j ∈ s.walk stop i) :
    if 0 < s.step then i ≤ j ∧ j < stop else stop < j ∧ j ≤ i := by
  have hne := s.step_ne
  fun_induction Slice.walk s stop i with
  | case1 i hb ih =>
    unfold IsBefore at hb
    rcases List.mem_cons.mp h with rfl | h
    · split at hb
      · next hs => exact (if_pos hs).mpr ⟨Int.le_refl _, hb⟩
      · next hs => exact (if_neg hs).mpr ⟨hb, Int.le_refl _⟩
    · split at h
      · have := ih h
        split at hb <;> simp only [*, if_true, if_false] at this ⊢ <;> omega
      · cases h
  | case2 i hb => cases h

/-- A walk never turns. -/
theorem pairwise_walk (s : Slice) (stop i : Int) :
    (s.walk stop i).Pairwise fun a b => IsBefore s.step b a := by
  have hne := s.step_ne
  fun_induction Slice.walk s stop i with
  | case1 i hb ih =>
    split
    · refine List.pairwise_cons.mpr ⟨fun j hj => ?_, ih⟩
      have := bounds_of_mem_walk hj
      unfold IsBefore
      split at this <;> simp only [*, if_true, if_false] <;> omega
    · exact List.pairwise_singleton _ _
  | case2 i hb => exact .nil

theorem clip_bounds (n : Int) (bound : Option Int) (missing lo hi : Int) (hlo : lo ≤ hi)
    (hn : n - 1 ≤ hi) (hl : lo ≤ 0) (hm : lo ≤ missing ∧ missing ≤ hi) :
    lo ≤ clip n bound missing lo hi ∧ clip n bound missing lo hi ≤ hi := by
  cases bound with
  | none => exact hm
  | some b =>
    simp only [clip]
    split <;> omega

theorem bounds_clipped (s : Slice) (len : Nat) (bound : Option Int) {up down : Int}
    (hup : 0 ≤ up ∧ up ≤ len) (hdown : -1 ≤ down ∧ down ≤ len - 1) :
    if 0 < s.step then 0 ≤ s.clipped len bound up down ∧ s.clipped len bound up down ≤ len
    else -1 ≤ s.clipped len bound up down ∧ s.clipped len bound up down ≤ len - 1 := by
  unfold clipped
  split
  · exact clip_bounds len bound up 0 len (by omega) (by omega) (by omega) hup
  · exact clip_bounds len bound down (-1) (len - 1) (by omega) (by omega) (by omega) hdown

theorem bounds_firstOf (s : Slice) (len : Nat) :
    if 0 < s.step then 0 ≤ s.firstOf len ∧ s.firstOf len ≤ len
    else -1 ≤ s.firstOf len ∧ s.firstOf len ≤ len - 1 :=
  s.bounds_clipped len s.start (by omega) (by omega)

theorem bounds_stopOf (s : Slice) (len : Nat) :
    if 0 < s.step then 0 ≤ s.stopOf len ∧ s.stopOf len ≤ len
    else -1 ≤ s.stopOf len ∧ s.stopOf len ≤ len - 1 :=
  s.bounds_clipped len s.stop (by omega) (by omega)

/-- The walk over a list stays inside the list. -/
theorem mem_walk_bounds {s : Slice} {len : Nat} {j : Int}
    (h : j ∈ s.walk (s.stopOf len) (s.firstOf len)) : 0 ≤ j ∧ j < len := by
  have hj := bounds_of_mem_walk h
  have hfirst := s.bounds_firstOf len
  have hstop := s.bounds_stopOf len
  split at hj <;> simp only [*, if_true, if_false] at hfirst hstop <;> omega

/-- A slice only selects positions of the list. -/
theorem lt_of_mem_indices {s : Slice} {len i : Nat} (h : i ∈ s.indices len) : i < len := by
  obtain ⟨j, hj, rfl⟩ := List.mem_map.mp h
  have := mem_walk_bounds hj
  omega

/-- The selected positions as integers are the walk itself. -/
theorem map_cast_indices (s : Slice) (len : Nat) :
    (s.indices len).map Int.ofNat = s.walk (s.stopOf len) (s.firstOf len) := by
  rw [indices, List.map_map]
  refine (List.map_congr_left fun j hj => ?_).trans (List.map_id _)
  have := mem_walk_bounds hj
  simp only [Function.comp_apply, Int.ofNat_eq_natCast, id_eq]
  omega

/-- The selected positions follow one another in the direction of the step. -/
theorem pairwise_indices (s : Slice) (len : Nat) :
    (s.indices len).Pairwise fun a b => IsBefore s.step (b : Nat) (a : Nat) := by
  have := s.pairwise_walk (s.stopOf len) (s.firstOf len)
  rwa [← map_cast_indices, List.pairwise_map] at this

/-- A slice selects no position twice. -/
theorem nodup_indices (s : Slice) (len : Nat) : (s.indices len).Nodup :=
  (s.pairwise_indices len).imp fun h => by
    unfold IsBefore at h
    split at h <;> omega

end Slice
end FitSession
