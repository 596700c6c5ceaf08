import Mathlib.Data.List.Induction
import Mathlib.Data.List.Nodup

/-!
# Lists and their positions

* `positions_eq_filter`: the positions of the items with a property;
* `filter_ne_eq_map`: a list without one of its items, by position;
* `findIdx?_of_nodup`: an item is found at its position;
* `TellsPositions`, `TellsPositions.concat`: a table of positions, and one more item in it;
* `getElem?_overwrite`, `getElem?_overwrite_of_not_mem`: a list with items written over;
* `eq_of_mem_zip`, `zipWith_congr_left`: partners in two lists.
-/

namespace FitSession

variable {β γ : Type}

theorem filterMap_eq_map {f : β → Option γ} {g : β → γ} {l : List β}
    (h : ∀ x ∈ l, f x = some (g x)) : l.filterMap f = l.map g := by
  induction l with
  | nil => rfl
  | cons x l ih =>
    obtain ⟨hx, hl⟩ := List.forall_mem_cons.mp h
    rw [List.filterMap_cons_some hx, ih hl, List.map_cons]

/-- Positions of the items with a property, found by item or by position. -/
theorem positions_eq_filter (p : β → Bool) (l : List β) :
    (l.zipIdx.filter fun (x, _) => p x).map (·.2) =
      (List.range l.length).filter fun i => l[i]?.any p := by
  induction l using List.reverseRecOn with
  | nil => rfl
  | append_singleton l a ih =>
    have hlt : (List.range l.length).filter (fun i => (l ++ [a])[i]?.any p) =
        (List.range l.length).filter fun i => l[i]?.any p := by
      refine List.filter_congr fun i hi => ?_
      rw [List.getElem?_append_left (List.mem_range.mp hi)]
    rw [List.zipIdx_append, List.filter_append, List.map_append, ih, List.length_append,
      List.length_singleton, List.range_succ, List.filter_append, hlt]
    cases h : p a <;> simp [h]

/-- The items with a property, in a list with positions. -/
theorem filter_eq_map_fst (p : β → Bool) (l : List β) :
    l.filter p = (l.zipIdx.filter fun (x, _) => p x).map (·.1) := by
  conv_lhs => rw [← List.zipIdx_map_fst 0 l, List.filter_map]
  rfl

/-- What is left when one item of a list without duplicates is taken out, by position. -/
theorem filter_ne_eq_map {F : List Nat} (hF : F.Nodup) {i : Nat} (hi : i ∈ F) :
    F.filter (· ≠ i) =
      ((List.range F.length).filter (· ≠ F.idxOf i)).map fun k => F[k]?.getD 0 := by
  have hmap : F = (List.range F.length).map fun k => F[k]?.getD 0 := by
    refine List.ext_getElem (by simp) fun k hk _ => ?_
    simp [hk]
  conv_lhs => rw [hmap]
  rw [List.filter_map]
  congr 1
  refine List.filter_congr fun k hk => ?_
  have hk := List.mem_range.mp hk
  have hpos := List.idxOf_lt_length_of_mem hi
  simp only [Function.comp_apply, List.getElem?_eq_getElem hk, Option.getD_some, decide_eq_decide]
  refine not_congr ⟨fun h => ?_, fun h => ?_⟩
  · rw [← h, hF.idxOf_getElem]
  · subst h
    exact List.getElem_idxOf hpos

/-- In a list without duplicates an item is found at its position. -/
theorem findIdx?_of_nodup [BEq β] [LawfulBEq β] {l : List β} (h : l.Nodup) {i : Nat} {x : β}
    (hi : l[i]? = some x) : l.findIdx? (· == x) = some i := by
  obtain ⟨hlt, rfl⟩ := List.getElem?_eq_some_iff.mp hi
  refine List.findIdx?_eq_some_iff_getElem.mpr ⟨hlt, by simp, fun j hj heq => ?_⟩
  exact absurd (h.getElem_inj_iff.mp (beq_iff_eq.mp heq)) (Nat.ne_of_lt hj)

/-! ## Tables of positions -/

section Tables

variable [BEq β]

/-- The table tells of each item of a list where it stands, and nothing of other items. -/
def TellsPositions (l : List β) (table : List (β × Nat)) : Prop :=
  ∀ x i, table.lookup x = some i ↔ l[i]? = some x

namespace TellsPositions

variable {l : List β} {table : List (β × Nat)} {x : β}

theorem nil : TellsPositions ([] : List β) [] := fun x i => by simp

theorem mem_of_lookup {i : Nat} (h : TellsPositions l table) (hi : table.lookup x = some i) :
    x ∈ l :=
  List.mem_of_getElem? ((h x i).mp hi)

theorem isSome_lookup (h : TellsPositions l table) : (table.lookup x).isSome ↔ x ∈ l := by
  rw [Option.isSome_iff_exists]
  refine ⟨fun ⟨i, hi⟩ => h.mem_of_lookup hi, fun hx => ?_⟩
  obtain ⟨i, hi⟩ := List.mem_iff_getElem?.mp hx
  exact ⟨i, (h x i).mpr hi⟩

theorem lookup_eq_none (h : TellsPositions l table) (hx : x ∉ l) : table.lookup x = none :=
  Option.not_isSome_iff_eq_none.mp (mt h.isSome_lookup.mp hx)

/-- An item that is new stands behind all others. -/
theorem concat [LawfulBEq β] (h : TellsPositions l table) (hx : x ∉ l) :
    TellsPositions (l ++ [x]) ((x, l.length) :: table) := by
  intro y i
  by_cases hy : y = x
  · subst hy
    rw [List.lookup_cons_self, Option.some.injEq]
    refine ⟨fun hi => by simp [← hi], fun hi => ?_⟩
    by_contra hne
    refine hx (List.mem_of_getElem? (i := i) ?_)
    rcases Nat.lt_or_ge i l.length with hlt | hge
    · rwa [List.getElem?_append_left hlt] at hi
    · rw [List.getElem?_eq_none (by simp; omega)] at hi
      cases hi
  · have hlookup : ((x, l.length) :: table).lookup y = table.lookup y := by
      rw [List.lookup_cons, beq_eq_false_iff_ne.mpr hy]
    rw [hlookup, h y i]
    rcases Nat.lt_trichotomy i l.length with hlt | rfl | hgt
    · rw [List.getElem?_append_left hlt]
    · simp [Ne.symm hy]
    · rw [List.getElem?_eq_none (by omega), List.getElem?_eq_none (by simp; omega)]

end TellsPositions

end Tables

/-! ## Lists with items written over -/

section Overwrite

variable {ps : List (Nat × β)} {base : List β} {i : Nat}

theorem length_overwrite :
    (ps.foldl (fun args (k, x) => args.set k x) base).length = base.length := by
  induction ps generalizing base with
  | nil => rfl
  | cons p ps ih =>
    rw [List.foldl_cons, ih]
    exact List.length_set

theorem getElem?_overwrite_of_not_mem (h : i ∉ ps.map Prod.fst) :
    (ps.foldl (fun args (k, x) => args.set k x) base)[i]? = base[i]? := by
  induction ps generalizing base with
  | nil => rfl
  | cons p ps ih =>
    rw [List.map_cons, List.mem_cons, not_or] at h
    rw [List.foldl_cons, ih h.2, List.getElem?_set_ne (Ne.symm h.1)]

theorem map_fst_zip_sublist : ∀ (is : List Nat) (xs : List β),
    ((is.zip xs).map Prod.fst).Sublist is
  | [], _ => by simp
  | i :: is, [] => by simp
  | i :: is, x :: xs => (map_fst_zip_sublist is xs).cons_cons i

/-- What is written once is there in the end. -/
theorem getElem?_overwrite {x : β} (hps : (ps.map Prod.fst).Nodup) (h : (i, x) ∈ ps)
    (hi : i < base.length) :
    (ps.foldl (fun args (k, x) => args.set k x) base)[i]? = some x := by
  induction ps generalizing base with
  | nil => cases h
  | cons p ps ih =>
    rw [List.map_cons, List.nodup_cons] at hps
    rw [List.foldl_cons]
    rcases List.mem_cons.mp h with rfl | h
    · rw [getElem?_overwrite_of_not_mem hps.1, List.getElem?_set_self hi]
    · exact ih hps.2 h (by simpa using hi)

end Overwrite

/-- In a list without repetitions, an item has only one partner. -/
theorem eq_of_mem_zip {xs : List β} {ys : List γ} (h : xs.Nodup) {x : β} {y y' : γ}
    (hy : (x, y) ∈ xs.zip ys) (hy' : (x, y') ∈ xs.zip ys) : y = y' := by
  obtain ⟨i, hi⟩ := List.mem_iff_getElem?.mp hy
  obtain ⟨j, hj⟩ := List.mem_iff_getElem?.mp hy'
  obtain ⟨hxi, hyi⟩ := List.getElem?_zip_eq_some.mp hi
  obtain ⟨hxj, hyj⟩ := List.getElem?_zip_eq_some.mp hj
  have hlt := (List.getElem?_eq_some_iff.mp hxi).1
  obtain rfl := (List.getElem?_inj hlt h).mp (hxi.trans hxj.symm)
  exact Option.some.inj (hyi.symm.trans hyj)

/-- Only the items of the first list are ever paired. -/
theorem zipWith_congr_left {δ : Type} {f g : β → γ → δ} {l : List β}
    (h : ∀ b ∈ l, ∀ c, f b c = g b c) (l' : List γ) : List.zipWith f l l' = List.zipWith g l l' := by
  induction l generalizing l' with
  | nil => rfl
  | cons b l ih =>
    cases l' with
    | nil => rfl
    | cons c l' =>
      rw [List.zipWith_cons_cons, List.zipWith_cons_cons, h b List.mem_cons_self,
        ih fun b hb => h b (List.mem_cons_of_mem _ hb)]

end FitSession
