import FitSession.Cost.Union
import FitSession.Proofs.Outcome
import FitSession.Proofs.Positions
import Mathlib.Data.List.Forall2
import Mathlib.Data.List.Nodup

/-!
# The union of lists of names

* `NameTable.Holds`, `Holds.place`: the names seen so far, and one more;
* `holds_mapM`: what one more item does to a table, a list of items does;
* `Places`, `IsUnion`: each name of a list at its place, and a union with the places of its lists;
* `isUnion_unionOf`: **the union of lists of names** has each of them where it is first seen.
-/

namespace FitSession

/-- The places at which the names of a list stand in a union. -/
def Places (union names : List String) (places : List Nat) : Prop :=
  List.Forall₂ (fun name i => union[i]? = some name) names places

theorem getElem?_of_prefix {union union' : List String} {name : String} {i : Nat}
    (h : union <+: union') (hi : union[i]? = some name) : union'[i]? = some name := by
  obtain ⟨more, rfl⟩ := h
  rwa [List.getElem?_append_left (List.getElem?_eq_some_iff.mp hi).1]

/-- Names stay at their places when more names are put behind them. -/
theorem Places.mono {union union' names : List String} {places : List Nat}
    (h : Places union names places) (hmore : union <+: union') : Places union' names places :=
  h.imp fun _ _ hi => getElem?_of_prefix hmore hi

theorem Places.lt {union names : List String} {places : List Nat} (h : Places union names places) :
    ∀ i ∈ places, i < union.length := by
  unfold Places at h
  induction h with
  | nil => exact List.forall_mem_nil _
  | cons hname _ ih =>
    exact List.forall_mem_cons.mpr ⟨(List.getElem?_eq_some_iff.mp hname).1, ih⟩

theorem eraseDups_concat (seen : List String) (name : String) :
    (seen ++ [name]).eraseDups =
      if name ∈ seen then seen.eraseDups else seen.eraseDups ++ [name] := by
  rw [List.eraseDups_append]
  split
  · rename_i h
    simp [List.removeAll, h]
  · rename_i h
    simp [List.removeAll, h, List.eraseDups_cons]

/-! ## Tables -/

namespace NameTable

/-- The table holds the names seen so far, each at the place where it is first seen. -/
structure Holds (seen : List String) (t : NameTable) : Prop where
  names : t.names = seen.eraseDups
  nodup : t.names.Nodup
  places : ∀ name i, t.places.lookup name = some i ↔ t.names[i]? = some name

theorem holds_empty : Holds [] empty where
  names := rfl
  nodup := List.nodup_nil
  places name i := by simp [empty]

/-- One table comes before another if that one only has more names. -/
def Before (t t' : NameTable) : Prop := t.names <+: t'.names

instance : Chains Before where
  refl t := List.prefix_refl t.names
  trans h h' := List.IsPrefix.trans h h'

variable {seen : List String} {t : NameTable} {name : String}

theorem get_bind {β : Type} (f : NameTable → StateM NameTable β) (t : NameTable) :
    (MonadState.get >>= f) t = f t t := rfl

theorem place_seen {i : Nat} (h : t.places.lookup name = some i) : place name t = (i, t) := by
  unfold place
  rw [get_bind, h]
  rfl

theorem place_new (h : t.places.lookup name = none) : place name t =
    (t.names.length, ⟨t.names ++ [name], (name, t.names.length) :: t.places⟩) := by
  unfold place
  rw [get_bind, h]
  rfl

/-- A new name is put behind those that the table holds. -/
theorem Holds.concat (h : Holds seen t) (hnot : name ∉ t.names) :
    Holds (seen ++ [name]) ⟨t.names ++ [name], (name, t.names.length) :: t.places⟩ where
  names := by
    have hseen : name ∉ seen := by rwa [← List.mem_eraseDups, ← h.names]
    rw [eraseDups_concat, if_neg hseen, h.names]
  nodup := by
    refine List.nodup_append.mpr ⟨h.nodup, List.nodup_singleton name, fun a ha b hb => ?_⟩
    rintro rfl
    exact hnot (List.mem_singleton.mp hb ▸ ha)
  places := TellsPositions.concat h.places hnot

/-- A name that has been seen keeps its place, and a new one gets the next. -/
theorem Holds.place (h : Holds seen t) (name : String) :
    Holds (seen ++ [name]) (place name t).2 ∧ Before t (place name t).2 ∧
      (place name t).2.names[(place name t).1]? = some name := by
  cases hlookup : t.places.lookup name with
  | some i =>
    have hi := (h.places name i).mp hlookup
    have hseen : name ∈ seen := by
      rw [← List.mem_eraseDups, ← h.names]
      exact List.mem_of_getElem? hi
    have hnames : t.names = (seen ++ [name]).eraseDups := by
      rw [eraseDups_concat, if_pos hseen, h.names]
    rw [place_seen hlookup]
    exact ⟨⟨hnames, h.nodup, h.places⟩, List.prefix_refl _, hi⟩
  | none =>
    have hnot : name ∉ t.names := fun hname => by
      obtain ⟨i, hi⟩ := List.mem_iff_getElem?.mp hname
      rw [(h.places name i).mpr hi] at hlookup
      cases hlookup
    rw [place_new hlookup]
    exact ⟨h.concat hnot, List.prefix_append _ _, by simp⟩

/-- What one more item does to a table, a list of items does: it holds the names of all items, and
the answers stay right when more names are put behind. -/
theorem holds_mapM {β γ : Type} {f : β → StateM NameTable γ} (namesOf : β → List String)
    (P : List String → β → γ → Prop)
    (hmono : ∀ {union union' b c}, union <+: union' → P union b c → P union' b c)
    (hf : ∀ seen t b, Holds seen t → Holds (seen ++ namesOf b) (f b t).2 ∧
      Before t (f b t).2 ∧ P (f b t).2.names b (f b t).1) :
    ∀ seen t (bs : List β), Holds seen t →
      Holds (seen ++ bs.flatMap namesOf) (bs.mapM f t).2 ∧ Before t (bs.mapM f t).2 ∧
        List.Forall₂ (P (bs.mapM f t).2.names) bs (bs.mapM f t).1
  | seen, t, [], h => by
    refine ⟨?_, List.prefix_refl _, List.Forall₂.nil⟩
    rwa [List.flatMap_nil, List.append_nil]
  | seen, t, b :: bs, h => by
    obtain ⟨hb, hbefore, hP⟩ := hf seen t b h
    obtain ⟨hbs, hbefore', hall⟩ := holds_mapM namesOf P hmono hf _ _ bs hb
    rw [List.mapM_cons]
    change Holds _ (bs.mapM f (f b t).2).2 ∧ Before t (bs.mapM f (f b t).2).2 ∧
      List.Forall₂ (P (bs.mapM f (f b t).2).2.names) (b :: bs)
        ((f b t).1 :: (bs.mapM f (f b t).2).1)
    refine ⟨?_, Chains.trans hbefore hbefore', .cons (hmono hbefore' hP) hall⟩
    rwa [List.flatMap_cons, ← List.append_assoc]

/-- The names of one list, all at their places. -/
theorem Holds.placeNames (h : Holds seen t) (names : List String) :
    Holds (seen ++ names) (names.mapM NameTable.place t).2 ∧
      Before t (names.mapM NameTable.place t).2 ∧
      Places (names.mapM NameTable.place t).2.names names (names.mapM NameTable.place t).1 := by
  have hsteps := holds_mapM (fun name => [name]) (fun union name i => union[i]? = some name)
    getElem?_of_prefix (fun _ _ name h => h.place name) seen t names h
  rwa [List.flatMap_singleton'] at hsteps

end NameTable

/-! ## Unions -/

/-- The union of some lists: each name where it is first seen, and the places of each list. -/
structure IsUnion (lists : List (List String)) (union : List String) (maps : List (List Nat)) :
    Prop where
  names : union = lists.flatten.eraseDups
  nodup : union.Nodup
  maps : List.Forall₂ (Places union) lists maps

/-- **The union of lists of names** has each of them where it is first seen. -/
theorem isUnion_unionOf (lists : List (List String)) :
    IsUnion lists (unionOf lists).1 (unionOf lists).2 := by
  -- the same step twice: for the names of one list, and for the lists
  obtain ⟨hholds, -, hall⟩ := NameTable.holds_mapM (fun names => names) Places
    (fun hmore h => h.mono hmore) (fun _ _ names h => h.placeNames names) [] .empty lists
    NameTable.holds_empty
  have hnames := hholds.names
  rw [List.nil_append, List.flatMap_id'] at hnames
  exact ⟨hnames, hholds.nodup, hall⟩

end FitSession
