import FitSession.Proofs.Start
import FitSession.Snapshot
import Mathlib.Data.List.Induction
import Mathlib.Data.String.Basic

/-!
# Dictionaries with ascending keys

A snapshot is made by inserting one item after the other. Its keys ascend, so that none is there
twice, and the value of a key is the last one that was inserted.

* `Snapshot.get?_ofList`: **the last item with a key holds**;
* `Snapshot.mem_entries_ofList`: the entries are those that can be looked up.
-/

namespace FitSession

/-! ## Inserting at the place of a key -/

section InsertSorted

variable {β : Type} {key : String} {x : β} {l : List (String × β)}

theorem mem_insertSorted {p : String × β} (h : p ∈ insertSorted key x l) :
    p = (key, x) ∨ p ∈ l := by
  induction l with
  | nil => exact .inl (List.mem_singleton.mp h)
  | cons q l ih =>
    obtain ⟨k, y⟩ := q
    rw [insertSorted] at h
    split_ifs at h with heq hlt
    · exact (List.mem_cons.mp h).imp_right (List.mem_cons_of_mem _)
    · exact List.mem_cons.mp h
    · rcases List.mem_cons.mp h with rfl | h
      · exact .inr List.mem_cons_self
      · exact (ih h).imp_right (List.mem_cons_of_mem _)

/-- The keys of the list ascend. -/
def Ascends (l : List (String × β)) : Prop := l.Pairwise fun p q => p.1 < q.1

/-- Inserting keeps the keys in order. -/
theorem Ascends.insertSorted (h : Ascends l) (key : String) (x : β) :
    Ascends (insertSorted key x l) := by
  induction l with
  | nil => exact List.pairwise_singleton _ _
  | cons q l ih =>
    obtain ⟨k, y⟩ := q
    obtain ⟨hk, hl⟩ := List.pairwise_cons.mp h
    rw [FitSession.insertSorted]
    split_ifs with heq hlt
    · subst heq
      exact List.pairwise_cons.mpr ⟨hk, hl⟩
    · refine List.pairwise_cons.mpr ⟨fun p hp => ?_, h⟩
      rcases List.mem_cons.mp hp with rfl | hp
      · exact hlt
      · exact hlt.trans (hk p hp)
    · refine List.pairwise_cons.mpr ⟨fun p hp => ?_, ih hl⟩
      rcases mem_insertSorted hp with rfl | hp
      · exact lt_of_le_of_ne (not_lt.mp hlt) (Ne.symm heq)
      · exact hk p hp

/-- Looking up the key that was inserted, or another one. -/
theorem find?_insertSorted (k : String) :
    (insertSorted key x l).find? (fun (k', _) => k' == k) =
      if key = k then some (key, x) else l.find? fun (k', _) => k' == k := by
  have hself (rest : List (String × β)) (h : key = k) :
      ((key, x) :: rest).find? (fun (k', _) => k' == k) = some (key, x) :=
    List.find?_cons_of_pos (by simpa using h)
  have hother (rest : List (String × β)) (h : ¬key = k) :
      ((key, x) :: rest).find? (fun (k', _) => k' == k) = rest.find? fun (k', _) => k' == k :=
    List.find?_cons_of_neg (by simpa using h)
  induction l with
  | nil =>
    rw [insertSorted]
    split_ifs with h
    · exact hself [] h
    · exact hother [] h
  | cons q l ih =>
    obtain ⟨k', y⟩ := q
    rw [insertSorted]
    split_ifs with heq hk hlt hk hk
    · exact hself l hk
    · rw [hother l hk, List.find?_cons_of_neg (by simpa [← heq] using hk)]
    · exact hself _ hk
    · exact hother _ hk
    · rw [List.find?_cons_of_neg (by simpa [← hk] using Ne.symm heq), ih, if_pos hk]
    · by_cases hk' : k' = k
      · rw [List.find?_cons_of_pos (by simpa using hk'),
          List.find?_cons_of_pos (by simpa using hk')]
      · rw [List.find?_cons_of_neg (by simpa using hk'), ih, if_neg hk,
          List.find?_cons_of_neg (by simpa using hk')]

/-- Where keys ascend, an item is what is found under its key. -/
theorem Ascends.find?_eq (h : Ascends l) (hmem : (key, x) ∈ l) :
    l.find? (fun (k, _) => k == key) = some (key, x) := by
  induction l with
  | nil => cases hmem
  | cons q l ih =>
    obtain ⟨hq, hl⟩ := List.pairwise_cons.mp h
    rw [List.find?_cons]
    rcases List.mem_cons.mp hmem with rfl | hmem
    · simp
    · have hne : (q.1 == key) = false := beq_eq_false_iff_ne.mpr (hq _ hmem).ne
      simp only [hne]
      exact ih hl hmem

end InsertSorted

namespace Snapshot

variable {α : Type} {items : List (String × SnapshotValue α)} {key : String} {v : SnapshotValue α}

theorem ofList_concat (items : List (String × SnapshotValue α)) (key : String)
    (v : SnapshotValue α) : ofList (items ++ [(key, v)]) = (ofList items).insert key v :=
  List.foldl_append

theorem ascends_ofList (items : List (String × SnapshotValue α)) :
    Ascends (ofList items).entries := by
  induction items using List.reverseRecOn with
  | nil => exact List.Pairwise.nil
  | append_singleton items item ih =>
    rw [ofList_concat items item.1 item.2]
    exact ih.insertSorted item.1 item.2

/-- The last item with a key holds. -/
theorem get?_ofList (items : List (String × SnapshotValue α)) (key : String) :
    (ofList items).get? key = lastKeyed items key := by
  induction items using List.reverseRecOn with
  | nil => rfl
  | append_singleton items item ih =>
    obtain ⟨k, v⟩ := item
    rw [ofList_concat, lastKeyed_concat, get?, insert, find?_insertSorted]
    split_ifs with h
    · rfl
    · exact ih

/-- The entries are those that can be looked up. -/
theorem mem_entries_ofList :
    (key, v) ∈ (ofList items).entries ↔ lastKeyed items key = some v := by
  rw [← get?_ofList]
  constructor
  · intro h
    rw [get?, (ascends_ofList items).find?_eq h]
    rfl
  · intro h
    obtain ⟨⟨k, w⟩, hfind, rfl⟩ := Option.map_eq_some_iff.mp h
    obtain rfl : k = key := eq_of_beq (List.find?_some hfind :)
    exact List.mem_of_find?_eq_some hfind

end Snapshot
end FitSession
