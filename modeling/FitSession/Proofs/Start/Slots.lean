import FitSession.Proofs.Outcome
import FitSession.Proofs.Registry
import FitSession.Start
import Mathlib.Data.List.Induction

/-!
# Slots for names

The settings of a field are written one after another into slots, one for each name. In the end a
slot holds what the last setting with its name says.

* `lastKeyed`, `lastKeyed_concat`, `mem_of_lastKeyed`: the last item with a key;
* `keyed`: the items of a field as they are read, or the first one that is refused;
* `Registry.filled`, **`Registry.fill_eq`**: slots into which the items have been written.
-/

namespace FitSession

/-! ## The last item with a key -/

/-- The last item with a key, if there is one. -/
def lastKeyed {β : Type} (items : List (String × β)) (key : String) : Option β :=
  (items.reverse.find? fun (k, _) => k == key).map (·.2)

section LastKeyed

variable {β γ : Type} {items : List (String × β)} {key : String} {x : β}

theorem mem_of_lastKeyed (h : lastKeyed items key = some x) : (key, x) ∈ items := by
  obtain ⟨⟨k, y⟩, hfind, rfl⟩ := Option.map_eq_some_iff.mp h
  obtain rfl : k = key := eq_of_beq (List.find?_some hfind :)
  exact List.mem_reverse.mp (List.mem_of_find?_eq_some hfind)

theorem exists_lastKeyed (h : (key, x) ∈ items) : ∃ y, lastKeyed items key = some y := by
  refine Option.isSome_iff_exists.mp ?_
  rw [lastKeyed, Option.isSome_map, List.find?_isSome]
  exact ⟨(key, x), List.mem_reverse.mpr h, beq_self_eq_true key⟩

/-- If all items with a key agree, the last one does not matter. -/
theorem lastKeyed_eq_some (h : (key, x) ∈ items) (hunique : ∀ y, (key, y) ∈ items → y = x) :
    lastKeyed items key = some x := by
  obtain ⟨y, hy⟩ := exists_lastKeyed h
  rw [hy, hunique y (mem_of_lastKeyed hy)]

theorem lastKeyed_eq_none (h : ∀ x, (key, x) ∉ items) : lastKeyed items key = none := by
  cases hlast : lastKeyed items key with
  | none => rfl
  | some x => exact absurd (mem_of_lastKeyed hlast) (h x)

theorem lastKeyed_concat (k : String) :
    lastKeyed (items ++ [(k, x)]) key = if k = key then some x else lastKeyed items key := by
  unfold lastKeyed
  rw [List.reverse_append, List.reverse_singleton, List.singleton_append]
  by_cases h : k = key
  · simp [h]
  · rw [List.find?_cons_of_neg (by simpa using h), if_neg h]

theorem lastKeyed_append (items later : List (String × β)) (key : String) :
    lastKeyed (items ++ later) key = (lastKeyed later key).or (lastKeyed items key) := by
  unfold lastKeyed
  rw [List.reverse_append, List.find?_append, Option.map_or]

theorem lastKeyed_map (f : β → γ) (items : List (String × β)) (key : String) :
    lastKeyed (items.map fun (k, y) => (k, f y)) key = (lastKeyed items key).map f := by
  unfold lastKeyed
  rw [← List.map_reverse, List.find?_map, Option.map_map, Option.map_map]
  rfl

end LastKeyed

/-! ## Slots -/

section Slots

variable {α β γ : Type}

/-- The items as they are read, or the failure of the first one that is refused. -/
def keyed (read : β → Except (FitError α) γ) (items : List (String × β)) :
    Except (FitError α) (List (String × γ)) :=
  items.mapM fun (name, x) => do
    let y ← read x
    pure (name, y)

namespace Registry

variable {r : Registry} {slots : List γ} {items : List (String × γ)} {i : Nat} {name : String}

/-- Slots in which the last item with each name has taken the place of what was there. -/
def filled (r : Registry) (slots : List γ) (items : List (String × γ)) : List γ :=
  slots.mapIdx fun i y => ((r.name? i).bind (lastKeyed items)).getD y

theorem filled_nil : r.filled slots [] = slots := by
  refine List.ext_getElem? fun i => ?_
  rw [filled, List.getElem?_mapIdx]
  cases r.name? i <;> simp [lastKeyed]

theorem getElem?_filled (hi : r.names[i]? = some name) :
    (r.filled slots items)[i]? = slots[i]?.map fun y => (lastKeyed items name).getD y := by
  rw [filled, List.getElem?_mapIdx, name?, hi]
  rfl

/-- One more item is written into the slot of its name, and into no other. -/
theorem set_filled (hi : r.names[i]? = some name) (y : γ) :
    (r.filled slots items).set i y = r.filled slots (items ++ [(name, y)]) := by
  refine List.ext_getElem? fun j => ?_
  rw [List.getElem?_set]
  by_cases hij : i = j
  · subst hij
    rw [if_pos rfl, getElem?_filled hi, lastKeyed_concat, if_pos rfl]
    by_cases hlt : i < slots.length <;> simp [filled, hlt]
  · rw [if_neg hij, filled, filled, List.getElem?_mapIdx, List.getElem?_mapIdx]
    cases hj : r.name? j with
    | none => rfl
    | some other =>
      have hother : name ≠ other := by
        rintro rfl
        have hlt := (List.getElem?_eq_some_iff.mp hi).1
        exact hij ((List.getElem?_inj hlt r.nodup_names).mp (hi.trans hj.symm))
      simp [lastKeyed_concat, hother]

/-- **Slots written one after another** hold what the last items say. The induction is on the items
that have been written, and between two of them the slots are those of the items before. -/
theorem fill_eq (read : β → Except (FitError α) γ) (slots : List γ) (items : List (String × β))
    (hkeys : ∀ item ∈ items, item.1 ∈ r.names) :
    r.fill read slots items = (keyed read items).map (r.filled slots) := by
  induction items using List.reverseRecOn with
  | nil => exact congrArg Except.ok filled_nil.symm
  | append_singleton items item ih =>
    obtain ⟨name, x⟩ := item
    obtain ⟨i, hi⟩ := List.mem_iff_getElem?.mp (hkeys (name, x) (by simp))
    have hindex : (r.indexOf name : Except (FitError α) Nat) = .ok i := indexOf_eq_ok.mpr hi
    have hbefore := ih fun item hitem => hkeys item (List.mem_append_left _ hitem)
    rw [fill] at hbefore
    rw [fill, List.foldlM_append, hbefore, keyed, keyed, List.mapM_append]
    cases items.mapM fun (name, x) => do
        let y ← read x
        pure (name, y) with
    | error e => rfl
    | ok ys =>
      cases hx : read x with
      | error e => simp [hx, Except.map, bind, Except.bind]
      | ok y => simp [hx, hindex, set_filled hi, Except.map, bind, Except.bind, pure, Except.pure]

/-- Nothing is refused where all items are read. -/
theorem fill_of_reads {read : β → Except (FitError α) γ} {f : β → γ}
    (hread : ∀ x, read x = .ok (f x)) (slots : List γ) {items : List (String × β)}
    (hkeys : ∀ item ∈ items, item.1 ∈ r.names) :
    r.fill read slots items = .ok (r.filled slots (items.map fun (name, x) => (name, f x))) := by
  have hkeyed : keyed read items = .ok (items.map fun (name, x) => (name, f x)) := by
    refine mapM_eq_ok fun ⟨name, x⟩ _ => ?_
    dsimp only
    rw [hread x]
    rfl
  rw [fill_eq read slots items hkeys, hkeyed]
  rfl

end Registry

end Slots

end FitSession
