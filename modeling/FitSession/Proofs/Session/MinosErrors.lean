import FitSession.Proofs.Cost.Union
import FitSession.Session.MinosErrors
import Mathlib.Data.List.Induction

/-!
# Collected intervals

* `MinosErrors.put`, `MinosErrors.insertInto_eq_put`: **an interval takes the place of the one of
  its name**, or joins at the end;
* `MinosErrors.names_insertAll`: the names are in the order in which they were first inserted.
-/

namespace FitSession.MinosErrors

variable {α : Type} {entries : List (MinosError α)} {m : MinosErrors α} {e : MinosError α}

theorem nodup_concat {l : List String} {name : String} (h : l.Nodup) (hnot : name ∉ l) :
    (l ++ [name]).Nodup := by
  rw [← List.concat_eq_append]
  exact h.concat hnot

theorem nodup_eraseDups (l : List String) : l.eraseDups.Nodup := by
  induction l using List.reverseRecOn with
  | nil => exact List.nodup_nil
  | append_singleton l name ih =>
    rw [eraseDups_concat]
    split_ifs with h
    · exact ih
    · exact nodup_concat ih fun hmem => h (List.mem_eraseDups.mp hmem)

/-- The entries with `e` in the place of those of its name, or at the end if there is none. -/
def put (entries : List (MinosError α)) (e : MinosError α) : List (MinosError α) :=
  if e.name ∈ entries.map (·.name) then entries.map fun x => if x.name = e.name then e else x
  else entries ++ [e]

theorem insertInto_eq_put (h : (entries.map (·.name)).Nodup) :
    insertInto e entries = put entries e := by
  induction entries with
  | nil => rfl
  | cons x rest ih =>
    rw [List.map_cons, List.nodup_cons] at h
    obtain ⟨hx, hrest⟩ := h
    rw [insertInto, put, List.map_cons, List.map_cons]
    by_cases heq : x.name = e.name
    · -- no other entry has the name
      have hothers : rest.map (fun y => if y.name = e.name then e else y) = rest := by
        refine (List.map_congr_left fun y hy => if_neg fun hname => hx ?_).trans (List.map_id rest)
        rw [heq, ← hname]
        exact List.mem_map_of_mem hy
      rw [if_pos heq, if_pos (heq ▸ List.mem_cons_self), if_pos heq, hothers]
    · rw [if_neg heq, if_neg heq, ih hrest, put]
      by_cases hmem : e.name ∈ rest.map (·.name)
      · rw [if_pos hmem, if_pos (List.mem_cons_of_mem _ hmem)]
      · have hnot : e.name ∉ x.name :: rest.map (·.name) :=
          List.not_mem_cons_of_ne_of_not_mem (Ne.symm heq) hmem
        rw [if_neg hmem, if_neg hnot, List.cons_append]

theorem names_insertInto (e : MinosError α) (entries : List (MinosError α)) :
    (insertInto e entries).map (·.name) =
      if e.name ∈ entries.map (·.name) then entries.map (·.name)
      else entries.map (·.name) ++ [e.name] := by
  induction entries with
  | nil => rfl
  | cons x rest ih =>
    rw [insertInto]
    by_cases heq : x.name = e.name
    · simp [heq]
    · rw [if_neg heq, List.map_cons, ih, List.map_cons]
      by_cases hmem : e.name ∈ rest.map (·.name)
      · rw [if_pos hmem, if_pos (List.mem_cons_of_mem _ hmem)]
      · have hnot : e.name ∉ x.name :: rest.map (·.name) :=
          List.not_mem_cons_of_ne_of_not_mem (Ne.symm heq) hmem
        rw [if_neg hmem, if_neg hnot, List.cons_append]

theorem names_insert (m : MinosErrors α) (e : MinosError α) :
    (m.insert e).names = if e.name ∈ m.names then m.names else m.names ++ [e.name] :=
  names_insertInto e m.entries

/-- Of names that are inserted one after another, each keeps the place where it came first. -/
theorem names_insertAll {seen : List String} (h : m.names = seen.eraseDups)
    (found : List (MinosError α)) :
    (found.foldl (·.insert ·) m).names = (seen ++ found.map (·.name)).eraseDups := by
  induction found generalizing m seen with
  | nil => rw [List.map_nil, List.append_nil, List.foldl_nil, h]
  | cons e found ih =>
    have hnext : (m.insert e).names = (seen ++ [e.name]).eraseDups := by
      rw [names_insert, eraseDups_concat, h]
      simp only [List.mem_eraseDups]
    rw [List.foldl_cons, ih hnext, List.map_cons, List.append_assoc, List.singleton_append]

/-- Intervals that are inserted where names are distinct are put in their places. -/
theorem entries_insertAll (h : m.names.Nodup) (found : List (MinosError α)) :
    (found.foldl (·.insert ·) m).entries = found.foldl put m.entries := by
  induction found generalizing m with
  | nil => rfl
  | cons e found ih =>
    have hnext : (m.insert e).entries = put m.entries e := insertInto_eq_put h
    have hnodup : (m.insert e).names.Nodup := by
      rw [names_insert]
      split_ifs with hmem
      · exact h
      · exact nodup_concat h hmem
    rw [List.foldl_cons, List.foldl_cons, ih hnodup, hnext]

end FitSession.MinosErrors
