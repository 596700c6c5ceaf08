import FitSession.Proofs.Positions
import FitSession.Registry

/-!
# Names and positions

* `Registry.Tabulates`, `Registry.tabulates`: **how the table of a list of names is filled**;
* `Registry.nodup_names`, `Registry.tellsPositions`: no name is registered twice, and the table
  tells where each stands;
* `Registry.name?_eq`, `Registry.nameAt_inj`: each position has a name of its own;
* `Registry.filterMap_name?_range`: and all of them together have all names;
* `Registry.indexOf_eq_ok`, `Registry.contains_iff`: a name is found at its position.
-/

namespace FitSession

namespace Registry

/-! ## The table -/

/-- What comes of filling the table of a list of names: a table of all of them, if no two are the
same, or the first name that has come before. -/
inductive Tabulates (names : List String) : Except String (List (String × Nat)) → Prop
  | all {table} (hnodup : names.Nodup) (htable : TellsPositions names table) :
    Tabulates names (.ok table)
  | repeated {before name after} (hnames : names = before ++ name :: after)
    (hbefore : before.Nodup) (hmem : name ∈ before) : Tabulates names (.error name)

section Table

variable {seen : List String} {table : List (String × Nat)}

theorem enter_seen {item : String × Nat} (h : TellsPositions seen table) (hitem : item.1 ∈ seen) :
    enter table item = .error item.1 := by
  obtain ⟨i, hi⟩ := Option.isSome_iff_exists.mp (h.isSome_lookup.mpr hitem)
  rw [enter, hi]

theorem enter_new {item : String × Nat} (h : TellsPositions seen table) (hitem : item.1 ∉ seen) :
    enter table item = .ok (item :: table) := by
  rw [enter, h.lookup_eq_none hitem]

/-- The names that are left are entered behind those that the table has. -/
theorem tabulates_foldlM : ∀ {seen table} (rest : List String), seen.Nodup →
    TellsPositions seen table →
    Tabulates (seen ++ rest) ((rest.zipIdx seen.length).foldlM enter table)
  | seen, table, [], hnodup, htable => by
    rw [List.append_nil]
    exact .all hnodup htable
  | seen, table, name :: rest, hnodup, htable => by
    rw [List.zipIdx_cons, List.foldlM_cons]
    by_cases hname : name ∈ seen
    · rw [enter_seen htable hname]
      exact .repeated rfl hnodup hname
    · rw [enter_new htable hname, List.append_cons]
      have hlonger : (seen ++ [name]).Nodup :=
        List.nodup_append_comm.mp (List.nodup_cons.mpr ⟨hname, hnodup⟩)
      have hrest := tabulates_foldlM rest hlonger (htable.concat hname)
      rwa [List.length_append, List.length_singleton] at hrest

end Table

/-- **The table of a list of names** has all of them at their positions, unless one comes twice. -/
theorem tabulates (names : List String) : Tabulates names (tabulate names) :=
  tabulates_foldlM names List.nodup_nil .nil

theorem tabulate_of_nodup {names : List String} (h : names.Nodup) :
    ∃ table, tabulate names = .ok table := by
  have htabulates := tabulates names
  generalize tabulate names = result at htabulates
  cases htabulates with
  | all => exact ⟨_, rfl⟩
  | repeated hnames _ hmem =>
    subst hnames
    exact absurd rfl ((List.nodup_append.mp h).2.2 _ hmem _ List.mem_cons_self)

variable (r : Registry)

theorem tabulates_table : Tabulates r.names (.ok r.table) := r.tabulated ▸ tabulates r.names

/-- No name is registered twice. -/
theorem nodup_names : r.names.Nodup := by
  cases r.tabulates_table with
  | all hnodup _ => exact hnodup

/-- The table and the list of names say the same. -/
theorem tellsPositions : TellsPositions r.names r.table := by
  cases r.tabulates_table with
  | all _ htable => exact htable

/-! ## Positions and names -/

variable {r} {i j : Nat}

theorem name?_eq (h : i < r.len) : r.name? i = some (r.nameAt i) := by
  rw [nameAt, name?, List.getElem?_eq_getElem h, Option.getD_some]

/-- All positions together have all names. -/
theorem filterMap_name?_range : (List.range r.len).filterMap r.name? = r.names := by
  rw [filterMap_eq_map fun i hi => name?_eq (List.mem_range.mp hi)]
  refine List.ext_getElem (by simp [len]) fun i _ hi => ?_
  simp [nameAt, name?, hi]

/-- Positions with the same name are the same. -/
theorem nameAt_inj (hi : i < r.len) (hj : j < r.len) (h : r.nameAt i = r.nameAt j) : i = j := by
  have hsome : r.names[i]? = r.names[j]? := by
    change r.name? i = r.name? j
    rw [name?_eq hi, name?_eq hj, h]
  exact (List.getElem?_inj hi r.nodup_names).mp hsome

/-- A name is found at the one position that has it. -/
theorem indexOf_eq_ok {α : Type} {name : String} :
    (r.indexOf name : Except (FitError α) Nat) = .ok i ↔ r.names[i]? = some name := by
  rw [← r.tellsPositions name i, indexOf]
  cases r.table.lookup name <;> simp

theorem indexOf_of_not_mem {α : Type} {name : String} (h : name ∉ r.names) :
    (r.indexOf name : Except (FitError α) Nat) = .error (.unknownName name) := by
  rw [indexOf, r.tellsPositions.lookup_eq_none h]

theorem contains_iff {name : String} : r.contains name = true ↔ name ∈ r.names :=
  r.tellsPositions.isSome_lookup

end Registry
end FitSession
