import FitSession.Proofs.Snapshot.Keys
import Mathlib.Data.List.Dedup

/-!
# Nothing is lost on import

A snapshot may have been edited by hand, so that any keys may hold any values. Whatever it holds,
each key is read in one way and sets one field of one parameter, and keeps its value when the
parameters are renamed.

* `Snapshot.Means`, `Snapshot.readKey_eq_iff`: **what a key means**;
* `StartSpec.settings`, `Snapshot.settings_toStartSpec`: **each key makes one setting**;
* `Snapshot.foldlM_addEntry_eq_error`: the first value that is not of the kind of its field is
  refused;
* `Snapshot.renamedKey`, `Snapshot.mem_entries_rename`: **what is left of each key under a new
  name**;
* **`snapshot_loses_nothing`**: all of this, for any dictionary with ascending keys.
-/

namespace FitSession

/-! ## Lists of items -/

section Items

variable {β : Type} {items l l' : List (String × β)} {key : String} {x : β}

/-- The last item with a key is one behind which there is no other. -/
theorem lastKeyed_eq_some_iff : lastKeyed items key = some x ↔
    ∃ pre post, items = pre ++ (key, x) :: post ∧ ∀ item ∈ post, item.1 ≠ key := by
  constructor
  · intro h
    obtain ⟨⟨k, y⟩, hfind, rfl⟩ := Option.map_eq_some_iff.mp h
    obtain ⟨hk, later, earlier, hreverse, hlater⟩ := List.find?_eq_some_iff_append.mp hfind
    obtain rfl : k = key := eq_of_beq hk
    refine ⟨earlier.reverse, later.reverse, ?_, fun item hitem => ?_⟩
    · rw [← List.reverse_reverse items, hreverse]
      simp
    · simpa using hlater item (List.mem_reverse.mp hitem)
  · rintro ⟨pre, post, rfl, hpost⟩
    have hnone : lastKeyed post key = none := lastKeyed_eq_none fun y hy => hpost _ hy rfl
    have hself : lastKeyed [(key, x)] key = some x := by simp [lastKeyed]
    rw [lastKeyed_append, ← List.singleton_append, lastKeyed_append, hnone, hself]
    rfl

theorem Ascends.nodup_keys (h : Ascends l) : (l.map (·.1)).Nodup := by
  rw [List.Nodup, List.pairwise_map]
  exact h.imp fun hlt => hlt.ne

/-- Two lists with ascending keys and the same items are the same. -/
theorem Ascends.eq_of_mem_iff (h : Ascends l) (h' : Ascends l') (hmem : ∀ p, p ∈ l ↔ p ∈ l') :
    l = l' := by
  have hperm : l.Perm l' :=
    (List.perm_ext_iff_of_nodup h.nodup_keys.of_map h'.nodup_keys.of_map).mpr hmem
  refine List.Perm.eq_of_pairwise (fun p q _ _ hpq hqp => ?_) h h' hperm
  exact absurd (hpq.trans hqp) (lt_irrefl _)

end Items

/-- The fields that are set, each with its parameter and its value. -/
def StartSpec.settings {α : Type} (spec : StartSpec α) :
    List (KeyedField × String × SnapshotValue α) :=
  (spec.values.map fun (name, x) => (.value, name, .number x)) ++
    (spec.errors.map fun (name, x) => (.error, name, .number x)) ++
    (spec.fixed.map fun (name, on) => (.fixed, name, .flag on)) ++
    (spec.limits.map fun (name, l) => (.limit, name, .limit l.lower l.upper))

namespace Snapshot

variable {α : Type} {s : Snapshot α} {spec spec' : StartSpec α} {key name : String}
  {field : KeyedField} {v : SnapshotValue α}

/-! ## What a key means -/

/-- The value of a key is a number. -/
def HoldsNumber (s : Snapshot α) (key : String) : Prop := ∃ x, (key, .number x) ∈ s.entries

/-- A key is a field of another parameter if it begins so and what follows holds a number, and the
value of a parameter if there is no such way to read it. -/
inductive Means (s : Snapshot α) : String → KeyedField → String → Prop
  | field {field : KeyedField} {name : String} (isField : field ≠ .value)
      (holds : s.HoldsNumber name) : Means s (field.keyStart ++ name) field name
  | value {key : String} (noField : ∀ (field : KeyedField) (name : String), field ≠ .value →
      key = field.keyStart ++ name → ¬s.HoldsNumber name) : Means s key .value key

theorem get?_eq_some_iff (h : Ascends s.entries) : s.get? key = some v ↔ (key, v) ∈ s.entries := by
  constructor
  · intro hget
    obtain ⟨⟨k, w⟩, hfind, rfl⟩ := Option.map_eq_some_iff.mp hget
    obtain rfl : k = key := eq_of_beq (List.find?_some hfind :)
    exact List.mem_of_find?_eq_some hfind
  · intro hmem
    rw [get?, h.find?_eq hmem]
    rfl

theorem isPlain_iff (h : Ascends s.entries) : s.isPlain name = true ↔ s.HoldsNumber name := by
  rw [isPlain_eq_true_iff]
  exact exists_congr fun x => get?_eq_some_iff h

/-- **What a key means** is what it is read as. -/
theorem readKey_eq_iff (h : Ascends s.entries) :
    s.readKey key = (field, name) ↔ s.Means key field name := by
  constructor
  · intro hread
    rcases s.readKey_cases key with ⟨field', name', hfield, rfl, hplain, hread'⟩ | ⟨hown, hread'⟩
    · obtain ⟨rfl, rfl⟩ := Prod.mk.inj (hread'.symm.trans hread)
      exact .field hfield ((isPlain_iff h).mp hplain)
    · obtain ⟨rfl, rfl⟩ := Prod.mk.inj (hread'.symm.trans hread)
      refine .value fun field name hfield hkey hholds => ?_
      exact Bool.eq_false_iff.mp (hown field name hfield hkey) ((isPlain_iff h).mpr hholds)
  · rintro (⟨hfield, hholds⟩ | hnone)
    · exact readKey_keyStart hfield ((isPlain_iff h).mpr hholds)
    · refine readKey_eq_value_iff.mpr ⟨fun field name hfield hkey => ?_, rfl⟩
      refine Bool.eq_false_iff.mpr fun hplain => ?_
      exact hnone field name hfield hkey ((isPlain_iff h).mp hplain)

theorem readKey_injective (s : Snapshot α) : Function.Injective s.readKey := by
  intro key key' h
  exact (eq_of_readKey (s := s) rfl).trans (eq_of_readKey h.symm).symm

/-- A key is read as a field exactly if it begins so and what follows holds a number. -/
theorem readKey_fst_eq_iff (h : Ascends s.entries) (hfield : field ≠ .value) :
    (s.readKey key).1 = field ↔ ∃ name, key = field.keyStart ++ name ∧ s.HoldsNumber name := by
  constructor
  · intro hread
    have hmeans : s.Means key field (s.readKey key).2 := (readKey_eq_iff h).mp (Prod.ext hread rfl)
    generalize (s.readKey key).2 = name at hmeans
    cases hmeans with
    | field _ holds => exact ⟨name, rfl, holds⟩
    | value => exact absurd rfl hfield
  · rintro ⟨name, rfl, hholds⟩
    rw [(readKey_eq_iff h).mpr (.field hfield hholds)]

/-! ## What is asked of a new fit -/

/-- What an item is to set: the field and the parameter that its key means, to its value. -/
def setting (s : Snapshot α) (item : String × SnapshotValue α) :
    KeyedField × String × SnapshotValue α :=
  ((s.readKey item.1).1, (s.readKey item.1).2, item.2)

/-- One item makes one more setting. -/
theorem settings_addEntry {item : String × SnapshotValue α}
    (h : s.addEntry spec item = .ok spec') :
    spec'.settings.Perm (s.setting item :: spec.settings) := by
  obtain ⟨key, v⟩ := item
  unfold addEntry at h
  unfold setting
  generalize s.readKey key = read at h ⊢
  obtain ⟨field, name⟩ := read
  have behind {l m r : List (KeyedField × String × SnapshotValue α)} {x}
      (h : m.Perm (x :: r)) : (l ++ m).Perm (x :: (l ++ r)) :=
    (h.append_left l).trans List.perm_middle
  -- the new setting stands behind those of its own field
  cases field <;> cases v <;> cases h <;>
    simp only [StartSpec.settings, List.map_append, List.map_cons, List.map_nil, List.append_assoc,
      List.cons_append, List.nil_append]
  · exact List.perm_middle
  · exact behind List.perm_middle
  · exact behind (behind (behind (List.perm_append_singleton _ _)))
  · exact behind (behind List.perm_middle)

/-- All items make one more setting each. -/
theorem settings_foldlM {items : List (String × SnapshotValue α)}
    (h : items.foldlM s.addEntry spec = .ok spec') :
    spec'.settings.Perm (items.map s.setting ++ spec.settings) := by
  induction items generalizing spec with
  | nil =>
    cases h
    exact .refl _
  | cons item items ih =>
    rw [List.foldlM_cons] at h
    obtain ⟨middle, hitem, hrest⟩ := except_bind_eq_ok.mp h
    have hmiddle := (settings_addEntry hitem).append_left (items.map s.setting)
    exact ((ih hrest).trans hmiddle).trans List.perm_middle

/-- **Each key makes one setting**, of its field and parameter to its value. -/
theorem settings_toStartSpec (h : s.toStartSpec = .ok spec) :
    spec.settings.Perm (s.entries.map s.setting) := by
  have hperm := settings_foldlM h
  rwa [show (⟨none, none, [], [], [], []⟩ : StartSpec α).settings = [] from rfl,
    List.append_nil] at hperm

/-- No two keys set the same field of the same parameter. -/
theorem nodup_settings (hs : Ascends s.entries) (h : s.toStartSpec = .ok spec) :
    (spec.settings.map fun setting => (setting.1, setting.2.1)).Nodup := by
  have hperm := (settings_toStartSpec h).map fun setting => (setting.1, setting.2.1)
  have hkeys : (s.entries.map s.setting).map (fun setting => (setting.1, setting.2.1)) =
      (s.entries.map (·.1)).map s.readKey := by
    rw [List.map_map, List.map_map]
    rfl
  rw [hperm.nodup_iff, hkeys]
  exact hs.nodup_keys.map s.readKey_injective

theorem addEntry_eq_error {item : String × SnapshotValue α} {e : FitError α} :
    s.addEntry spec item = .error e ↔ ¬item.2.Fits (s.readKey item.1).1 ∧
      e = .configuration (.unexpectedEntry item.1 item.2) := by
  obtain ⟨key, v⟩ := item
  unfold addEntry
  generalize s.readKey key = read
  obtain ⟨field, name⟩ := read
  cases field <;> cases v <;> simp [SnapshotValue.Fits, eq_comm]

theorem foldlM_addEntry_eq_error {items : List (String × SnapshotValue α)} {e : FitError α} :
    items.foldlM s.addEntry spec = .error e ↔ ∃ pre item post, items = pre ++ item :: post ∧
      (∀ earlier ∈ pre, earlier.2.Fits (s.readKey earlier.1).1) ∧
      ¬item.2.Fits (s.readKey item.1).1 ∧ e = .configuration (.unexpectedEntry item.1 item.2) := by
  rw [foldlM_eq_error_iff]
  constructor
  · rintro ⟨pre, item, post, middle, rfl, hpre, hitem⟩
    obtain ⟨hnot, rfl⟩ := addEntry_eq_error.mp hitem
    exact ⟨pre, item, post, rfl, (foldlM_addEntry_eq_ok.mp hpre).1, hnot, rfl⟩
  · rintro ⟨pre, item, post, rfl, hpre, hnot, rfl⟩
    exact ⟨pre, item, post, _, rfl, foldlM_addEntry_eq_ok.mpr ⟨hpre, rfl⟩,
      addEntry_eq_error.mpr ⟨hnot, rfl⟩⟩

/-! ## New names -/

variable {f : String → String}

/-- A key when its parameter is renamed: the field that it means stays. -/
def renamedKey (s : Snapshot α) (f : String → String) (key : String) : String :=
  (s.readKey key).1.keyStart ++ f (s.readKey key).2

theorem rename_eq (s : Snapshot α) (f : String → String) :
    s.rename f = ofList (s.entries.map fun (key, v) => (s.renamedKey f key, v)) := rfl

/-- **What is left of each key under a new name**: its value, unless a later key gets the same
name. -/
theorem mem_entries_rename : (key, v) ∈ (s.rename f).entries ↔
    ∃ pre old post, s.entries = pre ++ (old, v) :: post ∧ s.renamedKey f old = key ∧
      ∀ item ∈ post, s.renamedKey f item.1 ≠ key := by
  rw [rename_eq, mem_entries_ofList, lastKeyed_eq_some_iff]
  constructor
  · rintro ⟨pre, post, hitems, hpost⟩
    obtain ⟨pre, tail, hentries, rfl, htail⟩ := List.map_eq_append_iff.mp hitems
    obtain ⟨⟨old, w⟩, post, rfl, hitem, rfl⟩ := List.map_eq_cons_iff.mp htail
    obtain ⟨rfl, rfl⟩ := Prod.mk.inj hitem
    exact ⟨pre, old, post, hentries, rfl, fun item hitem =>
      hpost _ (List.mem_map_of_mem hitem)⟩
  · rintro ⟨pre, old, post, hentries, rfl, hpost⟩
    refine ⟨pre.map _, post.map _, by rw [hentries, List.map_append, List.map_cons], ?_⟩
    rintro _ hmapped
    obtain ⟨item, hitem, rfl⟩ := List.mem_map.mp hmapped
    exact hpost item hitem

/-- An entry is only lost to one whose key gets the same name. -/
theorem mem_rename_of_alone {old : String} (hs : Ascends s.entries) (hmem : (old, v) ∈ s.entries)
    (halone : ∀ item ∈ s.entries, s.renamedKey f item.1 = s.renamedKey f old → item.1 = old) :
    (s.renamedKey f old, v) ∈ (s.rename f).entries := by
  obtain ⟨pre, post, hentries⟩ := List.append_of_mem hmem
  refine mem_entries_rename.mpr ⟨pre, old, post, hentries, rfl, fun item hitem hsame => ?_⟩
  have hbehind : old < item.1 := by
    rw [hentries] at hs
    exact (List.pairwise_cons.mp (List.pairwise_append.mp hs).2.1).1 item hitem
  have hold : item.1 = old := halone item (by simp [hentries, hitem]) hsame
  exact absurd hold hbehind.ne'

theorem keys_ofList (items : List (String × SnapshotValue α)) :
    ((ofList items).entries.map (·.1)).Perm (items.map (·.1)).dedup := by
  refine (List.perm_ext_iff_of_nodup (ascends_ofList items).nodup_keys (List.nodup_dedup _)).mpr
    fun key => ?_
  rw [List.mem_dedup, List.mem_map, List.mem_map]
  constructor
  · rintro ⟨⟨key, v⟩, hmem, rfl⟩
    exact ⟨(key, v), mem_of_lastKeyed (mem_entries_ofList.mp hmem), rfl⟩
  · rintro ⟨⟨key, v⟩, hmem, rfl⟩
    obtain ⟨w, hw⟩ := exists_lastKeyed hmem
    exact ⟨(key, w), mem_entries_ofList.mpr hw, rfl⟩

/-- Entries are lost exactly if two keys get the same name. -/
theorem len_rename_lt_iff (hs : Ascends s.entries) : (s.rename f).len < s.len ↔
    ∃ a ∈ s.entries, ∃ b ∈ s.entries, a.1 ≠ b.1 ∧ s.renamedKey f a.1 = s.renamedKey f b.1 := by
  have hlen : (s.rename f).len = ((s.entries.map (·.1)).map (s.renamedKey f)).dedup.length := by
    have hkeys := (keys_ofList (s.entries.map fun (key, v) => (s.renamedKey f key, v))).length_eq
    rw [List.length_map, List.map_map] at hkeys
    rw [List.map_map]
    exact hkeys
  have hsublist := List.dedup_sublist ((s.entries.map (·.1)).map (s.renamedKey f))
  have hnodup : (s.rename f).len < s.len ↔
      ¬((s.entries.map (·.1)).map (s.renamedKey f)).Nodup := by
    have hsize : ((s.entries.map (·.1)).map (s.renamedKey f)).length = s.len := by
      simp [len]
    rw [hlen, ← hsize, ← List.dedup_eq_self]
    constructor
    · exact fun hlt heq => hlt.ne (congrArg List.length heq)
    · exact fun hne => hsublist.length_le.lt_of_ne fun heq => hne (hsublist.eq_of_length heq)
  rw [hnodup, List.nodup_map_iff_inj_on hs.nodup_keys]
  simp only [List.forall_mem_map, not_forall, exists_prop]
  constructor
  · rintro ⟨a, ha, b, hb, hsame, hne⟩
    exact ⟨a, ha, b, hb, hne, hsame⟩
  · rintro ⟨a, ha, b, hb, hne, hsame⟩
    exact ⟨a, ha, b, hb, hsame, hne⟩

theorem ofList_entries (hs : Ascends s.entries) : ofList s.entries = s := by
  have hentries : (ofList s.entries).entries = s.entries := by
    refine (ascends_ofList _).eq_of_mem_iff hs fun ⟨key, v⟩ => ?_
    rw [mem_entries_ofList]
    refine ⟨mem_of_lastKeyed, fun hmem => lastKeyed_eq_some hmem fun w hw => ?_⟩
    have hget := (get?_eq_some_iff hs).mpr hmem
    exact Option.some.inj (((get?_eq_some_iff hs).mpr hw).symm.trans hget)
  exact congrArg Snapshot.mk hentries

theorem rename_id (hs : Ascends s.entries) : s.rename id = s := by
  have hkey (key : String) : s.renamedKey id key = key := (eq_of_readKey rfl).symm
  rw [rename_eq]
  simp only [hkey, Prod.mk.eta, List.map_id']
  exact ofList_entries hs

/-! ## All together -/

/-- Each key has one reading, which starts with the beginning of its field. -/
structure ReadsKeys (s : Snapshot α) : Prop where
  reading : ∀ key field name, s.readKey key = (field, name) ↔ s.Means key field name
  joins : ∀ key, (s.readKey key).1.keyStart ++ (s.readKey key).2 = key
  field : ∀ key field, field ≠ .value → ((s.readKey key).1 = field ↔
    ∃ name, key = field.keyStart ++ name ∧ s.HoldsNumber name)

/-- The first value that is not of the kind of its field is refused; without one, each key makes one
setting, and no two of them the same. -/
structure SetsFields (s : Snapshot α) : Prop where
  refuses : ∀ e, s.toStartSpec = .error e ↔ ∃ pre item post, s.entries = pre ++ item :: post ∧
    (∀ earlier ∈ pre, earlier.2.Fits (s.readKey earlier.1).1) ∧
    ¬item.2.Fits (s.readKey item.1).1 ∧ e = .configuration (.unexpectedEntry item.1 item.2)
  fails : (∃ e, s.toStartSpec = .error e) ↔
    ∃ item ∈ s.entries, ¬item.2.Fits (s.readKey item.1).1
  settings : ∀ spec, s.toStartSpec = .ok spec → spec.settings.Perm (s.entries.map s.setting)
  nodup : ∀ spec, s.toStartSpec = .ok spec →
    (spec.settings.map fun setting => (setting.1, setting.2.1)).Nodup

/-- Each key keeps its value under its new name, unless a later one gets the same name; entries are
lost only so. -/
structure KeepsRenamed (s : Snapshot α) (f : String → String) : Prop where
  entries : ∀ key v, (key, v) ∈ (s.rename f).entries ↔
    ∃ pre old post, s.entries = pre ++ (old, v) :: post ∧ s.renamedKey f old = key ∧
      ∀ item ∈ post, s.renamedKey f item.1 ≠ key
  alone : ∀ old v, (old, v) ∈ s.entries →
    (∀ item ∈ s.entries, s.renamedKey f item.1 = s.renamedKey f old → item.1 = old) →
      (s.renamedKey f old, v) ∈ (s.rename f).entries
  loses : (s.rename f).len < s.len ↔
    ∃ a ∈ s.entries, ∃ b ∈ s.entries, a.1 ≠ b.1 ∧ s.renamedKey f a.1 = s.renamedKey f b.1

/-- **Nothing is lost on import.** In any dictionary with ascending keys each key has one reading.
If a value is not of the kind of the field that its key means, the first such value is refused;
otherwise each key sets one field of one parameter to its value, and no two of them set the same.
If parameters are renamed, each key keeps its field and its value, entries are lost exactly if two
keys get the same name, and nothing changes if all names stay. -/
theorem snapshot_loses_nothing (hs : Ascends s.entries) :
    s.ReadsKeys ∧ s.SetsFields ∧ (∀ f, s.KeepsRenamed f) ∧ s.rename id = s := by
  have hrefuses (e : FitError α) : s.toStartSpec = .error e ↔ _ := foldlM_addEntry_eq_error
  refine ⟨⟨fun _ _ _ => readKey_eq_iff hs, fun _ => (eq_of_readKey rfl).symm,
    fun _ _ => readKey_fst_eq_iff hs⟩, ⟨hrefuses, ?_, fun _ => settings_toStartSpec,
    fun _ => nodup_settings hs⟩, fun f => ⟨fun _ _ => mem_entries_rename,
    fun _ _ => mem_rename_of_alone hs, len_rename_lt_iff hs⟩, rename_id hs⟩
  constructor
  · rintro ⟨e, he⟩
    obtain ⟨pre, item, post, hentries, -, hnot, -⟩ := (hrefuses e).mp he
    exact ⟨item, by simp [hentries], hnot⟩
  · rintro ⟨item, hitem, hnot⟩
    cases hspec : s.toStartSpec with
    | error e => exact ⟨e, rfl⟩
    | ok spec => exact absurd ((toStartSpec_eq_ok.mp hspec).1 item hitem) hnot

/-- A dictionary in which one error has a flag, and a flag has no parameter. -/
def editedByHand : Snapshot ℕ :=
  ofList [("a", .number 1), ("error_a", .number 2), ("fix_error_a", .flag true),
    ("limit_b", .flag false)]

theorem snapshot_loses_nothing_editedByHand :
    Ascends editedByHand.entries ∧ editedByHand.readKey "fix_error_a" = (.fixed, "error_a") ∧
      editedByHand.toStartSpec =
        .error (.configuration (.unexpectedEntry "limit_b" (.flag false))) ∧
      ("fix_error_a", .flag true) ∈ (editedByHand.rename id).entries := by
  have hs : Ascends editedByHand.entries := ascends_ofList _
  obtain ⟨hreads, hsets, -, hid⟩ := snapshot_loses_nothing hs
  have hentries : editedByHand.entries = [("a", .number 1), ("error_a", .number 2),
      ("fix_error_a", .flag true), ("limit_b", .flag false)] := rfl
  have hnumber : editedByHand.HoldsNumber "error_a" := ⟨2, by simp [hentries]⟩
  have hmeans : editedByHand.Means (KeyedField.fixed.keyStart ++ "error_a") .fixed "error_a" :=
    .field (by decide) hnumber
  have hflag : editedByHand.readKey "fix_error_a" = (.fixed, "error_a") :=
    (hreads.reading _ _ _).mpr hmeans
  have hvalue : editedByHand.readKey "a" = (.value, "a") := by decide
  have herror : editedByHand.readKey "error_a" = (.error, "a") := by decide
  have hown : editedByHand.readKey "limit_b" = (.value, "limit_b") := by decide
  refine ⟨hs, hflag, (hsets.refuses _).mpr ⟨[("a", .number 1), ("error_a", .number 2),
    ("fix_error_a", .flag true)], ("limit_b", .flag false), [], hentries, ?_, ?_, rfl⟩, ?_⟩
  · simp [SnapshotValue.Fits, hflag, hvalue, herror]
  · simp [SnapshotValue.Fits, hown]
  · rw [hid, hentries]
    simp

end Snapshot
end FitSession
