import FitSession.Proofs.Outcome
import FitSession.Proofs.Snapshot.Dictionary

/-!
# Keys of a snapshot

A key is read as the field of another parameter if what follows the start of that field is itself
the key of a number, and as a parameter otherwise.

* `keyStart_append_inj`: the keys of errors, flags and limits tell their field and their parameter;
* `Snapshot.readKey_cases`: **how a key is read**;
* `Snapshot.asked`, `Snapshot.request`, `Snapshot.toStartSpec_eq_ok`: **what a snapshot asks of a
  new fit**, and when it does.
-/

namespace FitSession

/-! ## Starts of keys -/

theorem afterStart_eq_some {start key rest : String} :
    afterStart start key = some rest ↔ key = start ++ rest := by
  unfold afterStart
  constructor
  · intro h
    split_ifs at h with hstart
    obtain ⟨t, ht⟩ := List.isPrefixOf_iff_prefix.mp hstart
    have hlength : start.length = start.toList.length := String.length_toList.symm
    rw [← ht, hlength, List.drop_left, Option.some.injEq] at h
    rw [← h, ← String.toList_inj, String.toList_append, String.toList_ofList, ht]
  · rintro rfl
    have hlength : start.length = start.toList.length := String.length_toList.symm
    rw [if_pos (by simp [String.toList_append]), String.toList_append, hlength, List.drop_left,
      String.ofList_toList]

/-- The keys of errors, flags and limits tell their field and their parameter. -/
theorem keyStart_append_inj {field field' : KeyedField} (hfield : field ≠ .value)
    (hfield' : field' ≠ .value) {a b : String} (h : field.keyStart ++ a = field'.keyStart ++ b) :
    field = field' ∧ a = b := by
  have hlist := congrArg String.toList h
  rw [String.toList_append, String.toList_append] at hlist
  have hsame : field = field' := by
    cases field <;> cases field' <;> simp_all [KeyedField.keyStart]
  subst hsame
  exact ⟨rfl, String.toList_inj.mp (List.append_cancel_left hlist)⟩

theorem keyStart_value_append (name : String) : KeyedField.value.keyStart ++ name = name := by
  rw [← String.toList_inj, String.toList_append]
  rfl

namespace Snapshot

variable {α : Type} {s : Snapshot α} {key name : String} {field : KeyedField}

/-! ## Reading a key -/

theorem isPlain_eq_true_iff : s.isPlain name = true ↔ ∃ x, s.get? name = some (.number x) := by
  unfold isPlain
  constructor
  · intro h
    split at h
    · exact ⟨_, ‹_›⟩
    · cases h
  · rintro ⟨x, hx⟩
    rw [hx]

/-- No start of a field leaves the key of a number, so that the key is one of a parameter. -/
def IsOwnKey (s : Snapshot α) (key : String) : Prop :=
  ∀ (field : KeyedField) (name : String), field ≠ .value → key = field.keyStart ++ name →
    s.isPlain name = false

/-- A key is read as a field of another parameter, or it is one of a parameter itself. -/
theorem readKey_cases (s : Snapshot α) (key : String) :
    (∃ (field : KeyedField) (name : String), field ≠ .value ∧ key = field.keyStart ++ name ∧
      s.isPlain name = true ∧ s.readKey key = (field, name)) ∨
    s.IsOwnKey key ∧ s.readKey key = (.value, key) := by
  unfold readKey
  extract_lets reading
  have hsome {field : KeyedField} {r : KeyedField × String} (h : reading field = some r) :
      r.1 = field ∧ key = field.keyStart ++ r.2 ∧ s.isPlain r.2 = true := by
    unfold reading at h
    split at h
    · rename_i name hname
      split_ifs at h with hplain
      cases h
      exact ⟨rfl, afterStart_eq_some.mp hname, hplain⟩
    · cases h
  have hnone {field : KeyedField} {name : String} (h : reading field = none)
      (hkey : key = field.keyStart ++ name) : s.isPlain name = false := by
    unfold reading at h
    rw [afterStart_eq_some.mpr hkey] at h
    simpa using h
  cases herror : reading .error with
  | some r =>
    obtain ⟨hfield, hkey, hplain⟩ := hsome herror
    exact .inl ⟨.error, r.2, by simp, hkey, hplain, by rw [← hfield]; rfl⟩
  | none =>
    cases hfixed : reading .fixed with
    | some r =>
      obtain ⟨hfield, hkey, hplain⟩ := hsome hfixed
      exact .inl ⟨.fixed, r.2, by simp, hkey, hplain, by rw [← hfield]; rfl⟩
    | none =>
      cases hlimit : reading .limit with
      | some r =>
        obtain ⟨hfield, hkey, hplain⟩ := hsome hlimit
        exact .inl ⟨.limit, r.2, by simp, hkey, hplain, by rw [← hfield]; rfl⟩
      | none =>
        refine .inr ⟨fun field name hfield hkey => ?_, rfl⟩
        cases field with
        | value => exact absurd rfl hfield
        | error => exact hnone herror hkey
        | fixed => exact hnone hfixed hkey
        | limit => exact hnone hlimit hkey

/-- The field and the parameter that are read make up the key. -/
theorem eq_of_readKey (h : s.readKey key = (field, name)) : key = field.keyStart ++ name := by
  rcases s.readKey_cases key with ⟨field', name', -, hkey, -, hread⟩ | ⟨-, hread⟩
  · rw [h, Prod.mk.injEq] at hread
    rw [hread.1, hread.2, ← hkey]
  · rw [h, Prod.mk.injEq] at hread
    rw [hread.1, hread.2, keyStart_value_append]

/-- The field of a parameter is read as such. -/
theorem readKey_keyStart (hfield : field ≠ .value) (hname : s.isPlain name = true) :
    s.readKey (field.keyStart ++ name) = (field, name) := by
  rcases s.readKey_cases (field.keyStart ++ name) with
    ⟨field', name', hfield', hkey, -, hread⟩ | ⟨hown, -⟩
  · obtain ⟨rfl, rfl⟩ := keyStart_append_inj hfield hfield' hkey
    exact hread
  · exact absurd hname (Bool.eq_false_iff.mp (hown field name hfield rfl))

theorem readKey_eq_value_iff : s.readKey key = (.value, name) ↔ s.IsOwnKey key ∧ name = key := by
  rcases s.readKey_cases key with ⟨field, name', hfield, hkey, hplain, hread⟩ | ⟨hown, hread⟩
  · rw [hread]
    refine ⟨fun h => absurd (Prod.mk.inj h).1 hfield, fun h => ?_⟩
    exact absurd hplain (Bool.eq_false_iff.mp (h.1 field name' hfield hkey))
  · rw [hread]
    exact ⟨fun h => ⟨hown, (Prod.mk.inj h).2.symm⟩, fun h => by rw [h.2]⟩

end Snapshot

/-! ## What a snapshot asks of a new fit -/

namespace SnapshotValue

variable {α : Type}

def number? : SnapshotValue α → Option α
  | .number x => some x
  | _ => none

def flag? : SnapshotValue α → Option Bool
  | .flag on => some on
  | _ => none

def limit? : SnapshotValue α → Option (LimitSpec α)
  | .limit lower upper => some ⟨lower, upper⟩
  | _ => none

/-- The value is of the kind of a field. -/
def Fits : KeyedField → SnapshotValue α → Prop
  | .value, .number _ | .error, .number _ | .fixed, .flag _ | .limit, .limit .. => True
  | _, _ => False

end SnapshotValue

namespace Snapshot

variable {α β : Type} {s : Snapshot α} {spec spec' : StartSpec α} {field : KeyedField}
  {pick : SnapshotValue α → Option β} {item : String × SnapshotValue α} {name : String} {x : β}

/-- What an item asks for one field, if its key is read as that field. -/
def asked (s : Snapshot α) (field : KeyedField) (pick : SnapshotValue α → Option β)
    (item : String × SnapshotValue α) : Option (String × β) :=
  if (s.readKey item.1).1 = field then (pick item.2).map ((s.readKey item.1).2, ·) else none

theorem asked_eq_some : s.asked field pick item = some (name, x) ↔
    s.readKey item.1 = (field, name) ∧ pick item.2 = some x := by
  unfold asked
  generalize s.readKey item.1 = read
  obtain ⟨field', name'⟩ := read
  by_cases hfield : field' = field <;> simp [hfield, and_comm]

/-- What an item asks for is added to what was asked for before. -/
theorem addEntry_eq_ok : s.addEntry spec item = .ok spec' ↔
    item.2.Fits (s.readKey item.1).1 ∧ spec' =
      { spec with
        values := spec.values ++ (s.asked .value (·.number?) item).toList
        errors := spec.errors ++ (s.asked .error (·.number?) item).toList
        limits := spec.limits ++ (s.asked .limit (·.limit?) item).toList
        fixed := spec.fixed ++ (s.asked .fixed (·.flag?) item).toList } := by
  obtain ⟨key, v⟩ := item
  unfold addEntry asked
  generalize s.readKey key = read
  obtain ⟨field, name⟩ := read
  cases field <;> cases v <;>
    simp [SnapshotValue.Fits, SnapshotValue.number?, SnapshotValue.flag?, SnapshotValue.limit?,
      eq_comm]

/-- What all items of a list ask for. -/
theorem foldlM_addEntry_eq_ok {items : List (String × SnapshotValue α)} :
    items.foldlM s.addEntry spec = .ok spec' ↔
      (∀ item ∈ items, item.2.Fits (s.readKey item.1).1) ∧ spec' =
        { spec with
          values := spec.values ++ items.filterMap (s.asked .value (·.number?))
          errors := spec.errors ++ items.filterMap (s.asked .error (·.number?))
          limits := spec.limits ++ items.filterMap (s.asked .limit (·.limit?))
          fixed := spec.fixed ++ items.filterMap (s.asked .fixed (·.flag?)) } := by
  have hcons {γ δ : Type} (f : γ → Option δ) (a : γ) (l : List γ) :
      (a :: l).filterMap f = (f a).toList ++ l.filterMap f := by
    cases h : f a <;> simp [h]
  induction items generalizing spec with
  | nil =>
    simp only [List.foldlM_nil, List.filterMap_nil, List.append_nil]
    exact ⟨fun h => ⟨nofun, (Except.ok.inj h).symm⟩, fun h => congrArg Except.ok h.2.symm⟩
  | cons item items ih =>
    rw [List.foldlM_cons, except_bind_eq_ok, List.forall_mem_cons]
    constructor
    · rintro ⟨middle, hitem, hrest⟩
      obtain ⟨hfits, rfl⟩ := addEntry_eq_ok.mp hitem
      obtain ⟨hall, rfl⟩ := ih.mp hrest
      exact ⟨⟨hfits, hall⟩, by simp only [hcons, List.append_assoc]⟩
    · rintro ⟨⟨hfits, hall⟩, rfl⟩
      refine ⟨_, addEntry_eq_ok.mpr ⟨hfits, rfl⟩, ih.mpr ⟨hall, ?_⟩⟩
      simp only [hcons, List.append_assoc]

/-- What all items of a snapshot ask for. -/
def request (s : Snapshot α) : StartSpec α where
  names := none
  positional := none
  values := s.entries.filterMap (s.asked .value (·.number?))
  errors := s.entries.filterMap (s.asked .error (·.number?))
  limits := s.entries.filterMap (s.asked .limit (·.limit?))
  fixed := s.entries.filterMap (s.asked .fixed (·.flag?))

/-- A snapshot asks for what its items ask for, if all values are of the kind of their field. -/
theorem toStartSpec_eq_ok : s.toStartSpec = .ok spec ↔
    (∀ item ∈ s.entries, item.2.Fits (s.readKey item.1).1) ∧ spec = s.request :=
  foldlM_addEntry_eq_ok

end Snapshot
end FitSession
