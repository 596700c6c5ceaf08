import FitSession.Proofs.Coordinates.Limits
import FitSession.Proofs.Registry
import FitSession.Proofs.Session.Built
import FitSession.Proofs.Snapshot.Keys
import FitSession.Proofs.Start

/-!
# Restoring a state from its snapshot

A snapshot of a state, asked for as the start of a new fit with the same names, restores the state:
but only if no name is read as a field of another one. A name is if it is what starts the key of a
field, followed by another name; and also if it is that, followed by `error_` and another name, as
the error of a parameter is a number like its value.

* `Registry.IsUnambiguous`: no name is read as a field of another one;
* `Entry.kept`, `Snapshot.lastKeyed_items`, `Snapshot.readKey_ofState`: what is kept of a state, and
  how it is read if no name is ambiguous;
* `Snapshot.rebuild_ofState`, `Snapshot.isUnambiguous_of_rebuild`: when a snapshot restores a state,
  and when it does not;
* `RoundTrips`, `roundTrips_iff`: **a state is restored exactly if no name is ambiguous**.
-/

namespace FitSession

/-- No name is what starts a key, followed by a name or by the key of its error. -/
def Registry.IsUnambiguous (r : Registry) : Prop :=
  ∀ field : KeyedField, field ≠ .value → ∀ name ∈ r.names,
    field.keyStart ++ name ∉ r.names ∧
      field.keyStart ++ (KeyedField.error.keyStart ++ name) ∉ r.names

instance (r : Registry) : Decidable r.IsUnambiguous :=
  decidable_of_iff (∀ field ∈ [KeyedField.error, .fixed, .limit], ∀ name ∈ r.names,
      field.keyStart ++ name ∉ r.names ∧
        field.keyStart ++ (KeyedField.error.keyStart ++ name) ∉ r.names) <| by
    refine ⟨fun h field hfield => h field ?_, fun h field hfield => h field ?_⟩
    · cases field <;> simp at hfield ⊢
    · rintro rfl
      simp at hfield

variable {α : Type} [Scalar α] {registry : Registry} {state : ParameterState α} {e : Entry α}
  {name key : String} {field : KeyedField} {v : SnapshotValue α}

/-! ## What a snapshot keeps -/

/-- What a snapshot keeps of an entry under the key of a field. -/
def Entry.kept (e : Entry α) : KeyedField → Option (SnapshotValue α)
  | .value => some (.number e.value)
  | .error => some (.number e.error)
  | .fixed => some (.flag e.fixed)
  | .limit =>
    if e.limit.isBounded then some (.limit e.limit.lowerBound e.limit.upperBound) else none

theorem Entry.fits_of_kept (h : e.kept field = some v) : v.Fits field := by
  cases field with
  | limit =>
    simp only [kept, Option.ite_none_right_eq_some, Option.some.injEq] at h
    obtain ⟨-, rfl⟩ := h
    trivial
  | _ =>
    cases h
    trivial

namespace Snapshot

theorem mem_itemsOfEntry : (key, v) ∈ itemsOfEntry name e ↔
    ∃ field : KeyedField, key = field.keyStart ++ name ∧ e.kept field = some v := by
  constructor
  · intro h
    rcases List.mem_append.mp h with h | h
    · simp only [List.mem_cons, List.not_mem_nil, or_false, Prod.mk.injEq] at h
      rcases h with ⟨rfl, rfl⟩ | ⟨rfl, rfl⟩ | ⟨rfl, rfl⟩
      · exact ⟨.value, (keyStart_value_append key).symm, rfl⟩
      · exact ⟨.error, rfl, rfl⟩
      · exact ⟨.fixed, rfl, rfl⟩
    · split_ifs at h with hbounded
      · obtain ⟨rfl, rfl⟩ := Prod.mk.inj (List.mem_singleton.mp h)
        exact ⟨.limit, rfl, if_pos hbounded⟩
      · cases h
  · rintro ⟨field, rfl, h⟩
    unfold itemsOfEntry
    cases field with
    | limit =>
      simp only [Entry.kept, Option.ite_none_right_eq_some, Option.some.injEq] at h
      obtain ⟨hbounded, rfl⟩ := h
      rw [if_pos hbounded]
      simp [KeyedField.keyStart, limitKeyStart]
    | _ =>
      cases h
      simp [KeyedField.keyStart, errorKeyStart, fixKeyStart]

/-- The items that a snapshot is made of. -/
def items (registry : Registry) (state : ParameterState α) : List (String × SnapshotValue α) :=
  (registry.names.zip state.entries).flatMap fun (name, e) => itemsOfEntry name e

theorem mem_items : (key, v) ∈ items registry state ↔ ∃ name e, ∃ field : KeyedField,
    (name, e) ∈ registry.names.zip state.entries ∧ key = field.keyStart ++ name ∧
      e.kept field = some v := by
  constructor
  · intro h
    obtain ⟨⟨name, e⟩, hmem, h⟩ := List.mem_flatMap.mp h
    obtain ⟨field, hkey, hkept⟩ := mem_itemsOfEntry.mp h
    exact ⟨name, e, field, hmem, hkey, hkept⟩
  · rintro ⟨name, e, field, hmem, hkey, hkept⟩
    exact List.mem_flatMap.mpr ⟨(name, e), hmem, mem_itemsOfEntry.mpr ⟨field, hkey, hkept⟩⟩

theorem ofState_eq (registry : Registry) (state : ParameterState α) :
    ofState registry state = ofList (items registry state) := rfl

omit [Scalar α] in
theorem exists_entry_of_name (hlen : state.len = registry.len) {i : Nat}
    (hi : registry.names[i]? = some name) :
    ∃ e, state.entries[i]? = some e ∧ (name, e) ∈ registry.names.zip state.entries := by
  have hlt : i < state.entries.length := (List.getElem?_eq_some_iff.mp hi).1.trans_eq hlen.symm
  have he : state.entries[i]? = some state.entries[i] := List.getElem?_eq_getElem hlt
  exact ⟨_, he, List.mem_iff_getElem?.mpr ⟨i, List.getElem?_zip_eq_some.mpr ⟨hi, he⟩⟩⟩

theorem exists_of_isPlain (h : (ofState registry state).isPlain key = true) :
    ∃ name ∈ registry.names, key = name ∨ key = KeyedField.error.keyStart ++ name := by
  obtain ⟨x, hx⟩ := isPlain_eq_true_iff.mp h
  rw [ofState_eq, get?_ofList] at hx
  obtain ⟨name, e, field, hmem, rfl, hkept⟩ := mem_items.mp (mem_of_lastKeyed hx)
  refine ⟨name, (List.of_mem_zip hmem).1, ?_⟩
  cases field with
  | value => exact .inl (keyStart_value_append name)
  | error => exact .inr rfl
  | fixed => cases hkept
  | limit => simp [Entry.kept] at hkept

/-- The error of a parameter is kept as a number, whatever its name is. -/
theorem isPlain_error (hmem : (name, e) ∈ registry.names.zip state.entries) :
    (ofState registry state).isPlain (KeyedField.error.keyStart ++ name) = true := by
  obtain ⟨v, hv⟩ := exists_lastKeyed (mem_items.mpr ⟨name, e, .error, hmem, rfl, rfl⟩)
  obtain ⟨name', e', field, -, hkey, hkept⟩ := mem_items.mp (mem_of_lastKeyed hv)
  -- the last item with this key may be the value of another parameter, which is a number as well
  have hnumber : ∃ x, v = .number x := by
    cases field with
    | value => exact ⟨_, (Option.some.inj hkept).symm⟩
    | error => exact ⟨_, (Option.some.inj hkept).symm⟩
    | _ => exact absurd (keyStart_append_inj (by simp) (by simp) hkey).1 (by simp)
  obtain ⟨x, rfl⟩ := hnumber
  exact isPlain_eq_true_iff.mpr ⟨x, (get?_ofList _ _).trans hv⟩

section Unambiguous

variable (hnames : registry.IsUnambiguous)
include hnames

theorem key_inj {field' : KeyedField} {name' : String} (hname : name ∈ registry.names)
    (hname' : name' ∈ registry.names) (h : field.keyStart ++ name = field'.keyStart ++ name') :
    field = field' ∧ name = name' := by
  by_cases hfield : field = .value <;> by_cases hfield' : field' = .value
  · subst hfield hfield'
    exact ⟨rfl, by rwa [keyStart_value_append, keyStart_value_append] at h⟩
  · subst hfield
    rw [keyStart_value_append] at h
    exact absurd (h ▸ hname) (hnames field' hfield' name' hname').1
  · subst hfield'
    rw [keyStart_value_append] at h
    exact absurd (h ▸ hname') (hnames field hfield name hname).1
  · exact keyStart_append_inj hfield hfield' h

theorem lastKeyed_items (hmem : (name, e) ∈ registry.names.zip state.entries)
    (field : KeyedField) :
    lastKeyed (items registry state) (field.keyStart ++ name) = e.kept field := by
  have hunique (v) (h : (field.keyStart ++ name, v) ∈ items registry state) :
      e.kept field = some v := by
    obtain ⟨name', e', field', hmem', hkey, hkept⟩ := mem_items.mp h
    obtain ⟨rfl, rfl⟩ := key_inj hnames (List.of_mem_zip hmem).1 (List.of_mem_zip hmem').1 hkey
    obtain rfl := eq_of_mem_zip registry.nodup_names hmem hmem'
    exact hkept
  cases hkept : e.kept field with
  | none =>
    refine lastKeyed_eq_none fun v hv => ?_
    rw [hunique v hv] at hkept
    cases hkept
  | some v =>
    refine lastKeyed_eq_some (mem_items.mpr ⟨name, e, field, hmem, rfl, hkept⟩) fun w hw => ?_
    exact Option.some.inj ((hunique w hw).symm.trans hkept)

theorem isPlain_name (hmem : (name, e) ∈ registry.names.zip state.entries) :
    (ofState registry state).isPlain name = true := by
  have hvalue := lastKeyed_items hnames hmem .value
  rw [keyStart_value_append] at hvalue
  exact isPlain_eq_true_iff.mpr ⟨e.value, (get?_ofList _ _).trans hvalue⟩

/-- The key of a field of a parameter is read as what it is. -/
theorem readKey_ofState (hmem : (name, e) ∈ registry.names.zip state.entries)
    (field : KeyedField) :
    (ofState registry state).readKey (field.keyStart ++ name) = (field, name) := by
  by_cases hfield : field = .value
  · subst hfield
    rw [keyStart_value_append, readKey_eq_value_iff]
    refine ⟨fun field' rest hfield' hkey => ?_, rfl⟩
    by_contra hplain
    have hname := (List.of_mem_zip hmem).1
    obtain ⟨name', hname', rfl | rfl⟩ := exists_of_isPlain (eq_true_of_ne_false hplain)
    · exact (hnames field' hfield' rest hname').1 (hkey ▸ hname)
    · exact (hnames field' hfield' name' hname').2 (hkey ▸ hname)
  · exact readKey_keyStart hfield (isPlain_name hnames hmem)

theorem mem_entries_ofState : (key, v) ∈ (ofState registry state).entries ↔ ∃ name e,
    ∃ field : KeyedField, (name, e) ∈ registry.names.zip state.entries ∧
      key = field.keyStart ++ name ∧ e.kept field = some v := by
  rw [ofState_eq, mem_entries_ofList]
  constructor
  · exact fun h => mem_items.mp (mem_of_lastKeyed h)
  · rintro ⟨name, e, field, hmem, rfl, hkept⟩
    rw [lastKeyed_items hnames hmem, hkept]

/-- For a field of a parameter, the snapshot asks for what is kept of it. -/
theorem mem_asked {β : Type} {pick : SnapshotValue α → Option β} {x : β} :
    (name, x) ∈ (ofState registry state).entries.filterMap
        ((ofState registry state).asked field pick) ↔
      ∃ e v, (name, e) ∈ registry.names.zip state.entries ∧ e.kept field = some v ∧
        pick v = some x := by
  rw [List.mem_filterMap]
  constructor
  · rintro ⟨⟨key, v⟩, hitem, hasked⟩
    obtain ⟨hread, hpick⟩ := asked_eq_some.mp hasked
    obtain ⟨name', e, field', hmem, rfl, hkept⟩ := (mem_entries_ofState hnames).mp hitem
    rw [readKey_ofState hnames hmem] at hread
    obtain ⟨rfl, rfl⟩ := Prod.mk.inj hread
    exact ⟨e, v, hmem, hkept, hpick⟩
  · rintro ⟨e, v, hmem, hkept, hpick⟩
    exact ⟨(field.keyStart ++ name, v), (mem_entries_ofState hnames).mpr
      ⟨name, e, field, hmem, rfl, hkept⟩, asked_eq_some.mpr
      ⟨readKey_ofState hnames hmem field, hpick⟩⟩

theorem lastKeyed_asked {β : Type} (pick : SnapshotValue α → Option β)
    (hmem : (name, e) ∈ registry.names.zip state.entries) :
    lastKeyed ((ofState registry state).entries.filterMap
      ((ofState registry state).asked field pick)) name = (e.kept field).bind pick := by
  have hunique (x : β) (h : (name, x) ∈ (ofState registry state).entries.filterMap
      ((ofState registry state).asked field pick)) : (e.kept field).bind pick = some x := by
    obtain ⟨e', v, hmem', hkept, hpick⟩ := (mem_asked hnames).mp h
    obtain rfl := eq_of_mem_zip registry.nodup_names hmem hmem'
    rw [hkept]
    exact hpick
  cases hkept : (e.kept field).bind pick with
  | none =>
    refine lastKeyed_eq_none fun x hx => ?_
    rw [hunique x hx] at hkept
    cases hkept
  | some x =>
    obtain ⟨v, hv, hpick⟩ := Option.bind_eq_some_iff.mp hkept
    refine lastKeyed_eq_some ((mem_asked hnames).mpr ⟨e, v, hmem, hv, hpick⟩) fun y hy => ?_
    exact Option.some.inj ((hunique y hy).symm.trans hkept)

theorem toStartSpec_ofState :
    (ofState registry state).toStartSpec = .ok (ofState registry state).request := by
  refine toStartSpec_eq_ok.mpr ⟨fun item hitem => ?_, rfl⟩
  obtain ⟨name, e, field, hmem, hkey, hkept⟩ := (mem_entries_ofState hnames).mp hitem
  rw [hkey, readKey_ofState hnames hmem]
  exact e.fits_of_kept hkept

theorem mem_names_of_request {key : KeyedField × String}
    (h : key ∈ (ofState registry state).request.keys) : key.2 ∈ registry.names := by
  have hknown {β : Type} {field : KeyedField} {pick : SnapshotValue α → Option β}
      {item : String × β} (h : item ∈ (ofState registry state).entries.filterMap
        ((ofState registry state).asked field pick)) : item.1 ∈ registry.names := by
    obtain ⟨e, v, hmem, -⟩ := (mem_asked hnames).mp h
    exact (List.of_mem_zip hmem).1
  simp only [StartSpec.keys, List.mem_append, List.mem_map] at h
  rcases h with ((⟨item, hitem, rfl⟩ | ⟨item, hitem, rfl⟩) | ⟨item, hitem, rfl⟩) |
    ⟨item, hitem, rfl⟩
  · exact hknown hitem
  · exact hknown hitem
  · exact hknown hitem
  · exact hknown hitem

end Unambiguous

/-- The start of a new fit with the same names, asked for by a snapshot. -/
def rebuild (s : Snapshot α) (names : List String) (cost : Cost α) (chain : NameChain α) :
    Except (FitError α) (Start α) := do
  let spec ← s.toStartSpec
  StartSpec.build { spec with names := some names } cost chain

end Snapshot

/-! ## Restoring -/

/-- The numbers of the entry are accepted in a start, and so is its limit, which holds the value. -/
structure Entry.IsRestorable (e : Entry α) : Prop where
  value : ∀ i, checkValue i e.value = .ok ()
  error : ∀ i, checkError i e.error = .ok ()
  clamp : e.limit.clamp e.value = e.value
  limit : e.limit.toSpec.toLimit = .ok e.limit

/-- An entry as it is restored. One that is fixed by its limit gets the flag as well. -/
def Entry.restored (e : Entry α) : Entry α := { e with fixed := e.isFixed }

namespace Snapshot

theorem toSpec_of_kept {spec : LimitSpec α}
    (h : (e.kept .limit).bind (·.limit?) = some spec) : spec = e.limit.toSpec := by
  unfold Entry.kept at h
  split_ifs at h
  · exact (Option.some.inj h).symm
  · cases h

theorem madeLimit_toSpec (he : e.IsRestorable) : madeLimit e.limit.toSpec = e.limit :=
  madeLimit_of_toLimit he.limit

/-- Without a bound, nothing is kept, and the limit is restored all the same. -/
theorem madeLimit_of_kept (he : e.IsRestorable) :
    (((e.kept .limit).bind (·.limit?)).map madeLimit).getD Limit.unbounded = e.limit := by
  have hlimit := madeLimit_toSpec he
  unfold Entry.kept
  split_ifs with hbounded
  · exact hlimit
  · have hopen : e.limit.lowerBound = none ∧ e.limit.upperBound = none := by
      simpa [Limit.isBounded, Limit.lowerBound, Limit.upperBound] using hbounded
    rw [Limit.toSpec, hopen.1, hopen.2] at hlimit
    exact hlimit

section Restored

variable (hnames : registry.IsUnambiguous)
include hnames

theorem limits_ofState (hstate : ∀ e ∈ state.entries, e.IsRestorable) :
    ((ofState registry state).request.limits.mapM fun (name, spec) => do
      let limit ← spec.toLimit
      pure (name, limit)) = .ok ((ofState registry state).request.limits.map fun (name, spec) =>
        (name, madeLimit spec)) := by
  refine mapM_eq_ok fun ⟨name, spec⟩ hitem => ?_
  obtain ⟨e, v, hmem, hkept, hpick⟩ := (mem_asked hnames).mp hitem
  obtain rfl := toSpec_of_kept (Option.bind_eq_some_iff.mpr ⟨v, hkept, hpick⟩)
  have he := hstate e (List.of_mem_zip hmem).2
  refine except_bind_eq_ok.mpr ⟨_, he.limit, ?_⟩
  dsimp only
  rw [madeLimit_toSpec he]
  rfl

theorem entry_ofState (hmem : (name, e) ∈ registry.names.zip state.entries) (he : e.IsRestorable)
    (names : Option (List String)) (i : Nat) :
    StartSpec.entry { (ofState registry state).request with names }
      ((ofState registry state).request.limits.map fun (name, spec) => (name, madeLimit spec)) i
      name = .ok (e.restored, []) := by
  have hlimit : (lastKeyed ((ofState registry state).request.limits.map fun (name, spec) =>
      (name, madeLimit spec)) name).getD Limit.unbounded = e.limit := by
    rw [lastKeyed_map, request, lastKeyed_asked hnames _ hmem]
    exact madeLimit_of_kept he
  have hfixed : lastKeyed (ofState registry state).request.fixed name = some e.fixed :=
    lastKeyed_asked hnames _ hmem
  rw [StartSpec.entry_eq_ok hlimit (lastKeyed_asked hnames _ hmem) (lastKeyed_asked hnames _ hmem)
    (he.value i) (he.error i), he.clamp]
  dsimp only
  rw [hfixed]
  rfl

/-- **A state without ambiguous names is restored.** -/
theorem rebuild_ofState (hlen : state.len = registry.len)
    (hstate : ∀ e ∈ state.entries, e.IsRestorable) (cost : Cost α) (chain : NameChain α) :
    (ofState registry state).rebuild registry.names cost chain =
      .ok ⟨registry, .ofEntries (state.entries.map (·.restored)), []⟩ := by
  let entryOf (key : String × Nat) : Entry α :=
    (state.entries[key.2]?.map (·.restored)).getD (.free 0 0)
  have hentry : ∀ key ∈ registry.names.zipIdx, StartSpec.entry
      { (ofState registry state).request with names := some registry.names }
      ((ofState registry state).request.limits.map fun (name, spec) => (name, madeLimit spec))
      key.2 key.1 = .ok (entryOf key, []) := by
    rintro ⟨name, i⟩ hkey
    have hname : registry.names[i]? = some name := List.mem_zipIdx_iff_getElem?.mp hkey
    obtain ⟨e, he, hmem⟩ := exists_entry_of_name hlen hname
    rw [entry_ofState hnames hmem (hstate e (List.of_mem_zip hmem).2)]
    simp [entryOf, he]
  have hentries : registry.names.zipIdx.map entryOf = state.entries.map (·.restored) := by
    refine List.ext_getElem (by simpa [ParameterState.len, Registry.len] using hlen.symm)
      fun i hi hi' => ?_
    have hlt : i < state.entries.length := by simpa using hi'
    simp [entryOf, hlt]
  rw [← hentries]
  refine except_bind_eq_ok.mpr ⟨_, toStartSpec_ofState hnames, ?_⟩
  exact StartSpec.build_eq_ok rfl rfl (fun key hkey => mem_names_of_request hnames hkey)
    (limits_ofState hnames hstate) hentry

end Restored

/-- The value of every name that is not missed is read as such. -/
theorem readKey_of_rebuild {names : List String} {cost : Cost α} {chain : NameChain α}
    {start : Start α} (h : (ofState registry state).rebuild names cost chain = .ok start)
    (hwarnings : start.warnings = []) (hname : name ∈ start.registry.names) :
    (ofState registry state).isPlain name = true ∧ (ofState registry state).IsOwnKey name := by
  obtain ⟨spec, hspec, hstart⟩ := except_bind_eq_ok.mp h
  obtain ⟨-, rfl⟩ := toStartSpec_eq_ok.mp hspec
  obtain ⟨i, hi⟩ := List.mem_iff_getElem?.mp hname
  obtain ⟨x, hx⟩ :=
    Option.isSome_iff_exists.mp (StartSpec.givenValue_of_build hstart hwarnings hi)
  have hlast : lastKeyed (ofState registry state).request.values name = some x := by
    simpa [StartSpec.givenValue, request] using hx
  obtain ⟨⟨key, v⟩, hitem, hasked⟩ := List.mem_filterMap.mp (mem_of_lastKeyed hlast)
  obtain ⟨hread, hnumber⟩ := asked_eq_some.mp hasked
  obtain ⟨hown, rfl⟩ := readKey_eq_value_iff.mp hread
  refine ⟨?_, hown⟩
  cases v with
  | number y =>
    exact isPlain_eq_true_iff.mpr ⟨y, (get?_ofList _ _).trans (mem_entries_ofList.mp hitem)⟩
  | _ => cases hnumber

/-- **If no parameter is missed, no name is ambiguous.** -/
theorem isUnambiguous_of_rebuild (hlen : state.len = registry.len) {cost : Cost α}
    {chain : NameChain α} {start : Start α}
    (h : (ofState registry state).rebuild registry.names cost chain = .ok start)
    (hregistry : start.registry = registry) (hwarnings : start.warnings = []) :
    registry.IsUnambiguous := by
  intro field hfield name hname
  have hown {key : String} (hkey : key ∈ registry.names) :=
    readKey_of_rebuild h hwarnings (hregistry ▸ hkey)
  refine ⟨fun hother => ?_, fun hother => ?_⟩
  · have hplain := (hown hother).2 field name hfield rfl
    rw [(hown hname).1] at hplain
    cases hplain
  · -- the error of `name` is kept as a number, and so it passes for a parameter
    obtain ⟨i, hi⟩ := List.mem_iff_getElem?.mp hname
    obtain ⟨e, -, hmem⟩ := exists_entry_of_name hlen hi
    have hplain := (hown hother).2 field _ hfield rfl
    rw [isPlain_error hmem] at hplain
    cases hplain

end Snapshot

/-! ## Round trips -/

/-- What is seen of an entry. -/
def Entry.seen (e : Entry α) : α × α × Limit α × Bool := (e.value, e.error, e.limit, e.isFixed)

/-- The snapshot of the state starts a new fit with the same names, without a warning, where every
parameter has its value, error, limit and flag again. -/
def RoundTrips (registry : Registry) (state : ParameterState α) (cost : Cost α)
    (chain : NameChain α) : Prop :=
  ∃ start, (Snapshot.ofState registry state).rebuild registry.names cost chain = .ok start ∧
    start.registry = registry ∧ start.warnings = [] ∧
      start.state.entries.map (·.seen) = state.entries.map (·.seen)

/-- The numbers of the entry are finite, its error is not negative and its value is within the
limit. -/
structure Entry.IsSound (e : Entry Float) : Prop where
  finite_value : e.value.isFinite
  finite_error : e.error.isFinite
  error_nonneg : 0 ≤ e.error
  holds : e.limit.Holds e.value

theorem Entry.IsSound.isRestorable {e : Entry Float} (he : e.IsSound) : e.IsRestorable := by
  have hsign : ¬e.error < 0 :=
    (float_not_lt (isNaN_of_isFinite he.finite_error) rfl).mpr he.error_nonneg
  refine ⟨fun i => if_pos he.finite_value, fun i => if_pos ?_, Limit.clamp_of_holds he.holds, ?_⟩
  · exact Bool.and_eq_true_iff.mpr ⟨he.finite_error, congrArg not (decide_eq_false hsign)⟩
  · have hbelow : e.limit.lowerBound.getD Scalar.negInf = e.limit.lower := by
      unfold Limit.lowerBound
      split_ifs with hfinite
      · rfl
      · exact (float_eq_negInf he.finite_value he.holds.lower hfinite).symm
    have habove : e.limit.upperBound.getD Scalar.inf = e.limit.upper := by
      unfold Limit.upperBound
      split_ifs with hfinite
      · rfl
      · exact (float_eq_inf he.finite_value he.holds.upper hfinite).symm
    rw [Limit.toSpec, LimitSpec.toLimit, hbelow, habove, Limit.ofBounds_eq_ok]
    exact ⟨float_le_trans he.holds.lower he.holds.upper, rfl⟩

theorem Entry.seen_restored (e : Entry α) : e.restored.seen = e.seen := by
  obtain ⟨value, error, fixed, lower, upper⟩ := e
  simp [restored, seen, isFixed, limit]

/-- **A state is restored from its snapshot exactly if no name is ambiguous**, whatever the names
and the entries are, as long as the numbers are finite, no error is negative and the values are
within their limits. -/
theorem roundTrips_iff {registry : Registry} {state : ParameterState Float}
    (hlen : state.len = registry.len) (hstate : ∀ e ∈ state.entries, e.IsSound) (cost : Cost Float)
    (chain : NameChain Float) : RoundTrips registry state cost chain ↔ registry.IsUnambiguous := by
  constructor
  · rintro ⟨start, hbuilt, hregistry, hwarnings, -⟩
    exact Snapshot.isUnambiguous_of_rebuild hlen hbuilt hregistry hwarnings
  · intro hnames
    refine ⟨_, Snapshot.rebuild_ofState hnames hlen (fun e he => (hstate e he).isRestorable) cost
      chain, rfl, rfl, ?_⟩
    simp [ParameterState.ofEntries, Entry.seen_restored]

/-- A parameter with a lower bound and one that is fixed. -/
def boundedAndFixed : ParameterState Float :=
  .ofEntries [⟨1.5, 0.2, false, 0, Scalar.inf⟩, ⟨-3, 0.5, true, Scalar.negInf, Scalar.inf⟩]

theorem isSound_boundedAndFixed : ∀ e ∈ boundedAndFixed.entries, e.IsSound := by
  intro e he
  simp only [boundedAndFixed, ParameterState.ofEntries, List.mem_cons, List.not_mem_nil,
    or_false] at he
  rcases he with rfl | rfl
  · exact ⟨rfl, rfl, by decide +kernel, by decide +kernel, by decide +kernel⟩
  · exact ⟨rfl, rfl, by decide +kernel, by decide +kernel, by decide +kernel⟩

/-- A name may begin like the key of an error. -/
theorem roundTrips_iff_errorName :
    ∃ registry : Registry, registry.names = ["a", "error_b"] ∧
      boundedAndFixed.len = registry.len ∧ (∀ e ∈ boundedAndFixed.entries, e.IsSound) ∧
        RoundTrips registry boundedAndFixed sumOfSquares SessionSpec.standard.chain := by
  let registry : Registry := ⟨["a", "error_b"], [("error_b", 1), ("a", 0)], nofun, rfl⟩
  have hnames : registry.IsUnambiguous := by decide
  exact ⟨registry, rfl, rfl, isSound_boundedAndFixed,
    (roundTrips_iff rfl isSound_boundedAndFixed sumOfSquares SessionSpec.standard.chain).mpr hnames⟩

/-- If a name is the key of the error of another one's error, the snapshot is not accepted, although
all its keys are different. -/
theorem not_roundTrips_errorOfError :
    ∃ registry : Registry, registry.names = ["x", "error_error_x"] ∧
      boundedAndFixed.len = registry.len ∧ (∀ e ∈ boundedAndFixed.entries, e.IsSound) ∧
        ¬RoundTrips registry boundedAndFixed sumOfSquares SessionSpec.standard.chain := by
  let registry : Registry :=
    ⟨["x", "error_error_x"], [("error_error_x", 1), ("x", 0)], nofun, rfl⟩
  refine ⟨registry, rfl, rfl, isSound_boundedAndFixed, fun ⟨start, hbuilt, _⟩ => ?_⟩
  have hfails : ((Snapshot.ofState registry boundedAndFixed).rebuild registry.names sumOfSquares
      SessionSpec.standard.chain).toOption.isNone = true := by decide +kernel
  rw [hbuilt] at hfails
  cases hfails

end FitSession
