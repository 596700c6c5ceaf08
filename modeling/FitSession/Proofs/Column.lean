import FitSession.Address.Key
import FitSession.Proofs.Address
import FitSession.Proofs.Outcome
import FitSession.Session.View

/-!
# Writes to a state

A write through a view, done to a state of one's own: the address is resolved, every input is
checked, and the items are written one after another.

* `Write`, `ViewWrite`, `ViewWrite.onState`: writes to one column or to any of the four;
* `WriteInvariant`, `writeInvariant_of_replaceEntry`: properties of states that no write destroys;
* `Column.IsLawful`: what is checked can be written, and nothing but writes is done;
* `ViewWrite.onState_keeps`: what no write destroys, a write through a view does not destroy.
-/

namespace FitSession

variable {α Item Input : Type}

/-! ## Writes as data -/

/-- A write to one column: to one item, or to a slice. -/
inductive Write (Input : Type)
  | item (key : Key) (input : Input)
  | slice (walk : Slice) (assign : Assign Input)

/-- The state with items written one after another. -/
def Column.writeAll (c : Column α Item Input) (s : ParameterState α) (items : List (Nat × Item)) :
    Except (FitError α) (ParameterState α) :=
  items.foldlM (fun s (i, item) => c.write s i item) s

/-- The write, done to a state of one's own. -/
def Write.onState (c : Column α Item Input) (registry : Registry) (s : ParameterState α) :
    Write Input → Except (FitError α) (ParameterState α)
  | .item key input => do
    let index ← key.resolve registry
    let item ← c.prepare index input
    c.write s index item
  | .slice walk assign => do
    let requests ← assign.inputsFor (walk.indices s.len)
    let items ← c.prepareAll requests
    c.writeAll s items

/-- A write through one of the four views. -/
inductive ViewWrite (α : Type)
  | values (w : Write α)
  | errors (w : Write α)
  | fixed (w : Write Bool)
  | limits (w : Write (LimitSpec α))

/-- The write, done to a state of one's own. -/
def ViewWrite.onState [Scalar α] (registry : Registry) (s : ParameterState α) :
    ViewWrite α → Except (FitError α) (ParameterState α)
  | .values w => w.onState valueColumn registry s
  | .errors w => w.onState errorColumn registry s
  | .fixed w => w.onState fixedColumn registry s
  | .limits w => w.onState limitColumn registry s

/-! ## Checks before a write -/

/-- An input is asked for selected positions only. -/
theorem Assign.mem_of_inputsFor {assign : Assign Input} {positions : List Nat}
    {requests : List (Nat × Input)}
    (h : (assign.inputsFor positions : Except (FitError α) _) = .ok requests) :
    ∀ r ∈ requests, r.1 ∈ positions := by
  intro r hr
  cases assign with
  | broadcast x =>
    cases h
    obtain ⟨i, hi, rfl⟩ := List.mem_map.mp hr
    exact hi
  | each xs =>
    simp only [inputsFor] at h
    split at h
    · cases h
      exact (List.of_mem_zip hr).1
    · cases h

/-- What is prepared for a position has passed the check of that position. -/
theorem Column.of_prepareAll {c : Column α Item Input} {requests : List (Nat × Input)}
    {items : List (Nat × Item)} (h : c.prepareAll requests = .ok items) :
    ∀ r ∈ items, ∃ x, (r.1, x) ∈ requests ∧ c.prepare r.1 x = .ok r.2 := by
  intro r hr
  obtain ⟨⟨i, x⟩, hmem, hr⟩ := mem_mapM_ok h r hr
  obtain ⟨item, hitem, hr⟩ := except_bind_eq_ok.mp hr
  cases hr
  exact ⟨x, hmem, hitem⟩

/-- The items that a write to a slice prepares are meant for entries of the state. -/
theorem Column.lt_of_prepareAll {c : Column α Item Input} {walk : Slice} {assign : Assign Input}
    {len : Nat} {requests : List (Nat × Input)} {items : List (Nat × Item)}
    (hr : (assign.inputsFor (walk.indices len) : Except (FitError α) _) = .ok requests)
    (hi : c.prepareAll requests = .ok items) : ∀ r ∈ items, r.1 < len := by
  intro r hmem
  obtain ⟨x, hx, -⟩ := of_prepareAll hi r hmem
  exact Slice.lt_of_mem_indices (Assign.mem_of_inputsFor hr _ hx)

/-! ## The four columns -/

theorem ParameterState.entryOrFail_of_lt (s : ParameterState α) {i : Nat} (h : i < s.len) :
    ∃ e, s.entryOrFail i = .ok e := by
  unfold entryOrFail
  rw [List.getElem?_eq_getElem h]
  exact ⟨_, rfl⟩

variable [Scalar α]

theorem ParameterState.entries_replaceEntry (s : ParameterState α) (i : Nat) (old new : Entry α) :
    (s.replaceEntry i old new).entries = s.entries.set i new := by
  unfold replaceEntry
  split
  · rfl
  · split <;> rfl

/-- An entry that is free before and after, or never, is only replaced. -/
theorem ParameterState.replaceEntry_of_isFixed_eq {s : ParameterState α} {i : Nat}
    {old new : Entry α} (h : old.isFixed = new.isFixed) :
    s.replaceEntry i old new = { s with entries := s.entries.set i new } := if_pos h

/-- A property of states that no write destroys. -/
structure WriteInvariant (P : ParameterState α → Prop) : Prop where
  value : ∀ {s t i x}, P s → s.setValue i x = .ok t → P t
  error : ∀ {s t i x}, P s → s.setError i x = .ok t → P t
  fixed : ∀ {s t i on}, P s → s.setFixed i on = .ok t → P t
  limit : ∀ {s t i l}, P s → s.setLimit i l = .ok t → P t

omit [Scalar α] in
theorem ParameterState.entryOrFail_eq_ok {s : ParameterState α} {i : Nat} {e : Entry α} :
    s.entryOrFail i = .ok e ↔ s.entries[i]? = some e := by
  unfold entryOrFail
  cases s.entries[i]? <;> simp

/-- Every write replaces one entry. -/
theorem writeInvariant_of_replaceEntry {P : ParameterState α → Prop}
    (h : ∀ s i old new, P s → s.entries[i]? = some old → P (s.replaceEntry i old new)) :
    WriteInvariant P where
  value {s t i x} hs ht := by
    obtain ⟨_, -, ht⟩ := except_bind_eq_ok.mp ht
    obtain ⟨e, he, ht⟩ := except_bind_eq_ok.mp ht
    cases ht
    have hnew := h s i e { e with value := e.limit.clamp x } hs (s.entryOrFail_eq_ok.mp he)
    rw [ParameterState.replaceEntry_of_isFixed_eq] at hnew
    · exact hnew
    · rfl
  error {s t i x} hs ht := by
    obtain ⟨_, -, ht⟩ := except_bind_eq_ok.mp ht
    obtain ⟨e, he, ht⟩ := except_bind_eq_ok.mp ht
    cases ht
    have hnew := h s i e { e with error := x } hs (s.entryOrFail_eq_ok.mp he)
    rw [ParameterState.replaceEntry_of_isFixed_eq] at hnew
    · exact hnew
    · rfl
  fixed {s t i on} hs ht := by
    obtain ⟨e, he, ht⟩ := except_bind_eq_ok.mp ht
    cases ht
    exact h s i e _ hs (s.entryOrFail_eq_ok.mp he)
  limit {s t i l} hs ht := by
    obtain ⟨e, he, ht⟩ := except_bind_eq_ok.mp ht
    cases ht
    exact h s i e _ hs (s.entryOrFail_eq_ok.mp he)

/-- What is true of all entries, and of an entry with any field written, no write destroys. -/
theorem writeInvariant_of_entries {Q : Entry α → Prop}
    (hvalue : ∀ e x, Q e → Q { e with value := e.limit.clamp x })
    (herror : ∀ (e : Entry α) x, Q e → Q { e with error := x })
    (hfixed : ∀ (e : Entry α) on, Q e → Q { e with fixed := on })
    (hlimit : ∀ (e : Entry α) (l : Limit α) on, Q e →
      Q ⟨l.clamp e.value, e.error, on, l.lower, l.upper⟩) :
    WriteInvariant fun s : ParameterState α => ∀ e ∈ s.entries, Q e := by
  have hset {s : ParameterState α} {i : Nat} {new : Entry α} (hs : ∀ e ∈ s.entries, Q e)
      (hnew : Q new) : ∀ e ∈ s.entries.set i new, Q e := fun e he =>
    (List.mem_or_eq_of_mem_set he).elim (hs e) fun h => h ▸ hnew
  have hold {s : ParameterState α} {i : Nat} {e : Entry α} (hs : ∀ e ∈ s.entries, Q e)
      (he : s.entryOrFail i = .ok e) : Q e :=
    hs e (List.mem_of_getElem? (ParameterState.entryOrFail_eq_ok.mp he))
  constructor
  · intro s t i x hs ht
    obtain ⟨_, -, ht⟩ := except_bind_eq_ok.mp ht
    obtain ⟨e, he, ht⟩ := except_bind_eq_ok.mp ht
    cases ht
    exact hset hs (hvalue e x (hold hs he))
  · intro s t i x hs ht
    obtain ⟨_, -, ht⟩ := except_bind_eq_ok.mp ht
    obtain ⟨e, he, ht⟩ := except_bind_eq_ok.mp ht
    cases ht
    exact hset hs (herror e x (hold hs he))
  · intro s t i on hs ht
    obtain ⟨e, he, ht⟩ := except_bind_eq_ok.mp ht
    cases ht
    rw [ParameterState.entries_replaceEntry]
    exact hset hs (hfixed e on (hold hs he))
  · intro s t i l hs ht
    obtain ⟨e, he, ht⟩ := except_bind_eq_ok.mp ht
    cases ht
    rw [ParameterState.entries_replaceEntry]
    exact hset hs (hlimit e l _ (hold hs he))

/-- No write adds or removes an entry. -/
theorem writeInvariant_len (n : Nat) :
    WriteInvariant fun s : ParameterState α => s.len = n := by
  refine writeInvariant_of_replaceEntry fun s i old new hs _ => ?_
  simpa [ParameterState.len, ParameterState.entries_replaceEntry] using hs

/-- What is checked for a position can be written there, and a write keeps every property that no
write destroys. -/
structure Column.IsLawful (c : Column α Item Input) : Prop where
  write_ok : ∀ {i x item}, c.prepare i x = .ok item → ∀ s : ParameterState α, i < s.len →
    ∃ t, c.write s i item = .ok t
  keeps : ∀ {P}, WriteInvariant P → ∀ {s t : ParameterState α} {i item}, P s →
    c.write s i item = .ok t → P t

theorem valueColumn_isLawful : (valueColumn : Column α α α).IsLawful where
  write_ok {i x item} h s hi := by
    obtain ⟨_, hx, h⟩ := except_bind_eq_ok.mp h
    cases h
    obtain ⟨e, he⟩ := s.entryOrFail_of_lt hi
    exact ⟨_, except_bind_eq_ok.mpr ⟨_, hx, except_bind_eq_ok.mpr ⟨e, he, rfl⟩⟩⟩
  keeps hP := hP.value

theorem errorColumn_isLawful : (errorColumn : Column α α α).IsLawful where
  write_ok {i x item} h s hi := by
    obtain ⟨_, hx, h⟩ := except_bind_eq_ok.mp h
    cases h
    obtain ⟨e, he⟩ := s.entryOrFail_of_lt hi
    exact ⟨_, except_bind_eq_ok.mpr ⟨_, hx, except_bind_eq_ok.mpr ⟨e, he, rfl⟩⟩⟩
  keeps hP := hP.error

theorem fixedColumn_isLawful : (fixedColumn : Column α Bool Bool).IsLawful where
  write_ok _ s hi := by
    obtain ⟨e, he⟩ := s.entryOrFail_of_lt hi
    exact ⟨_, except_bind_eq_ok.mpr ⟨e, he, rfl⟩⟩
  keeps hP := hP.fixed

theorem limitColumn_isLawful : (limitColumn : Column α (Limit α) (LimitSpec α)).IsLawful where
  write_ok _ s hi := by
    obtain ⟨e, he⟩ := s.entryOrFail_of_lt hi
    exact ⟨_, except_bind_eq_ok.mpr ⟨e, he, rfl⟩⟩
  keeps hP := hP.limit

/-! ## Whole writes -/

section

variable {c : Column α Item Input} {P : ParameterState α → Prop}

/-- Items that are meant for entries and have passed their checks can all be written. -/
theorem Column.IsLawful.writeAll_ok (hc : c.IsLawful) {items : List (Nat × Item)} :
    ∀ {s : ParameterState α}, (∀ r ∈ items, r.1 < s.len ∧ ∃ x, c.prepare r.1 x = .ok r.2) →
      ∃ t, c.writeAll s items = .ok t := by
  induction items with
  | nil => exact fun _ => ⟨_, rfl⟩
  | cons r items ih =>
    intro s h
    obtain ⟨hi, x, hx⟩ := h r List.mem_cons_self
    obtain ⟨t, ht⟩ := hc.write_ok hx s hi
    have hlen : t.len = s.len := hc.keeps (writeInvariant_len s.len) rfl ht
    obtain ⟨u, hu⟩ := ih fun r' hr' => by
      rw [hlen]
      exact h r' (List.mem_cons_of_mem r hr')
    exact ⟨u, except_bind_eq_ok.mpr ⟨t, ht, hu⟩⟩

theorem Column.IsLawful.writeAll_keeps (hc : c.IsLawful) (hP : WriteInvariant P)
    {items : List (Nat × Item)} {s t : ParameterState α} (hs : P s)
    (h : c.writeAll s items = .ok t) : P t :=
  foldlM_keeps (fun _ _ _ hs h => hc.keeps hP hs h) hs h

theorem Write.onState_keeps (hc : c.IsLawful) (hP : WriteInvariant P) {registry : Registry}
    {w : Write Input} {s t : ParameterState α} (hs : P s)
    (h : w.onState c registry s = .ok t) : P t := by
  cases w with
  | item key input =>
    obtain ⟨i, -, h⟩ := except_bind_eq_ok.mp h
    obtain ⟨item, -, h⟩ := except_bind_eq_ok.mp h
    exact hc.keeps hP hs h
  | slice walk assign =>
    obtain ⟨requests, -, h⟩ := except_bind_eq_ok.mp h
    obtain ⟨items, -, h⟩ := except_bind_eq_ok.mp h
    exact hc.writeAll_keeps hP hs h

/-- What no write destroys, a write through a view does not destroy. -/
theorem ViewWrite.onState_keeps (hP : WriteInvariant P) {registry : Registry} {w : ViewWrite α}
    {s t : ParameterState α} (hs : P s) (h : w.onState registry s = .ok t) : P t := by
  cases w with
  | values w => exact w.onState_keeps valueColumn_isLawful hP hs h
  | errors w => exact w.onState_keeps errorColumn_isLawful hP hs h
  | fixed w => exact w.onState_keeps fixedColumn_isLawful hP hs h
  | limits w => exact w.onState_keeps limitColumn_isLawful hP hs h

end

end FitSession
