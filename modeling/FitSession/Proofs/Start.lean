import FitSession.Proofs.Naming
import FitSession.Proofs.Start.Slots

/-!
# Initial states

* `StartSpec.givenValue`, `StartSpec.entry`: what the settings of a parameter say, and its entry;
* `StartSpec.requireKnownKeys_eq_ok_iff`: the keys that are accepted;
* `StartSpec.build_of_mixed`, `StartSpec.build_of_not_mixed`: **the steps in which a start is
  built**, with the slots replaced by what they hold;
* `StartSpec.Makes`, `StartSpec.makes_of_entry`: what an entry is made of;
* `StartSpec.entry_eq_ok`: the entry of a parameter with a given value and error;
* `StartSpec.build_eq_ok`: **a start with given names**, from the entries of its parameters;
* `StartSpec.exists_of_build`, `StartSpec.of_build`, `StartSpec.makes_of_build`: what a start is
  made of, whatever is given.
-/

namespace FitSession

/-! ## Numbers and limits -/

variable {α : Type} [Scalar α]

theorem checkValue_eq_ok {i : Nat} {x : α} {r : Unit} :
    checkValue i x = .ok r ↔ Scalar.isFinite x = true := by
  unfold checkValue
  split_ifs with h <;> simp [h]

theorem checkError_eq_ok {i : Nat} {x : α} {r : Unit} :
    checkError i x = .ok r ↔ Scalar.isFinite x = true ∧ ¬x < 0 := by
  unfold checkError
  split_ifs with h
  · simpa using h
  · simpa using h

/-- The limit that a start makes of what it is asked for. -/
def madeLimit (spec : LimitSpec α) : Limit α :=
  ⟨spec.lower.getD Scalar.negInf, spec.upper.getD Scalar.inf⟩

theorem madeLimit_of_toLimit {given : LimitSpec α} {l : Limit α} (h : given.toLimit = .ok l) :
    madeLimit given = l := by
  unfold LimitSpec.toLimit Limit.ofBounds at h
  split_ifs at h
  exact Except.ok.inj h

namespace StartSpec

variable {spec : StartSpec α} {cost : Cost α} {chain : NameChain α} {r : Registry}
  {limits : List (String × Limit α)} {l : Limit α} {i : Nat} {name : String} {e : Entry α}
  {x error : α} {warnings : List (Warning α)}

/-! ## Keys -/

omit [Scalar α] in
/-- The first key that is not a name is reported. -/
theorem requireKnownKeys_eq : spec.requireKnownKeys r =
    (spec.keys.find? fun key => !r.contains key.2).elim (.ok ()) fun key =>
      .error (.configuration (.unknownKey key.1 key.2 r.names)) := by
  unfold requireKnownKeys
  split
  · rename_i field name h
    have hfound : spec.keys.find? (fun key => !r.contains key.2) = some (field, name) := h
    rw [hfound]
    rfl
  · rename_i h
    have hnone : spec.keys.find? (fun key => !r.contains key.2) = none := h
    rw [hnone]
    rfl

omit [Scalar α] in
theorem requireKnownKeys_eq_ok_iff {u : Unit} :
    spec.requireKnownKeys r = .ok u ↔ ∀ key ∈ spec.keys, key.2 ∈ r.names := by
  have hnone : (spec.keys.find? fun key => !r.contains key.2) = none ↔
      ∀ key ∈ spec.keys, key.2 ∈ r.names := by
    simp [List.find?_eq_none, Registry.contains_iff]
  rw [← hnone, requireKnownKeys_eq]
  cases spec.keys.find? fun key => !r.contains key.2 <;> simp

omit [Scalar α] in
/-- The keys of each field are among all keys. -/
theorem mem_names_of_keys (h : ∀ key ∈ spec.keys, key.2 ∈ r.names) :
    (∀ item ∈ spec.values, item.1 ∈ r.names) ∧ (∀ item ∈ spec.errors, item.1 ∈ r.names) ∧
      (∀ item ∈ spec.limits, item.1 ∈ r.names) ∧ ∀ item ∈ spec.fixed, item.1 ∈ r.names := by
  simp only [keys, List.forall_mem_append, List.forall_mem_map] at h
  exact ⟨h.1.1.1, h.1.1.2, h.1.2, h.2⟩

/-! ## Slots -/

/-- The value that is given for a parameter. -/
def givenValue (s : StartSpec α) (index : Nat) (name : String) : Option α :=
  lastKeyed s.values name <|> s.positional.bind (·[index]?)

/-- The entry of one parameter, and the warning if its value was seeded. -/
def entry (s : StartSpec α) (limits : List (String × Limit α)) (index : Nat) (name : String) :
    Except (FitError α) (Entry α × List (Warning α)) :=
  startEntry index name ((lastKeyed limits name).getD Limit.unbounded) (s.givenValue index name)
    (lastKeyed s.errors name) ((lastKeyed s.fixed name).getD false)

/-- Values are given by position and by name. -/
def isMixed (spec : StartSpec α) : Bool := spec.positional.isSome && !spec.values.isEmpty

theorem build_of_mixed (h : spec.isMixed = true) :
    spec.build cost chain = .error (.configuration .positionalAndNamed) := by
  rw [isMixed] at h
  rw [build, h]
  rfl

/-- The limits as they are validated, or the failure of the first one that is not valid. -/
def validated (spec : StartSpec α) : Except (FitError α) (List (String × Limit α)) :=
  spec.limits.mapM fun (name, given) => do
    let limit ← given.toLimit
    pure (name, limit)

section Slots

variable (hi : r.names[i]? = some name)
include hi

/-- What is in a slot that starts out with `y`. -/
theorem getD_filled {β : Type} (y : β) (items : List (String × β)) :
    (r.filled (List.replicate r.len y) items)[i]?.getD y = (lastKeyed items name).getD y := by
  have hlt : i < r.len := (List.getElem?_eq_some_iff.mp hi).1
  rw [Registry.getElem?_filled hi, List.getElem?_replicate, if_pos hlt]
  rfl

/-- What is in a slot that starts out empty. -/
theorem join_filled {β : Type} (items : List (String × β)) :
    (r.filled (List.replicate r.len none) (items.map fun (name, x) => (name, some x)))[i]?.join =
      lastKeyed items name := by
  have hlt : i < r.len := (List.getElem?_eq_some_iff.mp hi).1
  rw [Registry.getElem?_filled hi, List.getElem?_replicate, if_pos hlt, lastKeyed_map]
  cases lastKeyed items name <;> rfl

omit [Scalar α] in
/-- Slots of values start out empty, or with the positional values if no value is named. -/
theorem join_filled_values (hmixed : spec.isMixed = false) :
    (r.filled ((spec.positional.map (·.map some)).getD (List.replicate r.len none))
      (spec.values.map fun (name, x) => (name, some x)))[i]?.join = spec.givenValue i name := by
  rw [givenValue]
  cases hpositional : spec.positional with
  | none => exact (join_filled hi spec.values).trans (by simp)
  | some xs =>
    have hvalues : spec.values = [] := by simpa [isMixed, hpositional] using hmixed
    cases hx : xs[i]? <;> simp [hvalues, Registry.filled_nil, lastKeyed, hx]

end Slots

/-- **The steps in which a start is built.** The slots of a parameter hold what the last setting of
each field says. -/
theorem build_of_not_mixed (h : spec.isMixed = false) :
    spec.build cost chain = (spec.resolveNames cost chain >>= fun r =>
      spec.requireKnownKeys r >>= fun _ => spec.validated >>= fun limits =>
      (r.names.zipIdx.mapM fun (name, i) => spec.entry limits i name) >>= fun built =>
      pure ⟨r, .ofEntries (built.map (·.1)), built.flatMap (·.2)⟩) := by
  have hmixed := h
  rw [isMixed] at h
  rw [build, h]
  refine except_bind_congr fun r _ => except_bind_congr fun _ hknown => ?_
  obtain ⟨hvalues, herrors, hlimits, hfixed⟩ :=
    mem_names_of_keys (requireKnownKeys_eq_ok_iff.mp hknown)
  rw [Registry.fill_eq _ _ _ hlimits]
  change (spec.validated.map _ >>= _) = _
  cases spec.validated with
  | error e => rfl
  | ok limits =>
    have hgiven (x : α) : (pure ∘ some : α → Except (FitError α) (Option α)) x = .ok (some x) := rfl
    have hflag (on : Bool) : (pure on : Except (FitError α) Bool) = .ok on := rfl
    refine (except_bind_ok rfl).trans ?_
    rw [except_bind_ok (Registry.fill_of_reads hgiven _ hvalues),
      except_bind_ok (Registry.fill_of_reads hgiven _ herrors),
      except_bind_ok (Registry.fill_of_reads hflag _ hfixed)]
    refine congrArg (· >>= _) (mapM_congr ?_)
    rintro ⟨name, i⟩ hkey
    have hi : r.names[i]? = some name := List.mem_zipIdx_iff_getElem?.mp hkey
    dsimp only
    rw [entry, getD_filled hi, join_filled_values hi hmixed, join_filled hi, getD_filled hi]
    simp

/-! ## One entry -/

/-- What the entry of a parameter is made of: a limit that is given and valid, or none; a value
that is given and checked, or derived from the limit; and so is its error. -/
structure Makes (spec : StartSpec α) (name : String) (e : Entry α) : Prop where
  limit : e.limit = Limit.unbounded ∨
    ∃ given, (name, given) ∈ spec.limits ∧ given.toLimit = .ok e.limit
  value : ∃ x, e.value = e.limit.clamp x ∧ (Scalar.isFinite x = true ∨ x = startValue e.limit)
  error : match lastKeyed spec.errors name with
    | some error => e.error = error ∧ Scalar.isFinite error = true ∧ ¬error < 0
    | none => e.error = startStep e.value e.limit

/-- The limits as they are validated. -/
def Validates (spec : StartSpec α) (limits : List (String × Limit α)) : Prop :=
  (spec.limits.mapM fun (name, spec) => do
    let limit ← spec.toLimit
    pure (name, limit)) = (.ok limits : Except (FitError α) _)

theorem limit_of_validates (h : spec.Validates limits) (name : String) :
    (lastKeyed limits name).getD Limit.unbounded = Limit.unbounded ∨
      ∃ given, (name, given) ∈ spec.limits ∧
        given.toLimit = .ok ((lastKeyed limits name).getD Limit.unbounded) := by
  cases hlast : lastKeyed limits name with
  | none => exact .inl rfl
  | some l =>
    obtain ⟨⟨name', given⟩, hgiven, hl⟩ := mem_mapM_ok h _ (mem_of_lastKeyed hlast)
    obtain ⟨l', hlimit, hl⟩ := except_bind_eq_ok.mp hl
    cases hl
    exact .inr ⟨given, hgiven, hlimit⟩

/-- What an entry is made of; without a warning, its value was given. -/
theorem makes_of_entry (hlimits : spec.Validates limits)
    (h : spec.entry limits i name = .ok (e, warnings)) :
    spec.Makes name e ∧ (warnings = [] → (spec.givenValue i name).isSome) := by
  have hlimit := limit_of_validates hlimits name
  unfold entry at h
  generalize (lastKeyed limits name).getD Limit.unbounded = limit at hlimit h
  unfold startEntry at h
  extract_lets rest seeded at h
  have hrest (r : α × List (Warning α)) (h : rest r = .ok (e, warnings)) :
      e.limit = limit ∧ e.value = limit.clamp r.1 ∧ warnings = r.2 ∧
        match lastKeyed spec.errors name with
        | some error => e.error = error ∧ Scalar.isFinite error = true ∧ ¬error < 0
        | none => e.error = startStep e.value e.limit := by
    unfold rest at h
    cases hgiven : lastKeyed spec.errors name with
    | none =>
      rw [hgiven] at h
      cases h
      exact ⟨rfl, rfl, rfl, rfl⟩
    | some error =>
      rw [hgiven] at h
      obtain ⟨_, herror, h⟩ := except_bind_eq_ok.mp h
      cases h
      exact ⟨rfl, rfl, rfl, rfl, checkError_eq_ok.mp herror⟩
  cases hgiven : spec.givenValue i name with
  | none =>
    rw [hgiven] at h
    obtain ⟨hl, hvalue, hwarnings, herror⟩ := hrest (seeded, _) h
    refine ⟨⟨hl ▸ hlimit, ⟨seeded, hl ▸ hvalue, .inr (by rw [hl])⟩, herror⟩, fun hnone => ?_⟩
    rw [hwarnings] at hnone
    cases hnone
  | some x =>
    rw [hgiven] at h
    obtain ⟨_, hx, h⟩ := except_bind_eq_ok.mp h
    obtain ⟨hl, hvalue, -, herror⟩ := hrest (x, _) h
    exact ⟨⟨hl ▸ hlimit, ⟨x, hl ▸ hvalue, .inl (checkValue_eq_ok.mp hx)⟩, herror⟩, fun _ => rfl⟩

/-- The entry of a parameter with a given value and error. -/
theorem entry_eq_ok (hlimit : (lastKeyed limits name).getD Limit.unbounded = l)
    (hvalue : lastKeyed spec.values name = some x)
    (herror : lastKeyed spec.errors name = some error) (hx : checkValue i x = .ok ())
    (he : checkError i error = .ok ()) :
    spec.entry limits i name = .ok (⟨l.clamp x, error,
      (lastKeyed spec.fixed name).getD false || l.isDegenerate, l.lower, l.upper⟩, []) := by
  subst hlimit
  have hgiven : spec.givenValue i name = some x := by
    rw [givenValue, hvalue]
    rfl
  unfold entry startEntry
  simp only [hgiven, herror, hx, he]
  rfl

/-! ## A whole start -/

/-- A start with given names, from the entries of its parameters. -/
theorem build_eq_ok {entryOf : String × Nat → Entry α} (hnames : spec.names = some r.names)
    (hpositional : spec.positional = none) (hkeys : ∀ key ∈ spec.keys, key.2 ∈ r.names)
    (hlimits : (spec.limits.mapM fun (name, spec) => do
      let limit ← spec.toLimit
      pure (name, limit)) = .ok limits)
    (hentries : ∀ key ∈ r.names.zipIdx, spec.entry limits key.2 key.1 = .ok (entryOf key, [])) :
    spec.build cost chain = .ok ⟨r, .ofEntries (r.names.zipIdx.map entryOf), []⟩ := by
  have hresolved : spec.resolveNames cost chain = .ok r := by
    rw [resolveNames, hnames, hpositional]
    exact Registry.ofNames_eq_ok_iff.mpr rfl
  rw [build_of_not_mixed (by simp [isMixed, hpositional])]
  refine except_bind_eq_ok.mpr ⟨r, hresolved, except_bind_eq_ok.mpr
    ⟨(), requireKnownKeys_eq_ok_iff.mpr hkeys, ?_⟩⟩
  refine except_bind_eq_ok.mpr ⟨limits, hlimits, except_bind_eq_ok.mpr
    ⟨r.names.zipIdx.map fun key => (entryOf key, []), mapM_eq_ok hentries, ?_⟩⟩
  simp [pure, Except.pure, Function.comp_def]

/-- A start is made of one entry for each name. -/
theorem exists_of_build {start : Start α} (h : spec.build cost chain = .ok start) :
    ∃ registry limits built, spec.Validates limits ∧
      registry.names.zipIdx.mapM (fun (name, i) => spec.entry limits i name) = .ok built ∧
        start = ⟨registry, .ofEntries (built.map (·.1)), built.flatMap (·.2)⟩ := by
  cases hmixed : spec.isMixed with
  | true =>
    rw [build_of_mixed hmixed] at h
    cases h
  | false =>
    rw [build_of_not_mixed hmixed] at h
    obtain ⟨registry, -, h⟩ := except_bind_eq_ok.mp h
    obtain ⟨_, -, h⟩ := except_bind_eq_ok.mp h
    obtain ⟨limits, hlimits, h⟩ := except_bind_eq_ok.mp h
    obtain ⟨built, hbuilt, h⟩ := except_bind_eq_ok.mp h
    cases h
    exact ⟨registry, limits, built, hlimits, hbuilt, rfl⟩

/-- There is one entry for each name, and no covariance. -/
theorem of_build {start : Start α} (h : spec.build cost chain = .ok start) :
    start.state.len = start.registry.len ∧ start.state.covariance = none := by
  obtain ⟨registry, limits, built, -, hbuilt, rfl⟩ := exists_of_build h
  have hlen := length_of_mapM_ok hbuilt
  exact ⟨by simpa [ParameterState.len, ParameterState.ofEntries, Registry.len] using hlen, rfl⟩

/-- The entry at a position is made for the name there. -/
theorem makes_of_build {start : Start α} (h : spec.build cost chain = .ok start)
    (he : start.state.entries[i]? = some e) :
    ∃ name, start.registry.names[i]? = some name ∧ spec.Makes name e := by
  obtain ⟨registry, limits, built, hlimits, hbuilt, rfl⟩ := exists_of_build h
  simp only [ParameterState.ofEntries, List.getElem?_map, Option.map_eq_some_iff] at he
  obtain ⟨⟨e, warnings⟩, hi, rfl⟩ := he
  obtain ⟨hi, hget⟩ := List.getElem?_eq_some_iff.mp hi
  have hlen : i < registry.names.zipIdx.length := length_of_mapM_ok hbuilt ▸ hi
  have hentry := (mapM_eq_ok_iff.mp hbuilt).get hlen hi
  rw [List.get_eq_getElem, List.get_eq_getElem, hget, List.getElem_zipIdx, Nat.zero_add] at hentry
  exact ⟨_, List.getElem?_eq_getElem _, (makes_of_entry hlimits hentry).1⟩

/-- Without a warning, every value was given. -/
theorem givenValue_of_build {start : Start α} (h : spec.build cost chain = .ok start)
    (hwarnings : start.warnings = []) {i : Nat} (hi : start.registry.names[i]? = some name) :
    (spec.givenValue i name).isSome := by
  obtain ⟨registry, limits, built, hlimits, hbuilt, rfl⟩ := exists_of_build h
  obtain ⟨⟨e, warnings⟩, hmem, hentry⟩ :=
    exists_mem_of_mapM_ok hbuilt (name, i) (List.mem_zipIdx_iff_getElem?.mpr hi)
  exact (makes_of_entry hlimits hentry).2 (List.flatMap_eq_nil_iff.mp hwarnings _ hmem)

end StartSpec
end FitSession
