import FitSession.Proofs.Session.Built
import FitSession.Proofs.Start

/-!
# Starts that are accepted

A start is checked in several steps, each of which looks at settings of its own. All of them
together accept it exactly under conditions that can be told field by field, and what is built then
follows from the last setting of each field.

* `StartSpec.Names`, `StartSpec.resolveNames_eq_ok_iff`: where the names come from;
* `StartSpec.validates_iff`, `StartSpec.entry_eq_ok_iff`: what each check asks for;
* `StartSpec.Accepts`, `StartSpec.described`: what all of them ask for, and the start that the
  settings describe;
* `start_accepted_iff`: **a start is built exactly if it is accepted, and then as described**.
-/

namespace FitSession

variable {α : Type} [Scalar α]

namespace StartSpec

variable {spec : StartSpec α} {cost : Cost α} {chain : NameChain α} {r : Registry}
  {names : List String} {limits : List (String × Limit α)} {i : Nat} {name : String}

/-! ## Names -/

/-- The names are those that are given, else those that the chain answers; if it has no answer,
positional values have names that are made up for them. -/
def Names (spec : StartSpec α) (cost : Cost α) (chain : NameChain α) (names : List String) : Prop :=
  spec.names = some names ∨
    spec.names = none ∧ (chain.Answers cost names ∨
      (∀ source ∈ chain.sources, source.IsSilent cost) ∧
        ∃ xs, spec.positional = some xs ∧
          names = (List.range xs.length).map Registry.positionalName)

/-- There is a name for each positional value. -/
def CountsNames (spec : StartSpec α) (names : List String) : Prop :=
  ∀ xs, spec.positional = some xs → xs.length = names.length

omit [Scalar α] in
theorem counted_eq_ok_iff {xs : List α} {e : FitError α} :
    (if names.length = xs.length then Registry.ofNames names else .error e) = .ok r ↔
      names = r.names ∧ xs.length = r.names.length := by
  split_ifs with hlen
  · rw [Registry.ofNames_eq_ok_iff, eq_comm]
    exact ⟨fun h => ⟨h, h ▸ hlen.symm⟩, And.left⟩
  · simp only [false_iff]
    rintro ⟨rfl, h⟩
    exact hlen h.symm

omit [Scalar α] in
theorem resolveNames_eq_ok_iff : spec.resolveNames cost chain = .ok r ↔
    spec.Names cost chain r.names ∧ spec.CountsNames r.names := by
  simp only [Names, CountsNames, ← NameChain.deduce_eq_ok_iff, ← NameChain.deduce_eq_error_iff]
  unfold resolveNames
  cases spec.names with
  | some names =>
    cases spec.positional with
    | none => simp [Registry.ofNames_eq_ok_iff, eq_comm (a := names)]
    | some xs => simp [counted_eq_ok_iff]
  | none =>
    cases chain.deduce cost with
    | ok names =>
      cases spec.positional with
      | none => simp [except_bind_eq_ok, Registry.ofNames_eq_ok_iff, eq_comm (a := names)]
      | some xs => simp [counted_eq_ok_iff]
    | error e =>
      cases spec.positional with
      | none => simp [bind, Except.bind]
      | some xs =>
        simp only [Registry.positional, Registry.ofNames_eq_ok_iff]
        refine ⟨fun h => ⟨.inr ⟨trivial, .inr ⟨⟨e, rfl⟩, xs, rfl, h⟩⟩, ?_⟩, ?_⟩
        · rintro _ ⟨⟩
          rw [h, List.length_map, List.length_range]
        · rintro ⟨h | ⟨-, h | ⟨-, ys, ⟨⟩, h⟩⟩, -⟩
          · cases h
          · cases h
          · exact h

/-! ## Limits -/

/-- The limit of a parameter: the last one that is given, if there is one. -/
def limitFor (spec : StartSpec α) (name : String) : Limit α :=
  ((lastKeyed spec.limits name).map madeLimit).getD Limit.unbounded

theorem validates_iff : spec.Validates limits ↔
    (∀ key ∈ spec.limits, ∃ l, (key.2.toLimit : Except (FitError α) (Limit α)) = .ok l) ∧
      limits = spec.limits.map fun (name, given) => (name, madeLimit given) := by
  have hok (hvalid : ∀ key ∈ spec.limits,
      ∃ l, (key.2.toLimit : Except (FitError α) (Limit α)) = .ok l) :
      spec.Validates (spec.limits.map fun (name, given) => (name, madeLimit given)) := by
    refine mapM_eq_ok fun ⟨name, given⟩ hkey => ?_
    obtain ⟨l, hl⟩ := hvalid _ hkey
    refine except_bind_eq_ok.mpr ⟨l, hl, ?_⟩
    dsimp only
    rw [madeLimit_of_toLimit hl]
    rfl
  constructor
  · intro h
    have hvalid : ∀ key ∈ spec.limits,
        ∃ l, (key.2.toLimit : Except (FitError α) (Limit α)) = .ok l := by
      intro key hkey
      obtain ⟨_, -, hmade⟩ := exists_mem_of_mapM_ok h key hkey
      obtain ⟨l, hl, -⟩ := except_bind_eq_ok.mp hmade
      exact ⟨l, hl⟩
    exact ⟨hvalid, Except.ok.inj (h.symm.trans (hok hvalid))⟩
  · rintro ⟨hvalid, rfl⟩
    exact hok hvalid

theorem limitFor_eq (h : spec.Validates limits) (name : String) :
    (lastKeyed limits name).getD Limit.unbounded = spec.limitFor name := by
  rw [(validates_iff.mp h).2, lastKeyed_map]
  rfl

/-! ## Entries -/

/-- The value and the error that hold for a parameter may be written. -/
structure Allows (spec : StartSpec α) (i : Nat) (name : String) : Prop where
  value : ∀ x, spec.givenValue i name = some x → Scalar.isFinite x = true
  error : ∀ x, lastKeyed spec.errors name = some x → Scalar.isFinite x = true ∧ ¬x < 0

/-- The entry of a parameter. Its value is the one that is given, or one that fits its limit, and in
either case moved into the limit. -/
def entryFor (spec : StartSpec α) (i : Nat) (name : String) : Entry α :=
  let l := spec.limitFor name
  let value := l.clamp ((spec.givenValue i name).getD (startValue l))
  ⟨value, (lastKeyed spec.errors name).getD (startStep value l),
    (lastKeyed spec.fixed name).getD false || l.isDegenerate, l.lower, l.upper⟩

/-- The report on a parameter without a value. -/
def reportFor (spec : StartSpec α) (i : Nat) (name : String) : Option (Warning α) :=
  match spec.givenValue i name with
  | some _ => none
  | none => some (.missingInitialValue name (startValue (spec.limitFor name)))

theorem entry_eq_ok_iff {made : Entry α × List (Warning α)} (hlimits : spec.Validates limits) :
    spec.entry limits i name = .ok made ↔ spec.Allows i name ∧
      made = (spec.entryFor i name, (spec.reportFor i name).toList) := by
  have hallows : spec.Allows i name ↔
      (∀ x, spec.givenValue i name = some x → checkValue i x = .ok ()) ∧
        ∀ x, lastKeyed spec.errors name = some x → checkError i x = .ok () := by
    simp only [checkValue_eq_ok, checkError_eq_ok]
    exact ⟨fun h => ⟨h.value, h.error⟩, fun h => ⟨h.1, h.2⟩⟩
  rw [hallows, entryFor, reportFor, entry, limitFor_eq hlimits]
  unfold startEntry
  cases spec.givenValue i name with
  | none =>
    cases lastKeyed spec.errors name with
    | none => simp [pure, Except.pure, bind, Except.bind, eq_comm]
    | some error => cases herror : checkError i error <;>
        simp [herror, pure, Except.pure, bind, Except.bind, eq_comm]
  | some x =>
    cases hx : checkValue i x with
    | error e => simp [hx, bind, Except.bind]
    | ok u =>
      cases lastKeyed spec.errors name with
      | none => simp [hx, pure, Except.pure, bind, Except.bind, eq_comm]
      | some error => cases herror : checkError i error <;>
          simp [hx, herror, pure, Except.pure, bind, Except.bind, eq_comm]

/-! ## Whole starts -/

/-- What all checks ask for, of parameters with these names. -/
structure Accepts (spec : StartSpec α) (cost : Cost α) (chain : NameChain α)
    (names : List String) : Prop where
  notMixed : spec.positional.isSome → spec.values = []
  named : spec.Names cost chain names
  nonempty : names ≠ []
  distinct : names.Nodup
  counted : spec.CountsNames names
  known : ∀ key ∈ spec.keys, key.2 ∈ names
  limits : ∀ key ∈ spec.limits, ∃ l, (key.2.toLimit : Except (FitError α) (Limit α)) = .ok l
  numbers : ∀ i name, names[i]? = some name → spec.Allows i name

/-- The start that the settings describe for some names. -/
def described (spec : StartSpec α) (r : Registry) : Start α where
  registry := r
  state := .ofEntries (r.names.zipIdx.map fun (name, i) => spec.entryFor i name)
  warnings := r.names.zipIdx.filterMap fun (name, i) => spec.reportFor i name

theorem accepts_iff : spec.Accepts cost chain r.names ↔
    spec.isMixed = false ∧
      spec.resolveNames cost chain = .ok r ∧ spec.requireKnownKeys r = .ok () ∧
      (∃ limits, spec.Validates limits) ∧
      ∀ key ∈ r.names.zipIdx, spec.Allows key.2 key.1 := by
  have hmixed : spec.isMixed = false ↔ (spec.positional.isSome → spec.values = []) := by
    cases h : spec.positional <;> simp [isMixed, h]
  have hnumbers : (∀ key ∈ r.names.zipIdx, spec.Allows key.2 key.1) ↔
      ∀ i name, r.names[i]? = some name → spec.Allows i name :=
    ⟨fun h i name hi => h (name, i) (List.mem_zipIdx_iff_getElem?.mpr hi),
      fun h key hkey => h key.2 key.1 (List.mem_zipIdx_iff_getElem?.mp hkey)⟩
  simp only [hmixed, hnumbers, resolveNames_eq_ok_iff, requireKnownKeys_eq_ok_iff, validates_iff,
    exists_and_left, exists_eq, and_true]
  constructor
  · exact fun h => ⟨h.notMixed, ⟨h.named, h.counted⟩, h.known, h.limits, h.numbers⟩
  · rintro ⟨hmix, ⟨hnamed, hcount⟩, hknown, hlimits, hnumbers⟩
    exact ⟨hmix, hnamed, r.nonempty, r.nodup_names, hcount, hknown, hlimits, hnumbers⟩

/-- Entries are made for all names exactly if all numbers may be written. -/
theorem entries_eq_ok_iff {built : List (Entry α × List (Warning α))}
    (hlimits : spec.Validates limits) :
    r.names.zipIdx.mapM (fun (name, i) => spec.entry limits i name) = .ok built ↔
      (∀ key ∈ r.names.zipIdx, spec.Allows key.2 key.1) ∧
        built = r.names.zipIdx.map fun (name, i) =>
          (spec.entryFor i name, (spec.reportFor i name).toList) := by
  constructor
  · intro h
    have hallows : ∀ key ∈ r.names.zipIdx, spec.Allows key.2 key.1 := by
      intro key hkey
      obtain ⟨made, -, hmade⟩ := exists_mem_of_mapM_ok h key hkey
      exact ((entry_eq_ok_iff hlimits).mp hmade).1
    refine ⟨hallows, Except.ok.inj (h.symm.trans (mapM_eq_ok fun key hkey => ?_))⟩
    exact (entry_eq_ok_iff hlimits).mpr ⟨hallows key hkey, rfl⟩
  · rintro ⟨hallows, rfl⟩
    exact mapM_eq_ok fun key hkey => (entry_eq_ok_iff hlimits).mpr ⟨hallows key hkey, rfl⟩

theorem described_eq (r : Registry) :
    (⟨r, .ofEntries ((r.names.zipIdx.map fun (name, i) =>
        (spec.entryFor i name, (spec.reportFor i name).toList)).map (·.1)),
      (r.names.zipIdx.map fun (name, i) =>
        (spec.entryFor i name, (spec.reportFor i name).toList)).flatMap (·.2)⟩ : Start α) =
      spec.described r := by
  simp only [described, List.map_map, Function.comp_def, List.flatMap_map,
    List.filterMap_eq_flatMap_toList]

/-- A start is built exactly if it is accepted, and then it is the one that is described. -/
theorem build_eq_ok_iff {start : Start α} : spec.build cost chain = .ok start ↔
    spec.Accepts cost chain start.registry.names ∧ start = spec.described start.registry := by
  rw [accepts_iff]
  cases hmixed : spec.isMixed with
  | true => simp [build_of_mixed hmixed]
  | false =>
    rw [build_of_not_mixed hmixed]
    constructor
    · intro h
      obtain ⟨r, hnames, h⟩ := except_bind_eq_ok.mp h
      obtain ⟨_, hknown, h⟩ := except_bind_eq_ok.mp h
      obtain ⟨limits, hlimits, h⟩ := except_bind_eq_ok.mp h
      obtain ⟨built, hbuilt, h⟩ := except_bind_eq_ok.mp h
      obtain ⟨hallows, rfl⟩ := (entries_eq_ok_iff hlimits).mp hbuilt
      cases h
      exact ⟨⟨rfl, hnames, hknown, ⟨limits, hlimits⟩, hallows⟩, described_eq r⟩
    · rintro ⟨⟨-, hnames, hknown, ⟨limits, hlimits⟩, hallows⟩, hstart⟩
      rw [hstart]
      refine except_bind_eq_ok.mpr ⟨_, hnames, except_bind_eq_ok.mpr ⟨(), hknown, ?_⟩⟩
      refine except_bind_eq_ok.mpr ⟨limits, hlimits, except_bind_eq_ok.mpr
        ⟨_, (entries_eq_ok_iff hlimits).mpr ⟨hallows, rfl⟩, ?_⟩⟩
      exact congrArg Except.ok (described_eq _)

end StartSpec

/-- **A start is built exactly if its settings are accepted**: values are given by position or by
name, the names are known and distinct, there are as many positional values, every key is a name,
every limit is valid, and the numbers that hold may be written. Then it is the one that the last
setting of each field describes. -/
theorem start_accepted_iff (spec : StartSpec α) (cost : Cost α) (chain : NameChain α) :
    ((∃ start, spec.build cost chain = .ok start) ↔ ∃ names, spec.Accepts cost chain names) ∧
      ∀ start, spec.build cost chain = .ok start ↔
        spec.Accepts cost chain start.registry.names ∧
          start = spec.described start.registry := by
  refine ⟨⟨fun ⟨start, h⟩ => ⟨_, (StartSpec.build_eq_ok_iff.mp h).1⟩, ?_⟩,
    fun _ => StartSpec.build_eq_ok_iff⟩
  rintro ⟨names, h⟩
  obtain ⟨r, rfl⟩ := Registry.exists_of_nodup h.nonempty h.distinct
  exact ⟨spec.described r, StartSpec.build_eq_ok_iff.mpr ⟨h, rfl⟩⟩

/-- Two parameters, the first of which is set twice. -/
def setTwice : StartSpec Float :=
  { StartSpec.empty with
    names := some ["x", "y"], values := [("x", Scalar.nan), ("x", 7)], errors := [("y", 3)]
    limits := [("x", ⟨some 0, some 1⟩), ("x", ⟨some 2, some 4⟩)] }

/-- A value that is not a number does not matter if another one is given later. -/
theorem start_accepted_iff_setTwice :
    ∃ start, setTwice.build sumOfSquares .standard = .ok start ∧
      setTwice.Accepts sumOfSquares .standard ["x", "y"] ∧ start.state.values = [4, 0] ∧
        start.state.errors = [0.02, 3] ∧ start.warnings.length = 1 := by
  obtain ⟨start, hbuild, h⟩ := exists_ok_of_any
    (x := setTwice.build sumOfSquares .standard)
    (P := fun start => start.registry.names = ["x", "y"] ∧ start.state.values = [4, 0] ∧
      start.state.errors = [0.02, 3] ∧ start.warnings.length = 1) (by decide +kernel)
  obtain ⟨hnames, h⟩ := of_decide_eq_true h
  have haccepts := (((start_accepted_iff setTwice sumOfSquares .standard).2 start).mp hbuild).1
  exact ⟨start, hbuild, hnames ▸ haccepts, h⟩

end FitSession
