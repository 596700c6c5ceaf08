import FitSession.Proofs.Session.Built
import FitSession.Proofs.Start.Accepted

/-!
# Settings that are overridden

What is set for a session by name holds against its snapshot. The settings that it overrides are
still there when the start is checked, but the only trace that they leave is which unknown key a
failure names.

* `Setting`, `StartSpec.Loses`, `StartSpec.Overrides`: single settings, what is left without one,
  and what overrides it;
* `Hides`, `lastKeyed_of_hides`: an item with a later one of the same key;
* `StartSpec.SaysLike`, `StartSpec.build_congr`: **starts that say the same are built alike**;
* `overridden_setting_is_ignored`: **a setting that is overridden has no influence on a session**;
* `overridden_setting_is_seen`: the key that is named, and a limit that is not valid.
-/

namespace FitSession

variable {σ α β : Type}

/-! ## Single settings -/

/-- A setting of one field of a parameter. -/
inductive Setting (α : Type)
  | value (name : String) (x : α)
  | error (name : String) (x : α)
  | limit (name : String) (given : LimitSpec α)
  | fixed (name : String) (on : Bool)

namespace Setting

/-- The field that is set. -/
def field : Setting α → KeyedField
  | value _ _ => .value
  | error _ _ => .error
  | limit _ _ => .limit
  | fixed _ _ => .fixed

/-- The parameter that is meant. -/
def name : Setting α → String
  | value name _ | error name _ | limit name _ | fixed name _ => name

/-- A limit is valid; of other settings, nothing is asked. -/
def IsValid [Scalar α] : Setting α → Prop
  | limit _ given => ∃ l, (given.toLimit : Except (FitError α) (Limit α)) = .ok l
  | _ => True

end Setting

/-- What a start says without one of its settings. -/
def StartSpec.Loses (s : StartSpec α) (setting : Setting α) (rest : StartSpec α) : Prop :=
  match setting with
  | .value name x => ∃ pre post, s.values = pre ++ (name, x) :: post ∧
    rest = { s with values := pre ++ post }
  | .error name x => ∃ pre post, s.errors = pre ++ (name, x) :: post ∧
    rest = { s with errors := pre ++ post }
  | .limit name given => ∃ pre post, s.limits = pre ++ (name, given) :: post ∧
    rest = { s with limits := pre ++ post }
  | .fixed name on => ∃ pre post, s.fixed = pre ++ (name, on) :: post ∧
    rest = { s with fixed := pre ++ post }

/-- The field of the parameter is set here as well; of a value, this also holds if all values are
given by position. -/
def StartSpec.Overrides (later : StartSpec α) : Setting α → Prop
  | .value name _ => later.positional.isSome ∨ ∃ x, (name, x) ∈ later.values
  | .error name _ => ∃ x, (name, x) ∈ later.errors
  | .limit name _ => ∃ given, (name, given) ∈ later.limits
  | .fixed name _ => ∃ on, (name, on) ∈ later.fixed

/-! ## Items that are hidden -/

/-- The second list is the first one without an item that a later one with the same key hides. -/
def Hides (items rest : List (String × β)) (name : String) : Prop :=
  ∃ pre x post, items = pre ++ (name, x) :: post ∧ rest = pre ++ post ∧ ∃ y, (name, y) ∈ post

theorem hides_of_append {pre post later : List (String × β)} {name : String} {x : β}
    (h : ∃ y, (name, y) ∈ later) :
    Hides ((pre ++ (name, x) :: post) ++ later) ((pre ++ post) ++ later) name := by
  obtain ⟨y, hy⟩ := h
  exact ⟨pre, x, post ++ later, by simp, by simp, y, List.mem_append_right post hy⟩

section Hides

variable {items rest : List (String × β)} {name : String} (h : Hides items rest name)
include h

theorem lastKeyed_of_hides (key : String) : lastKeyed items key = lastKeyed rest key := by
  obtain ⟨pre, x, post, rfl, rfl, y, hy⟩ := h
  have hpost : lastKeyed ((name, x) :: post) key = lastKeyed post key := by
    rw [← List.singleton_append, lastKeyed_append]
    by_cases hkey : name = key
    · subst hkey
      obtain ⟨z, hz⟩ := exists_lastKeyed hy
      rw [hz, Option.some_or]
    · have hnone : lastKeyed [(name, x)] key = none :=
        lastKeyed_eq_none fun z hz => hkey (Prod.mk.inj (List.mem_singleton.mp hz)).1.symm
      rw [hnone, Option.or_none]
  rw [lastKeyed_append, lastKeyed_append, hpost]

theorem isEmpty_of_hides : items.isEmpty = rest.isEmpty := by
  obtain ⟨pre, x, post, rfl, rfl, y, hy⟩ := h
  cases pre with
  | nil =>
    cases post with
    | nil => cases hy
    | cons z post => rfl
  | cons z pre => rfl

end Hides

/-! ## Starts that say the same -/

/-- An item that is accepted does not change how a list is refused. -/
theorem mapM_eq_error_iff_of_ok {γ ε : Type} {f : β → Except ε γ} {x : β} {y : γ}
    (hx : f x = .ok y) (pre post : List β) (e : ε) :
    (pre ++ x :: post).mapM f = .error e ↔ (pre ++ post).mapM f = .error e := by
  induction pre with
  | nil =>
    rw [List.nil_append, List.nil_append, List.mapM_cons, hx]
    cases post.mapM f <;> simp [bind, Except.bind, pure, Except.pure]
  | cons z pre ih =>
    rw [List.cons_append, List.cons_append, List.mapM_cons, List.mapM_cons]
    cases f z with
    | error e' => exact Iff.rfl
    | ok w =>
      revert ih
      cases (pre ++ x :: post).mapM f <;> cases (pre ++ post).mapM f <;>
        simp [bind, Except.bind, pure, Except.pure]

namespace StartSpec

variable [Scalar α] {s t base rest later : StartSpec α} {setting : Setting α} {cost : Cost α}
  {chain : NameChain α} {r : Registry}

/-- The same holds for every field of every parameter, and the same limits are refused. -/
structure SaysLike (s t : StartSpec α) : Prop where
  names : s.names = t.names
  positional : s.positional = t.positional
  anyValue : s.values.isEmpty = t.values.isEmpty
  values : ∀ key, lastKeyed s.values key = lastKeyed t.values key
  errors : ∀ key, lastKeyed s.errors key = lastKeyed t.errors key
  limits : ∀ key, lastKeyed s.limits key = lastKeyed t.limits key
  fixed : ∀ key, lastKeyed s.fixed key = lastKeyed t.fixed key
  refuses : ∀ e, s.validated = .error e ↔ t.validated = .error e

theorem SaysLike.refl (s : StartSpec α) : s.SaysLike s :=
  ⟨rfl, rfl, rfl, fun _ => rfl, fun _ => rfl, fun _ => rfl, fun _ => rfl, fun _ => Iff.rfl⟩

theorem SaysLike.entry_eq (h : s.SaysLike t) {ls lt : List (String × Limit α)}
    (hs : s.Validates ls) (ht : t.Validates lt) (i : Nat) (name : String) :
    s.entry ls i name = t.entry lt i name := by
  have hlimit : s.limitFor name = t.limitFor name := by rw [limitFor, limitFor, h.limits]
  have hvalue : s.givenValue i name = t.givenValue i name := by
    rw [givenValue, givenValue, h.values, h.positional]
  rw [entry, entry, limitFor_eq hs, limitFor_eq ht, hlimit, hvalue, h.errors, h.fixed]

theorem resolveNames_eq_of_saysLike (h : s.SaysLike t) :
    s.resolveNames cost chain = t.resolveNames cost chain := by
  rw [resolveNames, resolveNames, h.names, h.positional]

/-- Starts that say the same and have the same unknown keys are built alike. -/
theorem build_congr (h : s.SaysLike t)
    (hknown : ∀ r, t.resolveNames cost chain = .ok r →
      s.requireKnownKeys r = t.requireKnownKeys r) :
    s.build cost chain = t.build cost chain := by
  have hmixed : s.isMixed = t.isMixed := by rw [isMixed, isMixed, h.positional, h.anyValue]
  cases ht : t.isMixed with
  | true => rw [build_of_mixed (hmixed.trans ht), build_of_mixed ht]
  | false =>
    rw [build_of_not_mixed (hmixed.trans ht), build_of_not_mixed ht, resolveNames_eq_of_saysLike h]
    refine except_bind_congr fun r hr => ?_
    rw [hknown r hr]
    refine except_bind_congr fun _ _ => ?_
    cases hs : s.validated with
    | error e => rw [(h.refuses e).mp hs]; rfl
    | ok ls =>
      cases ht : t.validated with
      | error e => rw [(h.refuses e).mpr ht] at hs; cases hs
      | ok lt =>
        have hentry : s.entry ls = t.entry lt := funext₂ (h.entry_eq hs ht)
        dsimp only [bind, Except.bind]
        rw [hentry]

/-- A key that is not known keeps a start from being built. -/
theorem build_of_unknown {e : FitError α} (hmixed : s.isMixed = false)
    (hr : s.resolveNames cost chain = .ok r) (hunknown : s.requireKnownKeys r = .error e) :
    s.build cost chain = .error e := by
  rw [build_of_not_mixed hmixed, hr]
  change (s.requireKnownKeys r >>= fun _ => _) = _
  rw [hunknown]
  rfl

/-! ## Keys that are lost -/

/-- The keys of the second start are those of the first one without one, which is also among those
of its field that follow it. -/
def LosesKey (s t : StartSpec α) (field : KeyedField) (name : String) : Prop :=
  ∃ pre mid post, s.keys = pre ++ (field, name) :: (mid ++ post) ∧ t.keys = pre ++ (mid ++ post) ∧
    (∀ key ∈ mid, key.1 = field) ∧ (field, name) ∈ mid

omit [Scalar α] in
/-- The first unknown key changes only if the lost key is unknown, and then it is of the same
field. -/
theorem requireKnownKeys_of_losesKey {field : KeyedField} {name : String}
    (h : LosesKey s t field name) : s.requireKnownKeys r = t.requireKnownKeys r ∨
      ∃ other, name ∉ r.names ∧ other ∉ r.names ∧
        s.requireKnownKeys r = .error (.configuration (.unknownKey field name r.names)) ∧
        t.requireKnownKeys r = .error (.configuration (.unknownKey field other r.names)) := by
  obtain ⟨pre, mid, post, hs, ht, hmid, hmem⟩ := h
  rw [requireKnownKeys_eq, requireKnownKeys_eq, hs, ht, List.find?_append, List.find?_append,
    List.find?_append]
  cases pre.find? fun key => !r.contains key.2 with
  | some key => exact .inl rfl
  | none =>
    by_cases hname : name ∈ r.names
    · have hknown : r.contains name = true := Registry.contains_iff.mpr hname
      left
      rw [List.find?_cons_of_neg (by simp [hknown]), List.find?_append]
    · have hunknown : r.contains name = false :=
        Bool.eq_false_iff.mpr (mt Registry.contains_iff.mp hname)
      right
      rw [List.find?_cons_of_pos (by simp [hunknown])]
      cases hfind : mid.find? fun key => !r.contains key.2 with
      | none =>
        have hall := List.find?_eq_none.mp hfind _ hmem
        simp [hunknown] at hall
      | some key =>
        obtain ⟨other, rfl⟩ : ∃ other, key = (field, other) :=
          ⟨key.2, Prod.ext (hmid key (List.mem_of_find?_eq_some hfind)) rfl⟩
        have hother : other ∉ r.names := by
          have hunlisted : (!r.contains other) = true := (List.find?_some hfind :)
          exact mt Registry.contains_iff.mpr (by simpa using hunlisted)
        exact ⟨other, hname, hother, rfl, rfl⟩

/-- Starts that say the same are built alike up to the unknown key that a failure names. -/
theorem build_of_losesKey {field : KeyedField} {name : String} (hlike : s.SaysLike t)
    (hkeys : LosesKey s t field name) (cost : Cost α) (chain : NameChain α) :
    s.build cost chain = t.build cost chain ∨
      ∃ r other, t.resolveNames cost chain = .ok r ∧ name ∉ r.names ∧ other ∉ r.names ∧
        s.build cost chain = .error (.configuration (.unknownKey field name r.names)) ∧
        t.build cost chain = .error (.configuration (.unknownKey field other r.names)) := by
  by_cases hknown : ∀ r, t.resolveNames cost chain = .ok r →
      s.requireKnownKeys r = t.requireKnownKeys r
  · exact .inl (build_congr hlike hknown)
  simp only [not_forall] at hknown
  obtain ⟨r, hr, hne⟩ := hknown
  obtain ⟨other, hname, hother, hs, ht⟩ :=
    (requireKnownKeys_of_losesKey hkeys).resolve_left hne
  have hmixed : s.isMixed = t.isMixed := by
    rw [isMixed, isMixed, hlike.positional, hlike.anyValue]
  cases hmix : t.isMixed with
  | true => exact .inl (by rw [build_of_mixed (hmixed.trans hmix), build_of_mixed hmix])
  | false =>
    exact .inr ⟨r, other, hr, hname, hother,
      build_of_unknown (hmixed.trans hmix) ((resolveNames_eq_of_saysLike hlike).trans hr) hs,
      build_of_unknown hmix hr ht⟩

/-! ## What is left without a setting -/

omit [Scalar α] in
theorem losesKey_of_hides {items rest : List (String × β)} {field : KeyedField} {name : String}
    (h : Hides items rest name) (before after : List (KeyedField × String))
    (hs : s.keys = before ++ (items.map (fun (n, _) => (field, n)) ++ after))
    (ht : t.keys = before ++ (rest.map (fun (n, _) => (field, n)) ++ after)) :
    LosesKey s t field name := by
  obtain ⟨pre, x, post, rfl, rfl, y, hy⟩ := h
  refine ⟨before ++ pre.map (fun (n, _) => (field, n)), post.map (fun (n, _) => (field, n)), after,
    by simp [hs], by simp [ht], ?_, List.mem_map.mpr ⟨_, hy, rfl⟩⟩
  intro key hkey
  obtain ⟨_, -, rfl⟩ := List.mem_map.mp hkey
  rfl

/-- A start without a value that another one hides. -/
theorem saysLike_of_hides_value {values : List (String × α)} {name : String}
    (h : Hides s.values values name) :
    s.SaysLike { s with values } ∧ LosesKey s { s with values } .value name :=
  ⟨{ SaysLike.refl s with anyValue := isEmpty_of_hides h, values := lastKeyed_of_hides h },
    losesKey_of_hides h [] _ (by simp only [keys, List.append_assoc]; rfl)
      (by simp only [keys, List.append_assoc]; rfl)⟩

/-- A start without an error that another one hides. -/
theorem saysLike_of_hides_error {errors : List (String × α)} {name : String}
    (h : Hides s.errors errors name) :
    s.SaysLike { s with errors } ∧ LosesKey s { s with errors } .error name :=
  ⟨{ SaysLike.refl s with errors := lastKeyed_of_hides h },
    losesKey_of_hides h _ _ (by simp only [keys, List.append_assoc]; rfl)
      (by simp only [keys, List.append_assoc])⟩

/-- A start without a limit that another one hides. -/
theorem saysLike_of_hides_limit {limits : List (String × LimitSpec α)} {name : String}
    (h : Hides s.limits limits name)
    (hrefuses : ∀ e, s.validated = .error e ↔ validated { s with limits } = .error e) :
    s.SaysLike { s with limits } ∧ LosesKey s { s with limits } .limit name :=
  ⟨{ SaysLike.refl s with limits := lastKeyed_of_hides h, refuses := hrefuses },
    losesKey_of_hides h _ _ (by simp only [keys, List.append_assoc]; rw [← List.append_assoc])
      (by simp only [keys, List.append_assoc])⟩

/-- A start without a flag that another one hides. -/
theorem saysLike_of_hides_fixed {fixed : List (String × Bool)} {name : String}
    (h : Hides s.fixed fixed name) :
    s.SaysLike { s with fixed } ∧ LosesKey s { s with fixed } .fixed name :=
  ⟨{ SaysLike.refl s with fixed := lastKeyed_of_hides h },
    losesKey_of_hides h _ [] (by rw [List.append_nil]; rfl) (by rw [List.append_nil]; rfl)⟩

/-- Without a setting that is overridden, a start says the same. -/
theorem saysLike_of_loses (hloses : base.Loses setting rest) (hover : later.Overrides setting)
    (hvalid : setting.IsValid) : base.followedBy later = rest.followedBy later ∨
      (base.followedBy later).SaysLike (rest.followedBy later) ∧
        LosesKey (base.followedBy later) (rest.followedBy later) setting.field setting.name := by
  cases setting with
  | value name x =>
    obtain ⟨pre, post, hitems, rfl⟩ := hloses
    cases hpositional : later.positional with
    | some xs => exact .inl (by simp [followedBy, hpositional])
    | none =>
      have hlater : ∃ y, (name, y) ∈ later.values := hover.resolve_left (by simp [hpositional])
      have hhides : Hides (base.followedBy later).values ((pre ++ post) ++ later.values) name := by
        simpa [followedBy, hpositional, hitems] using hides_of_append hlater
      have hrest : followedBy { base with values := pre ++ post } later =
          { base.followedBy later with values := (pre ++ post) ++ later.values } := by
        simp [followedBy, hpositional]
      exact .inr (hrest ▸ saysLike_of_hides_value hhides)
  | error name x =>
    obtain ⟨pre, post, hitems, rfl⟩ := hloses
    have hhides : Hides (base.followedBy later).errors ((pre ++ post) ++ later.errors) name := by
      simpa [followedBy, hitems] using hides_of_append hover
    exact .inr (saysLike_of_hides_error hhides)
  | limit name given =>
    obtain ⟨pre, post, hitems, rfl⟩ := hloses
    obtain ⟨l, hl⟩ := hvalid
    have hhides : Hides (base.followedBy later).limits ((pre ++ post) ++ later.limits) name := by
      simpa [followedBy, hitems] using hides_of_append hover
    refine .inr (saysLike_of_hides_limit hhides fun e => ?_)
    have hlist : (base.followedBy later).limits =
        pre ++ (name, given) :: (post ++ later.limits) := by
      simp [followedBy, hitems]
    rw [validated, validated, hlist, List.append_assoc]
    refine mapM_eq_error_iff_of_ok (x := (name, given)) (y := (name, l)) ?_ pre _ e
    exact except_bind_eq_ok.mpr ⟨l, hl, rfl⟩
  | fixed name on =>
    obtain ⟨pre, post, hitems, rfl⟩ := hloses
    have hhides : Hides (base.followedBy later).fixed ((pre ++ post) ++ later.fixed) name := by
      simpa [followedBy, hitems] using hides_of_append hover
    exact .inr (saysLike_of_hides_fixed hhides)

end StartSpec

/-! ## Sessions -/

section Session

variable [Scalar α] {spec : SessionSpec α} {snapshot : Snapshot α} {base rest : StartSpec α}
  {setting : Setting α}

/-- The session that is described with another start and no snapshot. -/
def SessionSpec.startingFrom (spec : SessionSpec α) (params : StartSpec α) : SessionSpec α :=
  { spec with params, snapshot := none }

namespace SessionSpec

variable {params other : StartSpec α} {cost : Cost α} {engine : Engine σ α} {memory : σ}
  {shared : Int}

/-- A snapshot only matters for the start. -/
theorem build_startingFrom (h : spec.startSpec = .ok params) :
    (spec.startingFrom params).build cost engine memory shared =
      spec.build cost engine memory shared := by
  unfold build
  rw [h]
  rfl

/-- The steps in which a session is built from a start. -/
theorem build_startingFrom_eq : (spec.startingFrom params).build cost engine memory shared =
    (spec.givenErrordef cost >>= fun errordef => requireTolerance spec.tol >>= fun _ =>
      params.build cost spec.chain >>= fun start =>
      pure (spec.made cost engine memory shared errordef start)) := rfl

theorem build_startingFrom_congr (h : params.build cost spec.chain = other.build cost spec.chain) :
    (spec.startingFrom params).build cost engine memory shared =
      (spec.startingFrom other).build cost engine memory shared := by
  rw [build_startingFrom_eq, build_startingFrom_eq, h]

/-- A start that fails keeps a session from being built, if not the errordef or the tolerance, which
are checked before, already does. -/
theorem build_startingFrom_error (spec : SessionSpec α) (cost : Cost α) (engine : Engine σ α)
    (memory : σ) (shared : Int) :
    (∃ e, ∀ params, (spec.startingFrom params).build cost engine memory shared = .error e) ∨
      ∀ params e, params.build cost spec.chain = .error e →
        (spec.startingFrom params).build cost engine memory shared = .error e := by
  simp only [build_startingFrom_eq]
  cases spec.givenErrordef cost with
  | error e => exact .inl ⟨e, fun _ => rfl⟩
  | ok errordef =>
    change (∃ e, ∀ params, (requireTolerance spec.tol >>= fun _ => _) = .error e) ∨
      ∀ params e, _ → (requireTolerance spec.tol >>= fun _ => _) = .error e
    cases requireTolerance spec.tol with
    | error e => exact .inl ⟨e, fun _ => rfl⟩
    | ok _ =>
      refine .inr fun params e h => ?_
      rw [h]
      rfl

end SessionSpec

/-- **A setting that is overridden has no influence on a session**, up to the key that a failure
names: what a snapshot asks for may be left out if a setting of the same field and parameter is
given beside it, and if it is a valid one. The only difference is which unknown key of a field is
found first. -/
theorem overridden_setting_is_ignored (hsnapshot : spec.snapshot = some snapshot)
    (hbase : snapshot.toStartSpec = .ok base) (hloses : base.Loses setting rest)
    (hover : spec.params.Overrides setting) (hvalid : setting.IsValid) (cost : Cost α)
    (engine : Engine σ α) (memory : σ) (shared : Int) :
    let without := spec.startingFrom (rest.followedBy spec.params)
    spec.build cost engine memory shared = without.build cost engine memory shared ∨
      ∃ r other, (rest.followedBy spec.params).resolveNames cost spec.chain = .ok r ∧
        setting.name ∉ r.names ∧ other ∉ r.names ∧
        spec.build cost engine memory shared =
          .error (.configuration (.unknownKey setting.field setting.name r.names)) ∧
        without.build cost engine memory shared =
          .error (.configuration (.unknownKey setting.field other r.names)) := by
  intro without
  have hwith : spec.build cost engine memory shared =
      (spec.startingFrom (base.followedBy spec.params)).build cost engine memory shared := by
    refine (SessionSpec.build_startingFrom ?_).symm
    rw [SessionSpec.startSpec, hsnapshot]
    exact except_bind_eq_ok.mpr ⟨base, hbase, rfl⟩
  rw [hwith]
  obtain hsame | ⟨hlike, hkeys⟩ := StartSpec.saysLike_of_loses hloses hover hvalid
  · exact .inl (by rw [hsame])
  obtain hbuild | ⟨r, other, hr, hname, hother, hs, ht⟩ :=
    StartSpec.build_of_losesKey hlike hkeys cost spec.chain
  · exact .inl (SessionSpec.build_startingFrom_congr hbuild)
  obtain ⟨e, herror⟩ | herror := spec.build_startingFrom_error cost engine memory shared
  · exact .inl (by rw [herror, herror])
  · exact .inr ⟨r, other, hr, hname, hother, herror _ _ hs, herror _ _ ht⟩

end Session

/-- The session with one parameter, over a snapshot and with other values and limits. -/
def oneParameterOver (entries : List (String × SnapshotValue Float))
    (values : List (String × Float)) (limits : List (String × LimitSpec Float)) :
    SessionSpec Float :=
  { oneParameter with
    params := { oneParameter.params with values, limits }, snapshot := some ⟨entries⟩ }

/-- A value of the snapshot that is overridden may be left out. -/
theorem overridden_setting_is_ignored_value :
    (oneParameterOver [("x", .number 7)] [("x", 1)] []).build sumOfSquares (quasiNewton .standard)
        () 0 = oneParameter.build sumOfSquares (quasiNewton .standard) () 0 := by
  have hloses : (StartSpec.empty.withValue "x" (7 : Float)).Loses (.value "x" 7) .empty :=
    ⟨[], [], rfl, rfl⟩
  have hover : oneParameter.params.Overrides (.value "x" (7 : Float)) :=
    .inr ⟨1, List.mem_singleton.mpr rfl⟩
  have hsnapshot : (oneParameterOver [("x", .number 7)] [("x", 1)] []).snapshot =
      some ⟨[("x", .number 7)]⟩ := rfl
  refine (overridden_setting_is_ignored hsnapshot rfl hloses hover trivial sumOfSquares
    (quasiNewton .standard) () 0).resolve_right ?_
  rintro ⟨r, -, hr, hname, -⟩
  have hnames : r.names = ["x"] := Registry.ofNames_eq_ok_iff.mp hr
  exact hname (hnames ▸ List.mem_singleton.mpr rfl)

/-- A setting that is overridden is still seen when its key is unknown and so is another one, and
when it is a limit that is not valid. -/
theorem overridden_setting_is_seen :
    (let spec := oneParameterOver [("c", .number 1), ("z", .number 2)] [("c", 3)] []
      ∃ snapshot base rest, spec.snapshot = some snapshot ∧ snapshot.toStartSpec = .ok base ∧
        base.Loses (.value "c" 1) rest ∧ spec.params.Overrides (.value "c" 1) ∧
        spec.build sumOfSquares (quasiNewton .standard) () 0 =
          .error (.configuration (.unknownKey .value "c" ["x"])) ∧
        (spec.startingFrom (rest.followedBy spec.params)).build sumOfSquares
          (quasiNewton .standard) () 0 =
            .error (.configuration (.unknownKey .value "z" ["x"]))) ∧
      let spec := oneParameterOver [("limit_x", .limit (some 3) (some 1)), ("x", .number 1)] []
        [("x", ⟨some 0, some 5⟩)]
      ∃ snapshot base rest, spec.snapshot = some snapshot ∧ snapshot.toStartSpec = .ok base ∧
        base.Loses (.limit "x" ⟨some 3, some 1⟩) rest ∧
        spec.params.Overrides (.limit "x" ⟨some 3, some 1⟩) ∧
        spec.build sumOfSquares (quasiNewton .standard) () 0 =
          .error (.invalidLimit 3 1 .reversed) ∧
        ∃ s, (spec.startingFrom (rest.followedBy spec.params)).build sumOfSquares
          (quasiNewton .standard) () 0 = .ok s := by
  refine ⟨⟨_, _, _, rfl, rfl, ⟨[], [("z", 2)], rfl, rfl⟩, .inr ⟨3, List.mem_singleton.mpr rfl⟩, rfl,
      rfl⟩, _, _, _, rfl, rfl, ⟨[], [], rfl, rfl⟩, ⟨_, List.mem_singleton.mpr rfl⟩, rfl, ?_⟩
  exact ⟨_, rfl⟩

end FitSession
