import FitSession.Proofs.Engine.Scripted
import FitSession.Proofs.Registry
import FitSession.Proofs.Session.Change
import FitSession.Proofs.Session.MinosErrors
import FitSession.Proofs.State

/-!
# The search for intervals

Parameters are asked for by name. Those that are free now are handed to the engine, the others are
reported, and what is found joins what was found before. The collection outlives all other commands
until it is reset.

* `Engine.FindsAll`, `Session.intervals_eq_ok`: the calls of the engine;
* `Session.Asks`, `Session.requested_eq_ok`: the parameters that are asked for;
* `Session.CanFind`, `Session.collected`, `Session.minos_eq_ok`: **when a search succeeds, and what
  it leaves**;
* `Session.scannedAll`, `Session.CollectsInOrder`, `intervals_in_order`: **the collection** over all
  runs;
* `intervals_out_of_order`: names that are not where they were asked for.
-/

namespace FitSession

variable {σ α : Type}

/-! ## Calls -/

/-- Intervals of parameters around one minimum, found one after another. -/
inductive Engine.FindsAll (E : Engine σ α) (cost : Cost α) (m : FunctionMinimum α)
    (o : EngineOptions α) : List Nat → Bench σ α → List (Interval α) → Bench σ α → Prop
  | nil {b} : E.FindsAll cost m o [] b [] b
  | cons {i indices b x c xs d} (hx : E.minos cost m i o b = .ok x c)
    (hrest : E.FindsAll cost m o indices c xs d) : E.FindsAll cost m o (i :: indices) b (x :: xs) d

section Calls

variable {E : Engine σ α} {cost : Cost α} {m : FunctionMinimum α} {o : EngineOptions α}
  {indices : List Nat} {b c : Bench σ α} {xs : List (Interval α)}

theorem Engine.FindsAll.length_eq (h : E.FindsAll cost m o indices b xs c) :
    xs.length = indices.length := by
  induction h with
  | nil => rfl
  | cons _ _ ih => rw [List.length_cons, List.length_cons, ih]

end Calls

namespace Session

variable {s t u : Session σ α} {names : List String} {indices : List Nat} {sigma : α}
  {callLimit : Option Nat} {m : FunctionMinimum α}

/-- Intervals with the names of their parameters. -/
def named (s : Session σ α) (indices : List Nat) (xs : List (Interval α)) : List (MinosError α) :=
  List.zipWith (fun i x => ⟨s.registry.nameAt i, x⟩) indices xs

theorem map_name_named {xs : List (Interval α)} (h : xs.length = indices.length) :
    (s.named indices xs).map (·.name) = indices.map s.registry.nameAt := by
  rw [named, List.map_zipWith]
  induction indices generalizing xs with
  | nil => rfl
  | cons i indices ih =>
    cases xs with
    | nil => cases h
    | cons x xs => rw [List.zipWith_cons_cons, List.map_cons, ih (Nat.succ.inj h)]

theorem intervals_eq_ok {o : EngineOptions α} {b c : Bench σ α} {found : List (MinosError α)} :
    s.intervals m o indices b = .ok found c ↔
      ∃ xs, s.engine.FindsAll s.cost m o indices b xs c ∧ found = s.named indices xs := by
  unfold intervals
  induction indices generalizing b found with
  | nil =>
    constructor
    · intro h
      cases h
      exact ⟨[], .nil, rfl⟩
    · rintro ⟨xs, h, rfl⟩
      cases h
      rfl
  | cons i indices ih =>
    rw [List.mapM_cons]
    constructor
    · intro h
      obtain ⟨r, d, hr, h⟩ := bind_eq_ok.mp h
      obtain ⟨x, d', hx, hr⟩ := bind_eq_ok.mp hr
      cases hr
      obtain ⟨rest, d', hrest, h⟩ := bind_eq_ok.mp h
      cases h
      obtain ⟨xs, hxs, rfl⟩ := ih.mp hrest
      exact ⟨x :: xs, .cons hx hxs, rfl⟩
    · rintro ⟨xs, h, rfl⟩
      cases h with
      | @cons _ _ _ x d xs _ hx hrest =>
        exact bind_eq_ok.mpr ⟨⟨s.registry.nameAt i, x⟩, d, bind_eq_ok.mpr ⟨x, d, hx, rfl⟩,
          bind_eq_ok.mpr ⟨_, c, ih.mpr ⟨xs, hrest, rfl⟩, rfl⟩⟩

/-! ## Checks -/

variable [Scalar α]

/-- The positions that are asked for: those of the names, or of all free parameters if there are no
names. -/
def Asks (s : Session σ α) (names : List String) (indices : List Nat) : Prop :=
  if names = [] then indices = s.currentState.freeIndices
  else Places s.registry.names names indices

theorem requested_eq_ok : s.requested names = .ok indices ↔ s.Asks names indices := by
  unfold requested Asks
  by_cases hnames : names = []
  · rw [if_pos (by rw [hnames]; rfl), if_pos hnames]
    exact ⟨fun h => (Except.ok.inj h).symm, fun h => congrArg Except.ok h.symm⟩
  · rw [if_neg (by simpa using hnames), if_neg hnames, mapM_eq_ok_iff]
    exact ⟨fun h => h.imp fun _ _ => Registry.indexOf_eq_ok.mp,
      fun h => h.imp fun _ _ => Registry.indexOf_eq_ok.mpr⟩

/-- The factor is positive, there is a valid minimum, and what is asked for is there. -/
structure CanFind (s : Session σ α) (names : List String) (sigma : α) (m : FunctionMinimum α)
    (indices : List Nat) : Prop where
  sigma : isPositive sigma = true
  minimum : s.fmin = some m
  valid : m.isValid = true
  asks : s.Asks names indices

omit [Scalar α] in
theorem storedMinimum_eq_ok {operation : String} :
    Action.storedMinimum operation s = .ok m t ↔ s.fmin = some m ∧ t = s := by
  constructor
  · intro h
    obtain ⟨_, _, hget, h⟩ := bind_eq_ok.mp h
    cases hget
    cases hm : s.fmin with
    | none =>
      rw [hm] at h
      cases h
    | some m' =>
      rw [hm] at h
      cases h
      exact ⟨rfl, rfl⟩
  · rintro ⟨hm, rfl⟩
    refine bind_eq_ok.mpr ⟨t, t, rfl, ?_⟩
    rw [hm]
    rfl

omit [Scalar α] in
theorem validMinimum_eq_ok {operation : String} :
    Action.validMinimum operation s = .ok m t ↔ s.fmin = some m ∧ m.isValid = true ∧ t = s := by
  constructor
  · intro h
    obtain ⟨m', s', hstored, hcheck⟩ := bind_eq_ok.mp h
    obtain ⟨hm, rfl⟩ := storedMinimum_eq_ok.mp hstored
    split_ifs at hcheck with hvalid
    · cases hcheck
      exact ⟨hm, hvalid, rfl⟩
    · cases hcheck
  · rintro ⟨hm, hvalid, rfl⟩
    refine bind_eq_ok.mpr ⟨m, t, storedMinimum_eq_ok.mpr ⟨hm, rfl⟩, ?_⟩
    rw [if_pos hvalid]
    rfl

theorem checkSigma_eq_ok : checkSigma sigma = .ok () ↔ isPositive sigma = true := by
  unfold checkSigma
  split_ifs with h <;> simp [h]

theorem canFind_of_findIntervals {found : List (MinosError α)}
    (h : findIntervals names sigma callLimit s = .ok found t) :
    ∃ m indices, s.CanFind names sigma m indices := by
  obtain ⟨_, s₁, h₁, h⟩ := bind_eq_ok.mp h
  obtain ⟨m, s₂, h₂, h⟩ := bind_eq_ok.mp h
  obtain ⟨s₃, _, h₃, h⟩ := bind_eq_ok.mp h
  cases h₃
  obtain ⟨indices, s₄, h₄, -⟩ := bind_eq_ok.mp h
  have hsigma := checkSigma_eq_ok.mp (eq_ok_of_ofExcept h₁)
  obtain rfl : s₁ = s := by
    rw [checkSigma_eq_ok.mpr hsigma] at h₁
    cases h₁
    rfl
  obtain ⟨hm, hvalid, rfl⟩ := validMinimum_eq_ok.mp h₂
  exact ⟨m, indices, hsigma, hm, hvalid, requested_eq_ok.mp (eq_ok_of_ofExcept h₄)⟩

/-! ## What a search leaves -/

/-- The reports on the parameters that are left out. -/
def skipped (s : Session σ α) (indices : List Nat) : List (Warning α) :=
  (indices.filter fun i => !s.isFree i).map fun i => .fixedParameterSkipped (s.registry.nameAt i)

omit [Scalar α] in
theorem forM_warn_filter {γ : Type} (p : γ → Bool) (w : γ → Warning α) (l : List γ)
    (s : Session σ α) : (l.forM fun a => if p a then Action.warn (w a) else pure ()) s =
      .ok () { s with warnings := s.warnings ++ (l.filter p).map w } := by
  induction l generalizing s with
  | nil =>
    rw [List.filter_nil, List.map_nil, List.append_nil]
    rfl
  | cons a l ih =>
    cases hp : p a with
    | false =>
      rw [List.filter_cons_of_neg (by rw [hp]; exact Bool.false_ne_true), ← ih]
      change ((if p a then _ else _ : Action σ α Unit) >>= _) s = _
      rw [if_neg (by rw [hp]; exact Bool.false_ne_true)]
      rfl
    | true =>
      rw [List.filter_cons_of_pos hp, List.map_cons, List.append_cons]
      change ((if p a then _ else _ : Action σ α Unit) >>= _) s = _
      rw [if_pos hp]
      exact ih (s.withWarning (w a))

omit [Scalar α] in
theorem forM_warn (w : Nat → Warning α) (indices : List Nat) (s : Session σ α) :
    (indices.forM fun i => Action.warn (w i)) s =
      .ok () { s with warnings := s.warnings ++ indices.map w } := by
  simpa using forM_warn_filter (fun _ => true) w indices s

/-- A search that passes the checks is the work of the engine on the parameters that are free, with
a scaled errordef, between the report of a missing errordef and those on the others. -/
theorem findIntervals_eq (h : s.CanFind names sigma m indices) (htol : isPositive s.tol = true)
    (callLimit : Option Nat) :
    findIntervals names sigma callLimit s =
      match Run.withScaledUp (sigma * sigma)
        (s.intervals m (s.options callLimit none) (indices.filter s.isFree)) s.bench with
      | .ok found b =>
        .ok found
          { s.reported with bench := b, warnings := s.reported.warnings ++ s.skipped indices }
      | .error e b => .error e { s.reported with bench := b } := by
  have hoptions : s.engineOptions callLimit none s.printLevel = .ok (s.options callLimit none) :=
    s.engineOptions_eq callLimit htol rfl
  unfold findIntervals
  rw [bind_of_ok (ofExcept_of_ok (checkSigma_eq_ok.mpr h.sigma) s),
    bind_of_ok (validMinimum_eq_ok.mpr ⟨h.minimum, h.valid, rfl⟩), get_bind_apply,
    bind_of_ok (ofExcept_of_ok (requested_eq_ok.mpr h.asks) s), bind_of_ok (reportErrordef_eq s),
    bind_of_ok (ofExcept_of_ok hoptions s.reported), List.partition_eq_filter_filter]
  change (Action.atBench (Run.withScaledUp (sigma * sigma)
    (s.intervals m (s.options callLimit none) (indices.filter s.isFree))) >>= _) s.reported = _
  rw [bind_apply, Action.atBench, show s.reported.bench = s.bench from rfl]
  cases Run.withScaledUp (sigma * sigma)
    (s.intervals m (s.options callLimit none) (indices.filter s.isFree)) s.bench with
  | error e b => rfl
  | ok found b =>
    change ((indices.filter fun i => !s.isFree i).forM
      (fun i => Action.warn (.fixedParameterSkipped (s.registry.nameAt i))) >>= _) _ = _
    rw [bind_of_ok (forM_warn ..)]
    rfl

/-- What a search leaves that found `xs` for the parameters that are free, and left the bench `b`:
the intervals in their places, the counters in the minimum, and the reports. -/
def collected (s : Session σ α) (indices : List Nat) (xs : List (Interval α)) (b : Bench σ α) :
    Session σ α :=
  { s.reported with
    bench := { b with up := s.errordef }
    warnings := s.reported.warnings ++ s.skipped indices
    merrors := ⟨(s.named (indices.filter s.isFree) xs).foldl MinosErrors.put s.merrors.entries⟩
    fmin := s.fmin.map fun m => { m with nfcn := b.nfcn, ngrad := b.ngrad } }

/-- The checks are passed, the engine finds an interval around the stored minimum for each parameter
that is asked for and free, in that order, and they are collected. -/
def Collects (s : Session σ α) (names : List String) (sigma : α) (callLimit : Option Nat)
    (u : Session σ α) : Prop :=
  ∃ m indices xs b, s.CanFind names sigma m indices ∧
    s.engine.FindsAll s.cost m (s.options callLimit none) (indices.filter s.isFree)
      { s.bench with up := s.errordef * (sigma * sigma) } xs b ∧
    u = s.collected indices xs b

/-- A search succeeds exactly if it passes the checks and the engine finds all intervals. -/
theorem minos_eq_ok (htol : isPositive s.tol = true) (hnames : s.merrors.names.Nodup) :
    minos names sigma callLimit s = .ok () u ↔ s.Collects names sigma callLimit u := by
  have hstored (indices : List Nat) (xs : List (Interval α)) (b : Bench σ α) :
      withIntervals
        { s.reported with
          bench := { b with up := s.bench.up },
          warnings := s.reported.warnings ++ s.skipped indices }
        (s.named (indices.filter s.isFree) xs) = s.collected indices xs b := by
    rw [collected, ← MinosErrors.entries_insertAll hnames]
    rfl
  change (findIntervals names sigma callLimit >>= fun found => modify (·.withIntervals found)) s = _
    ↔ _
  constructor
  · intro h
    obtain ⟨found, t, hfound, hu⟩ := bind_eq_ok.mp h
    obtain ⟨m, indices, hcan⟩ := canFind_of_findIntervals hfound
    rw [findIntervals_eq hcan htol, Run.withScaledUp] at hfound
    cases hwork : s.intervals m (s.options callLimit none) (indices.filter s.isFree)
        { s.bench with up := s.bench.up * (sigma * sigma) } with
    | error e b =>
      rw [hwork] at hfound
      cases hfound
    | ok found' b =>
      rw [hwork] at hfound
      cases hfound
      cases hu
      obtain ⟨xs, hxs, rfl⟩ := intervals_eq_ok.mp hwork
      exact ⟨m, indices, xs, b, hcan, hxs, hstored indices xs b⟩
  · rintro ⟨m, indices, xs, b, hcan, hxs, rfl⟩
    rw [bind_apply, findIntervals_eq hcan htol, Run.withScaledUp]
    have hwork := intervals_eq_ok.mpr ⟨xs, hxs, rfl⟩
    change s.intervals m (s.options callLimit none) (indices.filter s.isFree)
      { s.bench with up := s.bench.up * (sigma * sigma) } = _ at hwork
    rw [hwork]
    exact congrArg (EStateM.Result.ok ()) (hstored indices xs b)

/-! ## Runs -/

/-- The names of the free parameters that are asked for. -/
def requestedFree (s : Session σ α) (names : List String) : List String :=
  match s.requested names with
  | .ok indices => (indices.filter s.isFree).map s.registry.nameAt
  | .error _ => []

/-- The names whose intervals a command finds, in the order in which they are asked for. -/
def scanned (s : Session σ α) : Command α → List String
  | .minos names sigma callLimit =>
    if succeeded (minos names sigma callLimit s) then s.requestedFree names else []
  | .minosAtConfidence names level callLimit =>
    if succeeded (minosAtConfidence names level callLimit s) then s.requestedFree names else []
  | _ => []

/-- The names whose intervals were found since the last reset, one more command later. -/
def carries (s : Session σ α) (earlier : List String) : Command α → List String
  | .reset => []
  | c => earlier ++ s.scanned c

/-- The names whose intervals were found since the last reset, after a run. -/
def scannedAll (s : Session σ α) (earlier : List String) : List (Command α) → List String
  | [] => earlier
  | c :: cs => (s.after c).scannedAll (s.carries earlier c) cs

variable {earlier : List String}

theorem merrors_of_minos_error {e : FitError α}
    (h : minos names sigma callLimit s = .error e u) : u.merrors = s.merrors := by
  have hbeside := aside_findIntervals (R := s.engine.Leaves) names sigma callLimit
    (fun _ _ _ _ _ => keeps_sameUpIf fun _ => sameUp_withScaledUp _ _) s rfl
  rcases bind_eq_error.mp h with h | ⟨_, _, _, h⟩
  · rw [h] at hbeside
    rw [show SameResults s u from hbeside.results]
  · cases h

theorem names_after_minos (htol : isPositive s.tol = true)
    (h : s.merrors.names = earlier.eraseDups) (names : List String) (sigma : α)
    (callLimit : Option Nat) :
    (endState (minos names sigma callLimit s)).merrors.names =
      (earlier ++ if succeeded (minos names sigma callLimit s) then s.requestedFree names
        else []).eraseDups := by
  cases hrun : minos names sigma callLimit s with
  | error e u =>
    change u.merrors.names = (earlier ++ []).eraseDups
    rw [merrors_of_minos_error hrun, List.append_nil, h]
  | ok _ u =>
    have hnodup : s.merrors.names.Nodup := h ▸ MinosErrors.nodup_eraseDups earlier
    obtain ⟨m, indices, xs, b, hcan, hxs, rfl⟩ := (minos_eq_ok htol hnodup).mp hrun
    have hfree : s.requestedFree names = (indices.filter s.isFree).map s.registry.nameAt := by
      rw [requestedFree, requested_eq_ok.mpr hcan.asks]
    have hnames := MinosErrors.names_insertAll h (s.named (indices.filter s.isFree) xs)
    rw [map_name_named hxs.length_eq, ← hfree] at hnames
    refine Eq.trans ?_ hnames
    change (MinosErrors.mk (List.foldl MinosErrors.put _ _)).names = _
    rw [← MinosErrors.entries_insertAll hnodup]

theorem carries_of_ne {c : Command α} (hc : c ≠ .reset) :
    s.carries earlier c = earlier ++ s.scanned c := by
  cases c with
  | reset => exact absurd rfl hc
  | _ => rfl

theorem scanned_eq_nil {c : Command α} (hc : c.findsIntervals = false) : s.scanned c = [] := by
  cases c with
  | minos | minosAtConfidence => cases hc
  | _ => rfl

/-- The names are those whose intervals were found, in the order in which they were first asked
for. -/
theorem names_after (htol : isPositive s.tol = true) (h : s.merrors.names = earlier.eraseDups)
    (c : Command α) : (s.after c).merrors.names = (s.carries earlier c).eraseDups := by
  by_cases hreset : c = .reset
  · subst hreset
    rfl
  rw [carries_of_ne hreset]
  cases hfinds : c.findsIntervals with
  | false =>
    rw [(change_after s c).merrors hfinds hreset, h, scanned_eq_nil hfinds, List.append_nil]
  | true =>
    cases c with
    | minos names sigma callLimit => exact names_after_minos htol h names sigma callLimit
    | minosAtConfidence names level callLimit =>
      change (endState (minosAtConfidence names level callLimit s)).merrors.names =
        (earlier ++ if succeeded (minosAtConfidence names level callLimit s)
          then s.requestedFree names else []).eraseDups
      unfold minosAtConfidence
      cases sigmaForConfidence level with
      | error e => exact h.trans (congrArg _ (List.append_nil earlier).symm)
      | ok sigma => exact names_after_minos htol h names sigma callLimit
    | _ => cases hfinds

theorem names_afterAll (htol : isPositive s.tol = true) (h : s.merrors.names = earlier.eraseDups)
    (cs : List (Command α)) :
    (s.afterAll cs).merrors.names = (s.scannedAll earlier cs).eraseDups := by
  induction cs generalizing s earlier with
  | nil => exact h
  | cons c cs ih => exact ih ((change_after s c).tolerance htol) (names_after htol h c)

/-- No command but a reset takes a name away, or changes the order. -/
theorem names_prefix (htol : isPositive s.tol = true) (h : s.merrors.names = earlier.eraseDups)
    {c : Command α} (hc : c ≠ .reset) : s.merrors.names <+: (s.after c).merrors.names := by
  rw [names_after htol h, carries_of_ne hc, h, List.eraseDups_append]
  exact List.prefix_append _ _

theorem lt_of_asks (hlen : s.currentState.len = s.registry.len) (h : s.Asks names indices) :
    ∀ i ∈ indices, i < s.registry.len := by
  unfold Asks at h
  split_ifs at h
  · subst h
    exact fun i hi => hlen ▸ s.currentState.lt_of_mem_freeIndices hi
  · exact h.lt

theorem registered_requestedFree (hlen : s.currentState.len = s.registry.len)
    (names : List String) : ∀ name ∈ s.requestedFree names, name ∈ s.registry.names := by
  intro name hname
  unfold requestedFree at hname
  cases hrequested : (s.requested names : Except (FitError α) _) with
  | error e =>
    rw [hrequested] at hname
    cases hname
  | ok indices =>
    rw [hrequested] at hname
    obtain ⟨i, hi, rfl⟩ := List.mem_map.mp hname
    have hlt := lt_of_asks hlen (requested_eq_ok.mp hrequested) i (List.mem_filter.mp hi).1
    exact List.mem_of_getElem? (Registry.name?_eq hlt)

theorem registered_scanned (hlen : s.currentState.len = s.registry.len) (c : Command α) :
    ∀ name ∈ s.scanned c, name ∈ s.registry.names := by
  unfold scanned
  split
  · split
    · exact registered_requestedFree hlen _
    · exact nofun
  · split
    · exact registered_requestedFree hlen _
    · exact nofun
  · exact nofun

theorem registered_scannedAll
    (hlen : ∀ cs : List (Command α),
      (s.afterAll cs).currentState.len = (s.afterAll cs).registry.len)
    (hearlier : ∀ name ∈ earlier, name ∈ s.registry.names) (cs : List (Command α)) :
    ∀ name ∈ s.scannedAll earlier cs, name ∈ s.registry.names := by
  induction cs generalizing s earlier with
  | nil => exact hearlier
  | cons c cs ih =>
    have hregistry := (change_after s c).sameSetup.registry
    rw [← hregistry] at hearlier ⊢
    refine ih (fun cs => hlen (c :: cs)) ?_
    by_cases hreset : c = .reset
    · subst hreset
      exact nofun
    · rw [carries_of_ne hreset]
      intro name hname
      rcases List.mem_append.mp hname with hname | hname
      · exact hearlier name hname
      · exact hregistry ▸ registered_scanned (hlen []) c name hname

/-- The collection of a session in which intervals were found for the given names since the last
reset, and what becomes of it. -/
structure CollectsInOrder (s : Session σ α) (found : List String) : Prop where
  minos : ∀ names sigma callLimit u,
    minos names sigma callLimit s = .ok () u ↔ s.Collects names sigma callLimit u
  names : s.merrors.names = found.eraseDups
  distinct : s.merrors.names.Nodup
  others : ∀ c : Command α, c.findsIntervals = false → c ≠ .reset →
    (s.after c).merrors = s.merrors
  lasting : ∀ c : Command α, c ≠ .reset → s.merrors.names <+: (s.after c).merrors.names
  reset : (s.after .reset).merrors = .empty

end Session

/-- **Intervals are collected under the names of their parameters, in the order in which these were
first found, until a reset**, whatever else is done with the session. With an engine whose states
have one entry for each parameter, all of these names are registered. -/
theorem intervals_in_order [Scalar α] {spec : SessionSpec α} {cost : Cost α} {E : Engine σ α}
    {memory : σ} {shared : Int} {s₀ : Session σ α} (h : spec.build cost E memory shared = .ok s₀)
    (cs : List (Command α)) :
    (s₀.afterAll cs).CollectsInOrder (s₀.scannedAll [] cs) ∧
      (E.KeepsLength → ∀ name ∈ (s₀.afterAll cs).merrors.names,
        name ∈ (s₀.afterAll cs).registry.names) := by
  have hfresh := SessionSpec.fresh_of_build h
  have htol := Session.tolerance_afterAll h cs
  have hempty : s₀.merrors.names = [].eraseDups := by
    obtain ⟨params, errordef, start, -, -, rfl⟩ := SessionSpec.exists_of_build h
    rfl
  have hnames : (s₀.afterAll cs).merrors.names = (s₀.scannedAll [] cs).eraseDups :=
    Session.names_afterAll (Session.tolerance_afterAll h []) hempty cs
  have hdistinct : (s₀.afterAll cs).merrors.names.Nodup :=
    hnames ▸ MinosErrors.nodup_eraseDups _
  refine ⟨⟨fun _ _ _ _ => Session.minos_eq_ok htol hdistinct, hnames, hdistinct,
    fun c => (change_after _ c).merrors, fun c => Session.names_prefix htol hnames, rfl⟩,
    fun hE name hname => ?_⟩
  rw [(s₀.afterAll_sameSetup cs).registry]
  rw [hnames, List.mem_eraseDups] at hname
  exact Session.registered_scannedAll (hfresh.len_currentState hE)
    (List.forall_mem_nil _) cs name hname

/-- The parameters `x` and `y`, of which `y` is fixed. -/
def oneFixedParameter : SessionSpec Float :=
  { oneParameter with
    params :=
      { StartSpec.empty with
        names := some ["x", "y"], values := [("x", 1), ("y", 2)], fixed := [("y", true)] } }

/-- A minimization, and a search in which `x` is asked for before and after `y`. -/
def scanTwice : List (Command Float) := [.migrad .standard, .minos ["x", "y", "x"] 1 none]

/-- A parameter that is asked for twice is searched twice and collected once; a fixed one is left
out. -/
theorem intervals_in_order_repeated :
    ∃ s₀ : Session (Script Float) Float,
      oneFixedParameter.build sumOfSquares scriptedEngine
          { Script.empty with migrad := [answerAt 3 true], minos := [unitInterval] } 0 = .ok s₀ ∧
        (s₀.afterAll scanTwice).CollectsInOrder ["x", "x"] ∧
          (∀ name ∈ (s₀.afterAll scanTwice).merrors.names,
            name ∈ (s₀.afterAll scanTwice).registry.names) ∧
            EngineCall.scans (s₀.afterAll scanTwice).bench.memory.log = [0, 0] := by
  obtain ⟨s₀, hbuild, h⟩ := exists_ok_of_any
    (P := fun s : Session (Script Float) Float =>
      EngineCall.scans (s.afterAll scanTwice).bench.memory.log = [0, 0] ∧
        s.scannedAll [] scanTwice = ["x", "x"])
    (x := oneFixedParameter.build sumOfSquares scriptedEngine
      { Script.empty with migrad := [answerAt 3 true], minos := [unitInterval] } 0)
    (by decide +kernel)
  obtain ⟨hscans, hfound⟩ := of_decide_eq_true h
  obtain ⟨hcollects, hregistered⟩ := intervals_in_order hbuild scanTwice
  exact ⟨s₀, hbuild, hfound ▸ hcollects, hregistered scriptedEngine_keepsLength, hscans⟩

/-- A search for both parameters while `y` is fixed, and one for `y` once it is free. -/
def scanReleased : List (Command Float) :=
  [.migrad .standard, .minos ["y", "x"] 1 none, .write (.fixed (.item (.name "y") false)),
    .minos ["y"] 1 none]

/-- A parameter that is asked for first, while it is fixed, stands behind one that was found before
it; and with an engine that adds an entry to a state there is an interval without a registered
name. -/
theorem intervals_out_of_order :
    (∃ s₀ : Session (Script Float) Float,
      oneFixedParameter.build sumOfSquares scriptedEngine
          { Script.empty with migrad := [answerAt 3 true], minos := [unitInterval] } 0 = .ok s₀ ∧
        (s₀.afterAll scanReleased).merrors.names = ["x", "y"]) ∧
      ∃ s₀ : Session (Script Float) Float,
        oneParameter.build sumOfSquares
            (scriptedEngine.answering ⟨[.free 3 1, .free 4 1], none⟩)
            { Script.empty with migrad := [answerAt 3 true], minos := [unitInterval] } 0 =
            .ok s₀ ∧
          (s₀.afterAll [.migrad .standard, .minos [] 1 none]).merrors.names = ["x", ""] ∧
            (s₀.afterAll [.migrad .standard, .minos [] 1 none]).registry.names = ["x"] := by
  refine ⟨?_, ?_⟩
  · obtain ⟨s₀, hbuild, h⟩ := exists_ok_of_any
      (P := fun s : Session (Script Float) Float =>
        (s.afterAll scanReleased).merrors.names == ["x", "y"])
      (x := oneFixedParameter.build sumOfSquares scriptedEngine
        { Script.empty with migrad := [answerAt 3 true], minos := [unitInterval] } 0)
      (by decide +kernel)
    exact ⟨s₀, hbuild, eq_of_beq h⟩
  · obtain ⟨s₀, hbuild, h⟩ := exists_build_oneParameter
      (scriptedEngine.answering ⟨[.free 3 1, .free 4 1], none⟩)
      { Script.empty with migrad := [answerAt 3 true], minos := [unitInterval] }
      (P := fun s =>
        (s.afterAll [.migrad .standard, .minos [] 1 none]).merrors.names == ["x", ""] &&
          (s.afterAll [.migrad .standard, .minos [] 1 none]).registry.names == ["x"])
      (by decide +kernel)
    obtain ⟨hnames, hregistry⟩ := Bool.and_eq_true_iff.mp h
    exact ⟨s₀, hbuild, eq_of_beq hnames, eq_of_beq hregistry⟩

end FitSession
