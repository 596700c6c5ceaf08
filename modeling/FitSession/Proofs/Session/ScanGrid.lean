import FitSession.Proofs.Double.Spaced
import FitSession.Proofs.Session.Intervals
import FitSession.Proofs.Session.Limits

/-!
# The points of a scan

A scan asks for a range of one parameter, or for two of them. The ends of a range are moved into the
limit of the parameter; if there is nothing between them then, the range is refused.

* `Session.Accepts`, `Session.ScansOver`, `Session.Refuses`: ranges that are accepted, with their
  points, and why others are not;
* `Session.scanGrid_eq_ok`, `Session.exists_refuses`: **how a range ends**, and what is reported;
* `Session.profile_eq_ok`, `Session.contour_eq_ok`, `Session.minimizedProfile_eq_ok`: what the scans
  do that succeed;
* `Session.Scans`, `Session.exists_refusal`: commands that get as far as their ranges;
* `Limit.clamp_of_isNaN`, `ScansBetween`, **`scan_points`**: what is scanned, in doubles;
* `scans_without_numbers`: ranges that are accepted and should not be.
-/

namespace FitSession

variable {σ α : Type} [Scalar α]

namespace Session

variable {s t u : Session σ α} {index bins : Nat} {bound : Bound α} {x : List α} {lo hi : α}

/-! ## One range -/

/-- The ends of a scan of an entry, moved into its limit. -/
def scanSpan (e : Entry α) (bound : Bound α) : α × α :=
  (e.limit.clamp (scanEnds e bound).1, e.limit.clamp (scanEnds e bound).2)

/-- The range of a parameter is accepted, and goes from `lo` to `hi`. -/
structure Accepts (s : Session σ α) (index bins : Nat) (bound : Bound α) (lo hi : α) : Prop where
  bins : 2 ≤ bins
  ends : ∃ e, s.currentState.entries[index]? = some e ∧ scanSpan e bound = (lo, hi)
  span : IsSpan lo hi

/-- The points of an accepted range of a parameter. -/
def ScansOver (s : Session σ α) (index bins : Nat) (bound : Bound α) (x : List α) : Prop :=
  ∃ lo hi, s.Accepts index bins bound lo hi ∧ x = evenlySpaced lo hi bins

theorem ScansOver.length (h : s.ScansOver index bins bound x) : x.length = bins := by
  obtain ⟨lo, hi, -, rfl⟩ := h
  simp [evenlySpaced]

/-- What is reported before a scan of a range: errors that are not accurate, if it hangs on them. -/
def inaccurateReport (s : Session σ α) : Bound α → List (Warning α)
  | .sigma _ => if s.accurate then [] else [.inaccurateErrors]
  | .range _ _ => []

/-- The session after that report. -/
def noted (s : Session σ α) (bound : Bound α) : Session σ α :=
  { s with warnings := s.warnings ++ s.inaccurateReport bound }

/-- A report does not change which ranges are accepted. -/
theorem accepts_noted {bound' : Bound α} :
    (s.noted bound').Accepts index bins bound lo hi ↔ s.Accepts index bins bound lo hi :=
  ⟨fun h => ⟨h.bins, h.ends, h.span⟩, fun h => ⟨h.bins, h.ends, h.span⟩⟩

theorem scansOver_noted {bound' : Bound α} :
    (s.noted bound').ScansOver index bins bound x ↔ s.ScansOver index bins bound x := by
  simp only [ScansOver, accepts_noted]

/-- Why a range is not accepted. -/
inductive Refuses (s : Session σ α) (index bins : Nat) (bound : Bound α) :
    Misconfiguration α → Prop
  | bins (h : bins < 2) : Refuses s index bins bound (.scanBins bins)
  | range {e lo hi} (hbins : 2 ≤ bins) (he : s.currentState.entries[index]? = some e)
    (hends : scanSpan e bound = (lo, hi)) (hempty : ¬IsSpan lo hi) :
    Refuses s index bins bound (.scanRange lo hi)

omit [Scalar α] in
theorem reportInaccurate_eq (bound : Bound α) (s : Session σ α) :
    reportInaccurate bound s = .ok () (s.noted bound) := by
  cases bound with
  | range lower upper =>
    change EStateM.Result.ok () s = .ok () (s.noted _)
    rw [noted, inaccurateReport, List.append_nil]
  | sigma n =>
    change (if _ then _ else _ : Action σ α Unit) s = _
    rw [noted, inaccurateReport]
    cases h : s.accurate
    · rfl
    · rw [if_pos rfl, List.append_nil]
      rfl

theorem isSpan_iff : (Scalar.isFinite lo && Scalar.isFinite hi && decide (lo < hi)) = true ↔
    IsSpan lo hi := by
  rw [Bool.and_eq_true, Bool.and_eq_true, decide_eq_true_eq]
  exact ⟨fun h => ⟨h.1.1, h.1.2, h.2⟩, fun h => ⟨⟨h.lower, h.upper⟩, h.nonempty⟩⟩

/-- How the range of a parameter ends, once the entry is found. -/
theorem scanGrid_apply (hbins : 2 ≤ bins) {e : Entry α}
    (he : s.currentState.entries[index]? = some e) (bound : Bound α) :
    scanGrid index bins bound s =
      if Scalar.isFinite (scanSpan e bound).1 && Scalar.isFinite (scanSpan e bound).2 &&
          decide ((scanSpan e bound).1 < (scanSpan e bound).2) then
        .ok (evenlySpaced (scanSpan e bound).1 (scanSpan e bound).2 bins) (s.noted bound)
      else .error (.configuration (.scanRange (scanSpan e bound).1 (scanSpan e bound).2))
        (s.noted bound) := by
  have hentry := ParameterState.entryOrFail_eq_ok.mpr he
  unfold scanGrid
  rw [if_neg (not_lt.mpr hbins)]
  change (Action.ofExcept (s.currentState.entryOrFail index) >>= _) s = _
  rw [bind_of_ok (ofExcept_of_ok hentry s), bind_of_ok (reportInaccurate_eq bound s)]
  unfold scanSpan
  generalize scanEnds e bound = ends
  obtain ⟨lo, hi⟩ := ends
  change (if _ then _ else _ : Action σ α (List α)) _ = _
  split_ifs <;> rfl

/-- A range is accepted exactly if it goes from one end to another. -/
theorem scanGrid_eq_ok : scanGrid index bins bound s = .ok x t ↔
    s.ScansOver index bins bound x ∧ t = s.noted bound := by
  constructor
  · intro h
    by_cases hbins : bins < 2
    · rw [scanGrid, if_pos hbins] at h
      cases h
    have hbins := not_lt.mp hbins
    obtain ⟨e, he⟩ : ∃ e, s.currentState.entries[index]? = some e := by
      rw [scanGrid, if_neg (not_lt.mpr hbins)] at h
      obtain ⟨_, _, hget, h⟩ := bind_eq_ok.mp h
      cases hget
      obtain ⟨e, _, he, -⟩ := bind_eq_ok.mp h
      exact ⟨e, ParameterState.entryOrFail_eq_ok.mp (eq_ok_of_ofExcept he)⟩
    rw [scanGrid_apply hbins he] at h
    split_ifs at h with hspan
    cases h
    exact ⟨⟨_, _, ⟨hbins, ⟨e, he, rfl⟩, isSpan_iff.mp hspan⟩, rfl⟩, rfl⟩
  · rintro ⟨⟨lo, hi, ⟨hbins, ⟨e, he, hends⟩, hspan⟩, rfl⟩, rfl⟩
    rw [scanGrid_apply hbins he, hends, if_pos (isSpan_iff.mpr hspan)]

/-- A range of a parameter that there is is refused if it is not accepted. -/
theorem exists_refuses (hindex : index < s.currentState.len)
    (h : ¬∃ lo hi, s.Accepts index bins bound lo hi) :
    ∃ f t, s.Refuses index bins bound f ∧
      scanGrid index bins bound s = .error (.configuration f) t := by
  by_cases hbins : bins < 2
  · refine ⟨.scanBins bins, s, .bins hbins, ?_⟩
    rw [scanGrid, if_pos hbins]
    rfl
  have hbins := not_lt.mp hbins
  obtain ⟨e, he⟩ := s.currentState.entryOrFail_of_lt hindex
  have he := ParameterState.entryOrFail_eq_ok.mp he
  have hempty : ¬IsSpan (scanSpan e bound).1 (scanSpan e bound).2 := fun hspan =>
    h ⟨_, _, hbins, ⟨e, he, rfl⟩, hspan⟩
  refine ⟨_, s.noted bound, .range hbins he rfl hempty, ?_⟩
  rw [scanGrid_apply hbins he, if_neg (mt isSpan_iff.mp hempty)]
  rfl

theorem Refuses.of_noted {bound' : Bound α} {f : Misconfiguration α}
    (h : (s.noted bound').Refuses index bins bound f) : s.Refuses index bins bound f := by
  cases h with
  | bins h => exact .bins h
  | range hbins he hends hempty => exact .range hbins he hends hempty

/-! ## Commands -/

/-- What is subtracted from the values of a scan, if it is there. -/
def baseline? (s : Session σ α) (subtractMin : Bool) : Option α :=
  if subtractMin then s.fmin.map (·.fval) else some 0

theorem scanBaseline_eq_ok {subtractMin : Bool} {offset : α} :
    scanBaseline subtractMin s = .ok offset t ↔ s.baseline? subtractMin = some offset ∧ t = s := by
  cases subtractMin with
  | false =>
    change EStateM.Result.ok 0 s = .ok offset t ↔ some 0 = some offset ∧ t = s
    rw [EStateM.Result.ok.injEq, Option.some.injEq, eq_comm (a := s)]
  | true =>
    change (Action.storedMinimum _ >>= fun m => pure m.fval) s = _ ↔ s.fmin.map (·.fval) = _ ∧ _
    rw [bind_eq_ok, Option.map_eq_some_iff]
    constructor
    · rintro ⟨m, u, hm, h⟩
      obtain ⟨hm, rfl⟩ := storedMinimum_eq_ok.mp hm
      cases h
      exact ⟨⟨m, hm, rfl⟩, rfl⟩
    · rintro ⟨⟨m, hm, rfl⟩, rfl⟩
      exact ⟨m, t, storedMinimum_eq_ok.mpr ⟨hm, rfl⟩, rfl⟩

omit [Scalar α] in
theorem atBench_eq_ok {β : Type} {work : Run σ α β} {b : β} :
    Action.atBench work s = .ok b t ↔
      ∃ bench, work s.bench = .ok b bench ∧ t = { s with bench } := by
  unfold Action.atBench
  constructor
  · intro h
    split at h
    · next hwork =>
      cases h
      exact ⟨_, hwork, rfl⟩
    · cases h
  · rintro ⟨bench, hwork, rfl⟩
    rw [hwork]

/-- A scan of values has accepted its range, and found its values. -/
theorem profile_eq_ok {key : Key} {subtractMin : Bool} {table : ProfileTable α} :
    profile key bins bound subtractMin s = .ok table u ↔
      ∃ offset i bench, s.baseline? subtractMin = some offset ∧
        key.resolve s.registry = (.ok i : Except (FitError α) Nat) ∧
        s.ScansOver i bins bound table.x ∧
        s.valuesAlong offset (s.currentState.values.set i) table.x s.bench =
          .ok table.fval bench ∧
        u = { s.noted bound with bench } := by
  unfold profile
  simp only [run'_valuesOver]
  constructor
  · intro h
    obtain ⟨offset, _, hbase, h₁⟩ := bind_eq_ok.mp h
    obtain ⟨hoffset, rfl⟩ := scanBaseline_eq_ok.mp hbase
    obtain ⟨_, _, hget, h₂⟩ := bind_eq_ok.mp h₁
    cases hget
    obtain ⟨i, _, hkey, h₃⟩ := bind_eq_ok.mp h₂
    obtain ⟨hi, rfl⟩ := ofExcept_eq_ok.mp hkey
    obtain ⟨x, _, hgrid, h₄⟩ := bind_eq_ok.mp h₃
    obtain ⟨hpoints, rfl⟩ := scanGrid_eq_ok.mp hgrid
    obtain ⟨fval, _, hbench, h₅⟩ := bind_eq_ok.mp h₄
    obtain ⟨bench, hwork, rfl⟩ := atBench_eq_ok.mp hbench
    cases h₅
    exact ⟨offset, i, bench, hoffset, hi, hpoints, hwork, rfl⟩
  · obtain ⟨x, fval⟩ := table
    rintro ⟨offset, i, bench, hoffset, hkey, hpoints, hwork, rfl⟩
    refine bind_eq_ok.mpr ⟨offset, s, scanBaseline_eq_ok.mpr ⟨hoffset, rfl⟩, ?_⟩
    refine bind_eq_ok.mpr ⟨s, s, rfl, bind_eq_ok.mpr ⟨i, s, ofExcept_eq_ok.mpr ⟨hkey, rfl⟩, ?_⟩⟩
    refine bind_eq_ok.mpr ⟨x, _, scanGrid_eq_ok.mpr ⟨hpoints, rfl⟩, ?_⟩
    exact bind_eq_ok.mpr ⟨fval, _, atBench_eq_ok.mpr ⟨bench, hwork, rfl⟩, rfl⟩

/-- A scan of a grid has accepted both ranges, and found its values. -/
theorem contour_eq_ok {keyX keyY : Key} {boundX boundY : Bound α} {subtractMin : Bool}
    {table : GridTable α} :
    contour keyX keyY bins boundX boundY subtractMin s = .ok table u ↔
      ∃ offset ix iy bench, s.baseline? subtractMin = some offset ∧
        keyX.resolve s.registry = (.ok ix : Except (FitError α) Nat) ∧
        keyY.resolve s.registry = (.ok iy : Except (FitError α) Nat) ∧ ix ≠ iy ∧
        s.ScansOver ix bins boundX table.x ∧ s.ScansOver iy bins boundY table.y ∧
        (table.x.mapM fun x => s.valuesAlong offset ((s.currentState.values.set ix x).set iy)
          table.y) s.bench = .ok table.fval bench ∧
        u = { (s.noted boundX).noted boundY with bench } := by
  unfold contour
  simp only [run'_rowsOver]
  constructor
  · intro h
    obtain ⟨offset, _, hbase, h₁⟩ := bind_eq_ok.mp h
    obtain ⟨hoffset, rfl⟩ := scanBaseline_eq_ok.mp hbase
    obtain ⟨_, _, hget, h₂⟩ := bind_eq_ok.mp h₁
    cases hget
    obtain ⟨ix, _, hkeyX, h₃⟩ := bind_eq_ok.mp h₂
    obtain ⟨hix, rfl⟩ := ofExcept_eq_ok.mp hkeyX
    obtain ⟨iy, _, hkeyY, h₄⟩ := bind_eq_ok.mp h₃
    obtain ⟨hiy, rfl⟩ := ofExcept_eq_ok.mp hkeyY
    by_cases heq : ix = iy
    · rw [if_pos heq] at h₄
      cases h₄
    rw [if_neg heq] at h₄
    obtain ⟨x, _, hgridX, h₅⟩ := bind_eq_ok.mp h₄
    obtain ⟨hpointsX, rfl⟩ := scanGrid_eq_ok.mp hgridX
    obtain ⟨y, _, hgridY, h₆⟩ := bind_eq_ok.mp h₅
    obtain ⟨hpointsY, rfl⟩ := scanGrid_eq_ok.mp hgridY
    obtain ⟨fval, _, hbench, h₇⟩ := bind_eq_ok.mp h₆
    obtain ⟨bench, hwork, rfl⟩ := atBench_eq_ok.mp hbench
    cases h₇
    exact ⟨offset, ix, iy, bench, hoffset, hix, hiy, heq, hpointsX, scansOver_noted.mp hpointsY,
      hwork, rfl⟩
  · obtain ⟨x, y, fval⟩ := table
    rintro ⟨offset, ix, iy, bench, hoffset, hix, hiy, hne, hpointsX, hpointsY, hwork, rfl⟩
    refine bind_eq_ok.mpr ⟨offset, s, scanBaseline_eq_ok.mpr ⟨hoffset, rfl⟩, ?_⟩
    refine bind_eq_ok.mpr ⟨s, s, rfl, bind_eq_ok.mpr ⟨ix, s, ofExcept_eq_ok.mpr ⟨hix, rfl⟩, ?_⟩⟩
    refine bind_eq_ok.mpr ⟨iy, s, ofExcept_eq_ok.mpr ⟨hiy, rfl⟩, ?_⟩
    rw [if_neg hne]
    refine bind_eq_ok.mpr ⟨x, _, scanGrid_eq_ok.mpr ⟨hpointsX, rfl⟩, ?_⟩
    refine bind_eq_ok.mpr ⟨y, _, scanGrid_eq_ok.mpr ⟨scansOver_noted.mpr hpointsY, rfl⟩, ?_⟩
    exact bind_eq_ok.mpr ⟨fval, _, atBench_eq_ok.mpr ⟨bench, hwork, rfl⟩, rfl⟩

/-- The options of the minimizations of a scan. -/
def scanOptions (s : Session σ α) : EngineOptions α := ⟨s.strategy, none, s.tol, none, 0⟩

theorem engineOptions_eq_ok {options : EngineOptions α} :
    s.engineOptions none none 0 = .ok options ↔
      isPositive s.tol = true ∧ options = s.scanOptions := by
  unfold engineOptions EngineOptions.ofParts
  cases hpositive : isPositive s.tol with
  | false => exact iff_of_false nofun nofun
  | true =>
    change Except.ok s.scanOptions = Except.ok options ↔ _
    rw [Except.ok.injEq, eq_comm]
    exact ⟨fun h => ⟨rfl, h⟩, And.right⟩

/-- What is reported of the points at which a minimization is not valid. -/
def invalidReports (s : Session σ α) (index : Nat) (x : List α)
    (minima : List (FunctionMinimum α)) : List (Warning α) :=
  ((x.zip minima).filter fun p => !p.2.isValid).map fun p =>
    .scanPointInvalid (s.registry.nameAt index) p.1

omit [Scalar α] in
theorem reportInvalid_eq (s : Session σ α) (index : Nat) (x : List α)
    (minima : List (FunctionMinimum α)) (t : Session σ α) :
    ((x.zip minima).forM fun (xi, m) => do
      if !m.isValid then Action.warn (.scanPointInvalid (s.registry.nameAt index) xi)) t =
        .ok () { t with warnings := t.warnings ++ s.invalidReports index x minima } :=
  forM_warn_filter (fun p : α × FunctionMinimum α => !p.2.isValid)
    (fun p => .scanPointInvalid (s.registry.nameAt index) p.1) (x.zip minima) t

/-- A scan of minimized values has accepted its range, and found a minimum for each point. -/
theorem minimizedProfile_eq_ok {key : Key} {subtractMin : Bool} {table : MinimizedProfile α} :
    minimizedProfile key bins bound subtractMin s = .ok table u ↔
      ∃ i base minima bench, key.resolve s.registry = (.ok i : Except (FitError α) Nat) ∧
        s.ScansOver i bins bound table.x ∧ isPositive s.tol = true ∧
        s.currentState.setFixed i true = .ok base ∧
        s.minimizeAt base i s.scanOptions table.x s.bench = .ok minima bench ∧
        table.fval = (if subtractMin then
          (minima.map (·.fval)).map (· - leastOf (minima.map (·.fval)))
          else minima.map (·.fval)) ∧
        table.valid = minima.map (·.isValid) ∧
        u = { (s.noted bound).reported with
          bench
          warnings := (s.noted bound).reported.warnings ++ s.invalidReports i table.x minima } := by
  unfold minimizedProfile
  constructor
  · intro h
    obtain ⟨_, _, hget, h₁⟩ := bind_eq_ok.mp h
    cases hget
    obtain ⟨i, _, hkey, h₂⟩ := bind_eq_ok.mp h₁
    obtain ⟨hi, rfl⟩ := ofExcept_eq_ok.mp hkey
    obtain ⟨x, _, hgrid, h₃⟩ := bind_eq_ok.mp h₂
    obtain ⟨hpoints, rfl⟩ := scanGrid_eq_ok.mp hgrid
    rw [bind_of_ok (reportErrordef_eq _)] at h₃
    obtain ⟨options, _, hasked, h₄⟩ := bind_eq_ok.mp h₃
    obtain ⟨hoptions, rfl⟩ := ofExcept_eq_ok.mp hasked
    obtain ⟨htol, rfl⟩ := engineOptions_eq_ok.mp hoptions
    obtain ⟨base, _, hfixed, h₅⟩ := bind_eq_ok.mp h₄
    obtain ⟨hbase, rfl⟩ := ofExcept_eq_ok.mp hfixed
    obtain ⟨minima, _, hbench, h₆⟩ := bind_eq_ok.mp h₅
    obtain ⟨bench, hwork, rfl⟩ := atBench_eq_ok.mp hbench
    rw [bind_of_ok (reportInvalid_eq ..)] at h₆
    cases h₆
    exact ⟨i, base, minima, bench, hi, hpoints, htol, hbase, hwork, rfl, rfl, rfl⟩
  · obtain ⟨x, fval, valid⟩ := table
    rintro ⟨i, base, minima, bench, hi, hpoints, htol, hbase, hwork, rfl, rfl, rfl⟩
    refine bind_eq_ok.mpr ⟨s, s, rfl, bind_eq_ok.mpr ⟨i, s, ofExcept_eq_ok.mpr ⟨hi, rfl⟩, ?_⟩⟩
    refine bind_eq_ok.mpr ⟨x, _, scanGrid_eq_ok.mpr ⟨hpoints, rfl⟩, ?_⟩
    rw [bind_of_ok (reportErrordef_eq _)]
    refine bind_eq_ok.mpr ⟨s.scanOptions, _, ofExcept_eq_ok.mpr
      ⟨engineOptions_eq_ok.mpr ⟨htol, rfl⟩, rfl⟩, ?_⟩
    refine bind_eq_ok.mpr ⟨base, _, ofExcept_eq_ok.mpr ⟨hbase, rfl⟩, ?_⟩
    refine bind_eq_ok.mpr ⟨minima, _, atBench_eq_ok.mpr ⟨bench, hwork, rfl⟩, ?_⟩
    exact bind_of_ok (reportInvalid_eq ..) _

/-! ## Refusals -/

/-- A command that gets as far as its ranges: the parameters and the ranges that it asks for. -/
inductive Scans (s : Session σ α) (bins : Nat) : Command α → List (Nat × Bound α) → Prop
  | profile {key bound subtractMin offset i} (hbase : s.baseline? subtractMin = some offset)
    (hkey : key.resolve s.registry = (.ok i : Except (FitError α) Nat)) :
    Scans s bins (.profile key bins bound subtractMin) [(i, bound)]
  | minimizedProfile {key bound subtractMin i}
    (hkey : key.resolve s.registry = (.ok i : Except (FitError α) Nat)) :
    Scans s bins (.minimizedProfile key bins bound subtractMin) [(i, bound)]
  | contour {keyX keyY boundX boundY subtractMin offset ix iy}
    (hbase : s.baseline? subtractMin = some offset)
    (hx : keyX.resolve s.registry = (.ok ix : Except (FitError α) Nat))
    (hy : keyY.resolve s.registry = (.ok iy : Except (FitError α) Nat)) (hne : ix ≠ iy) :
    Scans s bins (.contour keyX keyY bins boundX boundY subtractMin) [(ix, boundX), (iy, boundY)]

omit [Scalar α] in
theorem discard_of_error {β : Type} {x : Action σ α β} {e : FitError α} (h : x s = .error e t) :
    discard x s = .error e t := bind_of_error h _

/-- A command that asks for a range that is not accepted is refused. -/
theorem exists_refusal (hlen : s.currentState.len = s.registry.len) {c : Command α}
    {scans : List (Nat × Bound α)} (h : s.Scans bins c scans)
    (hrefused : ∃ p ∈ scans, ¬∃ lo hi, s.Accepts p.1 bins p.2 lo hi) :
    ∃ p ∈ scans, ∃ f t, s.Refuses p.1 bins p.2 f ∧ c.run s = .error (.configuration f) t := by
  have hindex {key : Key} {i : Nat}
      (hkey : key.resolve s.registry = (.ok i : Except (FitError α) Nat)) :
      i < s.currentState.len := hlen ▸ Key.lt_of_resolve hkey
  cases h with
  | profile hbase hkey =>
    obtain ⟨p, hp, hrefused⟩ := hrefused
    cases List.mem_singleton.mp hp
    obtain ⟨f, t, hf, hgrid⟩ := exists_refuses (hindex hkey) hrefused
    refine ⟨_, hp, f, t, hf, discard_of_error ?_⟩
    unfold Session.profile
    rw [bind_of_ok (scanBaseline_eq_ok.mpr ⟨hbase, rfl⟩)]
    change (Action.ofExcept _ >>= _) s = _
    rw [bind_of_ok (ofExcept_of_ok hkey s), bind_of_error hgrid]
  | minimizedProfile hkey =>
    obtain ⟨p, hp, hrefused⟩ := hrefused
    cases List.mem_singleton.mp hp
    obtain ⟨f, t, hf, hgrid⟩ := exists_refuses (hindex hkey) hrefused
    refine ⟨_, hp, f, t, hf, discard_of_error ?_⟩
    change (Action.ofExcept _ >>= _) s = _
    rw [bind_of_ok (ofExcept_of_ok hkey s), bind_of_error hgrid]
  | @contour keyX keyY boundX boundY subtractMin offset ix iy hbase hx hy hne =>
    obtain ⟨rest, hcontour⟩ : ∃ rest : List α → List α → Action σ α (GridTable α),
        Session.contour keyX keyY bins boundX boundY subtractMin s =
          (scanGrid ix bins boundX >>= fun x => scanGrid iy bins boundY >>= rest x) s := by
      unfold Session.contour
      rw [bind_of_ok (scanBaseline_eq_ok.mpr ⟨hbase, rfl⟩)]
      change ∃ _, (Action.ofExcept _ >>= _) s = _
      rw [bind_of_ok (ofExcept_of_ok hx s), bind_of_ok (ofExcept_of_ok hy s), if_neg hne]
      exact ⟨_, rfl⟩
    by_cases hX : ∃ lo hi, s.Accepts ix bins boundX lo hi
    · have hY : ¬∃ lo hi, (s.noted boundX).Accepts iy bins boundY lo hi := by
        obtain ⟨p, hp, hrefused⟩ := hrefused
        rcases List.mem_pair.mp hp with rfl | rfl
        · exact absurd hX hrefused
        · simpa only [accepts_noted] using hrefused
      obtain ⟨lo, hi, hX⟩ := hX
      obtain ⟨f, t, hf, hgrid⟩ := exists_refuses (s := s.noted boundX) (hindex hy) hY
      refine ⟨(iy, boundY), List.mem_pair.mpr (.inr rfl), f, t, hf.of_noted, discard_of_error ?_⟩
      rw [hcontour, bind_of_ok (scanGrid_eq_ok.mpr ⟨⟨lo, hi, hX, rfl⟩, rfl⟩), bind_of_error hgrid]
    · obtain ⟨f, t, hf, hgrid⟩ := exists_refuses (hindex hx) hX
      refine ⟨(ix, boundX), List.mem_pair.mpr (.inl rfl), f, t, hf, discard_of_error ?_⟩
      rw [hcontour, bind_of_error hgrid]

end Session

/-! ## Points in doubles -/

/-- What is not a number is moved to the lower bound. -/
theorem Limit.clamp_of_isNaN {l : Limit Float} {x : Float} (h : l.lower ≤ l.upper)
    (hx : x.isNaN = true) : l.clamp x = l.lower := by
  have hmax : Scalar.maxNum x l.lower = l.lower := if_pos hx
  rw [clamp, hmax, minNum_of_le h]

/-- What the points of an accepted range of an entry are like. -/
structure ScansBetween (e : Entry Float) (bins : Nat) (bound : Bound Float) (lo hi : Float)
    (x : List Float) : Prop where
  length : x.length = bins
  last : x.getLast? = some hi
  /-- The points are a grid exactly if the last but one is not beyond the end, -/
  grid : bins ≤ 2 ^ 64 → (IsGrid lo hi bins x ↔ pointAt lo hi (bins - 1) (bins - 2) ≤ hi)
  /-- and with steps that do not underflow exactly if the width does not overflow. -/
  normal : bins ≤ 2 ^ 51 → Scalar.leastNormal ≤ stepOf lo hi (bins - 1) →
    (IsGrid lo hi bins x ↔ (hi - lo).isFinite)
  /-- The points of a grid are within the limit. -/
  within : e.lower ≤ e.upper → IsGrid lo hi bins x → ∀ y ∈ x, e.limit.Holds y
  /-- The upper end that was asked for is a number. If the lower one is not, the scan starts at the
  lower bound. -/
  asked : e.lower ≤ e.upper → (Session.scanEnds e bound).2.isNaN = false ∧
    ((Session.scanEnds e bound).1.isNaN = true → lo = e.lower)

namespace Session

variable {s : Session σ Float} {index bins : Nat} {bound : Bound Float} {lo hi : Float}

theorem Accepts.scansBetween (h : s.Accepts index bins bound lo hi) :
    ∃ e, s.currentState.entries[index]? = some e ∧ scanSpan e bound = (lo, hi) ∧
      ScansBetween e bins bound lo hi (evenlySpaced lo hi bins) := by
  obtain ⟨hbins, ⟨e, he, hends⟩, hspan⟩ := h
  obtain ⟨k, rfl⟩ : ∃ k, bins = k + 1 := ⟨bins - 1, by omega⟩
  have hk : 1 ≤ k := by omega
  have hlo : e.limit.clamp (scanEnds e bound).1 = lo := congrArg Prod.fst hends
  have hhi : e.limit.clamp (scanEnds e bound).2 = hi := congrArg Prod.snd hends
  have hlower (hle : e.lower ≤ e.upper) : e.lower ≤ lo := hlo ▸ (e.limit.holds_clamp hle _).lower
  have hupper (hle : e.lower ≤ e.upper) : hi ≤ e.upper := hhi ▸ (e.limit.holds_clamp hle _).upper
  refine ⟨e, he, hends, ?_⟩
  exact {
    length := by rw [evenlySpaced_succ]; simp
    last := by rw [evenlySpaced_succ]; simp
    grid := fun hword => hspan.isGrid_iff hk (by omega)
    normal := fun hword => hspan.isGrid_iff_of_normal hk (by omega)
    within := fun hle hgrid y hy =>
      have ⟨hlow, hhigh⟩ := hgrid.between y hy
      ⟨float_le_trans (hlower hle) hlow, float_le_trans hhigh (hupper hle)⟩
    asked := fun hle => by
      refine ⟨?_, fun hnan => hlo.symm.trans (Limit.clamp_of_isNaN hle hnan)⟩
      by_contra hnan
      -- Else the scan would end at the lower bound, and start before it.
      have hend := hhi.symm.trans (Limit.clamp_of_isNaN hle (eq_true_of_ne_false hnan))
      have hlt := hspan.nonempty
      rw [hend] at hlt
      have ⟨hlow, hhigh⟩ := isNaN_of_lt hlt
      exact (float_not_lt hlow hhigh).mpr (hlower hle) hlt }

/-- The points of an accepted range of the parameter that the key stands for. -/
def ScansAlong (s : Session σ Float) (key : Key) (bins : Nat) (bound : Bound Float)
    (x : List Float) : Prop :=
  ∃ i, key.resolve s.registry = (.ok i : Except (FitError Float) Nat) ∧ s.ScansOver i bins bound x

/-- What a session scans, and, if its current state has as many entries as there are registered
names, what it refuses to scan. -/
structure ScansInRange (s : Session σ Float) : Prop where
  profile : ∀ {key bins bound subtractMin table u},
    Session.profile key bins bound subtractMin s = .ok table u →
      s.ScansAlong key bins bound table.x
  minimizedProfile : ∀ {key bins bound subtractMin table u},
    Session.minimizedProfile key bins bound subtractMin s = .ok table u →
      s.ScansAlong key bins bound table.x
  contour : ∀ {keyX keyY bins boundX boundY subtractMin table u},
    Session.contour keyX keyY bins boundX boundY subtractMin s = .ok table u →
      s.ScansAlong keyX bins boundX table.x ∧ s.ScansAlong keyY bins boundY table.y
  points : ∀ {i bins bound lo hi}, s.Accepts i bins bound lo hi →
    ∃ e, s.currentState.entries[i]? = some e ∧ scanSpan e bound = (lo, hi) ∧
      ScansBetween e bins bound lo hi (evenlySpaced lo hi bins)
  refused : s.currentState.len = s.registry.len → ∀ {bins c scans}, s.Scans bins c scans →
    (∃ p ∈ scans, ¬∃ lo hi, s.Accepts p.1 bins p.2 lo hi) →
      ∃ p ∈ scans, ∃ f t, s.Refuses p.1 bins p.2 f ∧ c.run s = .error (.configuration f) t

end Session

/-- **The points of a scan.** A scan succeeds only with ranges that are accepted: with two points or
more, and with something between the ends when these have been moved into the limit. Where the
current state has as many entries as there are registered names, which is so with every engine that
adds and drops none (`Engine.KeepsLength`), all others are refused as they should be. The points are
as many as were asked for, and end at the upper end; if the last but one is not beyond it, they are
numbers in order, from end to end and within the limit. Steps that do not underflow are enough for
that, if the width does not overflow; if it does, the points are not a grid. -/
theorem scan_points (s : Session σ Float) : s.ScansInRange where
  profile h := by
    obtain ⟨-, i, -, -, hkey, hpoints, -⟩ := Session.profile_eq_ok.mp h
    exact ⟨i, hkey, hpoints⟩
  minimizedProfile h := by
    obtain ⟨i, -, -, -, hkey, hpoints, -⟩ := Session.minimizedProfile_eq_ok.mp h
    exact ⟨i, hkey, hpoints⟩
  contour h := by
    obtain ⟨-, ix, iy, -, -, hkeyX, hkeyY, -, hX, hY, -⟩ := Session.contour_eq_ok.mp h
    exact ⟨⟨ix, hkeyX, hX⟩, ⟨iy, hkeyY, hY⟩⟩
  points := Session.Accepts.scansBetween
  refused hlen _ _ _ h := Session.exists_refusal hlen h

/-- Five points from 0 to 2 are a grid. -/
theorem scan_points_oneParameter :
    ∃ s₀ : Session Unit Float,
      oneParameter.build sumOfSquares (quasiNewton .standard) () 0 = .ok s₀ ∧
        s₀.Accepts 0 5 (.range 0 2) 0 2 ∧ IsGrid 0 2 5 (evenlySpaced 0 2 5) := by
  obtain ⟨s₀, hbuild, h⟩ := exists_build_oneParameter (quasiNewton .standard) ()
    (P := fun s => s.currentState.entries[0]?.any fun e =>
      decide (Session.scanSpan e (.range 0 2) = (0, 2))) (by decide +kernel)
  obtain ⟨e, he, hends⟩ := (Option.any_eq_true _ _).mp h
  have haccepts : s₀.Accepts 0 5 (.range 0 2) 0 2 :=
    ⟨by decide, ⟨e, he, of_decide_eq_true hends⟩, rfl, rfl, by decide +kernel⟩
  obtain ⟨_, -, -, hbetween⟩ := (scan_points s₀).points haccepts
  exact ⟨s₀, hbuild, haccepts, (hbetween.grid (by norm_num)).mpr (by decide +kernel)⟩

/-- Two points that are too far apart: the first one is not a number. And a range of which the lower
end is not a number, which is accepted with a lower bound. -/
theorem scans_without_numbers :
    (∃ s₀ : Session Unit Float,
      oneParameter.build sumOfSquares (quasiNewton .standard) () 0 = .ok s₀ ∧
        ∃ table u, Session.profile (.index 0) 2 (.range (-1e308) 1e308) false s₀ = .ok table u ∧
          ∃ x ∈ table.x, x.isNaN = true) ∧
    ∃ s₀ : Session Unit Float,
      (oneParameterAbove 0).build sumOfSquares (quasiNewton .standard) () 0 = .ok s₀ ∧
        succeeded (Session.profile (.index 0) 2 (.range (0 / 0) 2) false s₀) = true := by
  constructor
  · obtain ⟨s₀, hbuild, h⟩ := exists_build_oneParameter (quasiNewton .standard) ()
      (P := fun s =>
        (answerOf (Session.profile (.index 0) 2 (.range (-1e308) 1e308) false s)).toOption.any
          fun table => table.x.any (·.isNaN)) (by decide +kernel)
    obtain ⟨table, u, hscan, hnan⟩ := exists_ok_of_answer h
    obtain ⟨x, hx, hnan⟩ := List.any_eq_true.mp hnan
    exact ⟨s₀, hbuild, table, u, hscan, x, hx, hnan⟩
  · exact exists_ok_of_any
      (x := (oneParameterAbove 0).build sumOfSquares (quasiNewton .standard) () 0)
      (P := fun s => succeeded (Session.profile (.index 0) 2 (.range (0 / 0) 2) false s))
      (by decide +kernel)

end FitSession
