import FitSession.Proofs.Session.Change

/-!
# Warnings of commands and runs

Warnings are only ever added at the end, until a caller takes all of them. A missing errordef is
reported at most once, however often the warnings are taken.

* `Session.recorded`, `Session.recordedAll`: the warnings of a command and of a run;
* `Session.warnings_after`: a command adds its warnings at the end;
* `Session.unsetReports_recordedAll`: **reports of a missing errordef** in a run;
* `SessionSpec.unsetReports_of_build`: a session that has just been built has reported nothing
  missing.
-/

namespace FitSession

variable {σ α : Type} [Scalar α] {s t : Session σ α} {c : Command α}

namespace Session

/-- The warnings that a command records: those at the end that were not there before. -/
def recorded (s : Session σ α) (c : Command α) : List (Warning α) :=
  (s.after c).warnings.drop s.warnings.length

/-- The warnings that a run records. -/
def recordedAll (s : Session σ α) : List (Command α) → List (Warning α)
  | [] => []
  | c :: cs => s.recorded c ++ (s.after c).recordedAll cs

end Session

/-- No edit records a warning, and none makes a session forget that it reported something. -/
theorem Edit.warnings (h : Edit s c t) :
    (t.warnings = s.warnings ∨ c = .drainWarnings ∧ t.warnings = []) ∧
      t.reportsLeft ≤ s.reportsLeft := by
  cases h with
  | drained => exact ⟨.inr ⟨rfl, rfl⟩, Nat.le_refl _⟩
  | errordef => exact ⟨.inl rfl, Nat.zero_le _⟩
  | written => simp [Session.reportsLeft]
  | _ => exact ⟨.inl rfl, Nat.le_refl _⟩

namespace Session

/-- Unless it takes them, a command adds its warnings at the end. -/
theorem warnings_after (hc : c ≠ .drainWarnings) :
    (s.after c).warnings = s.warnings ++ s.recorded c := by
  obtain ⟨edit, beside⟩ := change_after s c
  obtain ⟨ws, hws, -⟩ := beside.reports
  rcases edit.warnings.1 with hw | ⟨rfl, -⟩
  · rw [recorded, hws, hw, List.drop_left]
  · exact absurd rfl hc

theorem recorded_eq {ws : List (Warning α)} (h : (s.after c).warnings = s.warnings ++ ws) :
    s.recorded c = ws := by
  rw [recorded, h, List.drop_left]

/-- What a command reports as missing is taken from what was left to report. -/
theorem unsetReports_recorded (s : Session σ α) (c : Command α) :
    unsetReports (s.recorded c) + (s.after c).reportsLeft ≤ s.reportsLeft := by
  obtain ⟨edit, beside⟩ := change_after s c
  obtain ⟨ws, hws, hleft⟩ := beside.reports
  obtain ⟨hw, hleft'⟩ := edit.warnings
  have hrecorded : unsetReports (s.recorded c) ≤ unsetReports ws := by
    rcases hw with hw | ⟨-, hw⟩
    · exact Nat.le_of_eq (by rw [recorded, hws, hw, List.drop_left])
    · rw [recorded, hws, hw, List.nil_append]
      exact (List.drop_sublist _ ws).countP_le
  omega

/-- What a run reports as missing is taken from what was left to report. -/
theorem unsetReports_recordedAll (s : Session σ α) (cs : List (Command α)) :
    unsetReports (s.recordedAll cs) + (s.afterAll cs).reportsLeft ≤ s.reportsLeft := by
  induction cs generalizing s with
  | nil => simp [recordedAll]
  | cons c cs ih =>
    have hfirst := s.unsetReports_recorded c
    have hrest := ih (s.after c)
    rw [recordedAll, unsetReports_append, afterAll_cons]
    omega

end Session

/-! ## Sessions that have just been built -/

/-- The only warning on an entry is that its value is missing. -/
theorem StartSpec.unsetReports_entry {spec : StartSpec α} {limits : List (String × Limit α)}
    {index : Nat} {name : String} {r : Entry α × List (Warning α)}
    (h : spec.entry limits index name = .ok r) : unsetReports r.2 = 0 := by
  unfold StartSpec.entry startEntry at h
  extract_lets rest seeded at h
  -- what comes after the value hands its warnings on
  have hrest (p : α × List (Warning α)) (hp : rest p = .ok r) : r.2 = p.2 := by
    simp only [rest] at hp
    split at hp
    · obtain ⟨_, -, hp⟩ := except_bind_eq_ok.mp hp
      cases hp
      rfl
    · cases hp
      rfl
  clear_value rest
  split at h
  · obtain ⟨_, -, h⟩ := except_bind_eq_ok.mp h
    rw [pure_bind] at h
    rw [hrest _ h]
    rfl
  · rw [pure_bind] at h
    rw [hrest _ h]
    rfl

theorem StartSpec.unsetReports_of_build {spec : StartSpec α} {cost : Cost α} {chain : NameChain α}
    {start : Start α} (h : spec.build cost chain = .ok start) :
    unsetReports start.warnings = 0 := by
  obtain ⟨registry, limits, built, -, hbuilt, rfl⟩ := exists_of_build h
  refine List.countP_eq_zero.mpr fun w hw => ?_
  obtain ⟨r, hr, hw⟩ := List.mem_flatMap.mp hw
  obtain ⟨_, -, hentry⟩ := mem_mapM_ok hbuilt r hr
  exact List.countP_eq_zero.mp (unsetReports_entry hentry) w hw

/-- A session that has just been built has reported no missing errordef. -/
theorem SessionSpec.unsetReports_of_build {spec : SessionSpec α} {cost : Cost α}
    {engine : Engine σ α} {memory : σ} {shared : Int}
    (h : spec.build cost engine memory shared = .ok s) : unsetReports s.warnings = 0 := by
  obtain ⟨params, errordef, start, -, hstart, rfl⟩ := exists_of_build h
  have hlevel : unsetReports (spec.levelWarnings shared) = 0 := by
    unfold levelWarnings
    split <;> rfl
  rw [made, unsetReports_append, StartSpec.unsetReports_of_build hstart, hlevel]

end FitSession
