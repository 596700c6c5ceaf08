import FitSession.Proofs.Engine.QuasiNewton
import FitSession.Proofs.Scalar
import FitSession.Proofs.Session.Warnings

/-!
# The errordef along a run

There are three records of the errordef: the number at the bench, which a session scales while it
looks for intervals, the mark of the stored minimum, and whether a missing errordef was reported.
They agree at the end of every command, whether it succeeds or fails.

* `Engine.IntervalCalls`, `Command.lentScaled`: **what the engine is shown** while the errordef is
  scaled;
* `Session.IsMarked`, `Change.isMarked`, `Change.errordef`: the errordef and the mark of the
  minimum;
* `ErrordefInOrder`, `errordef_in_order`: **the records agree after every run**, and a missing
  errordef is reported at most once in it.
-/

namespace FitSession

variable {σ α β : Type}

/-! ## Scaled errordefs -/

/-- One search of the engine for the ends of an interval or for a contour line, at a bench whose
errordef is `up`. -/
inductive Engine.IntervalCall (E : Engine σ α) (up : α) (b : Bench σ α) : Bench σ α → Prop
  | minos (hup : b.up = up) (cost : Cost α) (m : FunctionMinimum α) (index : Nat)
    (o : EngineOptions α) : E.IntervalCall up b (endState (E.minos cost m index o b))
  | contourLine (hup : b.up = up) (cost : Cost α) (m : FunctionMinimum α) (ix iy count : Nat)
    (o : EngineOptions α) :
    E.IntervalCall up b (endState (E.contourLine cost m ix iy count o b))

/-- From one bench to the other by such searches alone, each at a bench whose errordef is `up`. -/
def Engine.IntervalCalls (E : Engine σ α) (up : α) : Bench σ α → Bench σ α → Prop :=
  Relation.ReflTransGen (E.IntervalCall up)

instance (E : Engine σ α) (up : α) : Chains (E.IntervalCalls up) where
  refl _ := .refl
  trans := .trans

/-- The second bench is what the engine makes of the first one in searches that are shown the
errordef times `factor`, with the errordef put back. -/
def Engine.LentScaled [Mul α] (E : Engine σ α) (factor : α) (b b' : Bench σ α) : Prop :=
  ∃ c, E.IntervalCalls (b.up * factor) { b with up := b.up * factor } c ∧
    c.up = b.up * factor ∧ b' = { c with up := b.up }

instance [Mul α] (E : Engine σ α) (factor : α) : Chains (E.LentScaled factor) where
  refl b := ⟨_, .refl, rfl, rfl⟩
  trans := by
    rintro b _ _ ⟨c, hcalls, hup, rfl⟩ ⟨d, hcalls', hup', rfl⟩
    obtain ⟨up, nfcn, ngrad, memory⟩ := c
    cases hup
    exact ⟨d, hcalls.trans hcalls', hup', rfl⟩

section Calls

variable {E : Engine σ α} {up : α}

/-- What the engine leaves of a bench with the errordef `up`: another one, by searches alone. -/
def Engine.Searches (E : Engine σ α) (up : α) (b c : Bench σ α) : Prop :=
  b.up = up → c.up = up ∧ E.IntervalCalls up b c

instance : Chains (E.Searches up) := Chains.guarded

theorem searches_minos (hE : E.KeepsErrordef) (cost : Cost α) (m : FunctionMinimum α) (index : Nat)
    (o : EngineOptions α) : Keeps (E.Searches up) (E.minos cost m index o) :=
  fun b hup => ⟨(hE.minos cost m index o b).trans hup, .single (.minos hup cost m index o)⟩

theorem searches_contourLine (hE : E.KeepsErrordef) (cost : Cost α) (m : FunctionMinimum α)
    (ix iy count : Nat) (o : EngineOptions α) :
    Keeps (E.Searches up) (E.contourLine cost m ix iy count o) :=
  fun b hup => ⟨(hE.contourLine cost m ix iy count o b).trans hup,
    .single (.contourLine hup cost m ix iy count o)⟩

/-- Searches at a scaled errordef are shown nothing else. -/
theorem lentScaled_withScaledUp [Mul α] {work : Run σ α β} (h : ∀ up, Keeps (E.Searches up) work)
    (factor : α) : Keeps (E.LentScaled factor) (Run.withScaledUp factor work) := by
  intro b
  have hwork := h (b.up * factor) { b with up := b.up * factor } rfl
  unfold Run.withScaledUp
  cases hw : work { b with up := b.up * factor } with
  | ok x after =>
    rw [hw] at hwork
    exact ⟨after, hwork.2, hwork.1, rfl⟩
  | error e after =>
    rw [hw] at hwork
    exact ⟨after, hwork.2, hwork.1, rfl⟩

end Calls

variable [Scalar α] {E : Engine σ α} {up : α} {s t u : Session σ α} {c : Command α}

namespace Session

omit [Scalar α] in
theorem searches_intervals (hE : E.KeepsErrordef) (hs : s.engine = E) (m : FunctionMinimum α)
    (o : EngineOptions α) (indices : List Nat) :
    Keeps (E.Searches up) (s.intervals m o indices) := by
  subst hs
  exact Keeps.mapM (fun _ => (searches_minos hE _ _ _ _).bind fun _ => Keeps.pure _) indices

omit [Scalar α] in
theorem searches_lineWithErrors (hE : E.KeepsErrordef) (hs : s.engine = E)
    (m : FunctionMinimum α) (ix iy points : Nat) (o : EngineOptions α) :
    Keeps (E.Searches up) (s.lineWithErrors m ix iy points o) := by
  subst hs
  refine (searches_minos hE _ _ _ _).bind fun ex => (searches_minos hE _ _ _ _).bind fun ey => ?_
  exact (searches_contourLine hE _ _ _ _ _ _).bind fun points => Keeps.pure _

/-- Storing intervals does not touch the bench. -/
theorem bench_minos (names : List String) (sigma : α) (callLimit : Option Nat) (s : Session σ α) :
    (endState (minos names sigma callLimit s)).bench =
      (endState (findIntervals names sigma callLimit s)).bench := by
  change (endState ((findIntervals names sigma callLimit >>= fun found =>
    modify (·.withIntervals found)) s)).bench = _
  rw [bind_apply]
  cases findIntervals names sigma callLimit s <;> rfl

theorem lentScaled_minos (hE : s.engine.KeepsErrordef) (names : List String) (sigma : α)
    (callLimit : Option Nat) :
    s.engine.LentScaled (sigma * sigma) s.bench
      (endState (minos names sigma callLimit s)).bench := by
  rw [bench_minos]
  refine (aside_findIntervals (R := s.engine.LentScaled (sigma * sigma)) names sigma callLimit
    (fun t m o indices ht => ?_) s rfl).bench
  exact lentScaled_withScaledUp (fun _ => searches_intervals hE ht m o indices) _

end Session

/-- How many standard deviations a command looks for, if it does. -/
def Command.sigma? : Command α → Option α
  | .minos _ sigma _ | .contourLine _ _ _ sigma => some sigma
  | .minosAtConfidence _ level _ => (sigmaForConfidence level).toOption
  | _ => none

/-- **A command that looks for intervals shows the engine the scaled errordef**, in every one of its
calls, and puts the errordef back. -/
theorem Command.lentScaled (hE : s.engine.KeepsErrordef) {sigma : α} (h : c.sigma? = some sigma) :
    s.engine.LentScaled (sigma * sigma) s.bench (s.after c).bench := by
  cases c with
  | minos names sigma' callLimit =>
    cases h
    exact Session.lentScaled_minos hE names sigma callLimit
  | minosAtConfidence names level callLimit =>
    cases hlevel : sigmaForConfidence level with
    | error e => simp [sigma?, hlevel, Except.toOption] at h
    | ok sigma' =>
      simp only [sigma?, hlevel, Except.toOption, Option.some.injEq] at h
      subst h
      change s.engine.LentScaled _ _
        (endState ((Action.ofExcept (sigmaForConfidence level) >>= _) s)).bench
      rw [hlevel]
      exact Session.lentScaled_minos hE names sigma' callLimit
  | contourLine keyX keyY points sigma' =>
    cases h
    refine ((Session.aside_contourLine keyX keyY points sigma fun t m ix iy o ht => ?_).map s
      rfl).bench
    exact lentScaled_withScaledUp
      (fun _ => Session.searches_lineWithErrors hE ht m ix iy points o) _
  | _ => cases h

/-! ## The errordef and the mark of the minimum -/

/-- The errordef is finite and positive, and the stored minimum is marked with it. -/
structure Session.IsMarked (s : Session σ α) : Prop where
  positive : isPositive s.errordef = true
  minimum : ∀ m, s.fmin = some m → m.up = s.errordef

theorem Edit.isMarked (hE : s.engine.FollowsErrordef) (h : Edit s c t) (hs : s.IsMarked) :
    t.IsMarked := by
  cases h with
  | none => exact hs
  | written => exact ⟨by simpa [Session.errordef] using hs.positive,
      by simpa [Session.errordef] using hs.minimum⟩
  | minimum hm hup => exact ⟨hs.positive, fun _ h => Option.some.inj h ▸ hup hE⟩
  | refined hm hm' hup =>
    exact ⟨hs.positive, fun _ h => Option.some.inj h ▸ (hup hE).trans (hs.minimum _ hm)⟩
  | apart => exact ⟨hs.positive, hs.minimum⟩
  | counted =>
    refine ⟨hs.positive, fun m h => ?_⟩
    obtain ⟨m, hm, rfl⟩ := Option.map_eq_some_iff.mp h
    exact hs.minimum m hm
  | errordef hup =>
    refine ⟨hup, fun m h => ?_⟩
    obtain ⟨m, hm, rfl⟩ := Option.map_eq_some_iff.mp h
    rfl
  | settings => exact ⟨hs.positive, hs.minimum⟩
  | drained => exact ⟨hs.positive, hs.minimum⟩
  | reset => exact ⟨hs.positive, fun _ h => nomatch h⟩

/-- Work on the side does not touch the errordef or the minimum. -/
theorem Beside.isMarked (hE : E.FollowsErrordef) (h : Beside E.Leaves s t) (hs : s.IsMarked) :
    t.IsMarked := by
  have hup : t.errordef = s.errordef := h.bench hE
  refine ⟨hup ▸ hs.positive, ?_⟩
  rw [hup, show t.fmin = s.fmin by rw [h.results]]
  exact hs.minimum

/-- The errordef stays finite and positive, and the mark of the minimum follows it. -/
theorem Change.isMarked (hE : s.engine.FollowsErrordef) (h : Change s c u) (hs : s.IsMarked) :
    u.IsMarked := by
  obtain ⟨edit, beside⟩ := h
  exact beside.isMarked hE (edit.isMarked hE hs)

/-- The errordef is only changed by a command that sets it. -/
theorem Change.errordef (hE : s.engine.FollowsErrordef) (h : Change s c u) :
    u.errordef = s.errordef ∨
      ∃ up, c = .setErrordef up ∧ isPositive up = true ∧ u.errordef = up := by
  obtain ⟨edit, beside⟩ := h
  have hup := beside.bench hE
  cases edit with
  | errordef h => exact .inr ⟨_, rfl, h, hup⟩
  | written => exact .inl (hup.trans (by simp [Session.errordef]))
  | _ => exact .inl hup

/-- An errordef that is finite and positive is accepted. -/
theorem Session.setErrordef_eq_ok (h : isPositive up = true) (s : Session σ α) :
    setErrordef up s = .ok () { s with
      bench := { s.bench with up }, errordefSettled := true,
      fmin := s.fmin.map fun m => { m with up } } := by
  change (Action.ofExcept (requireErrordef up) >>= _) s = _
  rw [requireErrordef, if_pos h]
  rfl

/-- An errordef that was set is not reported as missing. -/
theorem Session.reportsLeft_of_setErrordef {s t : Session σ α}
    (h : (Command.setErrordef up).run s = .ok () t) : t.reportsLeft = 0 := by
  obtain ⟨_, _, -, h⟩ := bind_eq_ok.mp h
  cases h
  rfl

/-! ## Whole runs -/

/-- What a session does with its errordef. It is finite and positive, and the stored minimum is
marked with it. Only a command that sets it and succeeds changes it. A command that looks for
intervals at `sigma` standard deviations shows the engine the errordef times `sigma²` in each of its
calls, and leaves the bench as the engine left it, but for the errordef, which is what it was. Once
it was set, it is never reported as missing. -/
structure ErrordefInOrder (s : Session σ α) : Prop where
  positive : isPositive s.errordef = true
  minimum : ∀ m, s.fmin = some m → m.up = s.errordef
  changed : ∀ c, (s.after c).errordef ≠ s.errordef →
    ∃ up, c = .setErrordef up ∧ c.run s = .ok () (s.after c) ∧ (s.after c).errordef = up
  lent : ∀ (c : Command α) sigma, c.sigma? = some sigma →
    ∃ b, s.engine.IntervalCalls (s.errordef * (sigma * sigma))
      { s.bench with up := s.errordef * (sigma * sigma) } b ∧
        (s.after c).bench = { b with up := s.errordef }
  recorded : ∀ c, c ≠ .drainWarnings → (s.after c).warnings = s.warnings ++ s.recorded c
  settled : ∀ up t, (Command.setErrordef up).run s = .ok () t →
    ∀ later, unsetReports (t.recordedAll later) = 0

theorem Session.IsMarked.inOrder (hE : s.engine.FollowsErrordef) (hs : s.IsMarked) :
    ErrordefInOrder s where
  positive := hs.positive
  minimum := hs.minimum
  changed c h := by
    rcases (change_after s c).errordef hE with hsame | ⟨up, rfl, hup, hset⟩
    · exact absurd hsame h
    · refine ⟨up, rfl, ?_, hset⟩
      change Session.setErrordef up s = .ok () (endState (Session.setErrordef up s))
      rw [Session.setErrordef_eq_ok hup]
      rfl
  lent c sigma h := by
    obtain ⟨b, hcalls, -, hb⟩ := Command.lentScaled hE.toKeepsErrordef h
    exact ⟨b, hcalls, hb⟩
  recorded c hc := Session.warnings_after hc
  settled up t h later := by
    have hrun := t.unsetReports_recordedAll later
    rw [Session.reportsLeft_of_setErrordef h] at hrun
    omega

/-- A session that has just been built is marked, and has nothing to report if it was given an
errordef. -/
theorem SessionSpec.isMarked_of_build [OrderedScalar α] {spec : SessionSpec α} {cost : Cost α}
    {engine : Engine σ α} {memory : σ} {shared : Int} {s : Session σ α}
    (h : spec.build cost engine memory shared = .ok s) :
    s.IsMarked ∧ ((spec.errordef.isSome ∨ cost.errordef.isSome) → s.reportsLeft = 0) := by
  obtain ⟨params, errordef, start, hgiven, -, rfl⟩ := exists_of_build h
  unfold givenErrordef at hgiven
  cases hup : (spec.errordef <|> cost.errordef) with
  | none =>
    rw [hup] at hgiven
    cases hgiven
    refine ⟨⟨OrderedScalar.isPositive_one, fun _ hm => nomatch hm⟩, fun h => ?_⟩
    rcases h with h | h <;> simp_all
  | some up =>
    rw [hup] at hgiven
    obtain ⟨_, hpositive, hgiven⟩ := except_bind_eq_ok.mp hgiven
    cases hgiven
    exact ⟨⟨isPositive_of_requireErrordef hpositive, fun _ hm => nomatch hm⟩,
      fun _ => rfl⟩

/-- **The errordef is in order after every run** with an engine that leaves it and marks minima with
it. In a whole run, the building of the session included, a missing errordef is reported at most
once, and never if there was one when the session was built. -/
theorem errordef_in_order [OrderedScalar α] {spec : SessionSpec α} {cost : Cost α}
    {engine : Engine σ α} {memory : σ} {shared : Int} {s₀ : Session σ α}
    (hE : engine.FollowsErrordef) (hbuild : spec.build cost engine memory shared = .ok s₀)
    (cs : List (Command α)) :
    ErrordefInOrder (s₀.afterAll cs) ∧ unsetReports (s₀.warnings ++ s₀.recordedAll cs) ≤ 1 ∧
      ((spec.errordef.isSome ∨ cost.errordef.isSome) →
        unsetReports (s₀.warnings ++ s₀.recordedAll cs) = 0) := by
  have hengine := (SessionSpec.fresh_of_build hbuild).engine
  obtain ⟨hmarked, hgiven⟩ := SessionSpec.isMarked_of_build hbuild
  have hrun : SameSetup s₀ (s₀.afterAll cs) ∧ (s₀.afterAll cs).IsMarked := by
    refine Session.afterAll_invariant (I := fun t => SameSetup s₀ t ∧ t.IsMarked) ?_
      ⟨Chains.refl s₀, hmarked⟩ cs
    rintro t c ⟨hsetup, ht⟩
    have hchange := change_after t c
    have hEt : t.engine.FollowsErrordef := by rwa [hsetup.engine, hengine]
    exact ⟨Chains.trans hsetup hchange.sameSetup, hchange.isMarked hEt ht⟩
  have hreports := s₀.unsetReports_recordedAll cs
  have hleft : s₀.reportsLeft ≤ 1 := by
    unfold Session.reportsLeft
    split <;> decide
  rw [unsetReports_append, SessionSpec.unsetReports_of_build hbuild]
  refine ⟨hrun.2.inOrder ?_, by omega, fun h => ?_⟩
  · rwa [hrun.1.engine, hengine]
  · have := hgiven h
    omega

/-- A fit, and another one after the warnings were taken and everything was reset. -/
def twoFits : List (Command Float) :=
  [.migrad .standard, .drainWarnings, .reset, .migrad .standard]

/-- A session with one parameter reports once that it has no errordef, in two fits with a reset
between them. Then its errordef is in order when it finds an interval. -/
theorem errordef_in_order_oneParameter :
    ∃ s₀ : Session Unit Float,
      oneParameter.build sumOfSquares (quasiNewton .standard) () 0 = .ok s₀ ∧
        succeeded ((Command.minos [] 2 none).run (s₀.afterAll twoFits)) = true ∧
          unsetReports (s₀.warnings ++ s₀.recordedAll twoFits) = 1 ∧
            ErrordefInOrder (s₀.afterAll twoFits) := by
  obtain ⟨s₀, hbuild, h⟩ := exists_build_oneParameter (quasiNewton .standard) ()
    (P := fun s => succeeded ((Command.minos [] 2 none).run (s.afterAll twoFits)) &&
      unsetReports (s.warnings ++ s.recordedAll twoFits) == 1) (by decide +kernel)
  obtain ⟨hminos, hreports⟩ := Bool.and_eq_true_iff.mp h
  exact ⟨s₀, hbuild, hminos, eq_of_beq hreports,
    (errordef_in_order quasiNewtonWith_followsErrordef hbuild twoFits).1⟩

end FitSession
