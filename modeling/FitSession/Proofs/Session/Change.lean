import FitSession.Proofs.Session.Aside
import FitSession.Proofs.Session.Built
import FitSession.Proofs.Session.Write

/-!
# What a command changes

Every command, whether it succeeds or fails, makes one of a few changes to a session. What is true
of sessions after any run is read off these changes.

* `WrittenFrom`, `MadeFrom`: what writes make of a state, and what an engine makes of it;
* `Edit`, `Change`, `change_after`: the changes, and that **a command makes one of them**;
* `Change.sameSetup`, `Change.frozen`: what is never changed, and what is not changed any more;
* `HoldsOfStates`, `Session.afterAll_holdsOfStates`: **what neither writes nor the engine destroy
  holds of all states after every run**;
* `Session.options`, `Session.engineOptions_eq`, `Session.tolerance_afterAll`: the options of engine
  calls, of which only the precision can be wrong.
-/

namespace FitSession

variable {σ α β Item Input : Type}

/-- The second state may come from the first one by writes: it has every property that no write
destroys. -/
def WrittenFrom [Scalar α] (st st' : ParameterState α) : Prop :=
  ∀ P, WriteInvariant P → P st → P st'

/-- The second state may have been made by the engine of a session from the first one: it has
every property that the engine hands on. -/
def MadeFrom (s : Session σ α) (st st' : ParameterState α) : Prop :=
  ∀ P, s.engine.Respects s.cost P → P st → P st'

/-- Whether a command looks for intervals. -/
def Command.findsIntervals : Command α → Bool
  | .minos _ _ _ | .minosAtConfidence _ _ _ => true
  | _ => false

/-- What a command may make of the results and settings of a session. Only a command that sets the
errordef does so, and so it is with those that look for intervals, forget the warnings or forget the
results. -/
inductive Edit [Scalar α] (s : Session σ α) : Command α → Session σ α → Prop
  | none {c : Command α} : Edit s c s
  | written {c : Command α} {st : ParameterState α} (hst : WrittenFrom s.currentState st) :
    Edit s c (s.replaceState st)
  | minimum {c : Command α} {m : FunctionMinimum α} (hm : MadeFrom s s.currentState m.state)
    (hup : s.engine.FollowsErrordef → m.up = s.errordef) : Edit s c (s.withMinimum m)
  | refined {c : Command α} {m m' : FunctionMinimum α} {slot : Slot α} (hm : s.fmin = some m)
    (hm' : MadeFrom s m.state m'.state) (hup : s.engine.FollowsErrordef → m'.up = m.up)
    (hslot : slot = s.slot ∨ slot = .minimum) : Edit s c { s with fmin := some m', slot }
  | apart {c : Command α} {st : ParameterState α} (hst : MadeFrom s s.currentState st) :
    Edit s c { s with slot := .detached st }
  | counted {c : Command α} (hc : c.findsIntervals = true) (nfcn ngrad : Nat)
    (merrors : MinosErrors α) :
    Edit s c { s with fmin := s.fmin.map fun m => { m with nfcn, ngrad }, merrors }
  | errordef {up : α} (hup : isPositive up = true) :
    Edit s (.setErrordef up) { s with
      bench := { s.bench with up }, errordefSettled := true,
      fmin := s.fmin.map fun m => { m with up } }
  | settings {c : Command α} (tol : α) (strategy : Strategy) (printLevel : Int)
    (htol : isPositive s.tol = true → isPositive tol = true) :
    Edit s c { s with tol, strategy, printLevel }
  | drained : Edit s .drainWarnings { s with warnings := [] }
  | reset : Edit s .reset { s with slot := .initial, fmin := none, merrors := .empty }

/-- What the engine does to the errordef of a bench, if it follows the rules. -/
abbrev Engine.Leaves (E : Engine σ α) : Bench σ α → Bench σ α → Prop :=
  Bench.SameUpIf E.FollowsErrordef

/-- What a command may make of a session: an edit, with whatever happens on the side. -/
inductive Change [Scalar α] (s : Session σ α) (c : Command α) (u : Session σ α) : Prop
  | intro {t : Session σ α} (edit : Edit s c t) (beside : Beside s.engine.Leaves t u)

variable [Scalar α] {E : Engine σ α} {s t : Session σ α} {c : Command α}

/-! ## The change of each command -/

theorem Change.refl (s : Session σ α) (c : Command α) : Change s c s := ⟨.none, Chains.refl s⟩

theorem ViewWrite.change_run (w : ViewWrite α) (s : Session σ α) :
    Change s c (endState (w.run s)) := by
  have h := w.mirrors_run s
  generalize hr : w.onState s.registry s.currentState = answer at h
  generalize w.run s = result at h
  cases h with
  | written st => exact ⟨.written fun P hP hs => w.onState_keeps hP hs hr, Chains.refl _⟩
  | refused e => exact .refl s c
  | missing e _ => exact ⟨.written fun P _ hs => hs, Chains.refl _⟩

namespace Session

/-- Looking for a minimum leaves the results of a session. -/
theorem aside_findMinimum {R : Bench σ α → Bench σ α → Prop} [Chains R]
    (hE : ∀ cost start o, Keeps R (E.migrad cost start o)) (o : MigradOptions α) :
    Keeps (Aside E R) (findMinimum o : Action σ α (FunctionMinimum α)) := by
  refine (aside_ofExcept _).bind fun _ => aside_reportErrordef.bind fun _ => ?_
  refine aside_get_bind fun s hs => (aside_ofExcept _).bind fun options => ?_
  refine (aside_atBench ?_).bind fun (m, made) => ?_
  · subst hs
    exact attempts_keeps (fun start => hE s.cost start options) _ _ _
  · have tail : Keeps (Aside E R) (reportForced m >>= fun _ => pure m : Action σ α _) :=
      (aside_reportForced m).bind fun _ => Keeps.pure m
    exact Keeps.ite ((aside_warn rfl).bind fun _ => tail) tail

theorem beside_findMinimum (o : MigradOptions α) (s : Session σ α) :
    Beside s.engine.Leaves s (endState (findMinimum o s)) :=
  aside_findMinimum (fun cost start o => keeps_sameUpIf fun hE => hE.migrad cost start o) o s rfl

omit [Scalar α] in
theorem ofExcept_eq_ok {x : Except (FitError α) β} {b : β} :
    Action.ofExcept x s = .ok b t ↔ x = .ok b ∧ t = s := by
  cases x with
  | error e => exact iff_of_false nofun nofun
  | ok b' =>
    change EStateM.Result.ok b' s = .ok b t ↔ _
    rw [EStateM.Result.ok.injEq, Except.ok.injEq, eq_comm (a := s)]

omit [Scalar α] in
theorem ofExcept_of_ok {x : Except (FitError α) β} {b : β} (h : x = .ok b) (s : Session σ α) :
    Action.ofExcept x s = .ok b s := ofExcept_eq_ok.mpr ⟨h, rfl⟩

omit [Scalar α] in
theorem eq_ok_of_ofExcept {x : Except (FitError α) β} {b : β}
    (h : Action.ofExcept x s = .ok b t) : x = .ok b := (ofExcept_eq_ok.mp h).1

/-- Options are only made with a positive tolerance. -/
theorem tolerance_of_engineOptions {callLimit : Option Nat} {precision : Option α}
    {printLevel : Int} {options : EngineOptions α}
    (h : s.engineOptions callLimit precision printLevel = .ok options) :
    isPositive options.tolerance = true := by
  unfold engineOptions EngineOptions.ofParts at h
  cases hpositive : isPositive s.tol with
  | false =>
    rw [hpositive] at h
    cases h
  | true =>
    rw [hpositive] at h
    obtain ⟨_, -, h⟩ := except_bind_eq_ok.mp h
    cases h
    exact hpositive

/-- A minimum that is found is what attempts from the current state came to. -/
theorem attempts_of_findMinimum {o : MigradOptions α} {m : FunctionMinimum α}
    (h : findMinimum o s = .ok m t) :
    ∃ options made, isPositive options.tolerance = true ∧
      attempts (fun start => s.engine.migrad s.cost start options) (o.retry - 1) 0 s.currentState
        s.bench = .ok (m, made) t.bench := by
  obtain ⟨_, s₁, h₁, h⟩ := bind_eq_ok.mp h
  obtain ⟨_, s₂, h₂, h⟩ := bind_eq_ok.mp h
  obtain ⟨s₃, _, h₃, h⟩ := bind_eq_ok.mp h
  cases h₃
  obtain ⟨options, s₄, h₄, h⟩ := bind_eq_ok.mp h
  obtain ⟨⟨m', made⟩, s₅, h₅, h⟩ := bind_eq_ok.mp h
  have h₁₂ : Aside s.engine Eq s s₂ :=
    Chains.trans ((aside_ofExcept _).of_ok h₁) (aside_reportErrordef.of_ok h₂)
  have h₂₄ : Aside s.engine Eq s₂ s₄ := (aside_ofExcept _).of_ok h₄
  have hsame := h₁₂ rfl
  have hsame' := Chains.trans h₁₂ h₂₄ rfl
  have tail : Returns (· = m') (reportForced m' >>= fun _ => pure m' : Action σ α _) :=
    Returns.bind_right fun _ => Returns.pure rfl
  have hm : m = m' := Returns.ite (Returns.bind_right fun _ => tail) tail _ _ _ h
  have aside : Keeps (Aside s.engine Eq) (reportForced m' >>= fun _ => pure m' : Action σ α _) :=
    (aside_reportForced m').bind fun _ => Keeps.pure m'
  have hlast : Aside s.engine Eq s₅ t :=
    (Keeps.ite ((aside_warn rfl).bind fun _ => aside) aside).of_ok h
  have htolerance := tolerance_of_engineOptions (eq_ok_of_ofExcept h₄)
  unfold Action.atBench at h₅
  rw [hsame.results.currentState_eq, hsame.results.sameSetup.engine,
    hsame.results.sameSetup.cost, ← hsame'.bench] at h₅
  split at h₅
  · rename_i result bench hwork
    cases h₅
    refine ⟨options, made, htolerance, ?_⟩
    rw [hm, hwork, ← (hlast hsame'.results.sameSetup.engine).bench]
  · cases h₅

/-- A minimum that is found has been made by the engine from the current state. -/
theorem made_of_findMinimum {o : MigradOptions α} {m : FunctionMinimum α}
    (h : findMinimum o s = .ok m t) : MadeFrom s s.currentState m.state := by
  intro P hP hs
  obtain ⟨options, made, -, h⟩ := attempts_of_findMinimum h
  exact attempts_returns (fun start => hP.migrad start options) _ _ _ hs _ _ _ h

/-- A minimum that is found is marked with the errordef. -/
theorem up_of_findMinimum (hE : s.engine.FollowsErrordef) {o : MigradOptions α}
    {m : FunctionMinimum α} (h : findMinimum o s = .ok m t) : m.up = s.errordef := by
  obtain ⟨options, made, -, h⟩ := attempts_of_findMinimum h
  exact up_attempts (fun start => hE.migrad s.cost start options) hE.up_migrad h

theorem change_migrad (o : MigradOptions α) (s : Session σ α) :
    Change s (.migrad o) (endState (migrad o s)) := by
  have hbeside := beside_findMinimum o s
  change Change s _ (endState ((findMinimum o >>= fun m => modify (·.withMinimum m)) s))
  rw [bind_apply]
  cases h : findMinimum o s with
  | error e t =>
    rw [h] at hbeside
    exact ⟨.none, hbeside⟩
  | ok m t =>
    rw [h] at hbeside
    refine ⟨.minimum (made_of_findMinimum h) fun hE => up_of_findMinimum hE h, ?_,
      hbeside.bench, hbeside.reports⟩
    change SameResults _ (t.withMinimum m)
    rw [show SameResults s t from hbeside.results]
    rfl

/-- Work on the stored minimum changes nothing but that minimum, and the slot. -/
theorem change_hesseAtMinimum {m : FunctionMinimum α} (callLimit : Option Nat)
    (h : Beside s.engine.Leaves s t) (hm : s.fmin = some m) :
    Change s c (endState (hesseAtMinimum m callLimit t)) := by
  obtain ⟨-, hcost, hengine⟩ := h.results.sameSetup
  have hmade : MadeFrom s m.state
      (endState (t.engine.refinement t.cost callLimit (t.bench, m))).2.state := by
    intro P hP hs
    rw [hengine, hcost]
    exact hP.refinement callLimit _ hs
  have hmarked (hE : s.engine.FollowsErrordef) :
      (endState (t.engine.refinement t.cost callLimit (t.bench, m))).2.up = m.up := by
    rw [hengine]
    exact hE.up_refinement t.cost callLimit _
  have hbench : s.engine.Leaves s.bench
      (endState (t.engine.refinement t.cost callLimit (t.bench, m))).1 := by
    refine Chains.trans h.bench fun hE => ?_
    rw [hengine]
    exact hE.refinement t.cost callLimit _
  change Change s c
    (endState ((Action.atMinimum m (t.engine.refinement t.cost callLimit) >>= _) t))
  rw [bind_apply, Action.atMinimum]
  cases hw : t.engine.refinement t.cost callLimit (t.bench, m) with
  | error e p =>
    rw [hw] at hmade hmarked hbench
    refine ⟨.refined hm hmade hmarked (.inl rfl), ?_, hbench, h.reports⟩
    rw [h.results]
    rfl
  | ok _ p =>
    rw [hw] at hmade hmarked hbench
    have hlast := aside_reportForced (E := t.engine) (R := s.engine.Leaves) p.2
      { t with bench := p.1, fmin := some p.2, slot := .minimum } rfl
    refine ⟨.refined hm hmade hmarked (.inr rfl), Chains.trans ?_ hlast⟩
    refine ⟨?_, hbench, h.reports⟩
    rw [h.results]
    rfl

/-- Work on the current state puts a state apart, at most. -/
theorem change_hesseAtState (callLimit : Option Nat) (h : Beside s.engine.Leaves s t) :
    Change s c (endState (hesseAtState callLimit t)) := by
  obtain ⟨-, hcost, hengine⟩ := h.results.sameSetup
  have hmade (st : ParameterState α) (b : Bench σ α)
      (hr : t.engine.hesseState t.cost t.currentState callLimit t.bench = .ok (some st) b) :
      MadeFrom s s.currentState st := by
    intro P hP hs
    rw [hengine, hcost, h.results.currentState_eq] at hr
    exact hP.hesseState _ callLimit hs _ _ _ hr st rfl
  have hbench : s.engine.Leaves s.bench
      (endState (t.engine.hesseState t.cost t.currentState callLimit t.bench)) := by
    refine Chains.trans h.bench fun hE => ?_
    rw [hengine]
    exact hE.hesseState t.cost t.currentState callLimit _
  change Change s c
    (endState ((Action.atBench (t.engine.hesseState t.cost t.currentState callLimit) >>= _) t))
  rw [bind_apply, Action.atBench]
  cases hr : t.engine.hesseState t.cost t.currentState callLimit t.bench with
  | error e b =>
    rw [hr] at hbench
    exact ⟨.none, h.withBench hbench⟩
  | ok answer b =>
    rw [hr] at hbench
    cases answer with
    | none =>
      change Change s c (endState ((if t.fmin.isNone then _ else _ : Action σ α Unit) _))
      split
      · exact ⟨.none, h.withBench hbench⟩
      · exact ⟨.none, h.withBench hbench⟩
    | some st =>
      change Change s c (endState
        ((if st.hasCovariance || t.fmin.isSome then _ else _ : Action σ α Unit) _))
      split
      · refine ⟨.apart (hmade st b hr), ?_, hbench, h.reports⟩
        rw [h.results]
        rfl
      · exact ⟨.none, h.withBench hbench⟩

theorem change_hesse (callLimit : Option Nat) (s : Session σ α) :
    Change s c (endState (hesse callLimit s)) := by
  have h := aside_reportErrordef (E := s.engine) (R := s.engine.Leaves) s rfl
  change Change s c (endState ((Action.reportErrordef >>= _) s))
  rw [bind_apply]
  rw [reportErrordef_apply] at h ⊢
  generalize (if s.errordefSettled then s else _) = t at h ⊢
  have hfmin : t.fmin = s.fmin := by rw [show SameResults s t from h.results]
  change Change s c (endState ((MonadState.get >>= _ : Action σ α Unit) t))
  rw [get_bind_apply]
  cases t.isAtMinimum with
  | false => exact change_hesseAtState callLimit h
  | true =>
    cases hm : t.fmin with
    | none => exact change_hesseAtState callLimit h
    | some m => exact change_hesseAtMinimum callLimit h (hfmin ▸ hm)

/-- Looking for intervals leaves the results of a session. -/
theorem aside_findIntervals {R : Bench σ α → Bench σ α → Prop} [Chains R] (names : List String)
    (sigma : α) (callLimit : Option Nat)
    (h : ∀ (s : Session σ α) m o indices, s.engine = E →
      Keeps R (Run.withScaledUp (sigma * sigma) (s.intervals m o indices))) :
    Keeps (Aside E R) (findIntervals names sigma callLimit : Action σ α (List (MinosError α))) := by
  refine (aside_ofExcept _).bind fun _ => (aside_validMinimum _).bind fun m => ?_
  refine aside_get_bind fun s hs => (aside_ofExcept _).bind fun indices => ?_
  refine aside_reportErrordef.bind fun _ => (aside_ofExcept _).bind fun options => ?_
  refine (aside_atBench (h s m options _ hs)).bind fun found => ?_
  exact (Keeps.forM (fun index => aside_warn rfl) _).bind fun _ => Keeps.pure found

theorem change_minos (hc : c.findsIntervals = true) (names : List String) (sigma : α)
    (callLimit : Option Nat) (s : Session σ α) : Change s c (endState (minos names sigma callLimit s)) := by
  have hbeside := aside_findIntervals (R := s.engine.Leaves) names sigma callLimit
    (fun _ _ _ _ _ => keeps_sameUpIf fun _ => sameUp_withScaledUp _ _) s rfl
  change Change s c (endState
    ((findIntervals names sigma callLimit >>= fun found => modify (·.withIntervals found)) s))
  rw [bind_apply]
  cases h : findIntervals names sigma callLimit s with
  | error e t =>
    rw [h] at hbeside
    exact ⟨.none, hbeside⟩
  | ok found t =>
    rw [h] at hbeside
    refine ⟨.counted hc t.bench.nfcn t.bench.ngrad (found.foldl (·.insert ·) s.merrors), ?_,
      hbeside.bench, hbeside.reports⟩
    change SameResults _ (t.withIntervals found)
    rw [show SameResults s t from hbeside.results]
    rfl

/-- A check before an action changes nothing. -/
theorem change_ofExcept_bind {x : Except (FitError α) β} {f : β → Action σ α Unit}
    (hf : ∀ b, x = .ok b → Change s c (endState (f b s))) :
    Change s c (endState ((Action.ofExcept x >>= f) s)) := by
  cases x with
  | error e => exact .refl s c
  | ok b => exact hf b rfl

end Session

/-- Only an errordef that is finite and positive is accepted. -/
theorem isPositive_of_requireErrordef {up : α} {r : Unit} (h : requireErrordef up = .ok r) :
    isPositive up = true := by
  unfold requireErrordef at h
  split at h
  · assumption
  · cases h

/-- Only a tolerance that is finite and positive is accepted. -/
theorem isPositive_of_requireTolerance {tol : α} {r : Unit} (h : requireTolerance tol = .ok r) :
    isPositive tol = true := by
  unfold requireTolerance at h
  split at h
  · assumption
  · cases h

/-- **A command makes one of the changes.** -/
theorem change_after (s : Session σ α) (c : Command α) : Change s c (s.after c) := by
  cases c with
  | write w => exact w.change_run s
  | migrad o => exact Session.change_migrad o s
  | hesse callLimit => exact Session.change_hesse callLimit s
  | minos names sigma callLimit => exact Session.change_minos rfl names sigma callLimit s
  | minosAtConfidence names level callLimit =>
    exact Session.change_ofExcept_bind fun sigma _ =>
      Session.change_minos rfl names sigma callLimit s
  | profile key bins bound subtractMin =>
    exact ⟨.none, (Session.aside_profile key bins bound subtractMin).map s rfl⟩
  | minimizedProfile key bins bound subtractMin =>
    exact ⟨.none, (Session.aside_minimizedProfile
      (fun cost start o => keeps_sameUpIf fun hE => hE.migrad cost start o) key bins bound
      subtractMin).map s rfl⟩
  | contour keyX keyY bins boundX boundY subtractMin =>
    exact ⟨.none, (Session.aside_contour keyX keyY bins boundX boundY subtractMin).map s rfl⟩
  | contourLine keyX keyY points sigma =>
    exact ⟨.none, (Session.aside_contourLine keyX keyY points sigma
      fun _ _ _ _ _ _ => keeps_sameUpIf fun _ => sameUp_withScaledUp _ _).map s rfl⟩
  | setErrordef up =>
    exact Session.change_ofExcept_bind fun _ h =>
      ⟨.errordef (isPositive_of_requireErrordef h), Chains.refl _⟩
  | setTol tol =>
    exact Session.change_ofExcept_bind fun _ h =>
      ⟨.settings tol s.strategy s.printLevel fun _ => isPositive_of_requireTolerance h,
        Chains.refl _⟩
  | setStrategy strategy => exact ⟨.settings s.tol strategy s.printLevel id, Chains.refl _⟩
  | setPrintLevel shared level =>
    refine ⟨.settings s.tol s.strategy level id, ?_⟩
    have hreport : Keeps (Aside s.engine s.engine.Leaves) (if needsSharedLevel shared level
        then Action.warn (.globalPrintLevel level) else pure () : Action σ α Unit) :=
      Keeps.ite (aside_warn rfl) (Keeps.pure ())
    exact hreport { s with printLevel := level } rfl
  | drainWarnings => exact ⟨.drained, Chains.refl _⟩
  | reset => exact ⟨.reset, rfl, fun _ => rfl, .of_same rfl rfl⟩

/-! ## What the changes keep -/

/-- Cost, parameters and engine are never changed. -/
theorem Change.sameSetup {u : Session σ α} (h : Change s c u) : SameSetup s u := by
  obtain ⟨edit, beside⟩ := h
  refine Chains.trans ?_ beside.results.sameSetup
  cases edit with
  | written => exact ⟨by simp, by simp, by simp⟩
  | _ => exact ⟨rfl, rfl, rfl⟩

/-- Once a minimum has been stored, the initial state is never changed. -/
theorem Change.frozen {u : Session σ α} (h : Change s c u) (hs : s.frozen = true) :
    u.frozen = true ∧ u.startState = s.startState := by
  obtain ⟨edit, beside⟩ := h
  rw [beside.results]
  cases edit with
  | written => exact ⟨by simpa using hs, Session.startState_replaceState s _ hs⟩
  | minimum => exact ⟨rfl, rfl⟩
  | _ => exact ⟨hs, rfl⟩

/-- The tolerance stays positive. -/
theorem Change.tolerance {u : Session σ α} (h : Change s c u) (hs : isPositive s.tol = true) :
    isPositive u.tol = true := by
  obtain ⟨edit, beside⟩ := h
  rw [beside.results]
  cases edit with
  | settings _ _ _ htol => exact htol hs
  | written => simpa using hs
  | _ => exact hs

/-- Only intervals that are looked for join the collection, and only a reset forgets it. -/
theorem Change.merrors {u : Session σ α} (h : Change s c u) (hc : c.findsIntervals = false)
    (hreset : c ≠ .reset) : u.merrors = s.merrors := by
  obtain ⟨edit, beside⟩ := h
  rw [beside.results]
  cases edit with
  | written => simp
  | counted hfinds => simp [hfinds] at hc
  | reset => exact absurd rfl hreset
  | _ => rfl

/-- The slot never points to a minimum that is not there. -/
theorem Change.minimum_isSome {u : Session σ α} (h : Change s c u)
    (hs : s.slot = .minimum → s.fmin.isSome) : u.slot = .minimum → u.fmin.isSome := by
  obtain ⟨edit, beside⟩ := h
  rw [beside.results]
  cases edit with
  | none => exact hs
  | written => exact fun hslot => absurd hslot (Session.slot_replaceState_ne_minimum s _)
  | counted => simpa using hs
  | errordef => simpa using hs
  | settings => exact hs
  | drained => exact hs
  | minimum => simp [Session.withMinimum]
  | refined => simp
  | apart => simp
  | reset => simp

/-! ## States of a session -/

/-- All states that a session keeps have a property. -/
structure HoldsOfStates (P : ParameterState α → Prop) (s : Session σ α) : Prop where
  start : P s.startState
  current : P s.currentState
  minimum : ∀ m, s.fmin = some m → P m.state

section

variable {P : ParameterState α → Prop}

omit [Scalar α] in
theorem SameResults.holdsOfStates (h : SameResults s t) (hs : HoldsOfStates P s) :
    HoldsOfStates P t := by
  rw [h]
  exact ⟨hs.start, hs.current, hs.minimum⟩

omit [Scalar α] in
/-- Notes on the minimum do not change its state. -/
theorem HoldsOfStates.of_map (hs : HoldsOfStates P s) {f : FunctionMinimum α → FunctionMinimum α}
    (hfmin : t.fmin = s.fmin.map f) (hf : ∀ m, (f m).state = m.state)
    (hstart : t.startState = s.startState) (hslot : t.slot = s.slot) : HoldsOfStates P t := by
  refine ⟨hstart ▸ hs.start, ?_, fun m h => ?_⟩
  · have hcurrent := hs.current
    unfold Session.currentState at hcurrent ⊢
    rw [hslot, hfmin, hstart]
    cases hslot : s.slot <;> cases hfmin : s.fmin <;> simp_all
  · rw [hfmin] at h
    obtain ⟨m, hm, rfl⟩ := Option.map_eq_some_iff.mp h
    rw [hf]
    exact hs.minimum m hm

theorem Edit.holdsOfStates (hP : WriteInvariant P) (hE : s.engine.Respects s.cost P)
    (h : Edit s c t) (hs : HoldsOfStates P s) : HoldsOfStates P t := by
  cases h with
  | none => exact hs
  | @written _ st hst =>
    have hput := hst P hP hs.current
    refine ⟨?_, by simpa using hput, by simpa using hs.minimum⟩
    rcases Session.startState_replaceState_cases s st with h | h
    · rw [h]
      exact hs.start
    · rw [h]
      exact hput
  | minimum hm =>
    have hfound := hm P hE hs.current
    exact ⟨hs.start, hfound, fun _ h => Option.some.inj h ▸ hfound⟩
  | @refined _ m m' slot hm hm' _ hslot =>
    have hrefined := hm' P hE (hs.minimum m hm)
    refine ⟨hs.start, ?_, fun _ h => Option.some.inj h ▸ hrefined⟩
    rcases hslot with rfl | rfl
    · have hcurrent := hs.current
      unfold Session.currentState at hcurrent ⊢
      cases hslot : s.slot with
      | initial => exact hs.start
      | minimum => exact hrefined
      | detached state => simpa [hslot] using hcurrent
    · exact hrefined
  | apart hst => exact ⟨hs.start, hst P hE hs.current, hs.minimum⟩
  | counted => exact hs.of_map rfl (fun _ => rfl) rfl rfl
  | errordef hup => exact hs.of_map rfl (fun _ => rfl) rfl rfl
  | settings => exact ⟨hs.start, hs.current, hs.minimum⟩
  | drained => exact ⟨hs.start, hs.current, hs.minimum⟩
  | reset => exact ⟨hs.start, hs.start, by simp⟩

/-- What neither writes nor the engine destroy holds of all states after every run. -/
theorem Session.afterAll_holdsOfStates (hP : WriteInvariant P)
    (hE : s.engine.Respects s.cost P) (hs : HoldsOfStates P s) (cs : List (Command α)) :
    HoldsOfStates P (s.afterAll cs) := by
  have hrun : SameSetup s (s.afterAll cs) ∧ HoldsOfStates P (s.afterAll cs) := by
    refine afterAll_invariant (I := fun t => SameSetup s t ∧ HoldsOfStates P t) ?_
      ⟨Chains.refl s, hs⟩ cs
    rintro t c ⟨hsetup, ht⟩
    obtain ⟨edit, beside⟩ := change_after t c
    refine ⟨Chains.trans hsetup (change_after t c).sameSetup, beside.results.holdsOfStates ?_⟩
    exact edit.holdsOfStates hP (by rwa [hsetup.engine, hsetup.cost]) ht
  exact hrun.2

omit [Scalar α] in
/-- The only state of a session that has just been built is its initial one. -/
theorem Fresh.holdsOfStates {cost : Cost α} (h : Fresh cost E s) (hs : P s.startState) :
    HoldsOfStates P s := by
  refine ⟨hs, ?_, fun m hm => ?_⟩
  · rwa [Session.currentState, h.slot]
  · rw [h.fmin] at hm
    cases hm

end

theorem Session.afterAll_sameSetup (s : Session σ α) (cs : List (Command α)) :
    SameSetup s (s.afterAll cs) :=
  afterAll_related (fun s c => (change_after s c).sameSetup) s cs

/-- With an engine that keeps the length of states, the current state always has one entry for each
name. -/
theorem Fresh.len_currentState {cost : Cost α} (h : Fresh cost E s) (hE : E.KeepsLength)
    (cs : List (Command α)) :
    (s.afterAll cs).currentState.len = (s.afterAll cs).registry.len := by
  have hrespects := hE s.cost s.registry.len
  rw [← h.engine] at hrespects
  rw [(s.afterAll_sameSetup cs).registry]
  exact (Session.afterAll_holdsOfStates (writeInvariant_len _) hrespects
    (h.holdsOfStates h.len) cs).current

/-! ## Options of engine calls -/

namespace Session

/-- The options of an engine call, if there is nothing wrong with them. -/
def options (s : Session σ α) (callLimit : Option Nat) (precision : Option α) : EngineOptions α :=
  ⟨s.strategy, callLimit, s.tol, precision, s.printLevel⟩

theorem engineOptions_eq (s : Session σ α) (callLimit : Option Nat) {precision : Option α}
    (htol : isPositive s.tol = true) (hprecision : checkPrecision precision = .ok ()) :
    s.engineOptions callLimit precision s.printLevel = .ok (s.options callLimit precision) := by
  unfold engineOptions EngineOptions.ofParts
  rw [htol, hprecision]
  rfl

/-- The tolerance of a session is positive, whatever was done with it. -/
theorem tolerance_afterAll {spec : SessionSpec α} {cost : Cost α} {E : Engine σ α} {memory : σ}
    {shared : Int} {s₀ : Session σ α} (h : spec.build cost E memory shared = .ok s₀)
    (cs : List (Command α)) : isPositive (s₀.afterAll cs).tol = true := by
  refine afterAll_invariant (I := fun s => isPositive s.tol = true)
    (fun s c => (change_after s c).tolerance) ?_ cs
  obtain ⟨params, -, h⟩ := except_bind_eq_ok.mp h
  obtain ⟨errordef, -, h⟩ := except_bind_eq_ok.mp h
  obtain ⟨_, htol, h⟩ := except_bind_eq_ok.mp h
  obtain ⟨start, -, h⟩ := except_bind_eq_ok.mp h
  cases h
  exact isPositive_of_requireTolerance htol

end Session

end FitSession
