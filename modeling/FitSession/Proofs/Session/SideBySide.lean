import FitSession.Proofs.Engine.Contract
import FitSession.Proofs.Session.Aside
import FitSession.Proofs.Session.Command

/-!
# Sessions side by side

Two sessions may have come to the same results with different numbers of evaluations. With an engine
that ignores the history of its bench, whatever is done next ends in the same way in both, and
again with the same results.

* `Session.SameFit`: sessions that only differ in what was counted, in warnings and in what the
  engine remembers;
* `matching_atBench` and others: the parts of the actions, side by side;
* `coupled_run`: **every command ends in the same way in both sessions**.
-/

namespace FitSession

variable {σ α β γ : Type}

/-- Both sessions have the engine `E`, and the second one is the first one at another bench with the
same errordef, with other counters in its minimum and other warnings. -/
structure Session.SameFit (E : Engine σ α) (s t : Session σ α) : Prop where
  engine : s.engine = E
  same : t = { s with
    bench := t.bench, fmin := t.fmin, errordefSettled := t.errordefSettled,
    warnings := t.warnings }
  up : t.bench.up = s.bench.up
  minimum : Option.Rel FunctionMinimum.SameButCounts s.fmin t.fmin

namespace Session.SameFit

variable {E : Engine σ α} {s t u : Session σ α}

theorem symm (h : SameFit E s t) : SameFit E t s where
  engine := by rw [h.same]; exact h.engine
  same := by rw [h.same]
  up := h.up.symm
  minimum := by
    have hm := h.minimum
    generalize s.fmin = f at hm ⊢
    generalize t.fmin = f' at hm ⊢
    cases hm with
    | some h => exact .some h.symm
    | none => exact .none

theorem trans (h : SameFit E s t) (h' : SameFit E t u) : SameFit E s u where
  engine := h.engine
  same := by rw [h'.same, h.same]
  up := h'.up.trans h.up
  minimum := by
    have hm := h.minimum
    have hm' := h'.minimum
    generalize s.fmin = f at hm ⊢
    generalize t.fmin = f' at hm hm'
    generalize u.fmin = f'' at hm' ⊢
    cases hm with
    | some h =>
      cases hm' with
      | some h' => exact .some (h.trans h')
    | none => exact hm'

/-- There is no minimum in either session, or one in each. -/
theorem fmin_cases (h : SameFit E s t) : s.fmin = none ∧ t.fmin = none ∨
    ∃ m m', s.fmin = some m ∧ t.fmin = some m' ∧ m.SameButCounts m' := by
  have hm := h.minimum
  generalize s.fmin = f at hm ⊢
  generalize t.fmin = f' at hm ⊢
  cases hm with
  | some h => exact .inr ⟨_, _, rfl, rfl, h⟩
  | none => exact .inl ⟨rfl, rfl⟩

theorem slot_eq (h : SameFit E s t) : t.slot = s.slot := by rw [h.same]

theorem registry_eq (h : SameFit E s t) : t.registry = s.registry := by rw [h.same]

theorem cost_eq (h : SameFit E s t) : t.cost = s.cost := by rw [h.same]

theorem engine_eq (h : SameFit E s t) : t.engine = s.engine := by rw [h.same]

theorem printLevel_eq (h : SameFit E s t) : t.printLevel = s.printLevel := by rw [h.same]

theorem isSome_eq (h : SameFit E s t) : t.fmin.isSome = s.fmin.isSome := by
  rcases h.fmin_cases with ⟨hs, ht⟩ | ⟨m, m', hs, ht, -⟩
  · rw [hs, ht]
  · rw [hs, ht]
    rfl

theorem accurate_eq (h : SameFit E s t) : t.accurate = s.accurate := by
  unfold Session.accurate
  rcases h.fmin_cases with ⟨hs, ht⟩ | ⟨m, m', hs, ht, hm⟩
  · rw [hs, ht]
  · rw [hs, ht, hm]
    rfl

theorem currentState_eq (h : SameFit E s t) : t.currentState = s.currentState := by
  have hstart : t.startState = s.startState := by rw [h.same]
  unfold Session.currentState
  rw [h.slot_eq, hstart]
  rcases h.fmin_cases with ⟨hs, ht⟩ | ⟨m, m', hs, ht, hm⟩
  · rw [hs, ht]
  · have hstate : m'.state = m.state := by rw [hm]
    rw [hs, ht]
    cases s.slot <;> simp only [hstate]

/-- The same current state in both sessions. -/
theorem replaceState (h : SameFit E s t) (state : ParameterState α) :
    SameFit E (s.replaceState state) (t.replaceState state) := by
  have hfrozen : t.frozen = s.frozen := by rw [h.same]
  unfold Session.replaceState
  rw [h.slot_eq, hfrozen]
  split
  · exact ⟨h.engine, by rw [h.same], h.up, h.minimum⟩
  · exact ⟨h.engine, by rw [h.same], h.up, h.minimum⟩

variable [Scalar α]

theorem isAtMinimum_eq (h : SameFit E s t) : t.isAtMinimum = s.isAtMinimum := by
  unfold Session.isAtMinimum
  rw [h.slot_eq]
  rcases h.fmin_cases with ⟨hs, ht⟩ | ⟨m, m', hs, ht, hm⟩
  · rw [hs, ht]
  · have hstate : m'.state = m.state := by rw [hm]
    rw [hs, ht]
    cases s.slot <;> simp only [hstate]

theorem engineOptions_eq (h : SameFit E s t) : t.engineOptions = s.engineOptions := by
  rw [h.same]
  rfl

theorem isFree_eq (h : SameFit E s t) : t.isFree = s.isFree := by
  funext index
  rw [Session.isFree, h.currentState_eq]
  rfl

end Session.SameFit

/-! ## Parts of actions -/

section Parts

variable {E : Engine σ α}

theorem sideBySide_ofExcept (x : Except (FitError α) β) :
    Coupled (Session.SameFit E) (Action.ofExcept x) := by
  cases x with
  | ok b => exact Coupled.pure b
  | error e => exact Coupled.throw e

theorem sideBySide_warn (w : Warning α) : Coupled (Session.SameFit E) (Action.warn w) := by
  refine Coupled.modify fun s t h => ⟨h.engine, ?_, h.up, h.minimum⟩
  rw [h.same]
  rfl

theorem sideBySide_reportErrordef : Coupled (Session.SameFit E) Action.reportErrordef := by
  intro s t h
  rw [reportErrordef_eq, reportErrordef_eq]
  refine ⟨rfl, h.engine, ?_, h.up, h.minimum⟩
  rw [h.same]
  rfl

theorem matching_atBench {V : β → γ → Prop} {work : Run σ α β} {work' : Run σ α γ}
    (h : Matching Bench.SameUp V work work') :
    Matching (Session.SameFit E) V (Action.atBench work) (Action.atBench work') := by
  intro s t hst
  have hend := h s.bench t.bench hst.up
  unfold Action.atBench
  generalize work s.bench = r at hend ⊢
  generalize work' t.bench = r' at hend ⊢
  cases hend with
  | ok results states =>
    exact .ok results ⟨hst.engine, by rw [hst.same], states, hst.minimum⟩
  | error states => exact .error ⟨hst.engine, by rw [hst.same], states, hst.minimum⟩

theorem sideBySide_atBench {work work' : Run σ α β} (h : InStep Bench.SameUp work work') :
    InStep (Session.SameFit E) (Action.atBench work) (Action.atBench work') :=
  matching_eq_iff.mp (matching_atBench (matching_eq_iff.mpr h))

theorem sideBySide_evaluate (cost : Cost α) (args : List α) :
    Coupled Bench.SameUp (cost.evaluate args : Run σ α α) :=
  inStep_evaluate (fun _ _ h => h) cost args

/-- Work on the minimum that is stored in both sessions. -/
theorem matching_atMinimum {m m' : FunctionMinimum α} (hm : m.SameButCounts m')
    {work : Refinement σ α}
    (h : InStep (fun p q => p.1.SameUp q.1 ∧ p.2.SameButCounts q.2) work work) :
    Matching (Session.SameFit E) FunctionMinimum.SameButCounts (Action.atMinimum m work)
      (Action.atMinimum m' work) := by
  intro s t hst
  have hend := matching_eq_iff.mpr h (s.bench, m) (t.bench, m') ⟨hst.up, hm⟩
  unfold Action.atMinimum
  generalize work (s.bench, m) = r at hend ⊢
  generalize work (t.bench, m') = r' at hend ⊢
  cases hend with
  | ok results states =>
    exact .ok states.2 ⟨hst.engine, by rw [hst.same], states.1, .some states.2⟩
  | error states => exact .error ⟨hst.engine, by rw [hst.same], states.1, .some states.2⟩

theorem matching_storedMinimum (operation : String) :
    Matching (Session.SameFit E) FunctionMinimum.SameButCounts (Action.storedMinimum operation)
      (Action.storedMinimum operation) := by
  refine Matching.get_bind fun s t h => ?_
  rcases h.fmin_cases with ⟨hs, ht⟩ | ⟨m, m', hs, ht, hm⟩
  · rw [hs, ht]
    exact Matching.throw _
  · rw [hs, ht]
    exact Matching.pure hm

theorem matching_validMinimum (operation : String) :
    Matching (Session.SameFit E) FunctionMinimum.SameButCounts (Action.validMinimum operation)
      (Action.validMinimum operation) := by
  refine (matching_storedMinimum operation).bind fun m m' hm => ?_
  have hvalid : m'.isValid = m.isValid := by rw [hm]
  simp only [hvalid]
  exact Matching.ite (Matching.pure hm) (Matching.throw _)

/-- Scaled errordefs are the same at benches with the same errordef. -/
theorem sideBySide_withScaledUp [Mul α] {work work' : Run σ α β}
    (h : InStep Bench.SameUp work work') (factor : α) :
    InStep Bench.SameUp (Run.withScaledUp factor work) (Run.withScaledUp factor work') := by
  intro b c hbc
  have hup : c.up = b.up := hbc
  have hend := h { b with up := b.up * factor } { c with up := c.up * factor }
    (congrArg (· * factor) hup)
  unfold Run.withScaledUp
  cases hb : work { b with up := b.up * factor } with
  | ok x b' =>
    rw [hb] at hend
    obtain ⟨c', hc, -⟩ := hend.of_ok
    rw [hc]
    exact ⟨rfl, hup⟩
  | error e b' =>
    rw [hb] at hend
    obtain ⟨c', hc, -⟩ := hend.of_error
    rw [hc]
    exact ⟨rfl, hup⟩

end Parts

/-! ## Commands -/

namespace Session

variable {E : Engine σ α}

theorem sideBySide_reportForced {m m' : FunctionMinimum α} (hm : m.SameButCounts m') :
    InStep (SameFit E) (reportForced m) (reportForced m') := by
  have hmade : m'.hasMadePosdefCovar = m.hasMadePosdefCovar := by rw [hm]
  unfold reportForced
  rw [hmade]
  exact InStep.ite (sideBySide_warn _) (InStep.pure _)

section Writes

variable {Item Input : Type} (c : Column α Item Input)

theorem sideBySide_writeItem (index : Nat) (item : Item) :
    Coupled (SameFit E) (writeItem c index item) := by
  refine InStep.get_bind fun s t h => ?_
  rw [h.currentState_eq]
  exact InStep.bind (sideBySide_ofExcept _) fun state => InStep.set (h.replaceState state)

theorem sideBySide_opened : Coupled (SameFit E) (modify opened : Action σ α PUnit) := by
  refine Coupled.modify fun s t h => ?_
  unfold opened
  rw [h.currentState_eq]
  exact h.replaceState _

theorem sideBySide_write (w : Write Input) : Coupled (SameFit E) (w.run c) := by
  cases w with
  | item key input =>
    refine InStep.get_bind fun s t h => ?_
    rw [h.registry_eq]
    refine (sideBySide_ofExcept _).bind fun index => (sideBySide_ofExcept _).bind fun item => ?_
    exact sideBySide_opened.bind fun _ => sideBySide_writeItem c index item
  | slice walk assign =>
    refine InStep.get_bind fun s t h => ?_
    rw [h.currentState_eq]
    refine (sideBySide_ofExcept _).bind fun requests => (sideBySide_ofExcept _).bind fun items => ?_
    refine sideBySide_opened.bind fun _ => ?_
    exact InStep.forM (fun (index, item) => sideBySide_writeItem c index item) items

end Writes

variable [Scalar α]

theorem sideBySide_viewWrite (w : ViewWrite α) : Coupled (SameFit E) w.run := by
  cases w with
  | values w => exact sideBySide_write valueColumn w
  | errors w => exact sideBySide_write errorColumn w
  | fixed w => exact sideBySide_write fixedColumn w
  | limits w => exact sideBySide_write limitColumn w

/-! ### Fits -/

section Fits

variable (hE : E.IgnoresHistory)
include hE

theorem matching_findMinimum (o : MigradOptions α) : Matching (SameFit E)
    FunctionMinimum.SameButCounts (findMinimum o) (findMinimum o) := by
  refine Matching.inStep_bind (sideBySide_ofExcept _) fun _ => ?_
  refine Matching.inStep_bind sideBySide_reportErrordef fun _ => Matching.get_bind fun s t h => ?_
  rw [h.engineOptions_eq, h.printLevel_eq, h.engine_eq, h.cost_eq, h.currentState_eq, h.engine]
  refine Matching.inStep_bind (sideBySide_ofExcept _) fun options => ?_
  refine (matching_atBench (matching_attempts (fun start => ?_) _ _ _)).bind ?_
  · exact hE.migrad s.cost start options
  · rintro ⟨m, made⟩ ⟨m', made'⟩ ⟨hm, hmade⟩
    dsimp only at hm hmade ⊢
    have hvalid : m'.isValid = m.isValid := by rw [hm]
    rw [hvalid, hmade]
    have tail : Matching (SameFit E) FunctionMinimum.SameButCounts
        (reportForced m >>= fun _ => Pure.pure m) (reportForced m' >>= fun _ => Pure.pure m') :=
      Matching.inStep_bind (sideBySide_reportForced hm) fun _ => Matching.pure hm
    exact Matching.ite (Matching.inStep_bind (sideBySide_warn _) fun _ => tail) tail

theorem sideBySide_migrad (o : MigradOptions α) : Coupled (SameFit E) (migrad o) := by
  refine (matching_findMinimum hE o).bind_inStep fun m m' hm => InStep.modify fun s t h => ?_
  exact ⟨h.engine, by rw [h.same]; rfl, h.up, .some hm⟩

omit [Scalar α] in
theorem sideBySide_hesseAtMinimum {m m' : FunctionMinimum α} (hm : m.SameButCounts m')
    (callLimit : Option Nat) : InStep (SameFit E) (hesseAtMinimum m callLimit)
      (hesseAtMinimum m' callLimit) := by
  refine InStep.get_bind fun s t h => ?_
  rw [h.engine_eq, h.cost_eq, h.engine]
  refine (matching_atMinimum hm (hE.refinement s.cost callLimit)).bind_inStep fun r r' hr => ?_
  refine InStep.bind (InStep.modify fun s t h => ?_) fun _ => sideBySide_reportForced hr
  exact ⟨h.engine, by rw [h.same], h.up, h.minimum⟩

omit [Scalar α] in
theorem sideBySide_hesseAtState (callLimit : Option Nat) :
    Coupled (SameFit E) (hesseAtState callLimit) := by
  have hdetach (state : ParameterState α) : Coupled (SameFit E)
      (modify fun s => { s with slot := .detached state } : Action σ α PUnit) :=
    Coupled.modify fun s t h => ⟨h.engine, by rw [h.same], h.up, h.minimum⟩
  refine InStep.get_bind fun s t h => ?_
  rw [h.engine_eq, h.cost_eq, h.currentState_eq, h.isSome_eq, h.engine]
  refine (sideBySide_atBench (hE.hesseState s.cost _ callLimit)).bind fun answer => ?_
  have hnone : t.fmin.isNone = s.fmin.isNone := by
    rw [← Option.not_isSome, ← Option.not_isSome, h.isSome_eq]
  rw [hnone]
  cases answer with
  | some state => exact InStep.ite (hdetach state) (InStep.throw _)
  | none => exact InStep.ite (InStep.throw _) (InStep.pure _)

theorem sideBySide_hesse (callLimit : Option Nat) : Coupled (SameFit E) (hesse callLimit) := by
  refine InStep.bind sideBySide_reportErrordef fun _ => InStep.get_bind fun s t h => ?_
  rw [h.isAtMinimum_eq]
  rcases h.fmin_cases with ⟨hs, ht⟩ | ⟨m, m', hs, ht, hm⟩
  · rw [hs, ht]
    cases s.isAtMinimum <;> exact sideBySide_hesseAtState hE callLimit
  · rw [hs, ht]
    cases s.isAtMinimum with
    | true => exact sideBySide_hesseAtMinimum hE hm callLimit
    | false => exact sideBySide_hesseAtState hE callLimit

omit [Scalar α] in
theorem inStep_intervals {s t : Session σ α} (h : SameFit E s t) {m m' : FunctionMinimum α}
    (hm : m.SameButCounts m') (options : EngineOptions α) (indices : List Nat) :
    InStep Bench.SameUp (s.intervals m options indices) (t.intervals m' options indices) := by
  unfold intervals
  rw [h.engine_eq, h.cost_eq, h.registry_eq, h.engine]
  exact InStep.mapM (fun index => (hE.minos s.cost index options hm).bind fun _ =>
    InStep.pure _) indices

theorem sideBySide_minos (names : List String) (sigma : α) (callLimit : Option Nat) :
    Coupled (SameFit E) (minos names sigma callLimit) := by
  have hfound : Coupled (SameFit E) (findIntervals names sigma callLimit) := by
    refine InStep.bind (sideBySide_ofExcept _) fun _ => ?_
    refine (matching_validMinimum "MINOS").bind_inStep fun m m' hm => ?_
    refine InStep.get_bind fun s t h => ?_
    have hrequested : requested t names = (requested s names : Except (FitError α) _) := by
      unfold requested
      rw [h.currentState_eq, h.registry_eq]
    rw [hrequested, h.engineOptions_eq, h.printLevel_eq, h.isFree_eq, h.registry_eq]
    refine InStep.bind (sideBySide_ofExcept _) fun indices => ?_
    refine InStep.bind sideBySide_reportErrordef fun _ => ?_
    refine InStep.bind (sideBySide_ofExcept _) fun options => ?_
    refine InStep.bind (sideBySide_atBench (sideBySide_withScaledUp ?_ _)) fun found => ?_
    · exact inStep_intervals hE h hm options _
    · exact InStep.bind (InStep.forM (fun index => sideBySide_warn _) _) fun _ => InStep.pure _
  refine InStep.bind hfound fun found => Coupled.modify fun s t h => ?_
  refine ⟨h.engine, by rw [h.same]; rfl, h.up, ?_⟩
  unfold withIntervals
  dsimp only
  rcases h.fmin_cases with ⟨hs, ht⟩ | ⟨m, m', hs, ht, hm⟩
  · rw [hs, ht]
    exact .none
  · rw [hs, ht, hm]
    exact .some rfl

end Fits

/-! ### Scans -/

section Scans

theorem sideBySide_scanGrid (index bins : Nat) (bound : Bound α) :
    Coupled (SameFit E) (scanGrid index bins bound) := by
  have hreport : Coupled (SameFit E) (reportInaccurate bound) := by
    cases bound with
    | sigma n =>
      refine InStep.get_bind fun s t h => ?_
      rw [h.accurate_eq]
      exact InStep.ite (sideBySide_warn _) (InStep.pure _)
    | range lower upper => exact InStep.pure _
  unfold scanGrid
  refine InStep.guard (InStep.get_bind fun s t h => ?_)
  rw [h.currentState_eq]
  refine (sideBySide_ofExcept _).bind fun e => hreport.bind fun _ => ?_
  exact InStep.ite (InStep.pure _) (InStep.throw _)

theorem sideBySide_scanBaseline (subtractMin : Bool) :
    Coupled (SameFit E) (scanBaseline subtractMin) := by
  refine InStep.ite ?_ (InStep.pure _)
  refine (matching_storedMinimum "subtract_min").bind_inStep fun m m' hm => ?_
  rw [hm]
  exact InStep.pure _

theorem sideBySide_valuesAlong (s : Session σ α) (offset : α) (args : α → List α) (x : List α) :
    Coupled Bench.SameUp (s.valuesAlong offset args x) :=
  InStep.mapM (fun _ => InStep.bind (sideBySide_evaluate _ _) fun _ => InStep.pure _) x

theorem sideBySide_profile (key : Key) (bins : Nat) (bound : Bound α) (subtractMin : Bool) :
    Coupled (SameFit E) (profile key bins bound subtractMin) := by
  refine InStep.bind (sideBySide_scanBaseline subtractMin) fun offset => ?_
  refine InStep.get_bind fun s t h => ?_
  rw [h.registry_eq, h.currentState_eq, h.cost_eq]
  refine InStep.bind (sideBySide_ofExcept _) fun index => ?_
  refine InStep.bind (sideBySide_scanGrid index bins bound) fun x => ?_
  refine InStep.bind (sideBySide_atBench ?_) fun _ => InStep.pure _
  rw [run'_valuesOver]
  exact sideBySide_valuesAlong s offset _ x

theorem sideBySide_contour (keyX keyY : Key) (bins : Nat) (boundX boundY : Bound α)
    (subtractMin : Bool) :
    Coupled (SameFit E) (contour keyX keyY bins boundX boundY subtractMin) := by
  refine InStep.bind (sideBySide_scanBaseline subtractMin) fun offset => ?_
  refine InStep.get_bind fun s t h => ?_
  rw [h.registry_eq, h.currentState_eq, h.cost_eq]
  refine InStep.bind (sideBySide_ofExcept _) fun ix => ?_
  refine InStep.bind (sideBySide_ofExcept _) fun iy => InStep.guard ?_
  refine InStep.bind (sideBySide_scanGrid ix bins boundX) fun xs => ?_
  refine InStep.bind (sideBySide_scanGrid iy bins boundY) fun ys => ?_
  refine InStep.bind (sideBySide_atBench ?_) fun _ => InStep.pure _
  rw [run'_rowsOver]
  exact InStep.mapM (fun x => sideBySide_valuesAlong s offset _ ys) xs

variable (hE : E.IgnoresHistory)
include hE

omit hE [Scalar α] in
/-- The points at which a minimization is not valid are the same. -/
theorem sideBySide_reportPoints (name : String) {minima minima' : List (FunctionMinimum α)}
    (h : List.Forall₂ FunctionMinimum.SameButCounts minima minima') (x : List α) :
    let report : α × FunctionMinimum α → Action σ α PUnit := fun (xi, m) => do
      if !m.isValid then Action.warn (.scanPointInvalid name xi)
    InStep (SameFit E) ((x.zip minima).forM report) ((x.zip minima').forM report) := by
  intro report
  induction h generalizing x with
  | nil => rw [List.zip_nil_right]; exact InStep.pure _
  | @cons m m' ms ms' hm _ ih =>
    cases x with
    | nil => exact InStep.pure _
    | cons xi x =>
      have hvalid : m'.isValid = m.isValid := by rw [hm]
      refine InStep.bind ?_ fun _ => ih x
      simp only [report, hvalid]
      exact InStep.ite (sideBySide_warn _) (InStep.pure _)

theorem matching_minimizeAt {s t : Session σ α} (h : SameFit E s t) (base : ParameterState α)
    (index : Nat) (options : EngineOptions α) (x : List α) :
    Matching Bench.SameUp (List.Forall₂ FunctionMinimum.SameButCounts)
      (s.minimizeAt base index options x) (t.minimizeAt base index options x) := by
  unfold minimizeAt
  rw [h.engine_eq, h.cost_eq, h.engine]
  exact Matching.mapM (fun xi => Matching.inStep_bind (inStep_runOfExcept _) fun state =>
    hE.migrad s.cost state options) x

theorem sideBySide_minimizedProfile (key : Key) (bins : Nat) (bound : Bound α)
    (subtractMin : Bool) : Coupled (SameFit E) (minimizedProfile key bins bound subtractMin) := by
  refine InStep.get_bind fun s t h => ?_
  rw [h.registry_eq, h.currentState_eq, h.engineOptions_eq]
  refine InStep.bind (sideBySide_ofExcept _) fun index => ?_
  refine InStep.bind (sideBySide_scanGrid index bins bound) fun x => ?_
  refine InStep.bind sideBySide_reportErrordef fun _ => ?_
  refine InStep.bind (sideBySide_ofExcept _) fun options => ?_
  refine InStep.bind (sideBySide_ofExcept _) fun base => ?_
  refine (matching_atBench (matching_minimizeAt hE h base index options x)).bind_inStep ?_
  intro minima minima' hminima
  have hfval : minima.map (·.fval) = minima'.map (·.fval) :=
    List.forall₂_eq_eq_eq ▸ List.rel_map (fun m m' hm => by rw [hm]) hminima
  have hvalid : minima.map (·.isValid) = minima'.map (·.isValid) :=
    List.forall₂_eq_eq_eq ▸ List.rel_map (fun m m' hm => by rw [hm]) hminima
  rw [hfval, hvalid]
  exact InStep.bind (sideBySide_reportPoints _ hminima x) fun _ => InStep.pure _

theorem sideBySide_contourLine (keyX keyY : Key) (points : Nat) (sigma : α) :
    Coupled (SameFit E) (contourLine keyX keyY points sigma) := by
  refine InStep.bind (sideBySide_ofExcept _) fun _ => InStep.guard (InStep.get_bind fun s t h => ?_)
  rw [h.registry_eq, h.engineOptions_eq, h.printLevel_eq]
  refine InStep.bind (sideBySide_ofExcept _) fun ix => ?_
  refine InStep.bind (sideBySide_ofExcept _) fun iy => InStep.guard ?_
  refine (matching_validMinimum "mncontour").bind_inStep fun m m' hm => ?_
  have hfree (index : Nat) : checkFree t index = (checkFree s index : Except (FitError α) _) := by
    rw [checkFree, h.isFree_eq, h.registry_eq, checkFree]
  rw [hfree, hfree]
  refine InStep.bind (sideBySide_ofExcept _) fun _ => ?_
  refine InStep.bind (sideBySide_ofExcept _) fun _ => ?_
  refine InStep.bind sideBySide_reportErrordef fun _ => ?_
  refine InStep.bind (sideBySide_ofExcept _) fun options => ?_
  refine sideBySide_atBench (sideBySide_withScaledUp ?_ _)
  unfold lineWithErrors
  rw [h.engine_eq, h.cost_eq, h.registry_eq, h.engine]
  refine (hE.minos s.cost ix options hm).bind fun ex => ?_
  refine (hE.minos s.cost iy options hm).bind fun ey => ?_
  exact (hE.contourLine s.cost ix iy points options hm).bind fun points => InStep.pure _

end Scans

/-- With an engine that ignores the history of its bench, **every command ends in the same way in
both sessions**. -/
theorem coupled_run (hE : E.IgnoresHistory) (c : Command α) : Coupled (SameFit E) c.run := by
  cases c with
  | write w => exact sideBySide_viewWrite w
  | migrad o => exact sideBySide_migrad hE o
  | hesse callLimit => exact sideBySide_hesse hE callLimit
  | minos names sigma callLimit => exact sideBySide_minos hE names sigma callLimit
  | minosAtConfidence names level callLimit =>
    exact (sideBySide_ofExcept _).bind fun sigma => sideBySide_minos hE names sigma callLimit
  | profile key bins bound subtractMin =>
    exact (sideBySide_profile key bins bound subtractMin).map
  | minimizedProfile key bins bound subtractMin =>
    exact (sideBySide_minimizedProfile hE key bins bound subtractMin).map
  | contour keyX keyY bins boundX boundY subtractMin =>
    exact (sideBySide_contour keyX keyY bins boundX boundY subtractMin).map
  | contourLine keyX keyY points sigma =>
    exact (sideBySide_contourLine hE keyX keyY points sigma).map
  | setErrordef up =>
    refine (sideBySide_ofExcept _).bind fun _ => Coupled.modify fun s t h => ?_
    refine ⟨h.engine, by rw [h.same], rfl, ?_⟩
    dsimp only
    rcases h.fmin_cases with ⟨hs, ht⟩ | ⟨m, m', hs, ht, hm⟩
    · rw [hs, ht]
      exact .none
    · rw [hs, ht, hm]
      exact .some rfl
  | setTol tol =>
    refine (sideBySide_ofExcept _).bind fun _ => Coupled.modify fun s t h => ?_
    exact ⟨h.engine, by rw [h.same], h.up, h.minimum⟩
  | setStrategy strategy =>
    exact Coupled.modify fun s t h => ⟨h.engine, by rw [h.same], h.up, h.minimum⟩
  | setPrintLevel shared level =>
    refine InStep.bind (InStep.modify fun s t h => ?_) fun _ =>
      InStep.ite (sideBySide_warn _) (InStep.pure _)
    exact ⟨h.engine, by rw [h.same], h.up, h.minimum⟩
  | drainWarnings =>
    intro s t h
    have hdrained : SameFit E { s with warnings := [] } { t with warnings := [] } :=
      ⟨h.engine, by rw [h.same], h.up, h.minimum⟩
    exact ⟨rfl, hdrained⟩
  | reset =>
    refine Coupled.modify fun s t h => ⟨h.engine, ?_, h.up, .none⟩
    rw [h.same]

end Session
end FitSession
