import FitSession.Proofs.Engine.Scripted
import FitSession.Proofs.Session.Change
import Mathlib.Data.List.Chain

/-!
# Repeated minimizations

A minimization is attempted again while its result is neither valid nor cut short, and each attempt
starts where the one before ended. Only the last result is kept.

* `Rejects`, `attempts_eq`: the attempts that came to nothing, and the one that is answered;
* `Rejects.preserves`, `Rejects.isChain`: what each minimization keeps, and what holds of each,
  holds along the attempts;
* `Session.findMinimum_eq`: a search for a minimum is its attempts and their reports;
* `Session.Stores`, `Session.GivesUp`, `Session.stores_of_migrad`: what comes of the attempts;
* `attempts_in_order`: **what comes of them in all sessions** that can be reached;
* `no_attempt_without_precision`: an engine that is never called, although it would succeed.
-/

namespace FitSession

variable {σ α : Type}

/-! ## Attempts -/

/-- Minimizations of which none is final, each from the result of the one before, with the state and
the bench that they leave to the next one. -/
inductive Rejects (fit : ParameterState α → Run σ α (FunctionMinimum α)) :
    ParameterState α → Bench σ α → List (FunctionMinimum α) → ParameterState α → Bench σ α → Prop
  | none {start b} : Rejects fit start b [] start b
  | more {start b m c ms last d} (hm : fit start b = .ok m c) (hfinal : m.isFinal = false)
    (hrest : Rejects fit m.state c ms last d) : Rejects fit start b (m :: ms) last d

/-- Attempts are answered by the first one that is final or fails, or by the last one that is
allowed. -/
theorem attempts_eq (fit : ParameterState α → Run σ α (FunctionMinimum α)) (left made : Nat)
    (start : ParameterState α) (b : Bench σ α) :
    ∃ ms last c, Rejects fit start b ms last c ∧ ms.length ≤ left ∧
      match fit last c with
      | .ok m d => (m.isFinal = true ∨ ms.length = left) ∧
          attempts fit left made start b = .ok (m, made + ms.length + 1) d
      | .error e d => attempts fit left made start b = .error e d := by
  induction left generalizing made start b with
  | zero =>
    refine ⟨[], start, b, .none, Nat.le_refl 0, ?_⟩
    rw [attempts, bind_apply]
    cases fit start b with
    | error e d => rfl
    | ok m d => exact ⟨.inr rfl, rfl⟩
  | succ left ih =>
    rw [attempts, bind_apply]
    cases hfit : fit start b with
    | error e d =>
      refine ⟨[], start, b, .none, Nat.zero_le _, ?_⟩
      rw [hfit]
    | ok m d =>
      cases hfinal : m.isFinal with
      | true =>
        refine ⟨[], start, b, .none, Nat.zero_le _, ?_⟩
        rw [hfit]
        exact ⟨.inl hfinal, by simp [hfinal, pure, EStateM.pure]⟩
      | false =>
        obtain ⟨ms, last, c, hrest, hlen, h⟩ := ih (made + 1) m.state d
        refine ⟨m :: ms, last, c, .more hfit hfinal hrest, Nat.succ_le_succ hlen, ?_⟩
        have hmade : made + (m :: ms).length + 1 = made + 1 + ms.length + 1 := by
          rw [List.length_cons]
          omega
        simp only [hfinal, Bool.false_eq_true, if_false]
        cases hlast : fit last c with
        | error e d' => simpa only [hlast] using h
        | ok m' d' =>
          simp only [hlast] at h
          exact ⟨h.1.imp_right (congrArg (· + 1)), by rw [hmade]; exact h.2⟩

/-- What holds of each minimization and its start holds along the attempts. -/
theorem Rejects.isChain {fit : ParameterState α → Run σ α (FunctionMinimum α)}
    {P : ParameterState α → FunctionMinimum α → Prop}
    (hfit : ∀ {start b m c}, fit start b = .ok m c → P start m) {start last : ParameterState α}
    {b c d : Bench σ α} {ms : List (FunctionMinimum α)} {m : FunctionMinimum α}
    (h : Rejects fit start b ms last c) (hlast : fit last c = .ok m d) :
    (∀ first ∈ (ms ++ [m]).head?, P start first) ∧
      (ms ++ [m]).IsChain fun m m' => (∃ start, P start m) ∧ P m.state m' := by
  induction h with
  | none => exact ⟨fun _ h => Option.some.inj h ▸ hfit hlast, .singleton m⟩
  | more hm _ _ ih =>
    obtain ⟨hfirst, hchain⟩ := ih hlast
    refine ⟨fun _ h => Option.some.inj h ▸ hfit hm, List.isChain_cons.mpr ⟨?_, hchain⟩⟩
    exact fun m' hm' => ⟨⟨_, hfit hm⟩, hfirst m' hm'⟩

/-- What each minimization preserves is preserved along the attempts. -/
theorem Rejects.preserves {fit : ParameterState α → Run σ α (FunctionMinimum α)}
    {P : ParameterState α → Bench σ α → Prop}
    (hfit : ∀ {start b m c}, P start b → fit start b = .ok m c → P m.state c)
    {start last : ParameterState α} {b c : Bench σ α} {ms : List (FunctionMinimum α)}
    (h : Rejects fit start b ms last c) (hstart : P start b) : P last c := by
  induction h with
  | none => exact hstart
  | more hm _ _ ih => exact ih (hfit hstart hm)

variable [Scalar α]

/-! ## The search for a minimum -/

theorem MigradOptions.retry_of_check {o : MigradOptions α} (h : o.check = .ok ()) :
    1 ≤ o.retry := by
  unfold check at h
  split at h
  · cases h
  · omega

/-- What is wrong with the minimum of the attempt with the given number. -/
def FunctionMinimum.reports (m : FunctionMinimum α) (made : Nat) : List (Warning α) :=
  (if m.isValid then [] else [.invalidMinimum made]) ++
    if m.hasMadePosdefCovar then [.covarianceMadePosDef] else []

namespace Session

/-- The minimization that is attempted. -/
def call (s : Session σ α) (o : MigradOptions α) (start : ParameterState α) :
    Run σ α (FunctionMinimum α) := s.engine.migrad s.cost start (s.options o.callLimit o.precision)

omit [Scalar α] in
theorem reports_apply (m : FunctionMinimum α) (made : Nat) (s : Session σ α) :
    (do
      if !m.isValid then Action.warn (.invalidMinimum made)
      reportForced m
      pure m : Action σ α (FunctionMinimum α)) s =
        .ok m { s with warnings := s.warnings ++ m.reports made } := by
  let after (ws : List (Warning α)) : EStateM.Result (FitError α) (Session σ α) _ :=
    .ok m { s with warnings := ws }
  unfold reportForced FunctionMinimum.reports
  cases m.isValid <;> cases m.hasMadePosdefCovar
  · rfl
  · exact congrArg after (List.append_assoc ..)
  · exact congrArg after (List.append_nil _).symm
  · rfl

/-- A search for a minimum is its attempts, between the report of a missing errordef and those on
the minimum. -/
theorem findMinimum_eq {s : Session σ α} {o : MigradOptions α} (hcheck : o.check = .ok ())
    (htol : isPositive s.tol = true) :
    findMinimum o s =
      match attempts (s.call o) (o.retry - 1) 0 s.currentState s.bench with
      | .ok (m, made) b =>
        .ok m { s.reported with bench := b, warnings := s.reported.warnings ++ m.reports made }
      | .error e b => .error e { s.reported with bench := b } := by
  have hprecision : checkPrecision o.precision = .ok () := by
    unfold MigradOptions.check at hcheck
    split at hcheck
    · cases hcheck
    · exact hcheck
  have hoptions := s.reported.engineOptions_eq o.callLimit htol hprecision
  unfold findMinimum
  rw [bind_of_ok (ofExcept_of_ok hcheck s), bind_of_ok (reportErrordef_eq s), get_bind_apply,
    bind_of_ok (ofExcept_of_ok hoptions s.reported)]
  change (Action.atBench (attempts (s.call o) (o.retry - 1) 0 s.currentState) >>= _) s.reported = _
  rw [bind_apply, Action.atBench, show s.reported.bench = s.bench from rfl]
  cases attempts (s.call o) (o.retry - 1) 0 s.currentState s.bench with
  | error e b => rfl
  | ok r b => exact reports_apply r.1 r.2 _

theorem check_of_migrad {s u : Session σ α} {o : MigradOptions α}
    (h : migrad o s = .ok () u) : o.check = .ok () := by
  obtain ⟨m, v, hm, -⟩ := bind_eq_ok.mp h
  cases hcheck : o.check with
  | ok => rfl
  | error e =>
    unfold findMinimum at hm
    rw [hcheck] at hm
    cases hm

/-- A minimum that is stored is what the attempts came to. -/
theorem attempts_of_migrad {s u : Session σ α} {o : MigradOptions α}
    (htol : isPositive s.tol = true) (h : migrad o s = .ok () u) :
    ∃ m made, attempts (s.call o) (o.retry - 1) 0 s.currentState s.bench = .ok (m, made) u.bench ∧
      u.fmin = some m := by
  have hcheck := check_of_migrad h
  obtain ⟨m, v, hm, h⟩ := bind_eq_ok.mp h
  cases h
  rw [findMinimum_eq hcheck htol] at hm
  split at hm
  · rename_i made b hattempts
    cases hm
    exact ⟨m, made, hattempts, rfl⟩
  · cases hm

/-! ## What comes of it -/

/-- The minimum `m` of attempt `k` is stored and is the current state, and what is wrong with it is
reported. -/
structure Stores (s : Session σ α) (m : FunctionMinimum α) (k : Nat) (u : Session σ α) : Prop where
  fmin : u.fmin = some m
  current : u.currentState = m.state
  start : u.startState = s.startState
  merrors : u.merrors = s.merrors
  warnings : u.warnings = s.warnings ++ s.unsetReport ++ m.reports k

/-- The results are as they were. -/
structure GivesUp (s u : Session σ α) : Prop where
  fmin : u.fmin = s.fmin
  current : u.currentState = s.currentState
  start : u.startState = s.startState
  merrors : u.merrors = s.merrors
  warnings : u.warnings = s.warnings ++ s.unsetReport

/-- The attempts at a minimum and what comes of them: those before the last are not final, and the
last one is answered, is final or as far as was allowed, and is the one that is stored. -/
def RunsAttempts (s : Session σ α) (o : MigradOptions α) : Prop :=
  ∃ ms last b, Rejects (s.call o) s.currentState s.bench ms last b ∧ ms.length < o.retry ∧
    match s.call o last b with
    | .ok m c => (m.isFinal = true ∨ ms.length + 1 = o.retry) ∧
        ∃ u, migrad o s = .ok () u ∧ u.bench = c ∧ s.Stores m (ms.length + 1) u
    | .error e c => ∃ u, migrad o s = .error e u ∧ u.bench = c ∧ s.GivesUp u

theorem runsAttempts {s : Session σ α} {o : MigradOptions α} (hretry : 1 ≤ o.retry)
    (hcheck : o.check = .ok ()) (htol : isPositive s.tol = true) : s.RunsAttempts o := by
  obtain ⟨ms, last, b, hrejects, hlen, hlast⟩ :=
    attempts_eq (s.call o) (o.retry - 1) 0 s.currentState s.bench
  refine ⟨ms, last, b, hrejects, by omega, ?_⟩
  have hsearch : migrad o s = (findMinimum o >>= fun m => modify (·.withMinimum m)) s := rfl
  rw [bind_apply, findMinimum_eq hcheck htol] at hsearch
  cases hcall : s.call o last b with
  | error e c =>
    rw [hcall] at hlast
    rw [hlast] at hsearch
    exact ⟨_, hsearch, rfl, rfl, rfl, rfl, rfl, rfl⟩
  | ok m c =>
    rw [hcall] at hlast
    obtain ⟨hfinal, hlast⟩ := hlast
    rw [hlast, Nat.zero_add] at hsearch
    exact ⟨hfinal.imp_right fun h => by omega, _, hsearch, rfl, rfl, rfl, rfl, rfl, rfl⟩

/-- A fit that succeeds stores the minimum of its last attempt. -/
theorem stores_of_migrad {s u : Session σ α} {o : MigradOptions α}
    (htol : isPositive s.tol = true) (h : migrad o s = .ok () u) :
    ∃ ms last b m, Rejects (s.call o) s.currentState s.bench ms last b ∧
      s.call o last b = .ok m u.bench ∧ s.Stores m (ms.length + 1) u := by
  have hcheck := check_of_migrad h
  obtain ⟨ms, last, b, hrejects, -, hlast⟩ :=
    runsAttempts (MigradOptions.retry_of_check hcheck) hcheck htol
  cases hcall : s.call o last b with
  | error e c =>
    rw [hcall] at hlast
    obtain ⟨v, hv, -⟩ := hlast
    cases h.symm.trans hv
  | ok m c =>
    rw [hcall] at hlast
    obtain ⟨-, v, hv, rfl, hstores⟩ := hlast
    cases h.symm.trans hv
    exact ⟨ms, last, b, m, hrejects, hcall, hstores⟩

end Session

/-- **Attempts are made in order, at most as many as allowed, each with the same options, and the
last one counts**, whatever was done with the session before. With a precision that is not positive
there is none, and nothing changes. -/
theorem attempts_in_order {spec : SessionSpec α} {cost : Cost α} {E : Engine σ α} {memory : σ}
    {shared : Int} {s₀ : Session σ α} (h : spec.build cost E memory shared = .ok s₀)
    (cs : List (Command α)) (o : MigradOptions α) (hretry : 1 ≤ o.retry) :
    ((∀ x, o.precision = some x → isPositive x = true) → (s₀.afterAll cs).RunsAttempts o) ∧
      ∀ x, o.precision = some x → isPositive x = false →
        Session.migrad o (s₀.afterAll cs) =
          .error (.configuration (.precision x)) (s₀.afterAll cs) := by
  have hguard : o.check = checkPrecision o.precision := if_neg (Nat.not_lt.mpr hretry)
  constructor
  · intro hprecision
    refine Session.runsAttempts hretry ?_ (Session.tolerance_afterAll h cs)
    rw [hguard]
    cases hx : o.precision with
    | none => rfl
    | some x => rw [checkPrecision, if_pos (hprecision x hx)]
  · intro x hx hnot
    have hcheck : o.check = .error (.configuration (.precision x)) := by
      rw [hguard, hx, checkPrecision, hnot]
      rfl
    change ((Action.ofExcept o.check >>= _) >>= _) _ = _
    rw [hcheck]
    rfl

/-- Of three prepared answers the second one is valid: there are two attempts, from 1 and from 3. -/
theorem attempts_in_order_twice :
    ∃ s₀ : Session (Script Float) Float,
      oneParameter.build sumOfSquares scriptedEngine
          { Script.empty with migrad := [answerAt 3 false, answerAt 5 true, answerAt 7 true] } 0 =
        .ok s₀ ∧ s₀.RunsAttempts .standard ∧
          EngineCall.starts (s₀.after (.migrad .standard)).bench.memory.log = [[1], [3]] ∧
            (s₀.after (.migrad .standard)).currentState.values = [5] := by
  obtain ⟨s₀, hbuild, h⟩ := exists_build_oneParameter scriptedEngine
    { Script.empty with migrad := [answerAt 3 false, answerAt 5 true, answerAt 7 true] }
    (P := fun s => EngineCall.starts (s.after (.migrad .standard)).bench.memory.log = [[1], [3]] ∧
      (s.after (.migrad .standard)).currentState.values = [5]) (by decide +kernel)
  obtain ⟨hstarts, hvalues⟩ := of_decide_eq_true h
  exact ⟨s₀, hbuild, (attempts_in_order hbuild [] .standard (by decide)).1 nofun, hstarts, hvalues⟩

/-- With a negative precision the engine is not called, although its first answer would be valid. -/
theorem no_attempt_without_precision :
    ∃ s₀ : Session (Script Float) Float,
      oneParameter.build sumOfSquares scriptedEngine
          { Script.empty with migrad := [answerAt 5 true] } 0 = .ok s₀ ∧
        (s₀.after (.migrad ⟨none, some (-1), 1⟩)).bench.memory.log.isEmpty = true ∧
          ¬s₀.RunsAttempts ⟨none, some (-1), 1⟩ := by
  obtain ⟨s₀, hbuild, h⟩ := exists_build_oneParameter scriptedEngine
    { Script.empty with migrad := [answerAt 5 true] }
    (P := fun s => (s.after (.migrad ⟨none, some (-1), 1⟩)).bench.memory.log.isEmpty ∧
      succeeded (Session.migrad ⟨none, some (-1), 1⟩ s) = false ∧
        succeeded (s.call ⟨none, some (-1), 1⟩ s.currentState s.bench) = true) (by decide +kernel)
  obtain ⟨hlog, hrefused, hcall⟩ := of_decide_eq_true h
  refine ⟨s₀, hbuild, hlog, fun ⟨ms, last, b, hrejects, hlen, hlast⟩ => ?_⟩
  -- with one attempt allowed, none is rejected before it
  obtain rfl : ms = [] := List.length_eq_zero_iff.mp (Nat.lt_one_iff.mp hlen)
  cases hrejects
  obtain ⟨m, c, hcall⟩ := exists_ok_of_succeeded hcall
  rw [hcall] at hlast
  obtain ⟨-, u, hstored, -⟩ := hlast
  rw [hstored] at hrefused
  cases hrefused

end FitSession
