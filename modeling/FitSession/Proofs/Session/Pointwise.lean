import FitSession.Proofs.Session.Scan
import FitSession.Proofs.Session.ScanGrid
import FitSession.Proofs.State.Order

/-!
# Scans point by point

The points of a scan have nothing to do with each other. Each value is the cost at the current
values with one or two parameters replaced, or what a minimization gives that starts from the
current state with one parameter fixed.

* `Bench.counted`, `mapM_eq_ok_of_counted`: work that counts the same for each item;
* `Session.profile_eq_ok_iff`, `Session.contour_eq_ok_iff`: **scans of values**, in full;
* `ParameterState.fixedAt`, `setValue_of_setFixed`: where the minimizations start;
* `forall₂_alone`: **work that does not hang on what was done before** does the same for each item
  as for that item alone;
* `Engine.MigradStandsAlone`, `MinimizesAlong`, `leastOf_isLeastOf`: what a scan of minimized values
  gives;
* **`scans_pointwise`**: all three scans;
* `fit_beside_point`: a point beyond the limit, at which the fit does not start.
-/

namespace FitSession

variable {σ α β γ : Type}

/-! ## Evaluations -/

/-- The bench after `n` more evaluations of the cost. -/
def Bench.counted (b : Bench σ α) (n : Nat) : Bench σ α := { b with nfcn := b.nfcn + n }

theorem Bench.counted_counted (b : Bench σ α) (m n : Nat) :
    (b.counted m).counted n = b.counted (m + n) := by
  rw [counted, counted, counted, Nat.add_assoc]

theorem evaluate_eq_ok {cost : Cost α} {args : List α} {f : α} {b c : Bench σ α} :
    (cost.evaluate args : Run σ α α) b = .ok f c ↔ cost.value args = .ok f ∧ c = b.counted 1 := by
  have happly : (cost.evaluate args : Run σ α α) b =
      outcome (cost.value args) (b.counted 1) := by
    unfold Cost.evaluate
    rw [bind_apply]
    cases cost.value args <;> rfl
  rw [happly]
  cases cost.value args with
  | error e => exact iff_of_false nofun nofun
  | ok y =>
    change EStateM.Result.ok y (b.counted 1) = _ ↔ _
    rw [EStateM.Result.ok.injEq, Except.ok.injEq, eq_comm (a := c)]

/-- Work on one item after the other that counts the same number of evaluations for each. -/
theorem mapM_eq_ok_of_counted {g : β → Run σ α γ} {P : β → γ → Prop} {k : Nat}
    (hg : ∀ x y b c, g x b = .ok y c ↔ P x y ∧ c = b.counted k) {xs : List β} {ys : List γ}
    {b c : Bench σ α} :
    xs.mapM g b = .ok ys c ↔ List.Forall₂ P xs ys ∧ c = b.counted (xs.length * k) := by
  induction xs generalizing ys b with
  | nil =>
    rw [List.forall₂_nil_left_iff, List.length_nil, Nat.zero_mul]
    change EStateM.Result.ok [] b = .ok ys c ↔ _
    rw [EStateM.Result.ok.injEq, eq_comm (a := ys), eq_comm (a := c)]
    rfl
  | cons x xs ih =>
    rw [List.mapM_cons, List.forall₂_cons_left_iff, bind_eq_ok]
    have hcount : (b.counted k).counted (xs.length * k) = b.counted ((x :: xs).length * k) := by
      rw [Bench.counted_counted, List.length_cons, Nat.succ_mul, Nat.add_comm]
    constructor
    · rintro ⟨y, d, hx, h⟩
      obtain ⟨zs, e, hxs, h⟩ := bind_eq_ok.mp h
      cases h
      obtain ⟨hy, rfl⟩ := (hg ..).mp hx
      obtain ⟨hzs, rfl⟩ := ih.mp hxs
      exact ⟨⟨y, zs, hy, hzs, rfl⟩, hcount⟩
    · rintro ⟨⟨y, zs, hy, hzs, rfl⟩, rfl⟩
      refine ⟨y, _, (hg ..).mpr ⟨hy, rfl⟩, ?_⟩
      exact bind_eq_ok.mpr ⟨zs, _, ih.mpr ⟨hzs, hcount.symm⟩, rfl⟩

/-! ## Work that ignores what was done before -/

section

variable {ε τ : Type} {g : β → EStateM ε τ γ} {xs : List β} {ys : List γ} {s t : τ}

/-- Each item is worked on in a state with all properties that the work keeps. -/
theorem forall₂_of_mapM_eq_ok {I : τ → Prop} (hkeeps : ∀ x, Keeps (fun s t => I s → I t) (g x))
    (hs : I s) (h : xs.mapM g s = .ok ys t) :
    List.Forall₂ (fun x y => ∃ s t, I s ∧ g x s = .ok y t) xs ys := by
  induction xs generalizing ys s with
  | nil =>
    cases h
    exact .nil
  | cons x xs ih =>
    rw [List.mapM_cons] at h
    obtain ⟨y, s', hx, h⟩ := bind_eq_ok.mp h
    obtain ⟨ys, t', hxs, h⟩ := bind_eq_ok.mp h
    cases h
    exact .cons ⟨s, s', hs, hx⟩ (ih ((hkeeps x).of_ok hx hs) hxs)

/-- Where the work does not hang on what was done before, each item is worked on as it would be
alone. -/
theorem forall₂_alone {R : τ → τ → Prop} [hR : Chains R] {V : γ → γ → Prop}
    (hg : ∀ x, Matching R V (g x) (g x)) (hkeeps : ∀ x, Keeps R (g x))
    (h : xs.mapM g s = .ok ys t) :
    List.Forall₂ (fun x y => ∃ z u, g x s = .ok z u ∧ V z y) xs ys := by
  have hlater (x : β) : Keeps (fun t u => R s t → R s u) (g x) :=
    fun t hst => hR.trans hst (hkeeps x t)
  refine (forall₂_of_mapM_eq_ok hlater (hR.refl s) h).imp fun x y ⟨t, u, hst, hx⟩ => ?_
  have hmatched := hg x s t hst
  rw [hx] at hmatched
  generalize g x s = r at hmatched
  cases hmatched with
  | ok results states => exact ⟨_, _, rfl, results⟩

end

/-- What a minimization gives only hangs on what it is asked and on the errordef, and it leaves the
errordef. -/
structure Engine.MigradStandsAlone (E : Engine σ α) : Prop where
  ignoresHistory : ∀ cost start o, Matching Bench.SameUp FunctionMinimum.SameButCounts
    (E.migrad cost start o) (E.migrad cost start o)
  keepsErrordef : E.MigradKeepsErrordef

variable [Scalar α]

/-! ## Where minimizations start -/

/-- The state with a parameter, of which `e` is the entry, fixed at a value. The value is moved into
the limit. -/
def ParameterState.fixedAt (s : ParameterState α) (index : Nat) (e : Entry α) (x : α) :
    ParameterState α :=
  s.replaceEntry index e { e with value := e.limit.clamp x, fixed := true }

/-- A value that is written to a fixed parameter leaves no trace of the value before. -/
theorem ParameterState.setValue_of_setFixed {s base : ParameterState α} {index : Nat}
    (h : s.setFixed index true = .ok base) :
    ∃ e, s.entries[index]? = some e ∧ ∀ {x t}, base.setValue index x = .ok t →
      t = s.fixedAt index e x := by
  obtain ⟨e, he, hbase⟩ := except_bind_eq_ok.mp h
  cases hbase
  refine ⟨e, entryOrFail_eq_ok.mp he, fun {x t} ht => ?_⟩
  obtain ⟨_, -, ht⟩ := except_bind_eq_ok.mp ht
  obtain ⟨e', he', ht⟩ := except_bind_eq_ok.mp ht
  have hlt : index < s.entries.length := (List.getElem?_eq_some_iff.mp
    (entryOrFail_eq_ok.mp he)).1
  have he' := entryOrFail_eq_ok.mp he'
  rw [entries_replaceEntry, List.getElem?_set_self hlt] at he'
  cases he'
  cases ht
  rw [fixedAt, replaceEntry_eq, replaceEntry_eq, List.set_set]
  rfl

namespace Session

variable {s u : Session σ α} {bins : Nat} {bound boundX boundY : Bound α}

/-! ## Scans of values -/

/-- The cost at the arguments, less the offset. -/
def Values (s : Session σ α) (offset : α) (args : List α) (f : α) : Prop :=
  ∃ y, s.cost.value args = .ok y ∧ f = y - offset

theorem valuesAlong_eq_ok {offset : α} {args : α → List α} {x fval : List α} {b c : Bench σ α} :
    s.valuesAlong offset args x b = .ok fval c ↔
      List.Forall₂ (fun xi f => s.Values offset (args xi) f) x fval ∧ c = b.counted x.length := by
  have hstep (xi f : α) (b c : Bench σ α) :
      (do let y ← s.cost.evaluate (args xi); pure (y - offset) : Run σ α α) b = .ok f c ↔
        s.Values offset (args xi) f ∧ c = b.counted 1 := by
    rw [bind_eq_ok]
    constructor
    · rintro ⟨y, d, hevaluated, h⟩
      cases h
      obtain ⟨hy, rfl⟩ := evaluate_eq_ok.mp hevaluated
      exact ⟨⟨y, hy, rfl⟩, rfl⟩
    · rintro ⟨⟨y, hy, rfl⟩, rfl⟩
      exact ⟨y, _, evaluate_eq_ok.mpr ⟨hy, rfl⟩, rfl⟩
  rw [← Nat.mul_one x.length]
  exact mapM_eq_ok_of_counted hstep

/-- A table of the cost along one parameter. Each value is the cost at the current values with that
parameter replaced, and nothing but the evaluations is done at the bench. -/
structure ProfilesAlong (s : Session σ α) (index bins : Nat) (bound : Bound α) (offset : α)
    (table : ProfileTable α) (u : Session σ α) : Prop where
  points : s.ScansOver index bins bound table.x
  values : List.Forall₂ (fun x f => s.Values offset (s.currentState.values.set index x) f)
    table.x table.fval
  counted : u = { s.noted bound with bench := s.bench.counted bins }

/-- **A scan of one parameter** succeeds exactly with such a table. -/
theorem profile_eq_ok_iff {key : Key} {subtractMin : Bool} {table : ProfileTable α} :
    profile key bins bound subtractMin s = .ok table u ↔
      ∃ offset i, s.baseline? subtractMin = some offset ∧
        key.resolve s.registry = (.ok i : Except (FitError α) Nat) ∧
        s.ProfilesAlong i bins bound offset table u := by
  rw [profile_eq_ok]
  constructor
  · rintro ⟨offset, i, bench, hoffset, hkey, hpoints, hwork, rfl⟩
    obtain ⟨hvalues, rfl⟩ := valuesAlong_eq_ok.mp hwork
    rw [hpoints.length]
    exact ⟨offset, i, hoffset, hkey, hpoints, hvalues, rfl⟩
  · rintro ⟨offset, i, hoffset, hkey, hpoints, hvalues, rfl⟩
    exact ⟨offset, i, _, hoffset, hkey, hpoints, valuesAlong_eq_ok.mpr ⟨hvalues, rfl⟩,
      by rw [hpoints.length]⟩

/-- A table of the cost over two parameters, with one row for each value of the first of them. -/
structure ContoursOver (s : Session σ α) (ix iy bins : Nat) (boundX boundY : Bound α) (offset : α)
    (table : GridTable α) (u : Session σ α) : Prop where
  distinct : ix ≠ iy
  rows : s.ScansOver ix bins boundX table.x
  columns : s.ScansOver iy bins boundY table.y
  values : List.Forall₂ (fun x row => List.Forall₂ (fun y f =>
    s.Values offset ((s.currentState.values.set ix x).set iy y) f) table.y row) table.x table.fval
  counted : u = { (s.noted boundX).noted boundY with bench := s.bench.counted (bins * bins) }

/-- **A scan of two parameters** succeeds exactly with such a table. -/
theorem contour_eq_ok_iff {keyX keyY : Key} {subtractMin : Bool} {table : GridTable α} :
    contour keyX keyY bins boundX boundY subtractMin s = .ok table u ↔
      ∃ offset ix iy, s.baseline? subtractMin = some offset ∧
        keyX.resolve s.registry = (.ok ix : Except (FitError α) Nat) ∧
        keyY.resolve s.registry = (.ok iy : Except (FitError α) Nat) ∧
        s.ContoursOver ix iy bins boundX boundY offset table u := by
  rw [contour_eq_ok]
  constructor
  · rintro ⟨offset, ix, iy, bench, hoffset, hkeyX, hkeyY, hne, hrows, hcolumns, hwork, rfl⟩
    obtain ⟨hvalues, rfl⟩ := (mapM_eq_ok_of_counted fun _ _ _ _ => valuesAlong_eq_ok).mp hwork
    rw [hrows.length, hcolumns.length]
    exact ⟨offset, ix, iy, hoffset, hkeyX, hkeyY, hne, hrows, hcolumns, hvalues, rfl⟩
  · rintro ⟨offset, ix, iy, hoffset, hkeyX, hkeyY, hne, hrows, hcolumns, hvalues, rfl⟩
    refine ⟨offset, ix, iy, _, hoffset, hkeyX, hkeyY, hne, hrows, hcolumns, ?_, rfl⟩
    refine (mapM_eq_ok_of_counted fun _ _ _ _ => valuesAlong_eq_ok).mpr ⟨hvalues, ?_⟩
    rw [hrows.length, hcolumns.length]

/-! ## Scans of minimized values -/

/-- At the bench, the minimization from the state finds the minimum. -/
def Finds (s : Session σ α) (start : ParameterState α) (b : Bench σ α) (m : FunctionMinimum α) :
    Prop :=
  ∃ c, s.engine.migrad s.cost start s.scanOptions b = .ok m c

/-- A table of minimized values along a parameter of which `e` is the entry, and the minima that it
is made of. The minimizations start from the current state with that parameter fixed at the points,
each of them on its own; with an engine of which these stand alone, the minima are those that each
point has at the bench of the session. Where the minimum is not valid, this is reported, in the
order of the points. -/
structure MinimizesAlong (s : Session σ α) (index : Nat) (e : Entry α) (bins : Nat)
    (bound : Bound α) (subtractMin : Bool) (minima : List (FunctionMinimum α))
    (table : MinimizedProfile α) (u : Session σ α) : Prop where
  entry : s.currentState.entries[index]? = some e
  points : s.ScansOver index bins bound table.x
  started : List.Forall₂ (fun x m => ∃ b, s.Finds (s.currentState.fixedAt index e x) b m)
    table.x minima
  alone : s.engine.MigradStandsAlone → List.Forall₂ (fun x m =>
    ∃ m', s.Finds (s.currentState.fixedAt index e x) s.bench m' ∧ m'.SameButCounts m)
    table.x minima
  fval : table.fval = if subtractMin then
    (minima.map (·.fval)).map (· - leastOf (minima.map (·.fval))) else minima.map (·.fval)
  valid : table.valid = minima.map (·.isValid)
  warnings : u.warnings = s.warnings ++ s.inaccurateReport bound ++ s.unsetReport ++
    s.invalidReports index table.x minima

/-- Where a value is written to a fixed parameter first, it is with the parameter fixed there that
the minimization starts. -/
theorem finds_of_setFixed {index : Nat} {base : ParameterState α}
    (h : s.currentState.setFixed index true = .ok base) :
    ∃ e, s.currentState.entries[index]? = some e ∧ ∀ {x m b c},
      (do let state ← Run.ofExcept (base.setValue index x)
          s.engine.migrad s.cost state s.scanOptions : Run σ α _) b = .ok m c →
        s.Finds (s.currentState.fixedAt index e x) b m := by
  obtain ⟨e, he, hstart⟩ := ParameterState.setValue_of_setFixed h
  refine ⟨e, he, fun {x m b c} hm => ?_⟩
  obtain ⟨state, b', hset, hm⟩ := bind_eq_ok.mp hm
  cases hvalue : base.setValue index x with
  | error e =>
    rw [hvalue] at hset
    cases hset
  | ok t =>
    rw [hvalue] at hset
    cases hset
    exact ⟨c, hstart hvalue ▸ hm⟩

theorem exists_minimizesAlong {key : Key} {subtractMin : Bool} {table : MinimizedProfile α}
    (h : minimizedProfile key bins bound subtractMin s = .ok table u) :
    ∃ i e minima, key.resolve s.registry = (.ok i : Except (FitError α) Nat) ∧
      s.MinimizesAlong i e bins bound subtractMin minima table u := by
  obtain ⟨i, base, minima, bench, hkey, hpoints, -, hbase, hwork, hfval, hvalid, rfl⟩ :=
    minimizedProfile_eq_ok.mp h
  obtain ⟨e, he, hfinds⟩ := finds_of_setFixed hbase
  refine ⟨i, e, minima, hkey, he, hpoints, ?_, fun hE => ?_, hfval, hvalid, rfl⟩
  · refine (forall₂_of_mapM_eq_ok (I := fun _ => True) (fun _ _ _ => trivial) trivial hwork).imp ?_
    exact fun _ _ ⟨b, _, _, hm⟩ => ⟨b, hfinds hm⟩
  · have halone := forall₂_alone (R := Bench.SameUp) (V := FunctionMinimum.SameButCounts)
      (fun _ => Matching.inStep_bind (inStep_runOfExcept _) fun _ => hE.ignoresHistory _ _ _)
      (fun _ => (keeps_runOfExcept _).bind fun _ => hE.keepsErrordef _ _ _) hwork
    exact halone.imp fun _ _ ⟨m', _, hm, hsame⟩ => ⟨m', hfinds hm, hsame⟩

end Session

/-! ## The least value -/

/-- The number is the least one of a list. What is not a number does not count. -/
structure IsLeastOf (m : Float) (xs : List Float) : Prop where
  mem : (∃ x ∈ xs, x.isNaN = false) → m ∈ xs
  le : ∀ x ∈ xs, x.isNaN = false → m ≤ x

theorem foldl_minNum {a : Float} (ha : a.isNaN = false) (xs : List Float) :
    xs.foldl Scalar.minNum a ≤ a ∧
      (xs.foldl Scalar.minNum a = a ∨ xs.foldl Scalar.minNum a ∈ xs) ∧
      ∀ x ∈ xs, x.isNaN = false → xs.foldl Scalar.minNum a ≤ x := by
  induction xs generalizing a with
  | nil => exact ⟨float_le_refl ha, .inl rfl, List.forall_mem_nil _⟩
  | cons x xs ih =>
    have hnumber : ¬Scalar.isNaN a = true := Bool.eq_false_iff.mp ha
    rw [List.foldl_cons, Scalar.minNum, if_neg hnumber]
    by_cases hlt : x < a
    · rw [if_pos hlt]
      obtain ⟨hle, hmem, hall⟩ := ih (isNaN_of_lt hlt).1
      refine ⟨float_le_trans hle (float_le_of_lt hlt), .inr (List.mem_cons.mpr hmem), ?_⟩
      exact List.forall_mem_cons.mpr ⟨fun _ => hle, hall⟩
    · rw [if_neg hlt]
      obtain ⟨hle, hmem, hall⟩ := ih ha
      refine ⟨hle, hmem.imp_right (List.mem_cons_of_mem x), List.forall_mem_cons.mpr ⟨?_, hall⟩⟩
      exact fun hx => float_le_trans hle ((float_not_lt hx ha).mp hlt)

/-- What is subtracted is the least value that was found. -/
theorem leastOf_isLeastOf (xs : List Float) : IsLeastOf (Session.leastOf xs) xs where
  mem h := by
    obtain ⟨x, hx, hnan⟩ := h
    obtain ⟨-, heq | hmem, hall⟩ := foldl_minNum (a := Scalar.inf) rfl xs
    · have hle := hall x hx hnan
      rw [heq] at hle
      have hinfinite : ¬x.isFinite := fun hfinite =>
        absurd (isFinite_of_between (x := 0) rfl hfinite (by decide +kernel) hle)
          (by decide +kernel)
      have htop := float_eq_inf rfl (float_le_trans (x := 0) (by decide +kernel) hle) hinfinite
      change xs.foldl Scalar.minNum Scalar.inf ∈ xs
      rwa [heq, ← htop]
    · exact hmem
  le := (foldl_minNum rfl xs).2.2

/-! ## All scans -/

/-- What the scans of a session give. -/
structure Session.ScansPointwise (s : Session σ Float) : Prop where
  profile : ∀ {key bins bound subtractMin table u},
    Session.profile key bins bound subtractMin s = .ok table u ↔
      ∃ offset i, s.baseline? subtractMin = some offset ∧
        key.resolve s.registry = (.ok i : Except (FitError Float) Nat) ∧
        s.ProfilesAlong i bins bound offset table u
  contour : ∀ {keyX keyY bins boundX boundY subtractMin table u},
    Session.contour keyX keyY bins boundX boundY subtractMin s = .ok table u ↔
      ∃ offset ix iy, s.baseline? subtractMin = some offset ∧
        keyX.resolve s.registry = (.ok ix : Except (FitError Float) Nat) ∧
        keyY.resolve s.registry = (.ok iy : Except (FitError Float) Nat) ∧
        s.ContoursOver ix iy bins boundX boundY offset table u
  minimizedProfile : ∀ {key bins bound subtractMin table u},
    Session.minimizedProfile key bins bound subtractMin s = .ok table u →
      ∃ i e minima, key.resolve s.registry = (.ok i : Except (FitError Float) Nat) ∧
        s.MinimizesAlong i e bins bound subtractMin minima table u ∧
        IsLeastOf (Session.leastOf (minima.map (·.fval))) (minima.map (·.fval))
  /-- Within the limit, the value at which a parameter is fixed is the point itself. -/
  within : ∀ {e : Entry Float} {x}, e.limit.Holds x → ∀ index,
    s.currentState.fixedAt index e x =
      s.currentState.replaceEntry index e { e with value := x, fixed := true }

/-- **Scans work point by point.** A scan of values gives the cost at the current values with only
one or two parameters replaced, less the value at the stored minimum if this is asked for; the cost
is evaluated exactly once for each point. A scan of minimized values gives what a minimization finds
that starts from the current state with only one parameter fixed. With an engine whose
minimizations leave the errordef and do not hang on what was done before
(`Engine.MigradStandsAlone`), these are the minima that each point has alone. -/
theorem scans_pointwise (s : Session σ Float) : s.ScansPointwise where
  profile := Session.profile_eq_ok_iff
  contour := Session.contour_eq_ok_iff
  minimizedProfile h := by
    obtain ⟨i, e, minima, hkey, hminima⟩ := Session.exists_minimizesAlong h
    exact ⟨i, e, minima, hkey, hminima, leastOf_isLeastOf _⟩
  within h _ := by rw [ParameterState.fixedAt, Limit.clamp_of_holds h]

/-- With two parameters, each of three minima is the one that is found at that point alone. -/
theorem scans_pointwise_twoParameters :
    ∃ s₀ : Session Unit Float,
      twoParameters.build sumOfSquares (quasiNewton .standard) () 0 = .ok s₀ ∧
        ∃ table u i e minima,
          Session.minimizedProfile (.index 0) 3 (.range 0 2) true s₀ = .ok table u ∧
            s₀.MinimizesAlong i e 3 (.range 0 2) true minima table u ∧
            List.Forall₂ (fun x m => ∃ m', s₀.Finds (s₀.currentState.fixedAt i e x) s₀.bench m' ∧
              m'.SameButCounts m) table.x minima := by
  obtain ⟨s₀, hbuild, h⟩ := exists_ok_of_any
    (x := twoParameters.build sumOfSquares (quasiNewton .standard) () 0)
    (P := fun s => succeeded (Session.minimizedProfile (.index 0) 3 (.range 0 2) true s))
    (by decide +kernel)
  obtain ⟨table, u, hscan⟩ := exists_ok_of_succeeded h
  obtain ⟨i, e, minima, -, hminima, -⟩ := (scans_pointwise s₀).minimizedProfile hscan
  have hE : s₀.engine.MigradStandsAlone := by
    rw [(SessionSpec.fresh_of_build hbuild).engine]
    exact ⟨quasiNewtonWith_ignoresHistory.migrad, quasiNewtonWith_keepsErrordef.migrad⟩
  exact ⟨s₀, hbuild, table, u, i, e, minima, hscan, hminima, hminima.alone hE⟩

/-- A cost that rises steeply. -/
def steep : Cost Float := .ofFunction fun xs => .ok (1e300 * xs.headD 0)

/-- One parameter `x` with a limit that has only two numbers between its bounds. -/
def oneParameterNearZero : SessionSpec Float :=
  { oneParameter with
    params := { (oneParameter : SessionSpec Float).params with
      limits := [("x", ⟨some 0, some 1.5e-323⟩)] } }

/-- The steps from one end of a limit to the other are rounded up, so that a point lies beyond the
limit. The value found for it is not that of a fit that starts at this point. -/
theorem fit_beside_point :
    ∃ s₀ : Session Unit Float,
      oneParameterNearZero.build steep (quasiNewton .standard) () 0 = .ok s₀ ∧
        ∃ table u e, Session.minimizedProfile (.index 0) 6 (.range 0 1.5e-323) false s₀ =
            .ok table u ∧ s₀.currentState.entries[0]? = some e ∧
          ∃ p ∈ table.x.zip table.fval, ∃ m c,
            s₀.engine.migrad s₀.cost
                (s₀.currentState.replaceEntry 0 e { e with value := p.1, fixed := true })
                s₀.scanOptions s₀.bench = .ok m c ∧ m.fval ≠ p.2 := by
  obtain ⟨s₀, hbuild, h⟩ := exists_ok_of_any
    (x := oneParameterNearZero.build steep (quasiNewton .standard) () 0)
    (P := fun s => s.currentState.entries[0]?.any fun e =>
      (answerOf (Session.minimizedProfile (.index 0) 6 (.range 0 1.5e-323) false s)).toOption.any
        fun table => (table.x.zip table.fval).any fun p =>
          (answerOf (s.engine.migrad s.cost
            (s.currentState.replaceEntry 0 e { e with value := p.1, fixed := true })
            s.scanOptions s.bench)).toOption.any fun m => decide (m.fval ≠ p.2))
    (by decide +kernel)
  obtain ⟨e, he, h⟩ := (Option.any_eq_true _ _).mp h
  obtain ⟨table, u, hscan, h⟩ := exists_ok_of_answer h
  obtain ⟨p, hp, h⟩ := List.any_eq_true.mp h
  obtain ⟨m, c, hm, hne⟩ := exists_ok_of_answer h
  exact ⟨s₀, hbuild, table, u, e, hscan, he, p, hp, m, c, hm, of_decide_eq_true hne⟩

end FitSession
