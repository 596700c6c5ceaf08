import FitSession.Minimizer.Options
import FitSession.Proofs.Minimizer.LineSearch

/-!
# The dimension of the solvers

* `Lbfgs.staysIn_solver`: the quasi-Newton method stays in the space of its start;
* `Simplex.staysIn_solver`: so does the simplex method;
* `Solvers.StayIn`, `SolverOptions.solvers_stayIn`: **both solvers of a minimization do**, with any
  options.
-/

namespace FitSession

variable {α : Type} [Scalar α] {n : Nat}

/-! ## The quasi-Newton method -/

namespace Lbfgs

omit [Scalar α] in
/-- All vectors of a state have `n` coordinates. -/
structure State.IsIn (n : Nat) (s : State α) : Prop where
  theta : s.theta.length = n
  gradient : s.gradient.length = n
  pairs : ∀ p ∈ s.pairs, p.step.length = n ∧ p.change.length = n

theorem length_apply (scale : α) : ∀ (pairs : List (Pair α)) (q : List α),
    (∀ p ∈ pairs, p.step.length = n ∧ p.change.length = n) → q.length = n →
      (apply scale pairs q).length = n
  | [], q, _, hq => by simpa [apply] using hq
  | p :: older, q, h, hq => by
    obtain ⟨hstep, hchange⟩ := h p List.mem_cons_self
    unfold apply
    extract_lets rho a r b
    have hr : r.length = n := by
      refine length_apply scale older _ (fun p' hp' => h p' (List.mem_cons_of_mem p hp')) ?_
      simp [hq, hchange]
    simp [hr, hstep]

theorem length_direction {s : State α} (h : s.IsIn n) : (direction s).length = n := by
  simp only [direction, Scalar.length_scaleVec]
  exact length_apply _ _ _ (fun p hp => h.pairs p (List.mem_reverse.mp hp)) h.gradient

theorem staysIn_advance {search : Ray α → Search α (LinePoint α)} (hsearch : FindsIn n search)
    (settings : Settings α) (made : Nat) {s : State α} (h : s.IsIn n) :
    (advance search settings made s).StaysIn n fun r => r.1.IsIn n := by
  refine (hsearch _ ⟨h.theta, length_direction h⟩).attempt.bind fun found hfound => ?_
  cases found with
  | error fault => exact h
  | ok point =>
    have hpoint := hfound point rfl
    refine (Search.StaysWithin.gradient hpoint).bind fun g hg => ?_
    replace hg := hg.trans hpoint
    refine ⟨hpoint, hg, fun p hp => ?_⟩
    rcases List.mem_append.mp hp with hp | hp
    · split at hp
      · exact h.pairs p (List.mem_of_mem_drop hp)
      · exact h.pairs p hp
    · obtain rfl := List.mem_singleton.mp hp
      simp [hpoint, hg, h.theta, h.gradient]

/-- The quasi-Newton method stays in the space of its start. -/
theorem staysIn_solver {search : Ray α → Search α (LinePoint α)} (hsearch : FindsIn n search)
    (settings : Settings α) {theta : List α} (h : theta.length = n) :
    (solver search settings theta).StaysIn n (State.IsIn n) where
  start := (Search.StaysWithin.value h).bind fun _ _ =>
    (Search.StaysWithin.gradient h).bind fun _ hg => ⟨h, hg.trans h, fun _ hp => nomatch hp⟩
  current _ hs := hs.theta
  step made _ hs := staysIn_advance hsearch settings made hs

end Lbfgs

/-! ## The simplex method -/

namespace Simplex

/-- There is a vertex, and all vertices have `n` coordinates. -/
def AreIn (n : Nat) (candidates : List (Candidate α)) : Prop :=
  candidates ≠ [] ∧ ∀ c ∈ candidates, c.theta.length = n

theorem areIn_sorted {candidates : List (Candidate α)} (h : AreIn n candidates) :
    AreIn n (sorted candidates) := by
  have hperm : (sorted candidates).Perm candidates := List.mergeSort_perm _ _
  refine ⟨fun hnil => h.1 ?_, fun c hc => h.2 c (hperm.mem_iff.mp hc)⟩
  rw [hnil] at hperm
  exact hperm.symm.eq_nil

omit [Scalar α] in
theorem staysIn_evaluate {points : List (List α)} (h : ∀ theta ∈ points, theta.length = n) :
    (evaluate points).StaysIn n fun candidates =>
      candidates.length = points.length ∧ ∀ c ∈ candidates, c.theta.length = n :=
  Search.StaysWithin.mapM fun theta htheta =>
    (Search.StaysWithin.value (h theta htheta)).bind fun _ _ => h theta htheta

theorem length_along {a b : List α} (ha : a.length = n) (hb : b.length = n) (c : α) :
    (along a b c).length = n := by
  simp [along, ha, hb]

theorem length_reflection {a b : List α} (ha : a.length = n) (hb : b.length = n) :
    (reflection a b).length = n := by
  simp [reflection, ha, hb]

theorem length_centre {candidates : List (Candidate α)} (h : AreIn n candidates) :
    (centre candidates).length = n := by
  cases candidates with
  | nil => exact absurd rfl h.1
  | cons first rest =>
    have htotal : ∀ (l : List (Candidate α)) (acc : List α), acc.length = n →
        (∀ c ∈ l, c.theta.length = n) →
          (l.foldl (fun acc c => Scalar.addVec acc c.theta) acc).length = n := by
      intro l
      induction l with
      | nil => exact fun _ hacc _ => hacc
      | cons c l ih =>
        intro acc hacc hl
        refine ih _ ?_ fun d hd => hl d (List.mem_cons_of_mem c hd)
        simp [hacc, hl c List.mem_cons_self]
    simpa [centre] using htotal rest first.theta (h.2 first List.mem_cons_self) fun c hc =>
      h.2 c (List.mem_cons_of_mem first hc)

omit [Scalar α] in
theorem staysIn_trial {theta : List α} (h : theta.length = n) :
    (trial theta).StaysIn n fun c => c.theta.length = n :=
  (Search.StaysWithin.value h).bind fun _ _ => h

omit [Scalar α] in
/-- A vertex that takes the place of another has `n` coordinates. -/
def Move.IsIn (n : Nat) : Move α → Prop
  | .replace c => c.theta.length = n
  | .shrink => True

theorem staysIn_move (best second : α) {worst : Candidate α} {centre : List α}
    (hw : worst.theta.length = n) (hc : centre.length = n) :
    (move best second worst centre).StaysIn n (Move.IsIn n) := by
  refine (staysIn_trial (length_reflection hc hw)).bind fun reflected hr => ?_
  refine Search.StaysWithin.ite hr (Search.StaysWithin.ite ?_ (Search.StaysWithin.ite ?_ ?_))
  · refine (staysIn_trial (length_along hc hr 2)).bind fun expanded he => ?_
    change (Candidate.theta (if _ then _ else _)).length = n
    split
    · exact he
    · exact hr
  · refine (staysIn_trial (length_along hc hr 0.5)).bind fun contracted hk => ?_
    change Move.IsIn n (if _ then _ else _)
    split
    · exact hk
    · trivial
  · refine (staysIn_trial (length_along hc hw 0.5)).bind fun contracted hk => ?_
    change Move.IsIn n (if _ then _ else _)
    split
    · exact hk
    · trivial

theorem staysIn_shrunk {candidates : List (Candidate α)} (h : AreIn n candidates) :
    (shrunk candidates).StaysIn n (AreIn n) := by
  cases candidates with
  | nil => exact absurd rfl h.1
  | cons best rest =>
    have hbest := h.2 best List.mem_cons_self
    refine (staysIn_evaluate fun theta htheta => ?_).bind fun moved hmoved => ?_
    · obtain ⟨c, hc, rfl⟩ := List.mem_map.mp htheta
      exact length_along hbest (h.2 c (List.mem_cons_of_mem best hc)) 0.5
    · refine ⟨List.cons_ne_nil _ _, fun c hc => ?_⟩
      rcases List.mem_cons.mp hc with rfl | hc
      · exact hbest
      · exact hmoved.2 c hc

theorem staysIn_advance {candidates : List (Candidate α)} (h : AreIn n candidates) :
    (advance candidates).StaysIn n (AreIn n) := by
  unfold advance
  extract_lets others
  split
  · rename_i best second worst _ hsecond hworst
    have hothers : AreIn n others :=
      ⟨fun hnil => by simp [hnil] at hsecond, fun c hc => h.2 c (List.dropLast_subset _ hc)⟩
    have hw := h.2 worst (List.mem_of_getLast? hworst)
    refine (staysIn_move _ _ hw (length_centre hothers)).bind fun m hm => ?_
    cases m with
    | replace c =>
      refine areIn_sorted ⟨by simp, fun d hd => ?_⟩
      rcases List.mem_append.mp hd with hd | hd
      · exact hothers.2 d hd
      · exact List.mem_singleton.mp hd ▸ hm
    | shrink => exact (staysIn_shrunk h).bind fun moved hmoved => areIn_sorted hmoved
  · exact h

theorem length_of_mem_vertices {theta steps : List α} (h : theta.length = n) :
    ∀ v ∈ vertices theta steps, v.length = n := by
  intro v hv
  rcases List.mem_cons.mp hv with rfl | hv
  · exact h
  · obtain ⟨⟨step, k⟩, -, rfl⟩ := List.mem_map.mp hv
    simpa using h

/-- The simplex method stays in the space of its start. -/
theorem staysIn_solver (tolerance : α) {theta : List α} (h : theta.length = n) (steps : List α) :
    (solver tolerance (vertices theta steps)).StaysIn n (AreIn n) where
  start := by
    refine (staysIn_evaluate (length_of_mem_vertices h)).bind fun candidates hcandidates => ?_
    refine areIn_sorted ⟨fun hnil => ?_, hcandidates.2⟩
    simp [hnil, vertices] at hcandidates
  current candidates hc := by
    obtain ⟨hne, hall⟩ := hc
    cases candidates with
    | nil => exact absurd rfl hne
    | cons c rest => exact hall c List.mem_cons_self
  step _ _ hc := (staysIn_advance hc).bind fun _ hnext => hnext

end Simplex

/-! ## Both solvers -/

/-- Both solvers stay within a set of points if they start there. -/
structure Solvers.StayWithin (I : List α → Prop) (solvers : Solvers α) : Prop where
  descent : ∀ theta limit, I theta →
    (solvers.descent theta limit).StaysWithin I fun outcome => I outcome.theta
  fallback : ∀ {theta steps limit search}, I theta →
    solvers.fallback theta steps limit = .ok search →
      search.StaysWithin I fun outcome => I outcome.theta

/-- Both solvers stay in the space of their start. -/
abbrev Solvers.StayIn (n : Nat) (solvers : Solvers α) : Prop :=
  solvers.StayWithin fun theta => theta.length = n

omit [Scalar α] in
/-- All solvers stay within all points. -/
theorem Solvers.stayWithin_all (solvers : Solvers α) : solvers.StayWithin fun _ => True where
  descent theta limit _ := (solvers.descent theta limit).staysWithin_all
  fallback _ _ := Search.staysWithin_all _

theorem LineSearchKind.findsIn (kind : LineSearchKind) : FindsIn n (kind.search (α := α)) := by
  cases kind with
  | moreThuente => exact moreThuente_findsIn
  | hagerZhang => exact hagerZhang_findsIn

/-- **The solvers stay in the space of their start**, whatever their options. -/
theorem SolverOptions.solvers_stayIn (o : SolverOptions α) : o.solvers.StayIn n where
  descent theta limit h := by
    change (o.descent theta limit).StaysIn n _
    unfold SolverOptions.descent
    cases o.lbfgsFault with
    | some fault => trivial
    | none => exact (Lbfgs.staysIn_solver o.lineSearch.findsIn o.lbfgsSettings h).run limit
  fallback {theta steps limit search} h hsearch := by
    change o.fallback theta steps limit = _ at hsearch
    unfold SolverOptions.fallback at hsearch
    split at hsearch
    · cases hsearch
    · cases hsearch
      exact (Simplex.staysIn_solver o.spreadTolerance h steps).run limit

end FitSession
