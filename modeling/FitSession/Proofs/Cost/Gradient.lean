import FitSession.Proofs.Cost.Sum

/-!
# Gradients of sums

The gradient of a sum of costs is put together from those of its terms: what a term says of one of
its names is added at the place of that name in the union.

* `CostSum.slopes`: the gradient of one term at its own arguments, if it has the right length;
* `CostSum.added`: gradients of the terms, added name by name;
* `getElem?_scatterAdd`, `foldl_scatterAdd`: the running total is added at places;
* **`CostSum.grad_eq`**: both ways to add agree;
* `CostSum.GradEnds`, `gradEnds_grad`: how the gradient of a sum ends.
-/

namespace FitSession

variable {α : Type} [Scalar α]

namespace CostSum

/-- The gradient of a term at its own arguments. It has one component for each name. -/
def slopes (s : CostSum α) (args : List α) (t : Term α) : Except (FitError α) (List α) := do
  let g ← t.cost.grad (s.argumentsOf args t)
  if g.length = t.names.length then .ok g
  else .error (.gradientDimMismatch t.names.length g.length)

/-- For each name of the union, the sum of what the gradients of the terms say of it. -/
def added (s : CostSum α) (gs : List (List α)) : List α :=
  s.names.map fun name => Scalar.sum <| (s.terms.zip gs).filterMap fun (t, g) =>
    (t.names.zip g).lookup name

end CostSum

/-! ## Adding at places -/

section Scatter

variable {union names : List String} {places : List Nat} {name : String} {j : Nat}

omit [Scalar α] in
theorem lookup_zip_of_not_mem (h : name ∉ names) (g : List α) :
    (names.zip g).lookup name = none := by
  refine List.lookup_eq_none_iff.mpr fun p hp => bne_iff_ne.mpr fun heq => h ?_
  exact heq ▸ (List.of_mem_zip hp).1

/-- At the place of a name, what stands for that name is added. -/
theorem getElem?_scatterAdd (hplaces : Places union names places) (hunion : union.Nodup)
    (hnames : names.Nodup) (hj : union[j]? = some name) :
    ∀ g total : List α, (CostSum.scatterAdd total places g)[j]? =
      total[j]?.map fun x => ((names.zip g).lookup name).elim x (x + ·) := by
  induction hplaces with
  | nil => intro g total; simp [CostSum.scatterAdd]
  | @cons nm i names places hi hplaces ih =>
    obtain ⟨hnm, hnames⟩ := List.nodup_cons.mp hnames
    intro g total
    cases g with
    | nil => simp [CostSum.scatterAdd]
    | cons d g =>
      change (CostSum.scatterAdd (total.modify i (· + d)) places g)[j]? = _
      rw [ih hnames, List.getElem?_modify, List.zip_cons_cons]
      by_cases heq : name = nm
      · -- this is the place, and the name does not come again
        subst heq
        have hij : i = j :=
          (List.getElem?_inj (List.getElem?_eq_some_iff.mp hi).1 hunion).mp (hi.trans hj.symm)
        rw [List.lookup_cons_self, lookup_zip_of_not_mem hnm]
        cases total[j]? <;> simp [hij]
      · have hij : i ≠ j := by
          rintro rfl
          exact heq (Option.some.inj (hj.symm.trans hi))
        rw [List.lookup_cons, beq_eq_false_iff_ne.mpr heq]
        cases total[j]? <;> simp [hij]

theorem length_scatterAdd (places : List Nat) :
    ∀ g total : List α, (CostSum.scatterAdd total places g).length = total.length := by
  induction places with
  | nil => exact fun _ _ => rfl
  | cons i places ih =>
    intro g total
    cases g with
    | nil => rfl
    | cons d g => exact (ih g _).trans (List.length_modify _ _ _)

end Scatter

namespace CostSum

variable (s : CostSum α)

/-- The gradients of the terms, added one after another at their places. -/
theorem foldl_scatterAdd {name : String} {j : Nat} (hj : s.names[j]? = some name) :
    ∀ {terms : List (Term α)} {maps : List (List Nat)} (_ : List.Forall₂ (fun t places =>
        Places s.names t.names places) terms maps) (gs : List (List α)) (total : List α),
      (((terms.zip maps).zip gs).foldl (fun total p => scatterAdd total p.1.2 p.2) total)[j]? =
        total[j]?.map fun x => ((terms.zip gs).filterMap fun (t, g) =>
          (t.names.zip g).lookup name).foldl (· + ·) x := by
  intro terms maps hmaps
  induction hmaps with
  | nil => simp
  | @cons t places terms maps hplaces _ ih =>
    intro gs total
    cases gs with
    | nil => simp
    | cons g gs =>
      simp only [List.zip_cons_cons, List.foldl_cons, List.filterMap_cons]
      rw [ih, getElem?_scatterAdd hplaces s.isUnion.nodup t.nodup_names hj]
      cases total[j]? with
      | none => rfl
      | some x => cases (t.names.zip g).lookup name <;> rfl

theorem length_foldl_scatterAdd {β : Type} (l : List ((β × List Nat) × List α)) (total : List α) :
    (l.foldl (fun total p => scatterAdd total p.1.2 p.2) total).length = total.length := by
  induction l generalizing total with
  | nil => rfl
  | cons p l ih => rw [List.foldl_cons, ih, length_scatterAdd]

/-- The running total of all terms is what is added name by name. -/
theorem foldl_scatterAdd_eq_added (gs : List (List α)) :
    ((s.terms.zip s.maps).zip gs).foldl (fun total p => scatterAdd total p.1.2 p.2)
      (List.replicate s.names.length 0) = s.added gs := by
  have hmaps := List.forall₂_map_left_iff.mp s.isUnion.maps
  refine List.ext_getElem? fun j => ?_
  rw [added, List.getElem?_map]
  cases hj : s.names[j]? with
  | some name =>
    have hlt := (List.getElem?_eq_some_iff.mp hj).1
    rw [s.foldl_scatterAdd hj hmaps, List.getElem?_replicate, if_pos hlt]
    rfl
  | none =>
    refine List.getElem?_eq_none ?_
    rw [length_foldl_scatterAdd, List.length_replicate]
    exact List.getElem?_eq_none_iff.mp hj

/-- The gradient of a term at the arguments of its places. -/
def slopesAt (args : List α) (p : Term α × List Nat) : Except (FitError α) (List α) := do
  let g ← p.1.cost.grad (argumentsAt args p.2)
  if g.length = p.2.length then .ok g else .error (.gradientDimMismatch p.2.length g.length)

theorem mapM_slopesAt (args : List α) :
    (s.terms.zip s.maps).mapM (slopesAt args) = s.terms.mapM (s.slopes args) := by
  have hmaps := List.forall₂_map_left_iff.mp s.isUnion.maps
  generalize s.terms = terms, s.maps = maps at hmaps
  induction hmaps with
  | nil => rfl
  | @cons t places terms maps h _ ih =>
    have hslopes : slopesAt args (t, places) = s.slopes args t := by
      unfold slopesAt slopes
      rw [s.argumentsAt_eq args h, ← h.length_eq]
    rw [List.zip_cons_cons, List.mapM_cons, List.mapM_cons, hslopes, ih]

/-- **The gradient of a sum, name by name.** -/
theorem grad_eq {args : List α} (hlen : args.length = s.names.length) (hgrad : s.hasGrad = true) :
    s.grad args = (do
      let gs ← s.terms.mapM (s.slopes args)
      pure (s.added gs)) := by
  have hstep (total : List α) (p : Term α × List Nat) : (do
      let g ← p.1.cost.grad (argumentsAt args p.2)
      if g.length ≠ p.2.length then throw (.gradientDimMismatch p.2.length g.length)
      pure (scatterAdd total p.2 g)) =
      (do let g ← slopesAt args p; pure (scatterAdd total p.2 g)) := by
    unfold slopesAt
    cases p.1.cost.grad (argumentsAt args p.2) with
    | error e => rfl
    | ok g =>
      by_cases h : g.length = p.2.length
      · simp [bind, Except.bind, h]
      · simp [bind, Except.bind, h]
        rfl
  have hgradient : s.grad args = (s.terms.zip s.maps).foldlM _ _ :=
    (except_bind_ok (if_pos hlen.symm)).trans (by rw [hgrad]; rfl)
  rw [hgradient]
  simp only [hstep, foldlM_eq_mapM, mapM_slopesAt, foldl_scatterAdd_eq_added]

/-! ## How a gradient ends -/

/-- How the gradient of a sum ends: at a list of the wrong length, where there is no gradient, with
the first term that fails or has a gradient of the wrong length, or with the gradients of all terms
added name by name. -/
inductive GradEnds (s : CostSum α) (args : List α) : Except (FitError α) (List α) → Prop
  | mismatch (h : args.length ≠ s.names.length) :
    GradEnds s args (.error (.lengthMismatch s.names.length args.length))
  | missing (hlen : args.length = s.names.length)
    (h : s.terms = [] ∨ ∃ t ∈ s.terms, t.cost.hasGrad = false) :
    GradEnds s args (.error .gradientNotImplemented)
  | refused (hlen : args.length = s.names.length) (hgrad : ∀ t ∈ s.terms, t.cost.hasGrad = true)
    (pre post : List (Term α)) (t : Term α) (e : FitError α) (hterms : s.terms = pre ++ t :: post)
    (hpre : ∀ t ∈ pre, ∃ g, t.cost.grad (s.argumentsOf args t) = .ok g ∧ g.length = t.names.length)
    (ht : t.cost.grad (s.argumentsOf args t) = .error e) : GradEnds s args (.error e)
  | wrongLength (hlen : args.length = s.names.length)
    (hgrad : ∀ t ∈ s.terms, t.cost.hasGrad = true)
    (pre post : List (Term α)) (t : Term α) (g : List α) (hterms : s.terms = pre ++ t :: post)
    (hpre : ∀ t ∈ pre, ∃ g, t.cost.grad (s.argumentsOf args t) = .ok g ∧ g.length = t.names.length)
    (ht : t.cost.grad (s.argumentsOf args t) = .ok g) (hg : g.length ≠ t.names.length) :
    GradEnds s args (.error (.gradientDimMismatch t.names.length g.length))
  | added (hlen : args.length = s.names.length) (hne : s.terms ≠ [])
    (hgrad : ∀ t ∈ s.terms, t.cost.hasGrad = true) (gs : List (List α))
    (hgs : List.Forall₂ (fun t g => t.cost.grad (s.argumentsOf args t) = .ok g ∧
      g.length = t.names.length) s.terms gs) : GradEnds s args (.ok (s.added gs))

variable {s} {args : List α} {t : Term α}

omit [Scalar α] in
theorem hasGrad_iff : s.hasGrad = true ↔ s.terms ≠ [] ∧ ∀ t ∈ s.terms, t.cost.hasGrad = true := by
  simp [hasGrad]

theorem slopes_eq_ok {g : List α} : s.slopes args t = .ok g ↔
    t.cost.grad (s.argumentsOf args t) = .ok g ∧ g.length = t.names.length := by
  unfold slopes
  rw [except_bind_eq_ok]
  constructor
  · rintro ⟨g', hg', h⟩
    split at h
    · cases h
      exact ⟨hg', ‹_›⟩
    · cases h
  · rintro ⟨hg, hlen⟩
    exact ⟨g, hg, if_pos hlen⟩

theorem slopes_eq_error {e : FitError α} (h : s.slopes args t = .error e) :
    t.cost.grad (s.argumentsOf args t) = .error e ∨
      ∃ g, t.cost.grad (s.argumentsOf args t) = .ok g ∧ g.length ≠ t.names.length ∧
        e = .gradientDimMismatch t.names.length g.length := by
  unfold slopes at h
  cases hg : t.cost.grad (s.argumentsOf args t) with
  | error e' => exact .inl ((except_bind_error hg).symm.trans h)
  | ok g =>
    rw [except_bind_ok hg] at h
    split at h
    · cases h
    · next hlen => exact .inr ⟨g, rfl, hlen, (Except.error.inj h).symm⟩

theorem gradEnds_grad (s : CostSum α) (args : List α) : s.GradEnds args (s.grad args) := by
  by_cases hlen : args.length = s.names.length
  · cases hgrad : s.hasGrad with
    | false =>
      have hmissing : s.grad args = .error .gradientNotImplemented :=
        (except_bind_ok (if_pos hlen.symm)).trans (by rw [hgrad]; rfl)
      rw [hmissing]
      refine .missing hlen ?_
      have hnot : ¬(s.terms ≠ [] ∧ ∀ t ∈ s.terms, t.cost.hasGrad = true) := by
        rw [← hasGrad_iff, hgrad]
        exact Bool.false_ne_true
      by_cases hterms : s.terms = []
      · exact .inl hterms
      · simpa [hterms] using hnot
    | true =>
      obtain ⟨hne, hall⟩ := hasGrad_iff.mp hgrad
      rw [s.grad_eq hlen hgrad]
      cases hgs : s.terms.mapM (s.slopes args) with
      | error e =>
        obtain ⟨pre, t, post, hterms, hpre, ht⟩ := mapM_eq_error_iff.mp hgs
        have hpre : ∀ t ∈ pre, ∃ g, _ := fun t ht => (hpre t ht).imp fun g => slopes_eq_ok.mp
        rcases slopes_eq_error ht with hfail | ⟨g, hg, hne', rfl⟩
        · exact .refused hlen hall pre post t e hterms hpre hfail
        · exact .wrongLength hlen hall pre post t g hterms hpre hg hne'
      | ok gs =>
        exact .added hlen hne hall gs ((mapM_eq_ok_iff.mp hgs).imp fun _ _ => slopes_eq_ok.mp)
  · have hmismatch : s.grad args = .error _ := except_bind_error (if_neg (Ne.symm hlen))
    rw [hmismatch]
    exact .mismatch hlen

end CostSum

end FitSession
