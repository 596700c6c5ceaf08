import FitSession.Proofs.Cost.Sum

/-!
# Sums of costs are flat

How a sum was put together cannot be seen of it: it consists of the same costs in the same order,
and its terms are deduced again to the same names.

* `Term.ofCost_cost`, `CostSum.mapM_ofCost_leaves`: a term is deduced again as it was;
* `CostSum.push_eq_ok`, `Addend.add_eq_ok`: when costs can be put together, and what is made of
  them;
* `Addend.behindAll`, `leaves_behindAll`: costs behind pointers;
* `CostSum.push_ofAddends`, `Addend.addLeft_eq_ok`: **grouping does not matter**;
* `composition_is_flat`: all of it.
-/

namespace FitSession

variable {α : Type}

/-! ## Terms that are deduced again -/

theorem Term.ofCost_cost (t : Term α) : Term.ofCost t.cost = .ok t := by
  obtain ⟨cost, names, deduced, distinct⟩ := t
  unfold ofCost
  split
  · rename_i e h
    rw [deduced] at h
    cases h
  · rename_i names' h
    obtain rfl : names = names' := Except.ok.inj (deduced.symm.trans h)
    split
    · rename_i name h
      rw [distinct] at h
      cases h
    · rfl

theorem CostSum.mapM_ofCost_leaves (s : CostSum α) : s.leaves.mapM Term.ofCost = .ok s.terms := by
  unfold leaves
  induction s.terms with
  | nil => rfl
  | cons t terms ih =>
    rw [List.map_cons, List.mapM_cons, Term.ofCost_cost, ih]
    rfl

variable [Scalar α]

/-! ## What is put together -/

namespace Addend

/-- The terms that an addend puts into a sum, if their names can be deduced. -/
def terms (x : Addend α) : Except (FitError α) (List (Term α)) := x.leaves.mapM Term.ofCost

/-- The verbosity that a sum gets from the addend on the left. -/
def override : Addend α → Option Nat
  | .single _ => none
  | .sum s => s.verbose

theorem terms_sum (s : CostSum α) : (Addend.sum s).terms = .ok s.terms := s.mapM_ofCost_leaves

end Addend

variable {s s' : CostSum α} {a b c x : Addend α}

theorem CostSum.push_eq_ok :
    s.push x = .ok s' ↔ ∃ ts, x.terms = .ok ts ∧ s' = rebuilt (s.terms ++ ts) s.verbose := by
  unfold push
  rw [except_bind_eq_ok]
  refine exists_congr fun ts => and_congr_right fun _ => ?_
  exact ⟨fun h => (Except.ok.inj h).symm, fun h => by rw [h]; rfl⟩

/-- Two addends make a sum when the names of both can be deduced. -/
theorem Addend.add_eq_ok : a.add b = .ok s ↔ ∃ ts us, a.terms = .ok ts ∧ b.terms = .ok us ∧
    s = .rebuilt (ts ++ us) a.override := by
  cases a with
  | sum t =>
    change t.push b = .ok s ↔ _
    rw [CostSum.push_eq_ok, terms_sum]
    simp [override]
  | single cost =>
    change (CostSum.empty.push (.single cost) >>= fun s => s.push b) = .ok s ↔ _
    rw [except_bind_eq_ok]
    simp only [CostSum.push_eq_ok]
    constructor
    · rintro ⟨_, ⟨ts, hts, rfl⟩, us, hus, rfl⟩
      exact ⟨ts, us, hts, hus, rfl⟩
    · rintro ⟨ts, us, hts, hus, rfl⟩
      exact ⟨_, ⟨ts, hts, rfl⟩, us, hus, rfl⟩

theorem Addend.leaves_of_add (h : a.add b = .ok s) : s.leaves = a.leaves ++ b.leaves := by
  obtain ⟨ts, us, hts, hus, rfl⟩ := add_eq_ok.mp h
  have hleft := map_of_mapM_ok (fun _ _ => Term.ofCost_eq_ok) hts
  have hright := map_of_mapM_ok (fun _ _ => Term.ofCost_eq_ok) hus
  change (ts ++ us).map (·.cost) = _
  rw [List.map_append, hleft, hright]

/-! ## Pointers -/

namespace Addend

/-- The addend behind some pointers, the first of which is the outermost. -/
def behindAll (ps : List Pointer) (x : Addend α) : Addend α := ps.foldr behind x

/-- A pointer hands on all that is asked of its cost, but the terms only if it is the only one. -/
theorem forwards_behind (p : Pointer) (x : Addend α) :
    (x.behind p).toCost = x.toCost ∧
      (x.behind p).takeTerms = if p.isSole then x.takeTerms else none := by
  unfold behind
  cases p.isSole <;> exact ⟨rfl, rfl⟩

theorem forwards_behindAll (x : Addend α) : ∀ ps : List Pointer,
    (x.behindAll ps).toCost = x.toCost ∧
      (x.behindAll ps).takeTerms = if ps.all Pointer.isSole then x.takeTerms else none
  | [] => ⟨rfl, rfl⟩
  | p :: ps => by
    obtain ⟨hcost, hterms⟩ := forwards_behindAll x ps
    obtain ⟨hcost', hterms'⟩ := forwards_behind p (x.behindAll ps)
    refine ⟨hcost'.trans hcost, hterms'.trans ?_⟩
    rw [hterms, List.all_cons]
    cases p.isSole <;> rfl

/-- Behind pointers of which each is the only one, an addend puts the same costs into a sum;
otherwise it is one cost. -/
theorem leaves_behindAll (x : Addend α) (ps : List Pointer) :
    (x.behindAll ps).leaves = if ps.all Pointer.isSole then x.leaves else [x.toCost] := by
  obtain ⟨hcost, hterms⟩ := x.forwards_behindAll ps
  unfold leaves
  rw [hcost, hterms]
  split <;> rfl

end Addend

/-! ## Groups -/

omit [Scalar α] in
theorem CostSum.append_assoc (s t u : CostSum α) :
    (s.append t).append u = s.append (t.append u) := by
  change rebuilt ((s.terms ++ t.terms) ++ u.terms) s.verbose =
    rebuilt (s.terms ++ (t.terms ++ u.terms)) s.verbose
  rw [List.append_assoc]

omit [Scalar α] in
theorem CostSum.rebuilt_terms (s : CostSum α) : rebuilt s.terms s.verbose = s := by
  obtain ⟨terms, names, maps, verbose, union_eq⟩ := s
  obtain ⟨rfl, rfl⟩ := Prod.ext_iff.mp union_eq
  rfl

theorem CostSum.pushes_eq_ok : ∀ (xs : List (Addend α)) {s : CostSum α},
    xs.foldlM push s = .ok s' ↔ ∃ ts, (xs.flatMap Addend.leaves).mapM Term.ofCost = .ok ts ∧
      s' = rebuilt (s.terms ++ ts) s.verbose
  | [], s => by
    constructor
    · intro h
      cases h
      exact ⟨[], rfl, by rw [List.append_nil, rebuilt_terms]⟩
    · rintro ⟨ts, hts, rfl⟩
      obtain rfl : [] = ts := Except.ok.inj hts
      rw [List.append_nil, rebuilt_terms]
      rfl
  | x :: xs, s => by
    rw [List.foldlM_cons, except_bind_eq_ok, List.flatMap_cons, List.mapM_append]
    simp only [push_eq_ok, pushes_eq_ok xs, except_bind_eq_ok]
    constructor
    · rintro ⟨_, ⟨ts, hts, rfl⟩, us, hus, rfl⟩
      refine ⟨ts ++ us, ⟨ts, hts, us, hus, rfl⟩, ?_⟩
      rw [← List.append_assoc]
      rfl
    · rintro ⟨_, ⟨ts, hts, us, hus, hadd⟩, rfl⟩
      cases hadd
      refine ⟨_, ⟨ts, hts, rfl⟩, us, hus, ?_⟩
      rw [← List.append_assoc]
      rfl

/-- A sum that is put into another one could as well have been put into it bit by bit. -/
theorem CostSum.push_ofAddends (s : CostSum α) {s' : CostSum α} (xs : List (Addend α)) :
    (do s.push (.sum (← ofAddends xs))) = .ok s' ↔ xs.foldlM push s = .ok s' := by
  rw [except_bind_eq_ok, pushes_eq_ok]
  simp only [ofAddends, pushes_eq_ok, push_eq_ok]
  constructor
  · rintro ⟨_, ⟨ts, hts, rfl⟩, us, hus, rfl⟩
    rw [Addend.terms_sum] at hus
    cases hus
    exact ⟨ts, hts, rfl⟩
  · rintro ⟨ts, hts, rfl⟩
    exact ⟨_, ⟨ts, hts, rfl⟩, ts, Addend.terms_sum _, rfl⟩

/-- The sum `(a + b) + c`. -/
def Addend.addLeft (a b c : Addend α) : Except (FitError α) (CostSum α) := do
  let ab ← a.add b
  Addend.add (.sum ab) c

/-- The sum `a + (b + c)`. -/
def Addend.addRight (a b c : Addend α) : Except (FitError α) (CostSum α) := do
  let bc ← b.add c
  a.add (.sum bc)

/-- Of three addends, it does not matter which two are put together first. -/
theorem Addend.addLeft_eq_ok : addLeft a b c = .ok s ↔ addRight a b c = .ok s := by
  unfold addLeft addRight
  simp only [except_bind_eq_ok, add_eq_ok]
  constructor
  · rintro ⟨_, ⟨ts, us, hts, hus, rfl⟩, _, vs, hsum, hvs, rfl⟩
    rw [terms_sum] at hsum
    cases hsum
    refine ⟨_, ⟨us, vs, hus, hvs, rfl⟩, ts, us ++ vs, hts, terms_sum _, ?_⟩
    change CostSum.rebuilt ((ts ++ us) ++ vs) a.override = _
    rw [List.append_assoc]
  · rintro ⟨_, ⟨us, vs, hus, hvs, rfl⟩, ts, _, hts, hsum, rfl⟩
    rw [terms_sum] at hsum
    cases hsum
    refine ⟨_, ⟨ts, us, hts, hus, rfl⟩, ts ++ us, vs, terms_sum _, hvs, ?_⟩
    change _ = CostSum.rebuilt ((ts ++ us) ++ vs) a.override
    rw [List.append_assoc]
    rfl

/-- However three addends are put together, what comes of it consists of the costs of each in their
order. -/
structure ComposeFlat (a b c : Addend α) : Prop where
  push : ∀ s s' : CostSum α, s.push a = .ok s' → s'.leaves = s.leaves ++ a.leaves
  append : ∀ s t : CostSum α, (s.append t).leaves = s.leaves ++ t.leaves
  add : ∀ s, a.add b = .ok s → s.leaves = a.leaves ++ b.leaves
  single : ∀ cost : Cost α, (Addend.single cost).leaves = [cost]
  sum : ∀ s : CostSum α, (Addend.sum s).leaves = s.leaves
  /-- Pointers give up the costs of a sum if there is no other owner on the way to it. -/
  pointers : ∀ ps, (a.behindAll ps).toCost = a.toCost ∧
    (a.behindAll ps).leaves = if ps.all Pointer.isSole then a.leaves else [a.toCost]
  /-- Both ways to put them together succeed with the same sum, or neither succeeds. -/
  grouped : ∀ s, Addend.addLeft a b c = .ok s ↔ Addend.addRight a b c = .ok s
  pushed : ∀ (s s' : CostSum α) (xs : List (Addend α)),
    (do s.push (.sum (← CostSum.ofAddends xs))) = .ok s' ↔ xs.foldlM CostSum.push s = .ok s'
  appended : ∀ s t u : CostSum α, (s.append t).append u = s.append (t.append u)

/-- **Sums of costs are flat, and do not depend on how their costs were grouped.** -/
theorem composition_is_flat (a b c : Addend α) : ComposeFlat a b c where
  push _ _ h := CostSum.leaves_of_push h
  append _ _ := List.map_append
  add _ h := Addend.leaves_of_add h
  single _ := rfl
  sum _ := rfl
  pointers ps := ⟨(a.forwards_behindAll ps).1, a.leaves_behindAll ps⟩
  grouped _ := Addend.addLeft_eq_ok
  pushed s _ xs := s.push_ofAddends xs
  appended := CostSum.append_assoc

/-- Both ways to put three overlapping costs together lead to one sum. -/
theorem composition_is_flat_overlapping : ∃ s : CostSum Float,
    Addend.addLeft (pairOf "x" "y") (pairOf "y" "z") (pairOf "z" "x") = .ok s ∧
      Addend.addRight (pairOf "x" "y") (pairOf "y" "z") (pairOf "z" "x") = .ok s ∧
      s.names = ["x", "y", "z"] := by
  have hnames : (Addend.addLeft (pairOf "x" "y") (pairOf "y" "z")
      (pairOf "z" "x")).toOption.any (fun s => s.names == ["x", "y", "z"]) = true := by
    decide +kernel
  have hgrouped := (composition_is_flat (pairOf "x" "y") (pairOf "y" "z") (pairOf "z" "x")).grouped
  cases h : Addend.addLeft (pairOf "x" "y") (pairOf "y" "z") (pairOf "z" "x") with
  | error e => simp [h, Except.toOption] at hnames
  | ok s =>
    rw [h] at hnames
    exact ⟨s, rfl, (hgrouped s).mp h, beq_iff_eq.mp hnames⟩

end FitSession
