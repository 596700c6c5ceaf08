import FitSession.Proofs.Dense
import FitSession.Proofs.Derivative
import Mathlib.Tactic.Ring

/-!
# The samples of a curvature

Second differences ask for one value at a time, at points that are known before. So the curvature
fails where the first of these values fails, and else is made of all of them.

* `differencePoints`: the points in their order, with their number in `length_differencePoints`;
* `Visits`: work that calls a function at given points and has no other effect;
* **`visits_secondDifferences`**: second differences in any monad;
* `HessianEnds`, **`hessianEnds_hessianOfValues`**: the ends of a curvature from values;
* `Answers`, **`answers_secondDifferences`**: its entries where the values are those of a function.
-/

namespace FitSession

variable {α β γ δ ε τ : Type}

/-! ## The points -/

section Points

variable [Scalar α] (theta steps : List α)

/-- The points on both sides on an axis. -/
def axisPoints (i : ℕ) (x : α) : List (List α) := [shifted theta i x, shifted theta i (-x)]

/-- The corners around the point on two axes. -/
def cornerPoints (i j : ℕ) (x y : α) : List (List α) :=
  [cornerPoint theta i j x y, cornerPoint theta i j x (-y), cornerPoint theta i j (-x) y,
    cornerPoint theta i j (-x) (-y)]

/-- The points for one row: both sides on its axis, then the corners with each earlier axis. -/
def rowPoints (i : ℕ) : List (List α) :=
  axisPoints theta i (steps[i]?.getD 1) ++ (List.range i).flatMap fun j =>
    cornerPoints theta i j (steps[i]?.getD 1) (steps[j]?.getD 1)

/-- The points of second differences: the point itself, then those for each row. -/
def differencePoints : List (List α) :=
  theta :: (List.range theta.length).flatMap (rowPoints theta steps)

theorem length_rowPoints (i : ℕ) : (rowPoints theta steps i).length = 4 * i + 2 := by
  simp [rowPoints, axisPoints, cornerPoints, List.length_flatMap]
  ring

theorem length_differencePoints : (differencePoints theta steps).length =
    1 + 2 * theta.length + 2 * theta.length * (theta.length - 1) := by
  have hrows (n : ℕ) : ((List.range n).flatMap (rowPoints theta steps)).length = 2 * (n * n) := by
    induction n with
    | zero => rfl
    | succ n ih =>
      rw [List.range_succ, List.flatMap_append, List.length_append, ih, List.flatMap_singleton,
        length_rowPoints]
      ring
  rw [differencePoints, List.length_cons, hrows]
  cases theta.length with
  | zero => rfl
  | succ n =>
    rw [Nat.add_sub_cancel]
    ring

variable {theta steps} {p : List α}

theorem mem_axisPoints {i : ℕ} {x : α} :
    p ∈ axisPoints theta i x ↔ ∃ x', (x' = x ∨ x' = -x) ∧ p = shifted theta i x' := by
  simp [axisPoints]

theorem mem_cornerPoints {i j : ℕ} {x y : α} : p ∈ cornerPoints theta i j x y ↔
    ∃ x' y', (x' = x ∨ x' = -x) ∧ (y' = y ∨ y' = -y) ∧ p = cornerPoint theta i j x' y' := by
  simp [cornerPoints, or_and_right, exists_or, or_assoc]

/-- The point itself, those one step away on an axis, and those one step away on two axes. -/
theorem mem_differencePoints : p ∈ differencePoints theta steps ↔ p = theta ∨
    ∃ i < theta.length, p ∈ axisPoints theta i (steps[i]?.getD 1) ∨
      ∃ j < i, p ∈ cornerPoints theta i j (steps[i]?.getD 1) (steps[j]?.getD 1) := by
  simp [differencePoints, rowPoints]

theorem getElem?_of_mem_axisPoints {i : ℕ} {x : α} (hp : p ∈ axisPoints theta i x) :
    p.length = theta.length ∧ ∀ k, k ≠ i → p[k]? = theta[k]? := by
  obtain ⟨x, -, rfl⟩ := mem_axisPoints.mp hp
  exact ⟨length_shifted _ _ _, fun k hk => getElem?_shifted theta hk x⟩

theorem getElem?_of_mem_cornerPoints {i j : ℕ} {x y : α} (hp : p ∈ cornerPoints theta i j x y) :
    p.length = theta.length ∧ ∀ k, k ≠ i → k ≠ j → p[k]? = theta[k]? := by
  obtain ⟨x, y, -, -, rfl⟩ := mem_cornerPoints.mp hp
  refine ⟨length_cornerPoint _ _ _ _ _, fun k hi hj => ?_⟩
  exact (getElem?_shifted (shifted theta i x) hj y).trans (getElem?_shifted theta hi x)

end Points

/-! ## Work that visits points -/

section Visits

variable {m : Type → Type} [Monad m] {f : β → m γ} {points : List β} {x : m δ}

/-- The work calls `f` at these points, one after another, and has no other effect. -/
def Visits (f : β → m γ) (points : List β) (x : m δ) : Prop :=
  Functor.discard x = Functor.discard (points.mapM f)

variable [LawfulMonad m]

theorem discard_bind (x : m γ) (k : γ → m δ) :
    Functor.discard (x >>= k) = x >>= fun b => Functor.discard (k b) := by
  simp [Functor.discard, LawfulFunctor.map_const]

/-- What follows may leave out the answer. -/
theorem discard_bind_const (x : m γ) (y : m δ) :
    (Functor.discard x >>= fun _ => y) = x >>= fun _ => y := by
  simp [Functor.discard, LawfulFunctor.map_const]

namespace Visits

theorem pure (b : δ) : Visits f [] (Pure.pure b) := by
  simp [Visits, Functor.discard, LawfulFunctor.map_const]

theorem call (p : β) : Visits f [p] (f p) := by
  simp [Visits, Functor.discard, LawfulFunctor.map_const]

theorem bind {points' : List β} {ζ : Type} {k : δ → m ζ} (hx : Visits f points x)
    (hk : ∀ b, Visits f points' (k b)) : Visits f (points ++ points') (x >>= k) := by
  have hdiscard : (x >>= fun _ => Functor.discard (points'.mapM f)) =
      points.mapM f >>= fun _ => Functor.discard (points'.mapM f) := by
    rw [← discard_bind_const, hx, discard_bind_const]
  unfold Visits at hk ⊢
  rw [discard_bind, List.mapM_append]
  simp only [hk, hdiscard, discard_bind]
  simp [Functor.discard, LawfulFunctor.map_const]

/-- Work that only goes on to use its answer. -/
theorem bind_pure {ζ : Type} {g : δ → ζ} (hx : Visits f points x) :
    Visits f points (x >>= fun b => Pure.pure (g b)) := by
  rw [← List.append_nil points]
  exact hx.bind fun b => pure (g b)

theorem mapM {κ : Type} {k : κ → m δ} {p : κ → List β} (h : ∀ a, Visits f (p a) (k a))
    (l : List κ) : Visits f (l.flatMap p) (l.mapM k) := by
  induction l with
  | nil => exact pure []
  | cons a l ih =>
    rw [List.mapM_cons, List.flatMap_cons]
    exact (h a).bind fun b => ih.bind_pure

end Visits

variable [Scalar α] (f : List α → m α) (theta steps : List α)

theorem visits_diagonalDifference (f0 : α) (i : ℕ) (x : α) :
    Visits f (axisPoints theta i x) (diagonalDifference f theta f0 i x) :=
  (Visits.call _).bind fun _ => (Visits.call _).bind_pure

theorem visits_mixedDifference (i j : ℕ) (x y : α) :
    Visits f (cornerPoints theta i j x y) (mixedDifference f theta i j x y) :=
  (Visits.call _).bind fun _ => (Visits.call _).bind fun _ => (Visits.call _).bind fun _ =>
    (Visits.call _).bind_pure

theorem visits_lowerRow (f0 : α) (i : ℕ) :
    Visits f (rowPoints theta steps i) (lowerRow f theta steps f0 i) :=
  (visits_diagonalDifference f theta f0 i _).bind fun _ =>
    (Visits.mapM (fun j => visits_mixedDifference f theta i j _ _) _).bind_pure

/-- **Samples of second differences.** In any monad, all that they do is to call the function at
their points, in order. -/
theorem visits_secondDifferences :
    Visits f (differencePoints theta steps) (secondDifferences f theta steps) := by
  rw [secondDifferences_eq]
  exact (Visits.call theta).bind fun f0 =>
    (Visits.mapM (visits_lowerRow f theta steps f0) _).bind_pure

end Visits

/-! ## Failures -/

section Failures

variable {f : β → EStateM ε τ γ} {points : List β} {x : EStateM ε τ δ} {s t : τ} {e : ε}

theorem length_of_mapM {ys : List γ} (h : points.mapM f s = .ok ys t) :
    ys.length = points.length := by
  induction points generalizing s ys with
  | nil =>
    cases h
    rfl
  | cons p points ih =>
    rw [List.mapM_cons] at h
    obtain ⟨y, u, -, h⟩ := bind_eq_ok.mp h
    obtain ⟨zs, v, hzs, h⟩ := bind_eq_ok.mp h
    cases h
    rw [List.length_cons, List.length_cons, ih hzs]

theorem discard_apply (x : EStateM ε τ δ) (s : τ) :
    (Functor.discard x) s = match x s with
      | .ok _ t => .ok ⟨⟩ t
      | .error e t => .error e t := by
  cases h : x s <;> simp [Functor.discard, Functor.mapConst, EStateM.map, h]

theorem Visits.exists_of_ok {b : δ} (h : Visits f points x) (hx : x s = .ok b t) :
    ∃ ys, points.mapM f s = .ok ys t := by
  have hs := congrFun h s
  rw [discard_apply, discard_apply, hx] at hs
  cases hp : points.mapM f s with
  | ok ys u =>
    rw [hp] at hs
    cases hs
    exact ⟨ys, rfl⟩
  | error e u =>
    rw [hp] at hs
    cases hs

theorem Visits.mapM_eq_error (h : Visits f points x) (hx : x s = .error e t) :
    points.mapM f s = .error e t := by
  have hs := congrFun h s
  rw [discard_apply, discard_apply, hx] at hs
  cases hp : points.mapM f s with
  | ok ys u =>
    rw [hp] at hs
    cases hs
  | error e u =>
    rw [hp] at hs
    cases hs
    rfl

end Failures

/-! ## The matrix -/

namespace DenseMatrix

variable {n : ℕ} {h : DenseMatrix α}

theorem mem_entries {i j : ℕ} {x : α} :
    (i, j, x) ∈ h.entries ↔ ∃ row, h.rows[i]? = some row ∧ row[j]? = some x := by
  unfold entries
  simp only [List.mem_flatMap, List.mem_map, Prod.exists, Prod.mk.injEq,
    List.mem_zipIdx_iff_getElem?]
  constructor
  · rintro ⟨row, _, hrow, _, _, hx, rfl, rfl, rfl⟩
    exact ⟨row, hrow, hx⟩
  · rintro ⟨row, hrow, hx⟩
    exact ⟨row, i, hrow, x, j, hx, rfl, rfl, rfl⟩

variable [Scalar α]

theorem mem_entries_of_isSquare (hsquare : h.IsSquare n) {i j : ℕ} {x : α} :
    (i, j, x) ∈ h.entries ↔ i < n ∧ j < n ∧ x = h.get i j := by
  rw [mem_entries]
  constructor
  · rintro ⟨row, hrow, hx⟩
    obtain ⟨hi, hrow'⟩ := List.getElem?_eq_some_iff.mp hrow
    have hlen := hsquare.entries row (hrow' ▸ List.getElem_mem hi)
    refine ⟨hsquare.rows ▸ hi, hlen ▸ (List.getElem?_eq_some_iff.mp hx).1, ?_⟩
    simp [get, hrow, hx]
  · rintro ⟨hi, hj, rfl⟩
    exact getElem?_row hsquare hi hj

end DenseMatrix

section Check

variable [Scalar α] {n : ℕ} {h : DenseMatrix α}

/-- A square matrix is accepted if its entries are finite. -/
theorem checkHessian_eq_ok (hsquare : h.IsSquare n)
    (hfinite : ∀ i < n, ∀ j < n, Scalar.isFinite (h.get i j) = true) :
    checkHessian h n = .ok () := by
  unfold checkHessian
  simp only [hsquare.hasSize, Bool.not_true, Bool.false_eq_true, if_false]
  rw [List.find?_eq_none.mpr fun entry hentry => ?_]
  obtain ⟨i, j, x⟩ := entry
  obtain ⟨hi, hj, rfl⟩ := (DenseMatrix.mem_entries_of_isSquare hsquare).mp hentry
  simp [hfinite i hi j hj]

theorem finite_of_checkHessian (hsquare : h.IsSquare n) (hcheck : checkHessian h n = .ok ()) :
    ∀ i < n, ∀ j < n, Scalar.isFinite (h.get i j) = true := by
  intro i hi j hj
  simp only [checkHessian, hsquare.hasSize, Bool.not_true, Bool.false_eq_true, if_false] at hcheck
  generalize hfind : h.entries.find? _ = found at hcheck
  cases found with
  | some found => cases hcheck
  | none =>
    have hmem := (DenseMatrix.mem_entries_of_isSquare hsquare).mpr ⟨hi, hj, rfl⟩
    simpa using List.find?_eq_none.mp hfind _ hmem

/-- A square matrix is only refused for an entry that is not finite. -/
theorem exists_of_checkHessian (hsquare : h.IsSquare n) {e : FitError α}
    (hcheck : checkHessian h n = .error e) : ∃ i < n, ∃ j < n,
      Scalar.isFinite (h.get i j) = false ∧ e = .invalidHessian i j (h.get i j) := by
  simp only [checkHessian, hsquare.hasSize, Bool.not_true, Bool.false_eq_true, if_false] at hcheck
  generalize hfind : h.entries.find? _ = found at hcheck
  cases found with
  | none => cases hcheck
  | some found =>
    obtain ⟨i, j, x⟩ := found
    obtain ⟨hi, hj, rfl⟩ :=
      (DenseMatrix.mem_entries_of_isSquare hsquare).mp (List.mem_of_find?_eq_some hfind)
    have hx := List.find?_some hfind
    exact ⟨i, hi, j, hj, by simpa using hx, (Except.error.inj hcheck).symm⟩

/-- Rows up to the diagonal make a symmetric matrix. -/
theorem get_ofLowerRows_comm (rows : List (List α)) (i j : ℕ) :
    (ofLowerRows rows).get i j = (ofLowerRows rows).get j i := by
  unfold ofLowerRows
  extract_lets lower
  by_cases hi : i < rows.length
  · by_cases hj : j < rows.length
    · rw [DenseMatrix.get_ofFn hi hj, DenseMatrix.get_ofFn hj hi]
      rcases lt_trichotomy i j with hij | rfl | hij
      · rw [if_neg hij.not_ge, if_pos hij.le]
      · rfl
      · rw [if_pos hij.le, if_neg hij.not_ge]
    · simp [DenseMatrix.get, DenseMatrix.ofFn, hi, hj]
  · by_cases hj : j < rows.length
    · simp [DenseMatrix.get, DenseMatrix.ofFn, hi, hj]
    · simp [DenseMatrix.get, DenseMatrix.ofFn, hi, hj]

end Check

/-! ## The ends of a curvature -/

section Ends

variable [Scalar α]

/-- How a curvature from values ends: at the first value that fails, at an entry that is not finite,
or with a symmetric matrix of finite entries. In each case nothing more was asked for. -/
inductive HessianEnds (f : List α → EStateM (FitError α) τ α) (theta : List α) (s : τ) :
    EStateM.Result (FitError α) τ (DenseMatrix α) → Prop
  | failed {pre p post ys e u t}
      (points : differencePoints theta (theta.map curvatureStep) = pre ++ p :: post)
      (before : pre.mapM f s = .ok ys u) (here : f p u = .error e t) :
      HessianEnds f theta s (.error e t)
  | refused {ys i j x t}
      (all : (differencePoints theta (theta.map curvatureStep)).mapM f s = .ok ys t)
      (within : i < theta.length ∧ j < theta.length) (entry : Scalar.isFinite x = false) :
      HessianEnds f theta s (.error (.invalidHessian i j x) t)
  | found {ys h t}
      (all : (differencePoints theta (theta.map curvatureStep)).mapM f s = .ok ys t)
      (square : h.IsSquare theta.length) (symmetric : ∀ i j, h.get i j = h.get j i)
      (finite : ∀ i < theta.length, ∀ j < theta.length, Scalar.isFinite (h.get i j) = true) :
      HessianEnds f theta s (.ok h t)

theorem returns_secondDifferences (f : List α → EStateM ε τ α) (theta steps : List α) :
    Returns (fun h : DenseMatrix α => h.IsSquare theta.length ∧ ∀ i j, h.get i j = h.get j i)
      (secondDifferences f theta steps) := by
  rw [secondDifferences_eq]
  refine Returns.bind_right fun f0 => ?_
  intro s h t hh
  obtain ⟨rows, u, hrows, hh⟩ := bind_eq_ok.mp hh
  cases hh
  have hlen : rows.length = theta.length :=
    (length_of_mapM hrows).trans List.length_range
  exact ⟨hlen ▸ DenseMatrix.isSquare_ofFn _ _, get_ofLowerRows_comm rows⟩

/-- **Ends of a curvature from values.** -/
theorem hessianEnds_hessianOfValues (f : List α → EStateM (FitError α) τ α) (theta : List α)
    (s : τ) : HessianEnds f theta s (hessianOfValues f theta s) := by
  have hvisits := visits_secondDifferences f theta (theta.map curvatureStep)
  unfold hessianOfValues
  cases hh : secondDifferences f theta (theta.map curvatureStep) s with
  | error e t =>
    obtain ⟨pre, p, post, ys, u, hpoints, hpre, hp⟩ :=
      exists_of_mapM_eq_error (hvisits.mapM_eq_error hh)
    rw [bind_apply, hh]
    exact .failed hpoints hpre hp
  | ok h t =>
    obtain ⟨ys, hall⟩ := hvisits.exists_of_ok hh
    obtain ⟨hsquare, hsymm⟩ := returns_secondDifferences f theta _ s h t hh
    rw [bind_of_ok hh]
    cases hcheck : checkHessian h theta.length with
    | ok _ => exact .found hall hsquare hsymm (finite_of_checkHessian hsquare hcheck)
    | error e =>
      obtain ⟨i, hi, j, hj, hentry, rfl⟩ := exists_of_checkHessian hsquare hcheck
      exact .refused hall ⟨hi, hj⟩ hentry

end Ends

/-! ## Values of a function -/

section Answers

/-- The work succeeds with this answer, whatever state it finds. -/
def Answers (b : δ) (x : EStateM ε τ δ) : Prop := ∀ s, ∃ t, x s = .ok b t

namespace Answers

variable {b : δ} {c : γ} {x : EStateM ε τ δ} {k : δ → EStateM ε τ γ}

theorem pure (b : δ) : Answers b (Pure.pure b : EStateM ε τ δ) := fun s => ⟨s, rfl⟩

theorem bind (hx : Answers b x) (hk : Answers c (k b)) : Answers c (x >>= k) := by
  intro s
  obtain ⟨t, ht⟩ := hx s
  obtain ⟨u, hu⟩ := hk t
  exact ⟨u, bind_eq_ok.mpr ⟨b, t, ht, hu⟩⟩

theorem mapM {l : List β} {g : β → γ} {f : β → EStateM ε τ γ}
    (h : ∀ p ∈ l, Answers (g p) (f p)) : Answers (l.map g) (l.mapM f) := by
  induction l with
  | nil => exact pure []
  | cons p l ih =>
    rw [List.mapM_cons]
    have hp := h p List.mem_cons_self
    exact hp.bind ((ih fun q hq => h q (List.mem_cons_of_mem p hq)).bind (pure _))

end Answers

variable [Scalar α] (v : List α → α) (theta steps : List α)

/-- The second difference on one axis, from the values of a function. -/
def axisDifference (i : ℕ) (x : α) : α :=
  (v (shifted theta i x) - 2 * v theta + v (shifted theta i (-x))) / (x * x)

/-- The mixed difference on two axes, from the values of a function. -/
def cornerDifference (i j : ℕ) (x y : α) : α :=
  (v (cornerPoint theta i j x y) - v (cornerPoint theta i j x (-y)) -
    v (cornerPoint theta i j (-x) y) + v (cornerPoint theta i j (-x) (-y))) / (4 * x * y)

/-- The entry in row `i` at or before the diagonal. -/
def differenceEntry (i j : ℕ) : α :=
  if i = j then axisDifference v theta i (steps[i]?.getD 1)
  else cornerDifference v theta i j (steps[i]?.getD 1) (steps[j]?.getD 1)

variable {v theta steps} {f : List α → EStateM ε τ α} {i j : ℕ} {x y : α}

theorem answers_diagonalDifference (hf : ∀ p ∈ axisPoints theta i x, Answers (v p) (f p)) :
    Answers (axisDifference v theta i x) (diagonalDifference f theta (v theta) i x) :=
  (hf _ (by simp [axisPoints])).bind ((hf _ (by simp [axisPoints])).bind (Answers.pure _))

theorem answers_mixedDifference (hf : ∀ p ∈ cornerPoints theta i j x y, Answers (v p) (f p)) :
    Answers (cornerDifference v theta i j x y) (mixedDifference f theta i j x y) :=
  (hf _ (by simp [cornerPoints])).bind ((hf _ (by simp [cornerPoints])).bind
    ((hf _ (by simp [cornerPoints])).bind ((hf _ (by simp [cornerPoints])).bind (Answers.pure _))))

theorem answers_lowerRow (hf : ∀ p ∈ rowPoints theta steps i, Answers (v p) (f p)) :
    Answers ((List.range (i + 1)).map (differenceEntry v theta steps i))
      (lowerRow f theta steps (v theta) i) := by
  have hdiagonal : Answers (differenceEntry v theta steps i i)
      (diagonalDifference f theta (v theta) i (steps[i]?.getD 1)) := by
    rw [differenceEntry, if_pos rfl]
    exact answers_diagonalDifference fun p hp => hf p (List.mem_append_left _ hp)
  have hmixed : ∀ j ∈ List.range i, Answers (differenceEntry v theta steps i j)
      (mixedDifference f theta i j (steps[i]?.getD 1) (steps[j]?.getD 1)) := by
    intro j hj
    rw [differenceEntry, if_neg (List.mem_range.mp hj).ne']
    exact answers_mixedDifference fun p hp =>
      hf p (List.mem_append_right _ (List.mem_flatMap.mpr ⟨j, hj, hp⟩))
  rw [List.range_succ, List.map_append]
  exact hdiagonal.bind ((Answers.mapM hmixed).bind (Answers.pure _))

/-- **Entries of second differences.** Where the values are those of a function, so are the
entries. -/
theorem answers_secondDifferences
    (hf : ∀ p ∈ differencePoints theta steps, Answers (v p) (f p)) :
    Answers (.ofFn theta.length theta.length fun i j =>
      if j ≤ i then differenceEntry v theta steps i j else differenceEntry v theta steps j i)
      (secondDifferences f theta steps) := by
  have hrows : ∀ i ∈ List.range theta.length,
      Answers ((List.range (i + 1)).map (differenceEntry v theta steps i))
        (lowerRow f theta steps (v theta) i) := fun i hi => answers_lowerRow fun p hp =>
    hf p (List.mem_cons_of_mem _ (List.mem_flatMap.mpr ⟨i, hi, hp⟩))
  have hmatrix : ofLowerRows ((List.range theta.length).map fun i =>
      (List.range (i + 1)).map (differenceEntry v theta steps i)) =
      .ofFn theta.length theta.length fun i j =>
        if j ≤ i then differenceEntry v theta steps i j else differenceEntry v theta steps j i := by
    unfold ofLowerRows
    rw [List.length_map, List.length_range]
    refine DenseMatrix.ofFn_congr fun i hi j hj => ?_
    by_cases hij : j ≤ i
    · rw [if_pos hij, if_pos hij]
      simp [hi, Nat.lt_succ_of_le hij]
    · rw [if_neg hij, if_neg hij]
      simp [hj, Nat.lt_succ_of_lt (not_le.mp hij)]
  rw [← hmatrix, secondDifferences_eq]
  exact (hf _ List.mem_cons_self).bind ((Answers.mapM hrows).bind (Answers.pure _))

end Answers

end FitSession
