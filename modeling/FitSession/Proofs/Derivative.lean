import FitSession.Proofs.Derivative.InPlace
import FitSession.Proofs.Derivative.Sampling

/-!
# Sampling points

Finite differences only sample their function at points that have as many coordinates as the one
at which they are taken, so that they keep whatever the function keeps at such points, and fail only
as it fails there.

* `ends_centralSamples`, `ends_forwardSamples`: first differences;
* `ends_hessianOfValues`, `ends_hessianOfGradients`: second differences;
* `keeps_checkedSlopes`, `keeps_hessianOfValues` and others: what the function keeps;
* `inStep_checkedSlopes`, `inStep_hessianOfValues` and others: differences of two functions, side
  by side.
-/

namespace FitSession

variable {σ α β : Type} [Scalar α] {n : Nat} {f : List α → Run σ α β} {theta : List α}

theorem length_cornerPoint (theta : List α) (i j : Nat) (x y : α) :
    (cornerPoint theta i j x y).length = theta.length := by
  simp [cornerPoint]

theorem checkGradient_eq_ok {g : List α} {dim : Nat} :
    (checkGradient g dim : Except (FitError α) Unit) = .ok () ↔
      g.length = dim ∧ ∀ x ∈ g, Scalar.isFinite x = true := by
  unfold checkGradient
  split_ifs with hlen
  · simp [hlen]
  rw [not_not] at hlen
  split
  · rename_i x i hfind
    have hmem := List.mem_zipIdx' (List.mem_of_find?_eq_some hfind)
    have hnot : Scalar.isFinite x = false := by simpa using List.find?_some hfind
    refine iff_of_false (by simp) fun h => ?_
    simp [h.2 x (hmem.2 ▸ List.getElem_mem hmem.1)] at hnot
  · rename_i hfind
    refine iff_of_true rfl ⟨hlen, fun x hx => ?_⟩
    obtain ⟨i, hi⟩ := List.mem_iff_getElem?.mp hx
    simpa using List.find?_eq_none.mp hfind (x, i) (List.mem_zipIdx_iff_getElem?.mpr hi)

theorem nrows_of_checkHessian {h : DenseMatrix α} {dim : Nat}
    (hcheck : (checkHessian h dim : Except (FitError α) Unit) = .ok ()) : h.nrows = dim := by
  unfold checkHessian at hcheck
  split_ifs at hcheck with hsize
  rw [DenseMatrix.hasSize] at hsize
  simp only [Bool.not_eq_true', Bool.not_eq_false, Bool.and_eq_true, decide_eq_true_eq] at hsize
  exact hsize.1

/-- Slopes that are checked are finite, one for each coordinate. -/
theorem returns_checkedSlopes (f : List α → Run σ α (Except (FitError α) α))
    (plan : Sampling α (List α)) (dim : Nat) :
    Returns (fun r => ∀ g, r = .ok g → g.length = dim ∧ ∀ x ∈ g, Scalar.isFinite x = true)
      (checkedSlopes f plan dim) := by
  refine Returns.bind_right fun _ => Returns.pure fun g hg => ?_
  obtain ⟨_, -, hg⟩ := except_bind_eq_ok.mp hg
  obtain ⟨_, hcheck, hg⟩ := except_bind_eq_ok.mp hg
  cases hg
  exact checkGradient_eq_ok.mp hcheck

/-- A curvature from values has a row for each coordinate. -/
theorem returns_hessianOfValues (f : List α → Run σ α α) (theta : List α) :
    Returns (fun h => h.nrows = theta.length) (hessianOfValues f theta) := by
  refine Returns.bind_right fun h => ?_
  cases hcheck : (checkHessian h theta.length : Except (FitError α) Unit) with
  | ok _ => exact Returns.pure (nrows_of_checkHessian hcheck)
  | error e => exact Returns.throw e

/-- A curvature from gradients has a row for each coordinate. -/
theorem returns_hessianOfGradients (g : List α → Run σ α (List α)) (theta : List α) :
    Returns (fun r => ∀ h, r = .ok h → h.nrows = theta.length) (hessianOfGradients g theta) := by
  refine Returns.bind_right fun central => ?_
  extract_lets symmetric
  cases hcheck : (checkHessian symmetric theta.length : Except (FitError α) Unit) with
  | ok _ =>
    refine Returns.pure fun h hh => ?_
    cases hh
    exact nrows_of_checkHessian hcheck
  | error e =>
    refine Returns.bind_right fun forward => Returns.pure fun h hh => ?_
    obtain ⟨_, hforward, hh⟩ := except_bind_eq_ok.mp hh
    cases hh
    exact nrows_of_checkHessian hforward

/-! ## Samples that may fail -/

section Ends

variable {I : Bench σ α → Prop} {Q : FitError α → Prop}

theorem ends_centralSamples (hf : ∀ t, t.length = n → Ends I Anything Q (f t))
    (h : theta.length = n) : Ends I Anything Q (centralSamples f theta) := by
  refine Ends.mapM (fun i => ?_) _
  refine (hf _ ((length_shifted _ _ _).trans h)).bind fun ahead _ => ?_
  exact (hf _ ((length_shifted _ _ _).trans h)).bind fun behind _ => Ends.pure trivial

theorem ends_forwardSamples (hf : ∀ t, t.length = n → Ends I Anything Q (f t))
    (h : theta.length = n) : Ends I Anything Q (forwardSamples f theta) := by
  refine (hf theta h).bind fun here _ => ?_
  refine (Ends.mapM (fun i => hf _ ((length_shifted _ _ _).trans h)) _).bind fun ahead _ => ?_
  exact Ends.pure trivial

section Values

variable {f : List α → Run σ α α} (hf : ∀ t, t.length = n → Ends I Anything Q (f t))
  (h : theta.length = n)
include hf h

theorem ends_diagonalDifference (f0 : α) (i : Nat) (x : α) :
    Ends I Anything Q (diagonalDifference f theta f0 i x) := by
  refine (hf _ ((length_shifted _ _ _).trans h)).bind fun ahead _ => ?_
  exact (hf _ ((length_shifted _ _ _).trans h)).bind fun behind _ => Ends.pure trivial

theorem ends_mixedDifference (i j : Nat) (x y : α) :
    Ends I Anything Q (mixedDifference f theta i j x y) := by
  have hcorner (x y : α) : Ends I Anything Q (f (cornerPoint theta i j x y)) :=
    hf _ ((length_cornerPoint _ _ _ _ _).trans h)
  refine (hcorner _ _).bind fun pp _ => (hcorner _ _).bind fun pm _ => ?_
  exact (hcorner _ _).bind fun mp _ => (hcorner _ _).bind fun mm _ => Ends.pure trivial

theorem ends_lowerRow (steps : List α) (f0 : α) (i : Nat) :
    Ends I Anything Q (lowerRow f theta steps f0 i) := by
  refine (ends_diagonalDifference hf h f0 i _).bind fun diagonal _ => ?_
  refine (Ends.mapM (fun j => ends_mixedDifference hf h i j _ _) _).bind fun mixed _ => ?_
  exact Ends.pure trivial

/-- The curvature from values fails as they fail, or where it is checked. -/
theorem ends_hessianOfValues (hcheck : ∀ m e, checkHessian m theta.length = .error e → Q e) :
    Ends I Anything Q (hessianOfValues f theta) := by
  have hdifferences : Ends I Anything Q (secondDifferences f theta (theta.map curvatureStep)) := by
    rw [secondDifferences_eq]
    exact (hf theta h).bind fun f0 _ =>
      (Ends.mapM (fun i => ends_lowerRow hf h _ f0 i) _).bind fun rows _ => Ends.pure trivial
  refine hdifferences.bind fun m _ => ?_
  cases hm : checkHessian m theta.length with
  | ok _ => exact Ends.pure trivial
  | error e => exact Ends.throw (hcheck m e hm)

end Values

/-- The curvature from gradients fails as they fail; its check is part of the answer. -/
theorem ends_hessianOfGradients {g : List α → Run σ α (List α)} {K : FitError α → Prop}
    (hg : ∀ t, t.length = n → Ends I Anything Q (g t)) (h : theta.length = n)
    (hcheck : ∀ m e, checkHessian m theta.length = .error e → K e) :
    Ends I (IsAnswer Anything K) Q (hessianOfGradients g theta) := by
  have hcentral : Ends I Anything Q (centralRows g theta) :=
    (hg theta h).bind fun _ _ => (ends_centralSamples hg h).bind fun samples _ => Ends.pure trivial
  have hforward : Ends I Anything Q (forwardRows g theta) :=
    (ends_forwardSamples hg h).bind fun _ _ => Ends.pure trivial
  refine hcentral.bind fun central _ => ?_
  extract_lets symmetric
  cases checkHessian symmetric theta.length with
  | ok _ => exact Ends.pure trivial
  | error e =>
    refine hforward.bind fun forward _ => Ends.pure ?_
    cases hm : checkHessian forward.symmetrized theta.length with
    | ok _ => exact trivial
    | error e => exact hcheck _ e hm

end Ends

/-! ## What samples keep -/

section Keeps

variable {R : Bench σ α → Bench σ α → Prop} [Chains R]

theorem keeps_checkedSlopes {f : List α → Run σ α (Except (FitError α) α)} {P : List α → Prop}
    {plan : Sampling α (List α)} (hf : ∀ t, P t → Keeps R (f t)) (hplan : plan.Asks P)
    (dim : Nat) : Keeps R (checkedSlopes f plan dim) :=
  (keeps_run hf hplan).bind fun _ => Keeps.pure _

theorem keeps_hessianOfValues {f : List α → Run σ α α}
    (hf : ∀ t, t.length = n → Keeps R (f t)) (h : theta.length = n) :
    Keeps R (hessianOfValues f theta) :=
  keeps_iff_ends.mpr fun b => ends_hessianOfValues
    (fun t ht => keeps_iff_ends.mp (hf t ht) b) h fun _ _ _ => trivial

theorem keeps_hessianOfGradients {g : List α → Run σ α (List α)}
    (hg : ∀ t, t.length = n → Keeps R (g t)) (h : theta.length = n) :
    Keeps R (hessianOfGradients g theta) := by
  refine keeps_iff_ends.mpr fun b c hbc => ?_
  have hend := ends_hessianOfGradients (K := Anything)
    (fun t ht => keeps_iff_ends.mp (hg t ht) b) h (fun _ _ _ => trivial) c hbc
  refine ⟨?_, hend.state⟩
  cases hessianOfGradients g theta c <;> trivial

end Keeps

/-! ## Samples taken side by side -/

section InStep

variable {τ : Type} {S : Bench σ α → Bench τ α → Prop}

theorem inStep_centralSamples {f : List α → Run σ α β} {g : List α → Run τ α β}
    (h : ∀ t, InStep S (f t) (g t)) (theta : List α) :
    InStep S (centralSamples f theta) (centralSamples g theta) := by
  refine InStep.mapM (fun i => ?_) _
  exact (h _).bind fun ahead => (h _).bind fun behind => InStep.pure (ahead, behind)

theorem inStep_forwardSamples {f : List α → Run σ α β} {g : List α → Run τ α β}
    (h : ∀ t, InStep S (f t) (g t)) (theta : List α) :
    InStep S (forwardSamples f theta) (forwardSamples g theta) :=
  (h theta).bind fun _ => (InStep.mapM (fun _ => h _) _).bind fun _ => InStep.pure _

theorem inStep_checkedSlopes {f : List α → Run σ α (Except (FitError α) α)}
    {g : List α → Run τ α (Except (FitError α) α)} (h : ∀ t, InStep S (f t) (g t))
    (plan : Sampling α (List α)) (dim : Nat) :
    InStep S (checkedSlopes f plan dim) (checkedSlopes g plan dim) :=
  (inStep_run h plan).bind fun _ => InStep.pure _

theorem inStep_hessianOfValues {f : List α → Run σ α α} {g : List α → Run τ α α}
    (h : ∀ t, InStep S (f t) (g t)) (theta : List α) :
    InStep S (hessianOfValues f theta) (hessianOfValues g theta) := by
  have hdiagonal (f0 : α) (i : Nat) (x : α) :
      InStep S (diagonalDifference f theta f0 i x) (diagonalDifference g theta f0 i x) :=
    (h _).bind fun ahead => (h _).bind fun behind => InStep.pure _
  have hmixed (i j : Nat) (x y : α) :
      InStep S (mixedDifference f theta i j x y) (mixedDifference g theta i j x y) :=
    (h _).bind fun pp => (h _).bind fun pm => (h _).bind fun mp => (h _).bind fun mm =>
      InStep.pure _
  have hrow (steps : List α) (f0 : α) (i : Nat) :
      InStep S (lowerRow f theta steps f0 i) (lowerRow g theta steps f0 i) :=
    (hdiagonal f0 i _).bind fun d => (InStep.mapM (fun j => hmixed i j _ _) _).bind fun mixed =>
      InStep.pure _
  have hdifferences (steps : List α) :
      InStep S (secondDifferences f theta steps) (secondDifferences g theta steps) := by
    rw [secondDifferences_eq, secondDifferences_eq]
    exact (h theta).bind fun f0 => (InStep.mapM (hrow steps f0) _).bind fun rows => InStep.pure _
  refine (hdifferences _).bind fun m => ?_
  cases checkHessian m theta.length with
  | ok _ => exact InStep.pure _
  | error e => exact InStep.throw e

theorem inStep_hessianOfGradients {f : List α → Run σ α (List α)} {g : List α → Run τ α (List α)}
    (h : ∀ t, InStep S (f t) (g t)) (theta : List α) :
    InStep S (hessianOfGradients f theta) (hessianOfGradients g theta) := by
  have hcentral : InStep S (centralRows f theta) (centralRows g theta) :=
    (h theta).bind fun _ => (inStep_centralSamples h theta).bind fun samples => InStep.pure _
  have hforward : InStep S (forwardRows f theta) (forwardRows g theta) :=
    (inStep_forwardSamples h theta).bind fun _ => InStep.pure _
  refine hcentral.bind fun central => ?_
  extract_lets symmetric
  cases checkHessian symmetric theta.length with
  | ok _ => exact InStep.pure _
  | error e => exact hforward.bind fun forward => InStep.pure _

end InStep

end FitSession
