import FitSession.Proofs.Coordinates.Gradient
import FitSession.Proofs.Coordinates.Transform
import FitSession.Proofs.Cost.Differentiable

/-!
# Parameter maps over the real numbers

In exact arithmetic each internal coordinate moves one parameter, by the transform of its limit, and
no other parameter moves. What is a derivative by the parameters is therefore carried over to the
internal coordinates by one slope for each of them.

* `ParameterMap.toExternal_toInternal`: **the values of a state come back**;
* `ParameterState.freeAt`, `ParameterMap.toExternal_reals`: points as functions of the coordinates;
* `hasFDerivAt_extend`, `sum_comp_extend`: their derivatives, and linear forms seen through them;
* `Problem.GivesGradient`, `givesGradient_of_grad`: the gradient of a cost, carried over;
* `Problem.answersGradient_of_cost`: **the chain rule**;
* **`charts_fit_together`**: transforms, maps and gradients.
-/

namespace FitSession

open Exact (real)

/-! ## There and back -/

/-- The value is a real number within the limit. -/
def Entry.IsWithinLimit (e : Entry Exact) : Prop := ∃ x, e.value = real x ∧ e.limit.Allows x

theorem Limit.Allows.le {l : Limit Exact} {x : ℝ} (h : l.Allows x) : l.lower ≤ l.upper :=
  IsTrans.trans _ _ _ h.lower h.upper

theorem ParameterMap.toExternal_toInternal {s : ParameterState Exact}
    (h : ∀ e ∈ s.entries, e.isFixed = false → e.IsWithinLimit) :
    (ofState s).toExternal ((ofState s).toInternal s) = s.values := by
  refine (toExternal_freeMapped s _).trans (List.map_congr_left fun e he => ?_)
  cases hfixed : e.isFixed with
  | true => rfl
  | false =>
    obtain ⟨x, hx, hallows⟩ := h e he hfixed
    have hwide : e.limit.isDegenerate = false := (Bool.or_eq_false_iff.mp hfixed).2
    rw [if_neg Bool.false_ne_true, hx]
    exact (BoundTransform.isChartOf_ofLimit hallows.le hwide).within hallows

/-! ## Points -/

namespace ParameterState

variable {α : Type} [Scalar α] (s : ParameterState α)

/-- The parameter of an internal coordinate. -/
def freeAt (k : Fin s.nFree) : Fin s.len :=
  ⟨s.freeIndices.get (k.cast s.length_freeIndices.symm), lt_of_mem_freeIndices (List.get_mem _ _)⟩

theorem getElem?_freeIndices (k : Fin s.nFree) : s.freeIndices[(k : ℕ)]? = some (s.freeAt k : ℕ) :=
  List.getElem?_eq_getElem (k.cast s.length_freeIndices.symm).2

theorem freeAt_injective : Function.Injective s.freeAt := by
  intro k l h
  have hget := List.nodup_iff_injective_get.mp s.nodup_freeIndices (Fin.val_eq_of_eq h)
  exact Fin.ext (congrArg Fin.val hget :)

theorem exists_freeAt {i : Fin s.len} (h : (i : ℕ) ∈ s.freeIndices) : ∃ k, s.freeAt k = i := by
  obtain ⟨k, hk⟩ := List.mem_iff_get.mp h
  exact ⟨k.cast s.length_freeIndices, Fin.ext hk⟩

/-- The entry of an internal coordinate. -/
def freeEntry (k : Fin s.nFree) : Entry α := s.entries.get (s.freeAt k)

theorem getElem?_entries (k : Fin s.nFree) : s.entries[(s.freeAt k : ℕ)]? = some (s.freeEntry k) :=
  List.getElem?_eq_getElem (s.freeAt k).2

end ParameterState

namespace ParameterMap

section Reals

variable {s : ParameterState Exact} {f f' : Fin s.nFree → ℝ → ℝ}

variable (s f) in
/-- The parameters at an internal point: free ones by their functions, the others as they are. -/
noncomputable def pointAt (v : Fin s.len → ℝ) (theta : Fin s.nFree → ℝ) : Fin s.len → ℝ :=
  Function.extend s.freeAt (fun k => f k (theta k)) v

variable (hf : ∀ k, (BoundTransform.ofLimit (s.freeEntry k).limit).Follows (f k) (f' k))
include hf

theorem toExternal_reals {v : Fin s.len → ℝ} (hv : s.values = reals v) (theta : Fin s.nFree → ℝ) :
    (ofState s).toExternal (reals theta) = reals (pointAt s f v theta) := by
  refine eq_reals length_toExternal fun i => ?_
  by_cases hmem : (i : ℕ) ∈ s.freeIndices
  · obtain ⟨k, rfl⟩ := s.exists_freeAt hmem
    have hat := getElem?_toExternal (s.getElem?_freeIndices k) (s.getElem?_entries k)
      (getElem?_reals theta k)
    rw [hat, (hf k).toExternal, pointAt, s.freeAt_injective.extend_apply]
  · have hnot : ¬∃ k, s.freeAt k = i := by
      rintro ⟨k, rfl⟩
      exact hmem (List.mem_of_getElem? (s.getElem?_freeIndices k))
    rw [getElem?_toExternal_of_fixed hmem, hv, getElem?_reals, pointAt,
      Function.extend_apply' _ _ _ hnot]

theorem jacobian_reals (theta : Fin s.nFree → ℝ) :
    (ofState s).jacobian (reals theta) = reals fun k => f' k (theta k) := by
  refine eq_reals (length_jacobian (length_reals _)) fun k => ?_
  have htransform : (ofState s).transforms[(k : ℕ)]? = some (.ofLimit (s.freeEntry k).limit) :=
    getElem?_transforms (s.getElem?_freeIndices k) (s.getElem?_entries k)
  rw [jacobian, List.getElem?_zipWith, htransform, getElem?_reals]
  exact congrArg some ((hf k).slope _)

end Reals

/-! ## Derivatives -/

section Derivatives

variable {m n : ℕ} {place : Fin m → Fin n} (hplace : Function.Injective place)
include hplace

/-- The derivative of a point of which some coordinates are functions of one variable each. -/
theorem hasFDerivAt_extend {f f' : Fin m → ℝ → ℝ} {theta : Fin m → ℝ}
    (hf : ∀ k, HasDerivAt (f k) (f' k (theta k)) (theta k)) (v : Fin n → ℝ) :
    HasFDerivAt (fun t : Fin m → ℝ => Function.extend place (fun k => f k (t k)) v)
      (ContinuousLinearMap.pi (Function.extend place
        (fun k => f' k (theta k) • (ContinuousLinearMap.proj k : (Fin m → ℝ) →L[ℝ] ℝ)) 0))
      theta := by
  rw [hasFDerivAt_pi']
  intro i
  by_cases hi : ∃ k, place k = i
  · obtain ⟨k, rfl⟩ := hi
    simp only [ContinuousLinearMap.proj_pi, hplace.extend_apply]
    exact (hf k).comp_hasFDerivAt theta (hasFDerivAt_apply k theta)
  · simp only [ContinuousLinearMap.proj_pi, Function.extend_apply' _ _ _ hi]
    exact hasFDerivAt_const _ _

/-- The linear form with given slopes, seen through the coordinates. -/
theorem sum_comp_extend (g : Fin n → ℝ) (d : Fin m → ℝ) :
    (∑ i, g i • (ContinuousLinearMap.proj i : (Fin n → ℝ) →L[ℝ] ℝ)).comp
      (ContinuousLinearMap.pi (Function.extend place
        (fun k => d k • (ContinuousLinearMap.proj k : (Fin m → ℝ) →L[ℝ] ℝ)) 0)) =
      ∑ k, (g (place k) * d k) • ContinuousLinearMap.proj k := by
  ext y
  simp only [ContinuousLinearMap.comp_apply, sum_apply, smul_apply,
    ContinuousLinearMap.proj_apply, ContinuousLinearMap.pi_apply, smul_eq_mul]
  refine (Fintype.sum_of_injective place hplace _ _ (fun i hi => ?_) fun k => ?_).symm
  · rw [Function.extend_apply' _ _ _ hi]
    simp
  · rw [hplace.extend_apply]
    simp [mul_assoc]

/-- A point whose coordinate `k` alone moves. -/
theorem extend_update {f : Fin m → ℝ → ℝ} (theta : Fin m → ℝ) (k : Fin m) (y : ℝ)
    (v : Fin n → ℝ) : Function.extend place (fun j => f j (Function.update theta k y j)) v =
      Function.update (Function.extend place (fun j => f j (theta j)) v) (place k) (f k y) := by
  funext i
  by_cases hi : ∃ j, place j = i
  · obtain ⟨j, rfl⟩ := hi
    rw [hplace.extend_apply]
    by_cases hjk : j = k
    · subst hjk
      rw [Function.update_self, Function.update_self]
    · rw [Function.update_of_ne hjk, Function.update_of_ne (hplace.ne hjk), hplace.extend_apply]
  · have hne : i ≠ place k := fun h => hi ⟨k, h.symm⟩
    rw [Function.extend_apply' _ _ _ hi, Function.update_of_ne hne, Function.extend_apply' _ _ _ hi]

end Derivatives
end ParameterMap

/-! ## The chain rule -/

namespace Problem

variable {s : ParameterState Exact} {cost : Cost Exact} {p : Problem Exact} {m : ℕ}

/-- At an internal point the gradient that the cost gives is carried over to this one, which is
accepted if a gradient may be asked. -/
structure GivesGradient (p : Problem Exact) (theta g : Fin m → ℝ) : Prop where
  given {μ : Type} [Memory μ Exact] (b : Bench μ Exact) :
    p.givenGradient (reals theta) b = .ok (reals g) { b with ngrad := b.ngrad + 1 }
  accepted {μ : Type} [Memory μ Exact] [Differences Exact] (h : p.cost.hasGrad = true)
    (b : Bench μ Exact) :
    p.gradient (reals theta) b = .ok (reals g) { b with ngrad := b.ngrad + 1 }

theorem givesGradient_of_given {theta g : Fin m → ℝ}
    (h : ∀ {μ : Type} [Memory μ Exact] (b : Bench μ Exact),
      p.givenGradient (reals theta) b = .ok (reals g) { b with ngrad := b.ngrad + 1 }) :
    p.GivesGradient theta g where
  given := h
  accepted hgrad b := by
    refine gradient_of_given hgrad (h b) (checkGradient_eq_ok.mpr ⟨?_, isFinite_reals g⟩)
    rw [length_reals, length_reals]

/-- The gradient of a cost, times the slopes of the transforms. -/
theorem givesGradient_of_grad {f f' : Fin s.nFree → ℝ → ℝ}
    (hf : ∀ k, (BoundTransform.ofLimit (s.freeEntry k).limit).Follows (f k) (f' k))
    {v : Fin s.len → ℝ} (hv : s.values = reals v) {theta : Fin s.nFree → ℝ} {g : Fin s.len → ℝ}
    (hg : cost.grad (reals (ParameterMap.pointAt s f v theta)) = .ok (reals g)) :
    GivesGradient ⟨cost, .ofState s⟩ theta fun k => g (s.freeAt k) * f' k (theta k) := by
  refine givesGradient_of_given fun {μ} _ b => ?_
  have hpoint := ParameterMap.toExternal_reals hf hv theta
  have hcarried : List.zipWith (fun i d => (reals g)[i]?.getD 0 * d) s.freeIndices
      (reals fun k => f' k (theta k)) = reals fun k => g (s.freeAt k) * f' k (theta k) := by
    refine eq_reals ?_ fun k => ?_
    · rw [List.length_zipWith, length_reals, s.length_freeIndices, Nat.min_self]
    rw [List.getElem?_zipWith, s.getElem?_freeIndices, getElem?_reals]
    dsimp only
    rw [getElem?_reals, Option.getD_some, Exact.real_mul_real]
  rw [givenGradient_of_size (hpoint ▸ hg) (by rw [hpoint, length_reals, length_reals])]
  dsimp only
  rw [ParameterMap.jacobian_reals hf theta]
  exact congrArg (EStateM.Result.ok · _) hcarried

/-- At an internal point the problem gives a gradient, and that is the derivative of the cost by the
internal coordinates. -/
def AnswersGradient (p : Problem Exact) (theta : Fin m → ℝ) : Prop :=
  ∃ g : Fin m → ℝ, p.GivesGradient theta g ∧
    p.cost.HasGradientAlong (fun t => p.map.toExternal (reals t)) g theta

/-- At an internal point the problem gives a gradient, and that has the partial derivatives of the
cost by the internal coordinates. -/
def AnswersPartials (p : Problem Exact) (theta : Fin m → ℝ) : Prop :=
  ∃ g : Fin m → ℝ, p.GivesGradient theta g ∧
    ∀ k, p.cost.HasSlopeAlong (fun y => p.map.toExternal (reals (Function.update theta k y)))
      (g k) (theta k)

/-- The gradient of a problem is that of the cost by the internal coordinates, if the cost answers
its gradient at the parameters of the point. -/
theorem answersGradient_of_cost (hreal : ∃ v : Fin s.len → ℝ, s.values = reals v)
    (theta : Fin s.nFree → ℝ) : ∃ x : Fin s.len → ℝ,
      (ParameterMap.ofState s).toExternal (reals theta) = reals x ∧
      (cost.AnswersGradient x → AnswersGradient ⟨cost, .ofState s⟩ theta) ∧
      (cost.AnswersPartials x → AnswersPartials ⟨cost, .ofState s⟩ theta) := by
  obtain ⟨v, hv⟩ := hreal
  choose f f' hf using fun k => BoundTransform.exists_follows (s.freeEntry k).limit
  have hpoint := ParameterMap.toExternal_reals hf hv
  have hderiv k : HasDerivAt (f k) (f' k (theta k)) (theta k) := (hf k).hasDerivAt _
  refine ⟨_, hpoint theta, ?_, ?_⟩
  · rintro ⟨g, hg, hcost⟩
    refine ⟨_, givesGradient_of_grad hf hv hg, ?_⟩
    simp only [Cost.HasGradientAlong, hpoint]
    rw [← ParameterMap.sum_comp_extend s.freeAt_injective]
    exact hcost.comp (ParameterMap.hasFDerivAt_extend s.freeAt_injective hderiv v)
  · rintro ⟨g, hg, -, hcost⟩
    refine ⟨_, givesGradient_of_grad hf hv hg, fun k => ?_⟩
    simp only [Cost.HasSlopeAlong, hpoint, ParameterMap.pointAt,
      ParameterMap.extend_update s.freeAt_injective]
    have hat : Function.extend s.freeAt (fun j => f j (theta j)) v (s.freeAt k) = f k (theta k) :=
      s.freeAt_injective.extend_apply _ _ _
    have halong := hcost (s.freeAt k)
    rw [ParameterMap.pointAt, hat] at halong
    have hslope : (g (s.freeAt k) * f' k (theta k)) • ContinuousLinearMap.id ℝ ℝ =
        (g (s.freeAt k) • ContinuousLinearMap.id ℝ ℝ).comp
          (ContinuousLinearMap.toSpanSingleton ℝ (f' k (theta k))) := by
      ext
      simp
    rw [hslope]
    exact halong.comp (hderiv k).hasFDerivAt

end Problem

/-- **Coordinate maps in exact arithmetic.** The transform of a limit that is more than a point and
its inverse go together; so the values of a state within its limits come back from internal
coordinates as they are, with its fixed parameters in place; and where the gradient of a cost is
that of its value, the gradient of a problem is that of the cost by the internal coordinates, as
total derivatives and as partial ones. -/
theorem charts_fit_together (s : ParameterState Exact) (cost : Cost Exact) :
    (∀ l : Limit Exact, l.lower ≤ l.upper → l.isDegenerate = false →
      (BoundTransform.ofLimit l).IsChartOf l) ∧
    ((∀ e ∈ s.entries, e.isFixed = false → e.IsWithinLimit) →
      (ParameterMap.ofState s).toExternal ((ParameterMap.ofState s).toInternal s) = s.values) ∧
    ((∃ v : Fin s.len → ℝ, s.values = reals v) → ∀ theta : Fin s.nFree → ℝ,
      ∃ x : Fin s.len → ℝ, (ParameterMap.ofState s).toExternal (reals theta) = reals x ∧
        (cost.AnswersGradient x → Problem.AnswersGradient ⟨cost, .ofState s⟩ theta) ∧
        (cost.AnswersPartials x → Problem.AnswersPartials ⟨cost, .ofState s⟩ theta)) :=
  ⟨fun _ => BoundTransform.isChartOf_ofLimit, ParameterMap.toExternal_toInternal,
    Problem.answersGradient_of_cost⟩

/-- A parameter with a lower bound of 0, and a fixed one. -/
noncomputable def boundedBesideFixed : ParameterState Exact where
  entries := [⟨real 1, real 1, false, real 0, .inf⟩, ⟨real 1, real 1, true, .negInf, .inf⟩]
  covariance := none

theorem charts_fit_together_lowerBound :
    ((real 0 ≤ Exact.inf ∧ (⟨real 0, .inf⟩ : Limit Exact).isDegenerate = false) ∧
      (BoundTransform.ofLimit ⟨real 0, .inf⟩).IsChartOf ⟨real 0, .inf⟩) ∧
    ((∀ e ∈ boundedBesideFixed.entries, e.isFixed = false → e.IsWithinLimit) ∧
      (ParameterMap.ofState boundedBesideFixed).toExternal
        ((ParameterMap.ofState boundedBesideFixed).toInternal boundedBesideFixed) =
          boundedBesideFixed.values) ∧
    boundedBesideFixed.values = reals ![1, 1] ∧ ∀ theta : Fin boundedBesideFixed.nFree → ℝ,
      ∃ x : Fin 2 → ℝ,
        (ParameterMap.ofState boundedBesideFixed).toExternal (reals theta) = reals x ∧
        (productOf "x" "y").AnswersGradient x ∧
        Problem.AnswersGradient ⟨productOf "x" "y", .ofState boundedBesideFixed⟩ theta ∧
        (productOf "x" "y").AnswersPartials x ∧
        Problem.AnswersPartials ⟨productOf "x" "y", .ofState boundedBesideFixed⟩ theta := by
  obtain ⟨hcharts, hback, hgradients⟩ :=
    charts_fit_together boundedBesideFixed (productOf "x" "y")
  have hwide : (⟨real 0, .inf⟩ : Limit Exact).isDegenerate = false := by
    have hne : (real 0 == Exact.inf) = false :=
      Bool.eq_false_iff.mpr fun h => by cases (Exact.beq_iff.mp h).2
    rw [Limit.isDegenerate, hne, Bool.and_false]
  have hwithin : ∀ e ∈ boundedBesideFixed.entries, e.isFixed = false → e.IsWithinLimit := by
    rintro e he -
    rcases List.mem_pair.mp he with rfl | rfl
    · exact ⟨1, rfl, Exact.real_le_real.mpr zero_le_one, trivial⟩
    · exact ⟨1, rfl, trivial, trivial⟩
  refine ⟨⟨⟨trivial, hwide⟩, hcharts _ trivial hwide⟩, ⟨hwithin, hback hwithin⟩, rfl,
    fun theta => ?_⟩
  obtain ⟨x, hx, htotal, hpartial⟩ := hgradients ⟨![1, 1], rfl⟩ theta
  have hanswers := answersGradient_productOf "x" "y" x
  exact ⟨x, hx, hanswers, htotal hanswers, hanswers.answersPartials,
    hpartial hanswers.answersPartials⟩

end FitSession
