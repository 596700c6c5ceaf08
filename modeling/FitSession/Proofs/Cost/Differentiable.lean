import FitSession.Proofs.Cost.Gradient
import FitSession.Proofs.Exact

/-!
# Gradients are derivatives

In exact arithmetic, where the terms of a sum have the gradients of their values, so has the sum.

* `Cost.HasDerivAlong`: the derivative of a cost along a family of points;
* `Cost.AnswersGradient`, `Cost.AnswersPartials`: the gradient of a cost is the total derivative of
  its value, or at least has its partial derivatives;
* `Cost.HasGradientAlong`, `Cost.HasSlopeAlong`: the same along families of points;
* `CostSum.place`: where the arguments of a term stand in the union;
* `CostSum.value_reals`, `CostSum.grad_reals`: value and gradient of a sum as sums over its terms;
* **`grad_adds_slopes`**: how the gradient of a sum ends, and that it is that of the value.
-/

namespace FitSession

open Exact (real)
open scoped Topology

/-- What is left out of a sum of finite numbers counts as zero. -/
theorem foldl_filterMap_real {β : Type} {f : β → Option Exact} {r : β → ℝ} :
    ∀ {l : List β} (_ : ∀ b ∈ l, (f b = none ∧ r b = 0) ∨ f b = some (real (r b))) (x : ℝ),
      (l.filterMap f).foldl (· + ·) (real x) = real (x + (l.map r).sum)
  | [], _, x => by simp
  | b :: l, h, x => by
    obtain ⟨hb, hl⟩ := List.forall_mem_cons.mp h
    rw [List.map_cons, List.sum_cons, ← add_assoc]
    rcases hb with ⟨hnone, hzero⟩ | hsome
    · rw [List.filterMap_cons_none hnone, hzero, add_zero, foldl_filterMap_real hl]
    · rw [List.filterMap_cons_some hsome, List.foldl_cons, Exact.real_add_real,
        foldl_filterMap_real hl]

/-! ## Derivatives of costs -/

namespace Cost

variable {E F : Type} [NormedAddCommGroup E] [NormedSpace ℝ E] [NormedAddCommGroup F]
  [NormedSpace ℝ F] {c : Cost Exact} {n : ℕ}

/-- Along a family of points the cost has finite values close to `x`, and they have a derivative
there. -/
def HasDerivAlong (c : Cost Exact) (φ : E → List Exact) (L : E →L[ℝ] ℝ) (x : E) : Prop :=
  ∃ f : E → ℝ, (∀ᶠ y in 𝓝 x, c.value (φ y) = .ok (real (f y))) ∧ HasFDerivAt f L x

/-- At a point the cost answers a gradient, and that is the derivative of its value. -/
def AnswersGradient (c : Cost Exact) (x : Fin n → ℝ) : Prop :=
  ∃ g : Fin n → ℝ, c.grad (reals x) = .ok (reals g) ∧
    c.HasDerivAlong reals (∑ i, g i • ContinuousLinearMap.proj i) x

/-- At a point the cost has a finite value and answers a gradient, and that has the partial
derivatives of its value. -/
def AnswersPartials (c : Cost Exact) (x : Fin n → ℝ) : Prop :=
  ∃ g : Fin n → ℝ, c.grad (reals x) = .ok (reals g) ∧
    (∃ v, c.value (reals x) = .ok (real v)) ∧
    ∀ i, c.HasDerivAlong (fun y => reals (Function.update x i y))
      (g i • ContinuousLinearMap.id ℝ ℝ) (x i)

/-- The gradient is the derivative of the cost along a family of points. -/
def HasGradientAlong (c : Cost Exact) (φ : (Fin n → ℝ) → List Exact) (g x : Fin n → ℝ) : Prop :=
  c.HasDerivAlong φ (∑ i, g i • ContinuousLinearMap.proj i) x

/-- The slope is the derivative of the cost along a line of points. -/
def HasSlopeAlong (c : Cost Exact) (φ : ℝ → List Exact) (slope x : ℝ) : Prop :=
  c.HasDerivAlong φ (slope • ContinuousLinearMap.id ℝ ℝ) x

theorem HasDerivAlong.comp {φ : F → List Exact} {L : F →L[ℝ] ℝ} {A : E → F} {A' : E →L[ℝ] F}
    {x : E} (h : c.HasDerivAlong φ L (A x)) (hA : HasFDerivAt A A' x) :
    c.HasDerivAlong (fun y => φ (A y)) (L.comp A') x := by
  obtain ⟨f, hf, hL⟩ := h
  exact ⟨f ∘ A, hA.continuousAt.eventually hf, hL.comp x hA⟩

theorem hasDerivAlong_const {xs : List Exact} {v : ℝ} (h : c.value xs = .ok (real v)) (x : E) :
    c.HasDerivAlong (fun _ => xs) 0 x :=
  ⟨fun _ => v, Filter.Eventually.of_forall fun _ => h, hasFDerivAt_const v x⟩

/-- A total derivative has the partial ones. -/
theorem AnswersGradient.answersPartials {x : Fin n → ℝ} (h : c.AnswersGradient x) :
    c.AnswersPartials x := by
  obtain ⟨g, hg, f, hf, hderiv⟩ := h
  refine ⟨g, hg, ⟨f x, hf.self_of_nhds⟩, fun i => ?_⟩
  have hpoint : Function.update x i (x i) = x := Function.update_eq_self i x
  have hcomp : g i • ContinuousLinearMap.id ℝ ℝ =
      (∑ j, g j • ContinuousLinearMap.proj j : (Fin n → ℝ) →L[ℝ] ℝ).comp
        (.pi (Pi.single i (.id ℝ ℝ))) := by
    ext
    simp only [smul_apply, ContinuousLinearMap.id_apply, ContinuousLinearMap.comp_apply,
      sum_apply, ContinuousLinearMap.proj_apply, ContinuousLinearMap.pi_apply, smul_eq_mul]
    rw [Fintype.sum_eq_single i fun j hj => by simp [Pi.single_eq_of_ne hj], Pi.single_eq_same]
    rfl
  rw [hcomp]
  refine HasDerivAlong.comp (A := Function.update x i) ?_ (hasFDerivAt_update x (x i))
  rw [hpoint]
  exact ⟨f, hf, hderiv⟩

end Cost

/-! ## Places of the terms -/

namespace CostSum

section Places

variable {α : Type} (s : CostSum α)

theorem mem_names {t : Term α} (ht : t ∈ s.terms) {name : String} (hname : name ∈ t.names) :
    name ∈ s.names := by
  rw [s.isUnion.names, List.mem_eraseDups]
  exact List.mem_flatten.mpr ⟨t.names, List.mem_map_of_mem ht, hname⟩

/-- The place in the union of a name of a term. -/
def place (i : Fin s.terms.length) (k : Fin s.terms[i].names.length) : Fin s.names.length :=
  ⟨s.names.idxOf s.terms[i].names[k],
    List.idxOf_lt_length_of_mem (s.mem_names (List.getElem_mem _) (List.getElem_mem _))⟩

theorem getElem?_place (i : Fin s.terms.length) (k : Fin s.terms[i].names.length) :
    s.names[(s.place i k : ℕ)]? = some s.terms[i].names[k] := by
  rw [List.getElem?_eq_getElem (s.place i k).2]
  exact congrArg some (List.getElem_idxOf (s.place i k).2)

theorem nodup_names (i : Fin s.terms.length) : s.terms[i].names.Nodup :=
  s.terms[i].nodup_names

theorem place_injective (i : Fin s.terms.length) : Function.Injective (s.place i) := by
  intro k l h
  have hnames := (s.getElem?_place i k).symm.trans (h ▸ s.getElem?_place i l)
  exact Fin.ext ((s.nodup_names i).getElem_inj_iff.mp (Option.some.inj hnames))

end Places

variable (s : CostSum Exact)

/-- The arguments of a term are those at the places of its names. -/
theorem argumentsOf_reals (x : Fin s.names.length → ℝ) (i : Fin s.terms.length) :
    s.argumentsOf (reals x) s.terms[i] = reals (x ∘ s.place i) := by
  refine eq_reals (List.length_map _) fun k => ?_
  have hlookup := lookup_zip s.isUnion.nodup (reals x) (s.getElem?_place i k)
  rw [argumentsOf, List.getElem?_map, List.getElem?_eq_getElem k.2, Option.map_some]
  change some (((s.names.zip (reals x)).lookup s.terms[i].names[k]).getD 0) = _
  rw [hlookup, getElem?_reals]
  rfl

/-- The places of a term that are a given one have at most one name. -/
theorem sum_place_eq (i : Fin s.terms.length) (g : Fin s.terms[i].names.length → ℝ)
    (k : Fin s.terms[i].names.length) :
    (∑ l, if s.place i l = s.place i k then g l else 0) = g k := by
  rw [Finset.sum_eq_single k]
  · exact if_pos rfl
  · exact fun l _ hl => if_neg fun h => hl (s.place_injective i h)
  · exact fun h => absurd (Finset.mem_univ k) h

/-- What the gradient of a term says of a name: nothing, if that is none of its own. -/
theorem lookup_reals (i : Fin s.terms.length) (g : Fin s.terms[i].names.length → ℝ)
    (j : Fin s.names.length) :
    ((s.terms[i].names.zip (reals g)).lookup s.names[j] = none ∧
        (∑ k, if s.place i k = j then g k else 0) = 0) ∨
      (s.terms[i].names.zip (reals g)).lookup s.names[j] =
        some (real (∑ k, if s.place i k = j then g k else 0)) := by
  by_cases hj : ∃ k, s.place i k = j
  · obtain ⟨k, rfl⟩ := hj
    have hname : s.terms[i].names[(k : ℕ)]? = some s.names[s.place i k] := by
      have hplace := s.getElem?_place i k
      rw [List.getElem?_eq_getElem (s.place i k).2] at hplace
      rw [List.getElem?_eq_getElem k.2]
      exact hplace.symm
    rw [lookup_zip (s.nodup_names i) (reals g) hname, sum_place_eq]
    exact .inr (by simp [reals])
  · refine .inl ⟨lookup_zip_of_not_mem (fun hmem => hj ?_) _, ?_⟩
    · obtain ⟨k, hk, hname⟩ := List.getElem_of_mem hmem
      refine ⟨⟨k, hk⟩, Fin.ext ?_⟩
      have hplace := s.getElem?_place i ⟨k, hk⟩
      have hsame : s.names[(s.place i ⟨k, hk⟩ : ℕ)]? = s.names[(j : ℕ)]? := by
        rw [hplace, List.getElem?_eq_getElem j.2]
        exact congrArg some hname
      exact (List.getElem?_inj (s.place i ⟨k, hk⟩).2 s.isUnion.nodup).mp hsame
    · exact Finset.sum_eq_zero fun k _ => if_neg fun h => hj ⟨k, h⟩

/-- The value of a sum is the sum of the values. -/
theorem value_reals {x : Fin s.names.length → ℝ} {v : Fin s.terms.length → ℝ}
    (h : ∀ i : Fin s.terms.length,
      s.terms[i].cost.value (reals (x ∘ s.place i)) = .ok (real (v i))) :
    s.value (reals x) = .ok (real (∑ i, v i)) := by
  have hlength : (s.questions (reals x)).length = s.terms.length := List.length_map _
  have hquestion (i : ℕ) (hi : i < (s.questions (reals x)).length) :
      (s.questions (reals x))[i].1.value (s.questions (reals x))[i].2 =
        .ok (real (v ⟨i, hlength ▸ hi⟩)) := by
    rw [← h ⟨i, hlength ▸ hi⟩, ← argumentsOf_reals]
    simp only [questions, List.getElem_map]
    rfl
  obtain ⟨asked, hsums, -⟩ := (s.dispatches (reals x)).value (length_reals x)
  generalize s.value (reals x) = answer at hsums
  cases hsums with
  | all vs hvs =>
    have hvs : vs = (List.ofFn v).map real := by
      refine List.ext_getElem (by simp [← hvs.length_eq, hlength]) fun i hi _ => ?_
      have hi' : i < (s.questions (reals x)).length := hvs.length_eq ▸ hi
      have hv := hvs.get hi' hi
      simp only [List.get_eq_getElem] at hv
      rw [hquestion i hi'] at hv
      simpa using (Except.ok.inj hv).symm
    rw [hvs, ← List.sum_ofFn]
    exact congrArg Except.ok (Exact.sum_map_real _)
  | stopped pre q post vs e hquestions _ hq =>
    obtain ⟨i, hi, rfl⟩ := List.getElem_of_mem
      (show q ∈ s.questions (reals x) by rw [hquestions]; simp)
    rw [hquestion i hi] at hq
    cases hq

/-- Finite gradients of the terms are added at their places. -/
theorem added_reals (g : ∀ i : Fin s.terms.length, Fin s.terms[i].names.length → ℝ) :
    s.added (List.ofFn fun i => reals (g i)) =
      reals fun j => ∑ i, ∑ k, if s.place i k = j then g i k else 0 := by
  have hzip : s.terms.zip (List.ofFn fun i => reals (g i)) =
      (List.finRange s.terms.length).map fun i => (s.terms[i], reals (g i)) := by
    rw [← List.ofFn_eq_map]
    exact List.ext_getElem (by simp) fun i _ _ => by simp
  have hcomponent (j : Fin s.names.length) :
      Scalar.sum ((s.terms.zip (List.ofFn fun i => reals (g i))).filterMap fun (t, g) =>
        (t.names.zip g).lookup s.names[j]) =
      real (∑ i, ∑ k, if s.place i k = j then g i k else 0) := by
    rw [hzip, List.filterMap_map, Scalar.sum, Exact.ofNat_eq]
    refine (foldl_filterMap_real (fun i _ => s.lookup_reals i (g i) j) _).trans ?_
    rw [← List.ofFn_eq_map, List.sum_ofFn, Nat.cast_zero, zero_add]
  refine List.ext_getElem (by simp [added, reals]) fun j hj _ => ?_
  have hj : j < s.names.length := (List.length_map _).symm ▸ hj
  simp only [added, List.getElem_map, reals, List.getElem_ofFn]
  exact hcomponent ⟨j, hj⟩

/-- The gradient of a sum is the sum of the gradients, each at its places. -/
theorem grad_reals (hgrad : s.hasGrad = true) {x : Fin s.names.length → ℝ}
    {g : ∀ i : Fin s.terms.length, Fin s.terms[i].names.length → ℝ}
    (h : ∀ i : Fin s.terms.length,
      s.terms[i].cost.grad (reals (x ∘ s.place i)) = .ok (reals (g i))) :
    s.grad (reals x) =
      .ok (reals fun j => ∑ i, ∑ k, if s.place i k = j then g i k else 0) := by
  have hslopes : s.terms.mapM (s.slopes (reals x)) = .ok (List.ofFn fun i => reals (g i)) := by
    refine mapM_eq_ok_iff.mpr (List.forall₂_iff_get.mpr ⟨by simp, fun i hi hi' => ?_⟩)
    have hi := h ⟨i, hi⟩
    rw [← argumentsOf_reals] at hi
    rw [List.get_ofFn]
    exact slopes_eq_ok.mpr ⟨hi, length_reals _⟩
  rw [s.grad_eq (length_reals x) hgrad, hslopes, ← added_reals]
  rfl

/-! ## Derivatives of sums -/

section Derivatives

variable {E : Type} [NormedAddCommGroup E] [NormedSpace ℝ E]

/-- Along a family of points the derivative of a sum is the sum of the derivatives. -/
theorem hasDerivAlong_sum {φ : E → Fin s.names.length → ℝ} {L : Fin s.terms.length → E →L[ℝ] ℝ}
    {x : E} (h : ∀ i : Fin s.terms.length,
      s.terms[i].cost.HasDerivAlong (fun y => reals (φ y ∘ s.place i)) (L i) x) :
    s.toCost.HasDerivAlong (fun y => reals (φ y)) (∑ i, L i) x := by
  choose f hf hL using h
  refine ⟨fun y => ∑ i, f i y, ?_, HasFDerivAt.fun_sum fun i _ => hL i⟩
  -- close to the point the values of all terms are finite at once
  filter_upwards [Filter.eventually_all.mpr hf] with y hy
  exact s.value_reals hy

/-- The coordinates of a point at the places of a term. -/
noncomputable def coordinates (i : Fin s.terms.length) :
    (Fin s.names.length → ℝ) →L[ℝ] (Fin s.terms[i].names.length → ℝ) :=
  ContinuousLinearMap.pi fun k => ContinuousLinearMap.proj (s.place i k)

/-- The linear form with given slopes, put together from those of the terms. -/
theorem sum_smul_proj (g : ∀ i : Fin s.terms.length, Fin s.terms[i].names.length → ℝ) :
    (∑ j, (∑ i, ∑ k, if s.place i k = j then g i k else 0) •
      (ContinuousLinearMap.proj j : (Fin s.names.length → ℝ) →L[ℝ] ℝ)) =
    ∑ i, (∑ k, g i k • ContinuousLinearMap.proj k).comp (s.coordinates i) := by
  ext y
  simp only [coordinates, sum_apply, smul_apply, ContinuousLinearMap.comp_apply,
    ContinuousLinearMap.proj_apply, ContinuousLinearMap.pi_apply, smul_eq_mul, Finset.sum_mul,
    ite_mul, zero_mul]
  -- each slope of a term meets the one coordinate at its place
  rw [Finset.sum_comm]
  refine Finset.sum_congr rfl fun i _ => ?_
  rw [Finset.sum_comm]
  exact Finset.sum_congr rfl fun k _ => by simp

/-- Where the gradients of the terms are the derivatives of their values, that of the sum is. -/
theorem answersGradient (hgrad : s.hasGrad = true) {x : Fin s.names.length → ℝ}
    (h : ∀ i : Fin s.terms.length, s.terms[i].cost.AnswersGradient (x ∘ s.place i)) :
    s.toCost.AnswersGradient x := by
  choose g hg hderiv using h
  refine ⟨_, s.grad_reals hgrad hg, ?_⟩
  rw [sum_smul_proj]
  refine s.hasDerivAlong_sum fun i => ?_
  have hterm : s.terms[i].cost.HasDerivAlong reals _ (s.coordinates i x) := hderiv i
  exact hterm.comp (s.coordinates i).hasFDerivAt

/-- Where the gradients of the terms have the partial derivatives of their values, so has that of
the sum. -/
theorem answersPartials (hgrad : s.hasGrad = true) {x : Fin s.names.length → ℝ}
    (h : ∀ i : Fin s.terms.length, s.terms[i].cost.AnswersPartials (x ∘ s.place i)) :
    s.toCost.AnswersPartials x := by
  choose g hg hv hderiv using h
  choose v hv using hv
  refine ⟨_, s.grad_reals hgrad hg, ⟨_, s.value_reals hv⟩, fun j => ?_⟩
  rw [Finset.sum_smul]
  refine s.hasDerivAlong_sum fun i => ?_
  by_cases hj : ∃ k, s.place i k = j
  · -- the coordinate that moves is one of the term's own
    obtain ⟨k, rfl⟩ := hj
    rw [sum_place_eq]
    simp only [Function.update_comp_eq_of_injective x (s.place_injective i)]
    exact hderiv i k
  · have hj : ∀ k, s.place i k ≠ j := not_exists.mp hj
    rw [Finset.sum_eq_zero fun k _ => if_neg (hj k), zero_smul]
    simpa only [Function.update_comp_eq_of_forall_ne x _ hj] using Cost.hasDerivAlong_const (hv i) _

end Derivatives

end CostSum

/-! ## The gradient of a sum -/

/-- **The gradient of a sum adds those of its terms.** For each name it adds up, term after term,
what the terms say of that name; it fails only at a wrong length, where a gradient is missing, or
with the first term that fails or answers a wrong length. In exact arithmetic it is therefore the
derivative of the value of the sum, wherever those of the terms are derivatives of their values;
likewise for partial derivatives. -/
theorem grad_adds_slopes :
    (∀ {α : Type} [Scalar α] (s : CostSum α) (args : List α), s.GradEnds args (s.grad args)) ∧
    ∀ (s : CostSum Exact) (_ : s.hasGrad = true) (x : Fin s.names.length → ℝ),
      ((∀ i : Fin s.terms.length, s.terms[i].cost.AnswersGradient (x ∘ s.place i)) →
        s.toCost.AnswersGradient x) ∧
      ((∀ i : Fin s.terms.length, s.terms[i].cost.AnswersPartials (x ∘ s.place i)) →
        s.toCost.AnswersPartials x) :=
  ⟨fun s args => s.gradEnds_grad args,
    fun s hgrad _ => ⟨s.answersGradient hgrad, s.answersPartials hgrad⟩⟩

/-- The product of two parameters, with its gradient. -/
noncomputable def productOf (x y : String) : Cost Exact :=
  { Cost.ofFunction fun args => match args with
      | [a, b] => .ok (a * b)
      | _ => .error (.lengthMismatch 2 args.length) with
    grad := fun args => match args with
      | [a, b] => .ok [b, a]
      | _ => .error (.lengthMismatch 2 args.length)
    hasGrad := true
    names := some [x, y] }

theorem answersGradient_productOf (nx ny : String) (x : Fin 2 → ℝ) :
    (productOf nx ny).AnswersGradient x := by
  have hcoordinate (i : Fin 2) :
      HasFDerivAt (fun y : Fin 2 → ℝ => y i)
        (ContinuousLinearMap.proj i : (Fin 2 → ℝ) →L[ℝ] ℝ) x :=
    (ContinuousLinearMap.proj i : (Fin 2 → ℝ) →L[ℝ] ℝ).hasFDerivAt
  refine ⟨![x 1, x 0], rfl, fun y => y 0 * y 1, .of_forall fun _ => rfl, ?_⟩
  rw [Fin.sum_univ_two, add_comm]
  exact (hcoordinate 0).mul (hcoordinate 1)

/-- Two products with a parameter in common. -/
noncomputable def chainOfProducts : CostSum Exact where
  terms := [⟨productOf "x" "y", ["x", "y"], rfl, rfl⟩, ⟨productOf "y" "z", ["y", "z"], rfl, rfl⟩]
  names := ["x", "y", "z"]
  maps := [[0, 1], [1, 2]]
  verbose := none
  union_eq := rfl

theorem grad_adds_slopes_overlapping :
    chainOfProducts.hasGrad = true ∧
      (∀ (x : Fin 3 → ℝ) (i : Fin 2),
        chainOfProducts.terms[i].cost.AnswersGradient (x ∘ chainOfProducts.place i)) ∧
      ∀ x : Fin 3 → ℝ, chainOfProducts.toCost.AnswersGradient x := by
  have hterms (x : Fin 3 → ℝ) : ∀ i : Fin 2,
      chainOfProducts.terms[i].cost.AnswersGradient (x ∘ chainOfProducts.place i) :=
    Fin.forall_fin_two.mpr ⟨answersGradient_productOf _ _ _, answersGradient_productOf _ _ _⟩
  exact ⟨rfl, hterms, fun x => (grad_adds_slopes.2 chainOfProducts rfl x).1 (hterms x)⟩

end FitSession
