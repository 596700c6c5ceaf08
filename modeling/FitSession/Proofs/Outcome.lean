import FitSession.Session.Basic
import Mathlib.Data.List.Forall2

/-!
# Outcomes of work

Work with a state, be it a session or a bench, ends with a result or a failure, and leaves a state
in either case. What holds of its parts holds of the whole.

* `endState`, `answerOf`, `outcome`: the state that is left, the answer, and an end put together
  from both;
* `bind_eq_ok`, `bind_eq_error`, `except_bind_eq_ok`, `mapM_eq_ok_iff`, `foldlM_eq_error_iff`: how
  sequences end;
* `Chains`, `Keeps`: relations that hold along sequences, and work that keeps one whatever its end;
* `FailsWithin`: work that keeps a relation when it fails;
* `Returns`: work whose results have a property;
* `IsEnd`, `Ends`: work that keeps an invariant, with what may come of it and how it may fail;
* `InStep`: two works that end in the same way from states that are related;
* `Matching`: the same, with results that are related;
* `Coupled`: work that is in step with itself.
-/

namespace FitSession

variable {ε τ β γ : Type}

/-- The state that is left. -/
def endState : EStateM.Result ε τ β → τ
  | .ok _ t => t
  | .error _ t => t

@[simp] theorem endState_ok (b : β) (t : τ) : endState (.ok b t : EStateM.Result ε τ β) = t := rfl

@[simp] theorem endState_error (e : ε) (t : τ) :
    endState (.error e t : EStateM.Result ε τ β) = t := rfl

/-- The end that an answer without a state stands for, in a given state. -/
def outcome (x : Except ε β) (t : τ) : EStateM.Result ε τ β :=
  match x with
  | .ok b => .ok b t
  | .error e => .error e t

/-- The answer without the state. -/
def answerOf : EStateM.Result ε τ β → Except ε β
  | .ok b _ => .ok b
  | .error e _ => .error e

theorem outcome_answerOf (r : EStateM.Result ε τ β) : outcome (answerOf r) (endState r) = r := by
  cases r <;> rfl

/-- Whether the work succeeded. -/
def succeeded : EStateM.Result ε τ β → Bool
  | .ok _ _ => true
  | .error _ _ => false

theorem exists_ok_of_succeeded : ∀ {r : EStateM.Result ε τ β}, succeeded r = true →
    ∃ b t, r = .ok b t
  | .ok b t, _ => ⟨b, t, rfl⟩

theorem exists_error_of_not_succeeded : ∀ {r : EStateM.Result ε τ β}, succeeded r = false →
    ∃ e t, r = .error e t
  | .error e t, _ => ⟨e, t, rfl⟩

section Sequence

variable {x : EStateM ε τ β} {f : β → EStateM ε τ γ} {s t : τ}

theorem bind_apply (x : EStateM ε τ β) (f : β → EStateM ε τ γ) (s : τ) :
    (x >>= f) s = match x s with
      | .ok b u => f b u
      | .error e u => .error e u := rfl

theorem get_bind_apply (f : τ → EStateM ε τ γ) (s : τ) : (MonadState.get >>= f) s = f s s := rfl

theorem bind_of_ok {b : β} (h : x s = .ok b t) (f : β → EStateM ε τ γ) : (x >>= f) s = f b t := by
  rw [bind_apply, h]

theorem bind_of_error {e : ε} (h : x s = .error e t) (f : β → EStateM ε τ γ) :
    (x >>= f) s = .error e t := by
  rw [bind_apply, h]

/-- A sequence succeeds when both parts do. -/
theorem bind_eq_ok {c : γ} :
    (x >>= f) s = .ok c t ↔ ∃ b u, x s = .ok b u ∧ f b u = .ok c t := by
  rw [bind_apply]
  cases x s <;> simp [and_assoc]

/-- A sequence fails when a part does. -/
theorem bind_eq_error {e : ε} :
    (x >>= f) s = .error e t ↔
      x s = .error e t ∨ ∃ b u, x s = .ok b u ∧ f b u = .error e t := by
  rw [bind_apply]
  cases x s <;> simp [and_assoc]

/-- Work on one item after the other ends at the first one on which it fails. -/
theorem exists_of_mapM_eq_error {g : γ → EStateM ε τ β} {l : List γ} {e : ε}
    (h : l.mapM g s = .error e t) :
    ∃ pre p post ys u, l = pre ++ p :: post ∧ pre.mapM g s = .ok ys u ∧ g p u = .error e t := by
  induction l generalizing s with
  | nil => cases h
  | cons p post ih =>
    rw [List.mapM_cons] at h
    rcases bind_eq_error.mp h with h | ⟨y, u, hy, h⟩
    · exact ⟨[], p, post, [], s, rfl, rfl, h⟩
    rcases bind_eq_error.mp h with h | ⟨ys, v, -, h⟩
    · obtain ⟨pre, p', post', zs, v, rfl, hpre, hp'⟩ := ih h
      refine ⟨p :: pre, p', post', y :: zs, v, rfl, ?_, hp'⟩
      rw [List.mapM_cons]
      exact bind_eq_ok.mpr ⟨y, u, hy, bind_eq_ok.mpr ⟨zs, v, hpre, rfl⟩⟩
    · cases h

end Sequence

/-- What is done for each item only matters for the items of the list. -/
theorem mapM_congr {m : Type → Type} [Monad m] [LawfulMonad m] {f g : β → m γ} {l : List β}
    (h : ∀ x ∈ l, f x = g x) : l.mapM f = l.mapM g := by
  induction l with
  | nil => rfl
  | cons x l ih =>
    obtain ⟨hx, hl⟩ := List.forall_mem_cons.mp h
    rw [List.mapM_cons, List.mapM_cons, hx, ih hl]

/-! ## Answers without a state -/

/-- A sequence of checks succeeds when both do. -/
theorem except_bind_eq_ok {x : Except ε β} {f : β → Except ε γ} {c : γ} :
    (x >>= f) = .ok c ↔ ∃ b, x = .ok b ∧ f b = .ok c := by
  cases x <;> simp [bind, Except.bind]

theorem except_bind_ok {x : Except ε β} {b : β} {f : β → Except ε γ} (h : x = .ok b) :
    (x >>= f) = f b := by
  rw [h]
  rfl

theorem except_bind_error {x : Except ε β} {e : ε} {f : β → Except ε γ} (h : x = .error e) :
    (x >>= f) = .error e := by
  rw [h]
  rfl

/-- What is gone on with only matters for a success. -/
theorem except_bind_congr {x : Except ε β} {f g : β → Except ε γ}
    (h : ∀ b, x = .ok b → f b = g b) : (x >>= f) = (x >>= g) := by
  cases x with
  | error e => rfl
  | ok b => exact h b rfl

/-- What is seen of a result, if there is one, is true of that result. -/
theorem exists_ok_of_any {x : Except ε β} {P : β → Bool} (h : x.toOption.any P = true) :
    ∃ y, x = .ok y ∧ P y = true := by
  cases x with
  | error e => simp [Except.toOption] at h
  | ok y => exact ⟨y, rfl, h⟩

/-- What is seen of an answer, if there is one, is true of what the work gave. -/
theorem exists_ok_of_answer {r : EStateM.Result ε τ β} {P : β → Bool}
    (h : (answerOf r).toOption.any P = true) : ∃ b t, r = .ok b t ∧ P b = true := by
  cases r with
  | error e t => cases h
  | ok b t => exact ⟨b, t, rfl, h⟩

section Traverse

variable {f : β → Except ε γ} {l : List β} {ys : List γ}

/-- A list is accepted when all its items are, and then it has their answers. -/
theorem mapM_eq_ok_iff : l.mapM f = .ok ys ↔ List.Forall₂ (fun x y => f x = .ok y) l ys := by
  induction l generalizing ys with
  | nil =>
    rw [List.forall₂_nil_left_iff]
    exact ⟨fun h => (Except.ok.inj h).symm, fun h => congrArg Except.ok h.symm⟩
  | cons x l ih =>
    rw [List.mapM_cons, List.forall₂_cons_left_iff, except_bind_eq_ok]
    refine exists_congr fun y => ⟨?_, ?_⟩
    · rintro ⟨hx, h⟩
      obtain ⟨zs, hzs, h⟩ := except_bind_eq_ok.mp h
      exact ⟨zs, hx, ih.mp hzs, (Except.ok.inj h).symm⟩
    · rintro ⟨zs, hx, hzs, rfl⟩
      exact ⟨hx, except_bind_eq_ok.mpr ⟨zs, ih.mpr hzs, rfl⟩⟩

/-- A list is refused for its first item that is refused. -/
theorem mapM_eq_error_iff {e : ε} : l.mapM f = .error e ↔
    ∃ pre x post, l = pre ++ x :: post ∧ (∀ y ∈ pre, ∃ z, f y = .ok z) ∧ f x = .error e := by
  induction l with
  | nil =>
    constructor
    · intro h
      cases h
    · rintro ⟨pre, x, post, h, -, -⟩
      exact absurd h.symm (List.append_ne_nil_of_right_ne_nil pre (List.cons_ne_nil x post))
  | cons y l ih =>
    rw [List.mapM_cons]
    cases hy : f y with
    | error e' =>
      change Except.error e' = Except.error e ↔ _
      constructor
      · intro h
        cases h
        exact ⟨[], y, l, rfl, List.forall_mem_nil _, hy⟩
      rintro ⟨_ | ⟨y', pre⟩, x, post, h, hpre, hx⟩
      · cases h
        cases hy.symm.trans hx
        rfl
      · cases h
        obtain ⟨z, hz⟩ := hpre y List.mem_cons_self
        rw [hy] at hz
        cases hz
    | ok z =>
      have hrest : (do let zs ← l.mapM f; pure (z :: zs)) = .error e ↔ l.mapM f = .error e := by
        cases l.mapM f <;> simp [bind, Except.bind, pure, Except.pure]
      refine hrest.trans (ih.trans ⟨?_, ?_⟩)
      · rintro ⟨pre, x, post, rfl, hpre, hx⟩
        exact ⟨y :: pre, x, post, rfl, List.forall_mem_cons.mpr ⟨⟨z, hy⟩, hpre⟩, hx⟩
      · rintro ⟨_ | ⟨y', pre⟩, x, post, h, hpre, hx⟩
        · cases h
          rw [hy] at hx
          cases hx
        · cases h
          exact ⟨pre, x, post, rfl, (List.forall_mem_cons.mp hpre).2, hx⟩

theorem mapM_eq_ok {g : β → γ} (h : ∀ x ∈ l, f x = .ok (g x)) : l.mapM f = .ok (l.map g) :=
  mapM_eq_ok_iff.mpr (List.forall₂_map_right_iff.mpr (List.forall₂_same.mpr h))

theorem length_of_mapM_ok (h : l.mapM f = .ok ys) : ys.length = l.length :=
  (mapM_eq_ok_iff.mp h).length_eq.symm

theorem mem_mapM_ok (h : l.mapM f = .ok ys) : ∀ y ∈ ys, ∃ x ∈ l, f x = .ok y := by
  intro y hy
  replace h := mapM_eq_ok_iff.mp h
  induction h with
  | nil => cases hy
  | cons hx _ ih =>
    rcases List.mem_cons.mp hy with rfl | hy
    · exact ⟨_, List.mem_cons_self, hx⟩
    · obtain ⟨w, hw, hf⟩ := ih hy
      exact ⟨w, List.mem_cons_of_mem _ hw, hf⟩

theorem exists_mem_of_mapM_ok (h : l.mapM f = .ok ys) : ∀ x ∈ l, ∃ y ∈ ys, f x = .ok y := by
  intro x hx
  replace h := mapM_eq_ok_iff.mp h
  induction h with
  | nil => cases hx
  | cons hy _ ih =>
    rcases List.mem_cons.mp hx with rfl | hx
    · exact ⟨_, List.mem_cons_self, hy⟩
    · obtain ⟨w, hw, hf⟩ := ih hx
      exact ⟨w, List.mem_cons_of_mem _ hw, hf⟩

/-- What tells the item from each answer tells the list from the answers. -/
theorem map_of_mapM_ok {g : γ → β} (hg : ∀ x y, f x = .ok y → g y = x) (h : l.mapM f = .ok ys) :
    ys.map g = l := by
  replace h := mapM_eq_ok_iff.mp h
  induction h with
  | nil => rfl
  | cons hx _ ih => rw [List.map_cons, hg _ _ hx, ih]

/-- Answers may be asked for one after another and then be added. -/
theorem foldlM_eq_mapM {δ : Type} (ask : β → Except ε γ) (add : δ → β → γ → δ) :
    ∀ (l : List β) (start : δ), (l.foldlM (fun total b => do
        let g ← ask b
        pure (add total b g)) start) =
      (do let gs ← l.mapM ask; pure ((l.zip gs).foldl (fun total p => add total p.1 p.2) start))
  | [], start => rfl
  | b :: l, start => by
    rw [List.foldlM_cons, List.mapM_cons]
    cases ask b with
    | error e => rfl
    | ok g =>
      refine (foldlM_eq_mapM ask add l (add start b g)).trans ?_
      cases l.mapM ask <;> rfl

end Traverse

/-- What each step keeps, steps that are all accepted keep. -/
theorem foldlM_keeps {P : β → Prop} {f : β → γ → Except ε β}
    (h : ∀ s x t, P s → f s x = .ok t → P t) :
    ∀ {l : List γ} {s t : β}, P s → l.foldlM f s = .ok t → P t
  | [], s, t, hs, ht => by
    cases ht
    exact hs
  | x :: l, s, t, hs, ht => by
    rw [List.foldlM_cons] at ht
    obtain ⟨u, hu, ht⟩ := except_bind_eq_ok.mp ht
    exact foldlM_keeps h (h s x u hs hu) ht

/-- Steps are refused at the first one that is refused. -/
theorem foldlM_eq_error_iff {f : β → γ → Except ε β} {l : List γ} {s : β} {e : ε} :
    l.foldlM f s = .error e ↔
      ∃ pre x post t, l = pre ++ x :: post ∧ pre.foldlM f s = .ok t ∧ f t x = .error e := by
  induction l generalizing s with
  | nil =>
    constructor
    · intro h
      cases h
    · rintro ⟨pre, x, post, t, h, -⟩
      exact absurd h.symm (List.append_ne_nil_of_right_ne_nil pre (List.cons_ne_nil x post))
  | cons y l ih =>
    rw [List.foldlM_cons]
    cases hy : f s y with
    | error e' =>
      constructor
      · intro h
        cases h
        exact ⟨[], y, l, s, rfl, rfl, hy⟩
      rintro ⟨_ | ⟨y', pre⟩, x, post, t, h, hpre, hx⟩
      · cases h
        cases hpre
        exact hy.symm.trans hx
      · cases h
        rw [List.foldlM_cons, hy] at hpre
        cases hpre
    | ok u =>
      rw [except_bind_ok rfl, ih]
      constructor
      · rintro ⟨pre, x, post, t, rfl, hpre, hx⟩
        refine ⟨y :: pre, x, post, t, rfl, ?_, hx⟩
        rw [List.foldlM_cons, hy]
        exact hpre
      rintro ⟨_ | ⟨y', pre⟩, x, post, t, h, hpre, hx⟩
      · cases h
        cases hpre
        cases hy.symm.trans hx
      · cases h
        rw [List.foldlM_cons, hy] at hpre
        exact ⟨pre, x, post, t, rfl, hpre, hx⟩

/-! ## Relations kept whatever the end -/

/-- A relation between states that holds along sequences of work. -/
class Chains (R : τ → τ → Prop) : Prop where
  refl : ∀ s, R s s
  trans : ∀ {s t u}, R s t → R t u → R s u

/-- What a condition implies, and the condition itself, is kept along sequences. -/
instance Chains.guarded {I : τ → Prop} {S : τ → τ → Prop} [h : Chains S] :
    Chains fun s t => I s → I t ∧ S s t where
  refl s hs := ⟨hs, h.refl s⟩
  trans hst htu hs := ⟨(htu (hst hs).1).1, h.trans (hst hs).2 (htu (hst hs).1).2⟩

/-- An invariant is kept along sequences. -/
instance Chains.invariant {I : τ → Prop} : Chains fun s t => I s → I t where
  refl _ := id
  trans hst htu hs := htu (hst hs)

/-- A quantity that stays the same stays the same along sequences. -/
instance Chains.same {δ : Type} {g : τ → δ} : Chains fun s t => g t = g s where
  refl _ := rfl
  trans hst htu := htu.trans hst

instance Chains.eq : Chains (Eq : τ → τ → Prop) := ⟨fun _ => rfl, Eq.trans⟩

/-- Whatever its end, the work leaves a state that is related to the one it found. -/
def Keeps (R : τ → τ → Prop) (x : EStateM ε τ β) : Prop := ∀ s, R s (endState (x s))

namespace Keeps

variable {R : τ → τ → Prop} {x : EStateM ε τ β} {f : β → EStateM ε τ γ}

theorem of_ok (hx : Keeps R x) {s t : τ} {b : β} (h : x s = .ok b t) : R s t := by
  simpa [h] using hx s

theorem of_error (hx : Keeps R x) {s t : τ} {e : ε} (h : x s = .error e t) : R s t := by
  simpa [h] using hx s

variable [hR : Chains R]

theorem pure (b : β) : Keeps R (Pure.pure b : EStateM ε τ β) := fun s => hR.refl s

theorem throw (e : ε) : Keeps R (MonadExcept.throw e : EStateM ε τ β) := fun s => hR.refl s

theorem bind (hx : Keeps R x) (hf : ∀ b, Keeps R (f b)) : Keeps R (x >>= f) := by
  intro s
  rw [bind_apply]
  have h := hx s
  cases hs : x s with
  | error e u => simpa [hs] using h
  | ok b u => exact hR.trans (by simpa [hs] using h) (hf b u)

/-- A sequence whose second part is only needed for the results that the first one has. -/
theorem bind_of {P : β → Prop} (hx : Keeps R x) (hp : ∀ s b t, x s = .ok b t → P b)
    (hf : ∀ b, P b → Keeps R (f b)) : Keeps R (x >>= f) := by
  intro s
  rw [bind_apply]
  have h := hx s
  cases hs : x s with
  | error e u => simpa [hs] using h
  | ok b u => exact hR.trans (by simpa [hs] using h) (hf b (hp s b u hs) u)

theorem map {g : β → γ} (hx : Keeps R x) : Keeps R (g <$> x) := by
  rw [map_eq_pure_bind]
  exact hx.bind fun b => pure (g b)

omit hR in
/-- Work that reads the state first. -/
theorem get_bind {f : τ → EStateM ε τ γ} (hf : ∀ s, Keeps R (f s)) :
    Keeps R (MonadState.get >>= f) := fun s => hf s s

omit hR in
theorem ite {p : Prop} [Decidable p] {y : EStateM ε τ β} (hx : Keeps R x) (hy : Keeps R y) :
    Keeps R (if p then x else y) := by
  split
  · exact hx
  · exact hy

/-- Work that is only gone on with if a condition does not hold. -/
theorem guard {p : Prop} [Decidable p] {e : ε} {f : PUnit → EStateM ε τ β}
    (hf : Keeps R (f ⟨⟩)) : Keeps R (if p then MonadExcept.throw e >>= f else f ⟨⟩) :=
  ite ((throw e).bind fun _ => hf) hf

theorem forM {δ : Type} {g : δ → EStateM ε τ PUnit} (hg : ∀ a, Keeps R (g a)) (l : List δ) :
    Keeps R (l.forM g) := by
  induction l with
  | nil => exact pure _
  | cons a l ih => exact (hg a).bind fun _ => ih

theorem mapM {δ : Type} {g : δ → EStateM ε τ β} (hg : ∀ a, Keeps R (g a)) (l : List δ) :
    Keeps R (l.mapM g) := by
  induction l with
  | nil => exact pure _
  | cons a l ih =>
    rw [List.mapM_cons]
    exact (hg a).bind fun b => ih.bind fun bs => pure (b :: bs)

/-- A condition of the state that is read may be used, if the relation says nothing without it. -/
theorem get_bind_of {I : τ → Prop} {S : τ → τ → Prop} {f : τ → EStateM ε τ γ}
    (hf : ∀ s, I s → Keeps (fun s t => I s → S s t) (f s)) :
    Keeps (fun s t => I s → S s t) (MonadState.get >>= f) := fun s hs => hf s hs s hs

end Keeps

theorem keeps_modify {R : τ → τ → Prop} {f : τ → τ} (h : ∀ s, R s (f s)) :
    Keeps R (modify f : EStateM ε τ PUnit) := h

/-! ## Relations kept when work fails -/

/-- When it fails, the work leaves a state that is related to the one it found. -/
def FailsWithin (R : τ → τ → Prop) (x : EStateM ε τ β) : Prop :=
  ∀ s e t, x s = .error e t → R s t

namespace FailsWithin

variable {R : τ → τ → Prop} {x : EStateM ε τ β} {f : β → EStateM ε τ γ}

theorem of_keeps (hx : Keeps R x) : FailsWithin R x := fun _ _ _ h => hx.of_error h

theorem modify (f : τ → τ) : FailsWithin R (modify f : EStateM ε τ PUnit) :=
  fun _ _ _ h => nomatch h

theorem bind [hR : Chains R] (hx : Keeps R x) (hf : ∀ b, FailsWithin R (f b)) :
    FailsWithin R (x >>= f) := by
  intro s e t h
  rcases bind_eq_error.mp h with h | ⟨b, u, hb, h⟩
  · exact hx.of_error h
  · exact hR.trans (hx.of_ok hb) (hf b u e t h)

theorem ite {p : Prop} [Decidable p] {y : EStateM ε τ β} (hx : FailsWithin R x)
    (hy : FailsWithin R y) : FailsWithin R (if p then x else y) := by
  split
  · exact hx
  · exact hy

end FailsWithin

/-! ## Properties of results -/

/-- Whatever state it finds, the results of the work have a property. -/
def Returns (P : β → Prop) (x : EStateM ε τ β) : Prop := ∀ s b t, x s = .ok b t → P b

namespace Returns

variable {P : β → Prop} {Q : γ → Prop} {x : EStateM ε τ β} {f : β → EStateM ε τ γ}

theorem pure {b : β} (h : P b) : Returns P (Pure.pure b : EStateM ε τ β) := by
  intro s c t hs
  cases hs
  exact h

theorem throw (e : ε) : Returns P (MonadExcept.throw e : EStateM ε τ β) :=
  fun _ _ _ h => nomatch h

theorem bind (hx : Returns P x) (hf : ∀ b, P b → Returns Q (f b)) : Returns Q (x >>= f) := by
  intro s c t h
  obtain ⟨b, u, hb, h⟩ := bind_eq_ok.mp h
  exact hf b (hx s b u hb) u c t h

/-- A sequence whose second part has the property whatever the first one gives. -/
theorem bind_right (hf : ∀ b, Returns Q (f b)) : Returns Q (x >>= f) := by
  intro s c t h
  obtain ⟨b, u, -, h⟩ := bind_eq_ok.mp h
  exact hf b u c t h

theorem get_bind {f : τ → EStateM ε τ γ} (hf : ∀ s, Returns Q (f s)) :
    Returns Q (MonadState.get >>= f) := fun s c t h => hf s s c t h

theorem ite {p : Prop} [Decidable p] {y : EStateM ε τ β} (hx : Returns P x) (hy : Returns P y) :
    Returns P (if p then x else y) := by
  split
  · exact hx
  · exact hy

end Returns

/-! ## How work may end -/

/-- The answer has the property `P`, or the failure has `Q`. -/
def IsAnswer (P : β → Prop) (Q : ε → Prop) : Except ε β → Prop
  | .ok b => P b
  | .error e => Q e

/-- Nothing is asked. -/
abbrev Anything : β → Prop := fun _ => True

/-- How work may end: with a result that has `P` or a failure that has `Q`, and in a state that has
`I`. -/
structure IsEnd (I : τ → Prop) (P : β → Prop) (Q : ε → Prop) (r : EStateM.Result ε τ β) : Prop where
  answer : IsAnswer P Q (answerOf r)
  state : I (endState r)

/-- From a state with the invariant `I`, the work has results with `P`, fails only with `Q`, and
keeps the invariant in either case. -/
def Ends (I : τ → Prop) (P : β → Prop) (Q : ε → Prop) (x : EStateM ε τ β) : Prop :=
  ∀ s, I s → IsEnd I P Q (x s)

namespace Ends

variable {I : τ → Prop} {P : β → Prop} {P' : γ → Prop} {Q : ε → Prop} {x : EStateM ε τ β}
  {f : β → EStateM ε τ γ}

theorem pure {b : β} (h : P b) : Ends I P Q (Pure.pure b : EStateM ε τ β) := fun _ hs => ⟨h, hs⟩

theorem throw {e : ε} (h : Q e) : Ends I P Q (MonadExcept.throw e : EStateM ε τ β) :=
  fun _ hs => ⟨h, hs⟩

/-- What is gone on with from one end. -/
theorem bind_at {s : τ} (hx : IsEnd I P Q (x s)) (hf : ∀ b, P b → Ends I P' Q (f b)) :
    IsEnd I P' Q ((x >>= f) s) := by
  rw [bind_apply]
  generalize x s = r at hx ⊢
  cases r with
  | ok b t => exact hf b hx.answer t hx.state
  | error e t => exact ⟨hx.answer, hx.state⟩

theorem bind (hx : Ends I P Q x) (hf : ∀ b, P b → Ends I P' Q (f b)) : Ends I P' Q (x >>= f) :=
  fun s hs => bind_at (hx s hs) hf

/-- Work that reads the state first. -/
theorem get_bind {f : τ → EStateM ε τ β} (hf : ∀ s, I s → Ends I P Q (f s)) :
    Ends I P Q (MonadState.get >>= f) := fun s hs => hf s hs s hs

theorem ite {p : Prop} [Decidable p] {y : EStateM ε τ β} (hx : Ends I P Q x) (hy : Ends I P Q y) :
    Ends I P Q (if p then x else y) := by
  split
  · exact hx
  · exact hy

theorem mapM {δ : Type} {g : δ → EStateM ε τ β} (hg : ∀ a, Ends I Anything Q (g a)) (l : List δ) :
    Ends I Anything Q (l.mapM g) := by
  induction l with
  | nil => exact pure trivial
  | cons a l ih =>
    rw [List.mapM_cons]
    exact (hg a).bind fun b _ => ih.bind fun bs _ => pure trivial

end Ends

/-- Work keeps a relation that holds along sequences when it keeps what is related to any one
state. -/
theorem keeps_iff_ends {R : τ → τ → Prop} [hR : Chains R] {x : EStateM ε τ β} :
    Keeps R x ↔ ∀ s, Ends (R s) Anything Anything x := by
  constructor
  · intro h s t hst
    refine ⟨?_, hR.trans hst (h t)⟩
    cases x t <;> trivial
  · exact fun h s => (h s s (hR.refl s)).state

/-! ## Two works side by side -/

section InStep

variable {υ : Type} {R : τ → υ → Prop}

/-- Both ended in the same way, in states that are related. -/
def SameEnd (R : τ → υ → Prop) : EStateM.Result ε τ β → EStateM.Result ε υ β → Prop
  | .ok b s, .ok c t => c = b ∧ R s t
  | .error e s, .error d t => d = e ∧ R s t
  | _, _ => False

namespace SameEnd

variable {r : EStateM.Result ε τ β} {r' : EStateM.Result ε υ β}

theorem of_ok {b : β} {s : τ} (h : SameEnd R (.ok b s) r') : ∃ t, r' = .ok b t ∧ R s t := by
  cases r' with
  | ok c t => exact ⟨t, by rw [h.1], h.2⟩
  | error e t => exact h.elim

theorem of_error {e : ε} {s : τ} (h : SameEnd R (.error e s) r') :
    ∃ t, r' = .error e t ∧ R s t := by
  cases r' with
  | ok c t => exact h.elim
  | error d t => exact ⟨t, by rw [h.1], h.2⟩

theorem endState (h : SameEnd R r r') : R (FitSession.endState r) (FitSession.endState r') := by
  cases r with
  | ok b s =>
    obtain ⟨t, rfl, hst⟩ := h.of_ok
    exact hst
  | error e s =>
    obtain ⟨t, rfl, hst⟩ := h.of_error
    exact hst

theorem answerOf (h : SameEnd R r r') : FitSession.answerOf r' = FitSession.answerOf r := by
  cases r with
  | ok b s =>
    obtain ⟨t, rfl, -⟩ := h.of_ok
    rfl
  | error e s =>
    obtain ⟨t, rfl, -⟩ := h.of_error
    rfl

end SameEnd

/-- From states that are related, the two works end in the same way. -/
def InStep (R : τ → υ → Prop) (x : EStateM ε τ β) (y : EStateM ε υ β) : Prop :=
  ∀ s t, R s t → SameEnd R (x s) (y t)

namespace InStep

variable {x : EStateM ε τ β} {y : EStateM ε υ β} {f : β → EStateM ε τ γ} {g : β → EStateM ε υ γ}

theorem refl {x : EStateM ε τ β} : InStep Eq x x := by
  rintro s _ rfl
  cases x s <;> exact ⟨rfl, rfl⟩

theorem pure (b : β) :
    InStep R (Pure.pure b : EStateM ε τ β) (Pure.pure b : EStateM ε υ β) := fun _ _ h => ⟨rfl, h⟩

theorem throw (e : ε) : InStep R (MonadExcept.throw e : EStateM ε τ β)
    (MonadExcept.throw e : EStateM ε υ β) := fun _ _ h => ⟨rfl, h⟩

theorem modify {f : τ → τ} {g : υ → υ} (h : ∀ s t, R s t → R (f s) (g t)) :
    InStep R (modify f : EStateM ε τ PUnit) (modify g : EStateM ε υ PUnit) :=
  fun s t hst => ⟨rfl, h s t hst⟩

theorem bind (hx : InStep R x y) (hf : ∀ b, InStep R (f b) (g b)) :
    InStep R (x >>= f) (y >>= g) := by
  intro s t h
  have hst := hx s t h
  rw [bind_apply, bind_apply]
  cases hs : x s with
  | ok b u =>
    rw [hs] at hst
    obtain ⟨v, ht, huv⟩ := hst.of_ok
    rw [ht]
    exact hf b u v huv
  | error e u =>
    rw [hs] at hst
    obtain ⟨v, ht, huv⟩ := hst.of_error
    rw [ht]
    exact ⟨rfl, huv⟩

/-- Works that read the states first. -/
theorem get_bind {f : τ → EStateM ε τ β} {g : υ → EStateM ε υ β}
    (h : ∀ s t, R s t → InStep R (f s) (g t)) :
    InStep R (MonadState.get >>= f) (MonadState.get >>= g) := fun s t hst => h s t hst s t hst

theorem ite {p : Prop} [Decidable p] {x' : EStateM ε τ β} {y' : EStateM ε υ β}
    (h : InStep R x y) (h' : InStep R x' y') :
    InStep R (if p then x else x') (if p then y else y') := by
  split
  · exact h
  · exact h'

/-- Works that are only gone on with if a condition does not hold. -/
theorem guard {p : Prop} [Decidable p] {e : ε} {f : PUnit → EStateM ε τ β}
    {g : PUnit → EStateM ε υ β} (h : InStep R (f ⟨⟩) (g ⟨⟩)) :
    InStep R (if p then MonadExcept.throw e >>= f else f ⟨⟩)
      (if p then MonadExcept.throw e >>= g else g ⟨⟩) :=
  ite ((throw e).bind fun _ => h) h

theorem mapM {δ : Type} {f : δ → EStateM ε τ β} {g : δ → EStateM ε υ β}
    (h : ∀ a, InStep R (f a) (g a)) (l : List δ) : InStep R (l.mapM f) (l.mapM g) := by
  induction l with
  | nil => exact pure []
  | cons a l ih =>
    rw [List.mapM_cons, List.mapM_cons]
    exact (h a).bind fun b => ih.bind fun bs => pure (b :: bs)

theorem forM {δ : Type} {f : δ → EStateM ε τ PUnit} {g : δ → EStateM ε υ PUnit}
    (h : ∀ a, InStep R (f a) (g a)) (l : List δ) : InStep R (l.forM f) (l.forM g) := by
  induction l with
  | nil => exact pure _
  | cons a l ih => exact (h a).bind fun _ => ih

theorem set {s : τ} {t : υ} (h : R s t) :
    InStep R (set s : EStateM ε τ PUnit) (set t : EStateM ε υ PUnit) := fun _ _ _ => ⟨rfl, h⟩

theorem map {f : β → γ} (h : InStep R x y) : InStep R (f <$> x) (f <$> y) := by
  rw [map_eq_pure_bind, map_eq_pure_bind]
  exact h.bind fun b => pure (f b)

end InStep

/-! ## Results side by side -/

/-- Both ended in the same way, with results and in states that are related. -/
inductive Matched {δ : Type} (R : τ → υ → Prop) (V : β → δ → Prop) :
    EStateM.Result ε τ β → EStateM.Result ε υ δ → Prop
  | ok {b c s t} (results : V b c) (states : R s t) : Matched R V (.ok b s) (.ok c t)
  | error {e s t} (states : R s t) : Matched R V (.error e s) (.error e t)

theorem Matched.mono {δ : Type} {V : β → δ → Prop} {R' : τ → υ → Prop}
    {r : EStateM.Result ε τ β} {r' : EStateM.Result ε υ δ} (h : Matched R V r r')
    (hR : ∀ s t, R s t → R' s t) : Matched R' V r r' := by
  cases h with
  | ok results states => exact .ok results (hR _ _ states)
  | error states => exact .error (hR _ _ states)

theorem matched_eq_iff {r : EStateM.Result ε τ β} {r' : EStateM.Result ε υ β} :
    Matched R Eq r r' ↔ SameEnd R r r' := by
  constructor
  · rintro (⟨rfl, h⟩ | h)
    · exact ⟨rfl, h⟩
    · exact ⟨rfl, h⟩
  · intro h
    cases r with
    | ok b s =>
      obtain ⟨t, rfl, hst⟩ := h.of_ok
      exact .ok rfl hst
    | error e s =>
      obtain ⟨t, rfl, hst⟩ := h.of_error
      exact .error hst

/-- From states that are related, the two works end in the same way, and their results are
related. -/
def Matching {δ : Type} (R : τ → υ → Prop) (V : β → δ → Prop) (x : EStateM ε τ β)
    (y : EStateM ε υ δ) : Prop := ∀ s t, R s t → Matched R V (x s) (y t)

theorem matching_eq_iff {x : EStateM ε τ β} {y : EStateM ε υ β} :
    Matching R Eq x y ↔ InStep R x y :=
  forall₂_congr fun _ _ => imp_congr_right fun _ => matched_eq_iff

namespace Matching

variable {β' γ' : Type} {V : β → β' → Prop} {W : γ → γ' → Prop} {x : EStateM ε τ β}
  {y : EStateM ε υ β'} {f : β → EStateM ε τ γ} {g : β' → EStateM ε υ γ'}

theorem pure {b : β} {c : β'} (h : V b c) :
    Matching R V (Pure.pure b : EStateM ε τ β) (Pure.pure c : EStateM ε υ β') :=
  fun _ _ hst => .ok h hst

theorem throw (e : ε) : Matching R V (MonadExcept.throw e : EStateM ε τ β)
    (MonadExcept.throw e : EStateM ε υ β') := fun _ _ hst => .error hst

theorem bind (hx : Matching R V x y) (hf : ∀ b c, V b c → Matching R W (f b) (g c)) :
    Matching R W (x >>= f) (y >>= g) := by
  intro s t hst
  have hend := hx s t hst
  rw [bind_apply, bind_apply]
  generalize x s = r at hend ⊢
  generalize y t = r' at hend ⊢
  cases hend with
  | ok results states => exact hf _ _ results _ _ states
  | error states => exact .error states

/-- Works that start in step. -/
theorem inStep_bind {y : EStateM ε υ β} {g : β → EStateM ε υ γ'} (hx : InStep R x y)
    (hf : ∀ b, Matching R W (f b) (g b)) : Matching R W (x >>= f) (y >>= g) :=
  (matching_eq_iff.mpr hx).bind fun b _ h => h ▸ hf b

/-- Works that are in step once their first results are related. -/
theorem bind_inStep {g : β' → EStateM ε υ γ} (hx : Matching R V x y)
    (hf : ∀ b c, V b c → InStep R (f b) (g c)) : InStep R (x >>= f) (y >>= g) :=
  matching_eq_iff.mp (hx.bind fun b c h => matching_eq_iff.mpr (hf b c h))

/-- Works that read the states first. -/
theorem get_bind {f : τ → EStateM ε τ β} {g : υ → EStateM ε υ β'}
    (h : ∀ s t, R s t → Matching R V (f s) (g t)) :
    Matching R V (MonadState.get >>= f) (MonadState.get >>= g) :=
  fun s t hst => h s t hst s t hst

theorem ite {p : Prop} [Decidable p] {x' : EStateM ε τ β} {y' : EStateM ε υ β'}
    (h : Matching R V x y) (h' : Matching R V x' y') :
    Matching R V (if p then x else x') (if p then y else y') := by
  split
  · exact h
  · exact h'

theorem mapM {δ : Type} {f : δ → EStateM ε τ β} {g : δ → EStateM ε υ β'}
    (h : ∀ a, Matching R V (f a) (g a)) (l : List δ) :
    Matching R (List.Forall₂ V) (l.mapM f) (l.mapM g) := by
  induction l with
  | nil => exact pure .nil
  | cons a l ih =>
    rw [List.mapM_cons, List.mapM_cons]
    exact (h a).bind fun b c hbc => ih.bind fun bs cs hs => pure (.cons hbc hs)

end Matching
end InStep

/-! ## Work on two states side by side -/

/-- From states that are related, the work ends in the same way. -/
def Coupled (R : τ → τ → Prop) (x : EStateM ε τ β) : Prop := InStep R x x

namespace Coupled

variable {R : τ → τ → Prop} {x : EStateM ε τ β} {f : β → EStateM ε τ γ}

theorem pure (b : β) : Coupled R (Pure.pure b : EStateM ε τ β) := InStep.pure b

theorem throw (e : ε) : Coupled R (MonadExcept.throw e : EStateM ε τ β) := InStep.throw e

theorem modify {f : τ → τ} (hf : ∀ s t, R s t → R (f s) (f t)) :
    Coupled R (modify f : EStateM ε τ PUnit) := InStep.modify hf

theorem bind (hx : Coupled R x) (hf : ∀ b, Coupled R (f b)) : Coupled R (x >>= f) :=
  InStep.bind hx hf

/-- Work that reads the state first, but only what related states share. -/
theorem get_bind {f : τ → EStateM ε τ γ} (hR : ∀ s t, R s t → f t = f s)
    (hf : ∀ s t, R s t → Coupled R (f s)) : Coupled R (MonadState.get >>= f) := by
  refine InStep.get_bind fun s t h => ?_
  rw [hR s t h]
  exact hf s t h

theorem ite {p : Prop} [Decidable p] {y : EStateM ε τ β} (hx : Coupled R x) (hy : Coupled R y) :
    Coupled R (if p then x else y) := InStep.ite hx hy

/-- Work that is in step with itself from equal states with an invariant keeps the invariant. -/
theorem ends {I : τ → Prop} (h : Coupled (fun s t => t = s ∧ I s) x) :
    Ends I Anything Anything x := by
  intro s hs
  refine ⟨?_, (h s s ⟨rfl, hs⟩).endState.2⟩
  cases x s <;> trivial

end Coupled
end FitSession
