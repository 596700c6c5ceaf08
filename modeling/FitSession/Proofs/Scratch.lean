import FitSession.Scratch
import Mathlib.Data.List.Basic

/-!
# Work with a scratch vector

Work that writes into a scratch vector does the same as work that asks at vectors made for each
question, as long as it is known what the scratch vector is at each of them.

* `Leaves`: work that does from one scratch state what other work does without one, and leaves
  another scratch state;
* `Leaves.bind`, **`Leaves.mapM`**: one after another, and loops with an invariant;
* `leaves_write`, `leaves_ask`: what is done with a scratch vector.
-/

namespace FitSession

variable {τ β γ δ : Type} {m : Type → Type} [Monad m]

/-- From the scratch state `s`, the work `x` does what `y` does, and it leaves the scratch state `t`
whatever its answer. -/
def Leaves (x : StateT τ m β) (s : τ) (y : m β) (t : τ) : Prop :=
  x.run s = y >>= fun b => pure (b, t)

namespace Leaves

variable [LawfulMonad m] {x : StateT τ m β} {y : m β} {s t u : τ}

theorem pure (b : β) (s : τ) : Leaves (Pure.pure b : StateT τ m β) s (Pure.pure b) s := by
  simp [Leaves]

theorem bind {k : β → StateT τ m γ} {l : β → m γ} (hx : Leaves x s y t)
    (hk : ∀ b, Leaves (k b) t (l b) u) : Leaves (x >>= k) s (y >>= l) u := by
  unfold Leaves at hx hk ⊢
  simp only [StateT.run_bind, hx, hk, bind_assoc, pure_bind]

/-- Work that only writes comes before other work. -/
theorem after {x : StateT τ m PUnit} {k : PUnit → StateT τ m γ} {l : m γ}
    (hx : Leaves x s (Pure.pure ⟨⟩) t) (hk : Leaves (k ⟨⟩) t l u) : Leaves (x >>= k) s l u := by
  have hbind : Leaves (x >>= k) s (Pure.pure PUnit.unit >>= fun _ => l) u := hx.bind fun _ => hk
  rwa [pure_bind] at hbind

theorem run'_eq (h : Leaves x s y t) : x.run' s = y := by
  unfold Leaves at h
  rw [StateT.run'_eq, h, map_bind]
  simp

/-- **Loops.** What is done for an item may hang on the scratch state only as far as the invariant
tells. The induction is on the items that are left. -/
theorem mapM {P : τ → Prop} {f : γ → StateT τ m β} {g : γ → m β} :
    ∀ {l : List γ} {s : τ}, P s → (∀ a ∈ l, ∀ s, P s → ∃ t, P t ∧ Leaves (f a) s (g a) t) →
      ∃ t, P t ∧ Leaves (l.mapM f) s (l.mapM g) t
  | [], s, hs, _ => ⟨s, hs, pure [] s⟩
  | a :: l, s, hs, h => by
    obtain ⟨hhead, htail⟩ := List.forall_mem_cons.mp h
    obtain ⟨t, ht, ha⟩ := hhead s hs
    obtain ⟨u, hu, hl⟩ := mapM ht htail
    rw [List.mapM_cons, List.mapM_cons]
    exact ⟨u, hu, ha.bind fun b => hl.bind fun bs => pure (b :: bs) u⟩

/-- Loops that leave the scratch state as they found it after each item. -/
theorem mapM_same {f : γ → StateT τ m β} {g : γ → m β} {l : List γ}
    (h : ∀ a ∈ l, Leaves (f a) s (g a) s) : Leaves (l.mapM f) s (l.mapM g) s := by
  have hstep : ∀ a ∈ l, ∀ t, t = s → ∃ u, u = s ∧ Leaves (f a) t (g a) u := by
    rintro a ha _ rfl
    exact ⟨_, rfl, h a ha⟩
  obtain ⟨_, rfl, hl⟩ := mapM (P := fun t => t = s) rfl hstep
  exact hl

end Leaves

section Vectors

variable [LawfulMonad m]

theorem leaves_write (i : ℕ) (b : β) (s : List β) :
    Leaves (Scratch.write i b : StateT (List β) m PUnit) s (pure ⟨⟩) (s.set i b) := by
  simp [Leaves, Scratch.write]

theorem leaves_ask (f : List β → m γ) (s : List β) : Leaves (Scratch.ask f) s (f s) s := by
  simp [Leaves, Scratch.ask]

end Vectors

end FitSession
