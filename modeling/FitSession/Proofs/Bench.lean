import FitSession.Bench
import FitSession.Proofs.Outcome

/-!
# Work at a bench

* `IgnoresCounts`: relations between benches to which the counters do not matter; evaluations keep
  every one of them;
* `Bench.SameUp`, `Bench.SameUpIf`: benches with one errordef, which work with a scaled errordef
  always leaves;
* `Bench.Onward`: benches with one errordef, of which the second has counted no less;
* `Bench.Alike`: benches that differ at most in the memory.
-/

namespace FitSession

variable {σ τ α β γ : Type}

/-! ## Evaluations -/

/-- A relation between benches to which the counters do not matter. -/
class IgnoresCounts (R : Bench σ α → Bench σ α → Prop) : Prop extends Chains R where
  evaluated : ∀ b, R b { b with nfcn := b.nfcn + 1 }
  differentiated : ∀ b, R b { b with ngrad := b.ngrad + 1 }

section

variable {R : Bench σ α → Bench σ α → Prop}

theorem keeps_runOfExcept [Chains R] (x : Except (FitError α) β) :
    Keeps R (Run.ofExcept x : Run σ α β) := by
  cases x with
  | ok b => exact Keeps.pure b
  | error e => exact Keeps.throw e

omit R in
theorem returns_runOfExcept {P : β → Prop} {x : Except (FitError α) β}
    (h : ∀ b, x = .ok b → P b) : Returns P (Run.ofExcept x : Run σ α β) := by
  cases x with
  | ok b => exact Returns.pure (h b rfl)
  | error e => exact Returns.throw e

omit R in
theorem attempt_apply (work : Run σ α β) (b : Bench σ α) :
    work.attempt b = .ok (answerOf (work b)) (endState (work b)) := by
  unfold Run.attempt
  cases work b <;> rfl

omit R in
theorem attempt_of_ok {work : Run σ α β} {b b' : Bench σ α} {x : β} (h : work b = .ok x b') :
    work.attempt b = .ok (.ok x) b' := by
  rw [attempt_apply, h]
  rfl

omit R in
theorem attempt_of_error {work : Run σ α β} {b b' : Bench σ α} {e : FitError α}
    (h : work b = .error e b') : work.attempt b = .ok (.error e) b' := by
  rw [attempt_apply, h]
  rfl

theorem keeps_attempt {work : Run σ α β} (h : Keeps R work) : Keeps R work.attempt := by
  intro b
  have hb := h b
  unfold Run.attempt
  cases hw : work b <;> simpa [hw] using hb

omit R in
/-- What an attempt answers, if it does, is a result of the work. -/
theorem returns_attempt {P : β → Prop} {work : Run σ α β} (h : Returns P work) :
    Returns (fun r => ∀ x, r = .ok x → P x) work.attempt := by
  intro b r b' hr x hx
  subst hx
  unfold Run.attempt at hr
  cases hw : work b with
  | ok y after =>
    rw [hw] at hr
    cases hr
    exact h _ _ _ hw
  | error e after =>
    rw [hw] at hr
    cases hr

omit R in
/-- What is gone on with only matters for an answer that there is. -/
theorem runOfExcept_bind_congr {x : Except (FitError α) β} {f g : β → Run σ α γ}
    (h : ∀ b, x = .ok b → f b = g b) :
    (Run.ofExcept x : Run σ α β) >>= f = (Run.ofExcept x : Run σ α β) >>= g := by
  cases x with
  | ok b => exact h b rfl
  | error e => rfl

omit R in
theorem ends_runOfExcept {I : Bench σ α → Prop} {P : β → Prop} {Q : FitError α → Prop}
    {x : Except (FitError α) β} (h : IsAnswer P Q x) : Ends I P Q (Run.ofExcept x) := by
  cases x with
  | ok b => exact Ends.pure h
  | error e => exact Ends.throw h

omit R in
/-- An attempt does not fail. -/
theorem ends_attempt {I : Bench σ α → Prop} {P : β → Prop} {Q Q' : FitError α → Prop}
    {work : Run σ α β} (h : Ends I P Q work) : Ends I (IsAnswer P Q) Q' work.attempt := by
  intro b hb
  have hend := h b hb
  unfold Run.attempt
  generalize work b = r at hend ⊢
  cases r <;> exact ⟨hend.answer, hend.state⟩

theorem keeps_evaluate [IgnoresCounts R] (cost : Cost α) (args : List α) :
    Keeps R (cost.evaluate args : Run σ α α) := by
  refine (keeps_modify IgnoresCounts.evaluated).bind fun _ => ?_
  cases cost.value args with
  | ok x => exact Keeps.pure x
  | error e => exact Keeps.throw e

theorem keeps_differentiate [IgnoresCounts R] (cost : Cost α) (args : List α) :
    Keeps R (cost.differentiate args : Run σ α (List α)) := by
  unfold Cost.differentiate
  cases cost.grad args with
  | ok g => exact (keeps_modify IgnoresCounts.differentiated).bind fun _ => Keeps.pure g
  | error e => exact Keeps.throw e

end

section InStep

variable {R : Bench σ α → Bench τ α → Prop}

theorem inStep_runOfExcept (x : Except (FitError α) β) :
    InStep R (Run.ofExcept x : Run σ α β) (Run.ofExcept x) := by
  cases x with
  | ok b => exact InStep.pure b
  | error e => exact InStep.throw e

/-- Evaluations are in step at benches that stay related when one more is counted. -/
theorem inStep_evaluate (hR : ∀ b c, R b c →
    R { b with nfcn := b.nfcn + 1 } { c with nfcn := c.nfcn + 1 }) (cost : Cost α)
    (args : List α) : InStep R (cost.evaluate args : Run σ α α) (cost.evaluate args) := by
  refine (InStep.modify hR).bind fun _ => ?_
  cases cost.value args with
  | ok x => exact InStep.pure x
  | error e => exact InStep.throw e

theorem inStep_attempt {x : Run σ α β} {y : Run τ α β} (h : InStep R x y) :
    InStep R x.attempt y.attempt := by
  intro b c hbc
  have hend := h b c hbc
  unfold Run.attempt
  cases hx : x b with
  | ok r b' =>
    rw [hx] at hend
    obtain ⟨c', hy, hbc'⟩ := hend.of_ok
    rw [hy]
    exact ⟨rfl, hbc'⟩
  | error e b' =>
    rw [hx] at hend
    obtain ⟨c', hy, hbc'⟩ := hend.of_error
    rw [hy]
    exact ⟨rfl, hbc'⟩

end InStep

/-- The results of work with a memory of its own are results of work that starts from it. -/
theorem returns_withMemory {P : β → Prop} {work : Run τ α β} {memory : τ}
    (h : ∀ b x b', b.memory = memory → work b = .ok x b' → P x) :
    Returns (fun r => P r.1) (Run.withMemory memory work : Run σ α (β × τ)) := by
  intro b r b' hr
  unfold Run.withMemory at hr
  split at hr
  · rename_i x after hwork
    cases hr
    exact h _ x after rfl hwork
  · cases hr

/-- Work with a memory of its own, followed by work that leaves the bench. -/
theorem endState_withMemory_bind {memory : τ} {work : Run τ α β} {f : β × τ → Run σ α γ}
    (hf : ∀ r, Keeps Eq (f r)) (b : Bench σ α) :
    endState ((Run.withMemory memory work >>= f) b) =
      let c := endState (work ⟨b.up, b.nfcn, b.ngrad, memory⟩)
      ⟨c.up, c.nfcn, c.ngrad, b.memory⟩ := by
  rw [bind_apply]
  unfold Run.withMemory
  cases work ⟨b.up, b.nfcn, b.ngrad, memory⟩ with
  | ok x c => exact (hf _ _).symm
  | error e c => rfl

/-! ## The errordef -/

/-- Both benches have the same errordef. -/
def Bench.SameUp (b b' : Bench σ α) : Prop := b'.up = b.up

instance : IgnoresCounts (Bench.SameUp : Bench σ α → Bench σ α → Prop) where
  refl _ := rfl
  trans hst htu := htu.trans hst
  evaluated _ := rfl
  differentiated _ := rfl

/-- Work with a scaled errordef leaves the errordef as it was, whatever happened in it. -/
theorem sameUp_withScaledUp [Mul α] (factor : α) (work : Run σ α β) :
    Keeps Bench.SameUp (Run.withScaledUp factor work) := by
  intro b
  unfold Run.withScaledUp
  cases work { b with up := b.up * factor } <;> rfl

/-- Both benches have the same errordef, if a condition holds. -/
def Bench.SameUpIf (K : Prop) (b b' : Bench σ α) : Prop := K → b.SameUp b'

instance (K : Prop) : IgnoresCounts (Bench.SameUpIf K : Bench σ α → Bench σ α → Prop) where
  refl _ _ := rfl
  trans hst htu hK := (htu hK).trans (hst hK)
  evaluated _ _ := rfl
  differentiated _ _ := rfl

/-- The second bench has the same errordef, and has counted no less. -/
structure Bench.Onward (b b' : Bench σ α) : Prop where
  up : b'.up = b.up
  nfcn : b.nfcn ≤ b'.nfcn
  ngrad : b.ngrad ≤ b'.ngrad

instance : IgnoresCounts (Bench.Onward : Bench σ α → Bench σ α → Prop) where
  refl _ := ⟨rfl, Nat.le_refl _, Nat.le_refl _⟩
  trans hst htu :=
    ⟨htu.up.trans hst.up, Nat.le_trans hst.nfcn htu.nfcn, Nat.le_trans hst.ngrad htu.ngrad⟩
  evaluated _ := ⟨rfl, Nat.le_succ _, Nat.le_refl _⟩
  differentiated _ := ⟨rfl, Nat.le_refl _, Nat.le_succ _⟩

/-- Work with a scaled errordef goes on counting, and the errordef is put back. -/
theorem onward_withScaledUp [Mul α] {work : Run σ α β} (h : Keeps Bench.Onward work)
    (factor : α) : Keeps Bench.Onward (Run.withScaledUp factor work) := by
  intro b
  have hb := h { b with up := b.up * factor }
  unfold Run.withScaledUp
  cases hw : work { b with up := b.up * factor } with
  | ok x after =>
    rw [hw] at hb
    exact ⟨rfl, hb.nfcn, hb.ngrad⟩
  | error e after =>
    rw [hw] at hb
    exact ⟨rfl, hb.nfcn, hb.ngrad⟩

theorem keeps_sameUpIf {K : Prop} {work : Run σ α β} (h : K → Keeps Bench.SameUp work) :
    Keeps (Bench.SameUpIf K) work := fun b hK => h hK b

/-! ## Memories that do not matter -/

/-- The benches differ at most in what the worker remembers. -/
def Bench.Alike (b b' : Bench σ α) : Prop := b' = { b with memory := b'.memory }

/-- Work with a memory of its own is not concerned with that of the bench. -/
theorem coupled_withMemory (memory : τ) (work : Run τ α β) :
    Coupled Bench.Alike (Run.withMemory memory work : Run σ α (β × τ)) := by
  intro b b' h
  rw [h]
  unfold Run.withMemory
  cases work ⟨b.up, b.nfcn, b.ngrad, memory⟩ <;> exact ⟨rfl, rfl⟩

theorem coupled_evaluate (cost : Cost α) (args : List α) :
    Coupled Bench.Alike (cost.evaluate args : Run σ α α) := by
  refine inStep_evaluate (fun b b' h => ?_) cost args
  rw [h]
  rfl

end FitSession
