import FitSession.Derivative.Difference
import FitSession.Proofs.Bench

/-!
# Plans of samples

What is known of a plan is known of every run of it, whatever function is asked.

* `Sampling.Asks`, `Sampling.AsksAtMost`: where a plan asks, and how often;
* `Sampling.Gives`: what comes of a plan;
* `asks_central`, `asksAtMost_central`, `gives_central` and others: one step on each axis;
* `IsSpace`, `isSpace_all`, `isSpace_length`: points among which the differences stay;
* `Sampling.run_ask`: **the first failure is what comes of a run**, and the rest of it is discarded;
* `keeps_run`, `inStep_run`: what the function keeps, and functions side by side;
* `Sampling.points`, `Sampling.result`, **`run_apply`**: a run, from its points and their values.
-/

namespace FitSession

variable {α β γ ε τ : Type}

namespace Sampling

instance : LawfulMonad (Sampling α) :=
  LawfulMonad.mk' _
    (fun s => by
      induction s with
      | done x => rfl
      | ask theta next ih => exact congrArg (ask theta) (funext ih))
    (fun _ _ => rfl)
    (fun s f g => by
      induction s with
      | done x => rfl
      | ask theta next ih => exact congrArg (ask theta) (funext ih))

/-! ## Plans -/

/-- Every point that the plan asks for has the property `P`. -/
def Asks (P : List α → Prop) : Sampling α β → Prop
  | done _ => True
  | ask theta next => P theta ∧ ∀ x, (next x).Asks P

/-- The plan asks for no more than so many points. -/
def AsksAtMost : Sampling α β → Nat → Prop
  | done _, _ => True
  | ask _ _, 0 => False
  | ask _ next, k + 1 => ∀ x, (next x).AsksAtMost k

/-- Every result of the plan has the property `P`. -/
def Gives (P : β → Prop) : Sampling α β → Prop
  | done x => P x
  | ask _ next => ∀ x, (next x).Gives P

variable {P : List α → Prop} {s : Sampling α β} {f : β → Sampling α γ}

namespace Asks

theorem value {theta : List α} (h : P theta) : (Sampling.value theta).Asks P :=
  ⟨h, fun _ => trivial⟩

theorem bind (hs : s.Asks P) (hf : ∀ x, (f x).Asks P) : (s >>= f).Asks P := by
  induction s with
  | done x => exact hf x
  | ask theta next ih => exact ⟨hs.1, fun x => ih x (hs.2 x)⟩

theorem mapM (hf : ∀ x, (f x).Asks P) (l : List β) : (l.mapM f).Asks P := by
  induction l with
  | nil => trivial
  | cons x l ih =>
    rw [List.mapM_cons]
    exact (hf x).bind fun y => ih.bind fun ys => trivial

/-- Every plan asks for points. -/
theorem all (s : Sampling α β) : s.Asks fun _ => True := by
  induction s with
  | done x => trivial
  | ask theta next ih => exact ⟨trivial, ih⟩

end Asks

namespace AsksAtMost

theorem value (theta : List α) : (Sampling.value theta).AsksAtMost 1 := fun _ => trivial

theorem pure (x : β) : (Pure.pure x : Sampling α β).AsksAtMost 0 := trivial

theorem mono {k l : Nat} (hs : s.AsksAtMost k) (h : k ≤ l) : s.AsksAtMost l := by
  induction s generalizing k l with
  | done x => trivial
  | ask theta next ih =>
    obtain _ | k := k
    · exact hs.elim
    obtain ⟨l, rfl⟩ := Nat.exists_eq_add_of_le' (Nat.lt_of_lt_of_le k.succ_pos h)
    exact fun x => ih x (hs x) (Nat.le_of_succ_le_succ h)

theorem bind {k l : Nat} (hs : s.AsksAtMost k) (hf : ∀ x, (f x).AsksAtMost l) :
    (s >>= f).AsksAtMost (k + l) := by
  induction s generalizing k with
  | done x => exact (hf x).mono (Nat.le_add_left l k)
  | ask theta next ih =>
    obtain _ | k := k
    · exact hs.elim
    rw [Nat.add_right_comm]
    exact fun x => ih x (hs x)

theorem mapM {k : Nat} (hf : ∀ x, (f x).AsksAtMost k) (l : List β) :
    (l.mapM f).AsksAtMost (l.length * k) := by
  induction l with
  | nil => trivial
  | cons x l ih =>
    rw [List.mapM_cons, List.length_cons, Nat.succ_mul, Nat.add_comm]
    exact (hf x).bind fun y => ih.bind fun ys => pure (y :: ys)

end AsksAtMost

namespace Gives

variable {Q : γ → Prop}

theorem bind_right (hf : ∀ x, (f x).Gives Q) : (s >>= f).Gives Q := by
  induction s with
  | done x => exact hf x
  | ask theta next ih => exact ih

theorem bind {P : β → Prop} (hs : s.Gives P) (hf : ∀ x, P x → (f x).Gives Q) :
    (s >>= f).Gives Q := by
  induction s with
  | done x => exact hf x hs
  | ask theta next ih => exact fun x => ih x (hs x)

theorem length_mapM (l : List β) : (l.mapM f).Gives fun ys => ys.length = l.length := by
  induction l with
  | nil => rfl
  | cons x l ih =>
    rw [List.mapM_cons]
    exact bind_right fun y => ih.bind fun ys hys => congrArg Nat.succ hys

end Gives
end Sampling

/-! ## One step on each axis -/

section Standard

variable [Scalar α] (theta : List α)

theorem length_shifted (theta : List α) (i : Nat) (h : α) :
    (shifted theta i h).length = theta.length := List.length_modify _ _ _

/-- Differences on both sides sample points of the same space. -/
theorem asks_central :
    (Differences.central theta).Asks fun t : List α => t.length = theta.length := by
  refine Sampling.Asks.bind (Sampling.Asks.mapM (fun i => ?_) _) fun samples => trivial
  refine (Sampling.Asks.value (length_shifted _ _ _)).bind fun ahead => ?_
  exact (Sampling.Asks.value (length_shifted _ _ _)).bind fun behind => trivial

theorem asks_forward :
    (Differences.forward theta).Asks fun t : List α => t.length = theta.length := by
  refine Sampling.Asks.bind ?_ fun samples => trivial
  refine Sampling.Asks.bind (Sampling.Asks.value rfl) fun here => ?_
  refine (Sampling.Asks.mapM (fun i => ?_) _).bind fun ahead => trivial
  exact Sampling.Asks.value (length_shifted _ _ _)

/-- Differences on both sides take two samples on each axis. -/
theorem asksAtMost_central : (Differences.central theta).AsksAtMost (2 * theta.length) := by
  have hside (i : Nat) (h : α) : (Sampling.value (shifted theta i h)).AsksAtMost 1 :=
    Sampling.AsksAtMost.value _
  have hsamples : (centralSamples Sampling.value theta).AsksAtMost
      ((List.range theta.length).length * (1 + (1 + 0))) :=
    Sampling.AsksAtMost.mapM (fun i => (hside i _).bind fun _ => (hside i _).bind fun _ =>
      Sampling.AsksAtMost.pure _) _
  refine (hsamples.bind fun _ => Sampling.AsksAtMost.pure _).mono ?_
  rw [List.length_range]
  omega

/-- Differences ahead take one sample on each axis, and one at the point. -/
theorem asksAtMost_forward : (Differences.forward theta).AsksAtMost (theta.length + 1) := by
  have hahead : ((List.range theta.length).mapM fun i =>
      Sampling.value (shifted theta i differenceStep)).AsksAtMost
        ((List.range theta.length).length * 1) :=
    Sampling.AsksAtMost.mapM (fun i => Sampling.AsksAtMost.value _) _
  have hsamples : (forwardSamples Sampling.value theta).AsksAtMost
      (1 + ((List.range theta.length).length * 1 + 0)) :=
    (Sampling.AsksAtMost.value theta).bind fun _ => hahead.bind fun _ =>
      Sampling.AsksAtMost.pure _
  refine (hsamples.bind fun _ => Sampling.AsksAtMost.pure _).mono ?_
  rw [List.length_range]
  omega

/-- Differences on both sides give a slope for each coordinate. -/
theorem gives_central :
    (Differences.central theta).Gives fun g : List α => g.length = theta.length := by
  refine Sampling.Gives.bind (Sampling.Gives.length_mapM _) fun samples h => ?_
  exact (List.length_map _).trans (h.trans List.length_range)

theorem gives_forward :
    (Differences.forward theta).Gives fun g : List α => g.length = theta.length := by
  refine Sampling.Gives.bind (P := fun r => r.2.length = theta.length) ?_ fun samples h => ?_
  · refine Sampling.Gives.bind_right fun here => ?_
    exact (Sampling.Gives.length_mapM _).bind fun ahead h => h.trans List.length_range
  · exact (List.length_map _).trans h

end Standard

/-! ## Spaces -/

/-- A set that has with a point all points of as many coordinates, and in which the differences
stay. -/
structure IsSpace [Differences α] (I : List α → Prop) : Prop where
  congr : ∀ {s t : List α}, I s → t.length = s.length → I t
  central : ∀ {theta}, I theta → (Differences.central theta).Asks I
  forward : ∀ {theta}, I theta → (Differences.forward theta).Asks I

/-- All points are a space, whatever the differences. -/
theorem isSpace_all [Differences α] : IsSpace fun _ : List α => True where
  congr _ _ := trivial
  central _ := Sampling.Asks.all _
  forward _ := Sampling.Asks.all _

/-- The points of `n` coordinates are one for steps on the axes. -/
theorem isSpace_length [Scalar α] (n : Nat) : IsSpace fun theta : List α => theta.length = n where
  congr hs ht := ht.trans hs
  central h := h ▸ asks_central _
  forward h := h ▸ asks_forward _

/-! ## Runs -/

section Runs

variable [Scalar α]

namespace Sampling

variable {m : Type → Type} [Monad m] [LawfulMonad m] {f : List α → m (Except ε α)}

theorem run_answer (theta : List α) (slot : Option ε) : (answer f theta).run slot = (do
    match ← f theta with
    | .ok x => pure (x, slot)
    | .error e => pure (Scalar.nan, slot.or (some e))) := by
  unfold answer
  rw [StateT.run_bind, StateT.run_monadLift]
  simp only [bind_assoc, pure_bind]
  refine congrArg _ (funext fun answer => ?_)
  cases answer <;> simp

theorem run_done (x : β) : run f (done x) = pure (.ok x) := by
  simp [run, follow, settled]

/-- A failure that is in the slot stays there, whatever else is asked. -/
theorem follow_of_failed (s : Sampling α β) (e : ε) :
    ((s.follow (answer f)).run (some e) >>= fun p => pure (settled p.1 p.2)) =
      run f s >>= fun _ => pure (.error e) := by
  induction s generalizing e with
  | done x => simp [run, follow, settled]
  | ask theta next ih =>
    simp only [run, follow, StateT.run_bind, run_answer, bind_assoc]
    refine congrArg _ (funext fun answer => ?_)
    cases answer with
    | ok x => simpa [run] using ih x e
    | error e' =>
      have hlater := congrArg (· >>= fun _ => pure (Except.error e : Except ε β)) (ih Scalar.nan e')
      simp only [bind_assoc, pure_bind] at hlater
      simpa using (ih Scalar.nan e).trans hlater.symm

/-- A run asks for the first point, and goes on from the answer. If that is a failure, the rest is
run as well and does not matter. -/
theorem run_ask (theta : List α) (next : α → Sampling α β) :
    run f (ask theta next) = (do
      match ← f theta with
      | .ok x => run f (next x)
      | .error e => do
        let _ ← run f (next Scalar.nan)
        pure (.error e)) := by
  simp only [run, follow, StateT.run_bind, run_answer, bind_assoc]
  refine congrArg _ (funext fun answer => ?_)
  cases answer with
  | ok x => simp
  | error e => simpa [run] using follow_of_failed (f := f) (next Scalar.nan) e

end Sampling

section Work

variable {s : Sampling α β} {f : List α → EStateM ε τ (Except γ α)}

/-- The induction is on the plan: whatever is answered, the rest of it keeps the relation. -/
theorem keeps_run {R : τ → τ → Prop} [Chains R] {P : List α → Prop}
    (hf : ∀ t, P t → Keeps R (f t)) (hs : s.Asks P) : Keeps R (s.run f) := by
  induction s with
  | done x =>
    rw [Sampling.run_done]
    exact Keeps.pure _
  | ask theta next ih =>
    rw [Sampling.run_ask]
    refine (hf theta hs.1).bind fun answer => ?_
    cases answer with
    | ok x => exact ih x (hs.2 x)
    | error e => exact (ih _ (hs.2 _)).bind fun _ => Keeps.pure _

theorem inStep_run {υ : Type} {R : τ → υ → Prop} {g : List α → EStateM ε υ (Except γ α)}
    (h : ∀ t, InStep R (f t) (g t)) (s : Sampling α β) : InStep R (s.run f) (s.run g) := by
  induction s with
  | done x =>
    rw [Sampling.run_done, Sampling.run_done]
    exact InStep.pure _
  | ask theta next ih =>
    rw [Sampling.run_ask, Sampling.run_ask]
    refine (h theta).bind fun answer => ?_
    cases answer with
    | ok x => exact ih x
    | error e => exact (ih _).bind fun _ => InStep.pure _

end Work

/-- The number that a plan is answered with. -/
def answered : Except ε α → α
  | .ok x => x
  | .error _ => Scalar.nan

namespace Sampling

variable (f : List α → Except ε α)

/-- The points that the plan asks for, in their order, of a function with these answers. -/
def points : Sampling α β → List (List α)
  | done _ => []
  | ask theta next => theta :: (next (answered (f theta))).points

/-- What the plan makes of the answers. -/
def result : Sampling α β → β
  | done x => x
  | ask theta next => (next (answered (f theta))).result

variable {f}

theorem Gives.result {P : β → Prop} {s : Sampling α β} (hs : s.Gives P) : P (s.result f) := by
  induction s with
  | done x => exact hs
  | ask theta next ih => exact ih _ (hs _)

end Sampling

/-- **A run of a plan.** The function is asked at all points of the plan, whichever of its answers
are failures, and the first failure is what comes of the run. -/
theorem run_apply {δ : Type} {work : List α → EStateM δ τ (Except ε α)}
    {f : List α → Except ε α} {note : τ → List α → τ}
    (h : ∀ theta b, work theta b = .ok (f theta) (note b theta)) (s : Sampling α β) (b : τ) :
    s.run work b = .ok ((s.points f).mapM f >>= fun _ => .ok (s.result f))
      ((s.points f).foldl note b) := by
  induction s generalizing b with
  | done x =>
    rw [Sampling.run_done]
    rfl
  | ask theta next ih =>
    rw [Sampling.run_ask, bind_of_ok (h theta b), Sampling.points, List.mapM_cons, List.foldl_cons,
      Sampling.result]
    cases hf : f theta with
    | ok x =>
      refine (ih x _).trans (congrArg (EStateM.Result.ok · _) ?_)
      simp only [answered]
      cases ((next x).points f).mapM f <;> rfl
    | error e => exact bind_of_ok (ih Scalar.nan _) _

end Runs
end FitSession
