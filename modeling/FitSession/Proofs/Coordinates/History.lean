import FitSession.Engine.QuasiNewton
import FitSession.Proofs.Derivative
import FitSession.Proofs.Scalar
import Mathlib.Data.List.Induction

/-!
# The history of a problem

An engine remembers the lowest value of a problem only. Had it remembered every evaluation, it
would have done the same: what it does next only hangs on the lowest value.

* `Problem.valueAt`, `Problem.value_apply`: one evaluation, noted with what came of it;
* `Notes`, `inStep_gradient` and others: at benches that stay related, questions are answered alike;
* `Parallels`, `inStep_minimize`, `inStep_searchMinimum`: **with memories that tell the same lowest
  value, a minimization does the same**;
* `parallels_invariant`: what a memory keeps from one evaluation to the next;
* `History`, `History.tells_lowest`: all evaluations in their order, and the lowest of their values;
* `Traces`, `parallels_traces`: the history of a problem, beside the lowest value alone.
-/

namespace FitSession

variable {μ ν α β : Type} [Scalar α] [Memory μ α] [Memory ν α]

/-! ## One evaluation -/

/-- What comes of an evaluation at a point. -/
def Problem.valueAt (p : Problem α) (theta : List α) : Except (FitError α) α :=
  p.cost.value (p.map.toExternal theta) >>= finiteCost

/-- The bench after one more evaluation. -/
def Bench.noted (b : Bench μ α) (theta : List α) (answer : Except (FitError α) α) : Bench μ α :=
  { b with nfcn := b.nfcn + 1, memory := Memory.note b.memory theta answer }

theorem Problem.value_apply (p : Problem α) (theta : List α) (b : Bench μ α) :
    p.value theta b = (Run.ofExcept (p.valueAt theta) : Run μ α α)
      (b.noted theta (p.valueAt theta)) := by
  have hasked : (p.cost.evaluate (p.map.toExternal theta)).attempt b =
      .ok (p.cost.value (p.map.toExternal theta)) { b with nfcn := b.nfcn + 1 } := by
    unfold Run.attempt Cost.evaluate
    rw [bind_apply]
    cases p.cost.value (p.map.toExternal theta) <;> rfl
  unfold Problem.value
  rw [bind_apply, hasked]
  rfl

theorem finiteCost_eq_ok {x y : α} :
    finiteCost x = .ok y ↔ y = x ∧ Scalar.isFinite x = true := by
  unfold finiteCost checkFiniteCost
  cases Scalar.isFinite x
  · simp [bind, Except.bind]
  · simp [bind, Except.bind, pure, Except.pure, eq_comm]

theorem Problem.valueAt_eq_ok {p : Problem α} {theta : List α} {x : α} :
    p.valueAt theta = .ok x ↔
      p.cost.value (p.map.toExternal theta) = .ok x ∧ Scalar.isFinite x = true := by
  unfold valueAt
  rw [except_bind_eq_ok]
  constructor
  · rintro ⟨y, hy, hx⟩
    obtain ⟨rfl, hfinite⟩ := finiteCost_eq_ok.mp hx
    exact ⟨hy, hfinite⟩
  · rintro ⟨hx, hfinite⟩
    exact ⟨x, hx, finiteCost_eq_ok.mpr ⟨rfl, hfinite⟩⟩

theorem Problem.value_eq_ok {p : Problem α} {theta : List α} {x : α} (h : p.valueAt theta = .ok x)
    (b : Bench μ α) : p.value theta b = .ok x (b.noted theta (.ok x)) := by
  rw [p.value_apply, h]
  rfl

/-! ## Memories side by side -/

/-- Benches that stay related whatever is evaluated at both of them. -/
structure Notes (p : Problem α) (R : Bench μ α → Bench ν α → Prop) : Prop where
  noted : ∀ {b c} theta, R b c →
    R (b.noted theta (p.valueAt theta)) (c.noted theta (p.valueAt theta))
  differentiated : ∀ {b c}, R b c →
    R { b with ngrad := b.ngrad + 1 } { c with ngrad := c.ngrad + 1 }

/-- Benches with one errordef where the same value is known to be the lowest, now and whatever is
evaluated next. As many evaluations are counted from one of them to the next. -/
structure Parallels (p : Problem α) (R : Bench μ α → Bench ν α → Prop) : Prop extends Notes p R where
  lowest : ∀ {b c}, R b c → Memory.lowest c.memory = Memory.lowest b.memory
  up : ∀ {b c}, R b c → c.up = b.up
  nfcn : ∀ {b c b' c'}, R b c → R b' c' → c'.nfcn - c.nfcn = b'.nfcn - b.nfcn

namespace Notes

variable [Differences α] {p : Problem α} {R : Bench μ α → Bench ν α → Prop} (h : Notes p R)
include h

omit [Differences α] in
theorem inStep_value (theta : List α) : InStep R (p.value theta) (p.value theta) := by
  intro b c hbc
  rw [p.value_apply, p.value_apply]
  exact inStep_runOfExcept _ _ _ (h.noted theta hbc)

omit [Differences α] in
theorem inStep_givenGradient (theta : List α) :
    InStep R (p.givenGradient theta) (p.givenGradient theta) := by
  refine InStep.bind (x := p.cost.differentiate _) (y := p.cost.differentiate _) ?_ fun g => ?_
  · unfold Cost.differentiate
    cases p.cost.grad (p.map.toExternal theta) with
    | ok g => exact (InStep.modify fun _ _ => h.differentiated).bind fun _ => InStep.pure g
    | error e => exact InStep.throw e
  · exact InStep.ite ((InStep.throw _).bind fun _ => InStep.pure _) (InStep.pure _)

theorem inStep_differenceGradient (theta : List α) :
    InStep R (p.differenceGradient theta) (p.differenceGradient theta) := by
  have hsample (t : List α) : InStep R (p.value t).attempt (p.value t).attempt :=
    inStep_attempt (h.inStep_value t)
  refine (inStep_checkedSlopes hsample _ _).bind fun central => ?_
  cases central with
  | ok g => exact InStep.pure g
  | error e => exact (inStep_checkedSlopes hsample _ _).bind fun _ => inStep_runOfExcept _

theorem inStep_gradient (theta : List α) :
    InStep R (p.gradient theta) (p.gradient theta) := by
  refine InStep.ite ?_ (h.inStep_differenceGradient theta)
  refine (inStep_attempt (h.inStep_givenGradient theta)).bind fun given => ?_
  cases given with
  | ok g => exact (inStep_runOfExcept _).bind fun _ => InStep.pure g
  | error e => cases e <;> first | exact h.inStep_differenceGradient theta | exact InStep.throw _

/-- The induction is on the plan: whatever is answered, the rest of it is answered alike. -/
theorem inStep_answer (s : Search α β) : InStep R (p.answer s) (p.answer s) := by
  induction s with
  | done x => exact InStep.pure x
  | fail fault => exact InStep.throw _
  | askValue theta next ih => exact (inStep_attempt (h.inStep_value theta)).bind fun x => ih _
  | askGradient theta next ih =>
    exact (inStep_attempt (h.inStep_gradient theta)).bind fun g => ih _

theorem inStep_hessian (theta : List α) (useGradient : Bool) :
    InStep R (p.hessian theta useGradient) (p.hessian theta useGradient) := by
  refine InStep.ite (inStep_hessianOfGradients (fun t => ?_) theta)
    (inStep_attempt (inStep_hessianOfValues h.inStep_value theta))
  refine (inStep_attempt (h.inStep_gradient t)).bind fun g => ?_
  cases g with
  | ok g => exact InStep.pure g
  | error e => exact InStep.pure _

end Notes

namespace Parallels

variable [Differences α] {p : Problem α} {R : Bench μ α → Bench ν α → Prop}
  (h : Parallels p R)
include h

omit [Differences α] in
theorem inStep_bestPoint (otherwise : List α) :
    InStep R (Problem.bestPoint otherwise) (Problem.bestPoint otherwise) := by
  refine InStep.get_bind fun b c hbc => ?_
  rw [h.lowest hbc]
  exact InStep.pure _

theorem inStep_isFlatAt (theta : List α) (tolerance : α) :
    InStep R (p.isFlatAt theta tolerance) (p.isFlatAt theta tolerance) := by
  refine (inStep_attempt (h.inStep_gradient theta)).bind fun g => ?_
  cases g with
  | ok g => exact InStep.pure _
  | error e => exact InStep.pure _

variable (solvers : Solvers α) (state : ParameterState α) (start : List α)

theorem inStep_descend (tolerance : α) (limit : Nat) :
    InStep R (p.descend solvers start tolerance limit)
      (p.descend solvers start tolerance limit) := by
  refine (inStep_attempt (h.inStep_answer _)).bind fun r => ?_
  cases r with
  | ok outcome => exact (h.inStep_bestPoint _).bind fun theta => h.inStep_isFlatAt theta _
  | error e => exact InStep.pure false

theorem inStep_fallBack (limit : Nat) :
    InStep R (p.fallBack solvers state start limit) (p.fallBack solvers state start limit) := by
  refine (h.inStep_bestPoint start).bind fun theta => ?_
  refine (inStep_runOfExcept _).bind fun search => ?_
  refine (inStep_attempt (h.inStep_answer search)).bind fun r => ?_
  cases r with
  | ok outcome => exact InStep.pure _
  | error e =>
    refine InStep.get_bind fun b c hbc => ?_
    rw [h.lowest hbc]
    exact InStep.ite (InStep.throw e) (InStep.pure _)

/-- With memories that tell the same lowest value, a minimization does the same. -/
theorem inStep_minimize (tolerance : α) (callLimit : Nat) :
    InStep R (p.minimize solvers state start tolerance callLimit)
      (p.minimize solvers state start tolerance callLimit) := by
  refine InStep.get_bind fun b c hbc => (h.inStep_value start).bind fun _ => ?_
  refine (h.inStep_gradient start).bind fun g => InStep.ite (InStep.pure _) ?_
  refine (h.inStep_descend solvers start tolerance _).bind fun flat => ?_
  refine InStep.ite (InStep.pure _) (InStep.get_bind fun b' c' hbc' => ?_)
  rw [h.nfcn hbc hbc']
  exact h.inStep_fallBack solvers state start _

/-- Beside the values, the curvature at a point only hangs on the errordef. -/
theorem inStep_curvature (theta : List α) (useGradient : Bool) :
    InStep R (p.curvature theta useGradient) (p.curvature theta useGradient) := by
  refine (h.inStep_hessian theta useGradient).bind fun r => ?_
  cases r with
  | error e => exact InStep.ite (InStep.pure none) (InStep.throw e)
  | ok m =>
    dsimp only
    cases invertCurvature m with
    | none => exact InStep.pure none
    | some inv =>
      refine (inStep_attempt (h.inStep_gradient theta)).bind fun g => ?_
      refine InStep.get_bind fun b c hbc => ?_
      rw [h.up hbc]
      exact InStep.pure _

/-- With memories that tell the same lowest value, a search ends at the same point. -/
theorem inStep_searchMinimum (tolerance : α) (callLimit : Nat) (useGradient : Bool) :
    InStep R (searchMinimum p solvers state tolerance callLimit useGradient)
      (searchMinimum p solvers state tolerance callLimit useGradient) := by
  refine (h.inStep_minimize solvers state _ tolerance callLimit).bind fun _ => ?_
  refine InStep.get_bind fun b c hbc => ?_
  rw [h.lowest hbc]
  cases Memory.lowest b.memory with
  | none => exact InStep.throw _
  | some found => exact (h.inStep_curvature found.2 useGradient).bind fun c => InStep.pure _

end Parallels

/-- An invariant of the memory, kept whatever is evaluated. -/
theorem parallels_invariant {p : Problem α} {I : μ → Prop}
    (hI : ∀ memory theta, I memory → I (Memory.note memory theta (p.valueAt theta))) :
    Parallels p fun b c : Bench μ α => c = b ∧ I b.memory where
  noted theta h := ⟨by rw [h.1], hI _ theta h.2⟩
  differentiated h := ⟨by rw [h.1], h.2⟩
  lowest h := by rw [h.1]
  up h := by rw [h.1]
  nfcn h h' := by rw [h.1, h'.1]

/-! ## Histories -/

/-- All evaluations in their order, each with its point and what came of it. -/
abbrev History (α : Type) : Type := List (List α × Except (FitError α) α)

instance : Memory (History α) α where
  note history theta answer := history ++ [(theta, answer)]
  lowest history := history.foldl (fun best e => Memory.note best e.1 e.2) (none : Best α)

theorem History.lowest_note (history : History α) (theta : List α)
    (answer : Except (FitError α) α) : Memory.lowest (Memory.note history theta answer) =
      Memory.note (Memory.lowest history) theta answer :=
  List.foldl_append

namespace History

/-- Every value in the history is finite. -/
def AllFinite (history : History α) : Prop :=
  ∀ e ∈ history, ∀ y, e.2 = .ok y → Scalar.isFinite y = true

/-- The value `x` is in the history, with its point, and no value is lower. -/
structure IsLowest (history : History α) (x : α) (theta : List α) : Prop where
  mem : (theta, .ok x) ∈ history
  least : ∀ e ∈ history, ∀ y, e.2 = .ok y → x ≤ y

/-- What is known of the lowest value is true of the history. -/
def Tells (history : History α) : Best α → Prop
  | some (x, theta) => history.IsLowest x theta
  | none => ∀ e ∈ history, ∀ y, e.2 ≠ .ok y

omit [Scalar α] in
theorem forall_mem_concat {P : List α × Except (FitError α) α → Prop} {history : History α}
    {last : List α × Except (FitError α) α} :
    (∀ e ∈ history ++ [last], P e) ↔ (∀ e ∈ history, P e) ∧ P last := by
  rw [List.forall_mem_append, List.forall_mem_singleton]

variable [OrderedScalar α] {history : History α} {theta : List α}

omit [OrderedScalar α] in
theorem Tells.note_error {best : Best α} (h : history.Tells best) (error : FitError α) :
    Tells (history ++ [(theta, .error error)]) best := by
  cases best with
  | none => exact forall_mem_concat.mpr ⟨h, fun y hy => nomatch hy⟩
  | some found =>
    exact ⟨List.mem_append_left _ h.mem, forall_mem_concat.mpr ⟨h.least, fun y hy => nomatch hy⟩⟩

/-- Of the lowest value so far and the new one, the lower one is lowest. -/
theorem Tells.record {best : Best α} (h : history.Tells best) {x : α}
    (hfinite : AllFinite (history ++ [(theta, .ok x)])) :
    Tells (history ++ [(theta, .ok x)]) (best.record x theta) := by
  obtain ⟨hbefore, hlast⟩ := forall_mem_concat.mp hfinite
  have hx : Scalar.isFinite x = true := hlast x rfl
  have hself : x ≤ x := (OrderedScalar.le_total hx hx).elim id id
  have hmem : (theta, .ok x) ∈ history ++ [(theta, .ok x)] := by simp
  cases best with
  | none =>
    refine ⟨hmem, forall_mem_concat.mpr ⟨fun e he y hy => absurd hy (h e he y), ?_⟩⟩
    exact fun y hy => Except.ok.inj hy ▸ hself
  | some found =>
    obtain ⟨least, point⟩ := found
    have hleast : Scalar.isFinite least = true := hbefore _ h.mem least rfl
    change Tells _ (if least ≤ x then some (least, point) else some (x, theta))
    split
    · rename_i hle
      refine ⟨List.mem_append_left _ h.mem, forall_mem_concat.mpr ⟨h.least, ?_⟩⟩
      exact fun y hy => Except.ok.inj hy ▸ hle
    · rename_i hnot
      have hlower : x ≤ least := (OrderedScalar.le_total hleast hx).resolve_left hnot
      refine ⟨hmem, forall_mem_concat.mpr ⟨fun e he y hy => ?_, ?_⟩⟩
      · exact OrderedScalar.le_trans hx hleast (hbefore e he y hy) hlower (h.least e he y hy)
      · exact fun y hy => Except.ok.inj hy ▸ hself

/-- The lowest value of a history is told. -/
theorem tells_lowest (hfinite : history.AllFinite) : history.Tells (Memory.lowest history) := by
  induction history using List.reverseRecOn with
  | nil => exact fun e he => nomatch he
  | append_singleton history e ih =>
    obtain ⟨theta, answer⟩ := e
    have hbefore : Tells history (Memory.lowest history) := ih (forall_mem_concat.mp hfinite).1
    change Tells _ (Memory.lowest (Memory.note history theta answer))
    rw [lowest_note]
    cases answer with
    | ok x => exact hbefore.record hfinite
    | error e => exact hbefore.note_error e

end History

/-! ## The history of a minimization -/

/-- The history of a problem since `n` evaluations were counted: it holds an entry for each one,
and the other bench only remembers the lowest value. -/
structure Traces (p : Problem α) (n : Nat) (b : Bench (History α) α) (c : Bench (Best α) α) :
    Prop where
  answers : ∀ e ∈ b.memory, e.2 = p.valueAt e.1
  counted : b.nfcn = n + b.memory.length
  same : c = ⟨b.up, b.nfcn, b.ngrad, Memory.lowest b.memory⟩

theorem parallels_traces (p : Problem α) (n : Nat) : Parallels p (Traces p n) where
  lowest h := by
    rw [h.same]
    rfl
  up h := by rw [h.same]
  nfcn h h' := by rw [h.same, h'.same]
  noted {b c} theta h := by
    refine ⟨History.forall_mem_concat.mpr ⟨h.answers, rfl⟩, ?_, ?_⟩
    · have hcounted := h.counted
      change b.nfcn + 1 = n + (b.memory ++ [_]).length
      simp only [List.length_append, List.length_singleton]
      omega
    · rw [h.same]
      change _ = (⟨b.up, b.nfcn + 1, b.ngrad, Memory.lowest (Memory.note b.memory _ _)⟩ : Bench _ α)
      rw [History.lowest_note]
      rfl
  differentiated h := by
    rw [h.same]
    exact ⟨h.answers, h.counted, rfl⟩

namespace Traces

variable {p : Problem α} {n : Nat} {b : Bench (History α) α} {c : Bench (Best α) α}

theorem start (p : Problem α) (up : α) (n k : Nat) :
    Traces p n ⟨up, n, k, []⟩ ⟨up, n, k, none⟩ where
  answers _ he := nomatch he
  counted := rfl
  same := rfl

theorem allFinite (h : Traces p n b c) : History.AllFinite b.memory := fun e he _ hy =>
  (Problem.valueAt_eq_ok.mp ((h.answers e he).symm.trans hy)).2

/-- What the engine remembers is the lowest value that was met. -/
theorem isLowest [OrderedScalar α] (h : Traces p n b c) {x : α} {theta : List α}
    (hc : c.memory = some (x, theta)) : History.IsLowest b.memory x theta := by
  have htells := History.tells_lowest h.allFinite
  have hmemory : Memory.lowest b.memory = some (x, theta) := by
    rw [← hc, h.same]
  rw [hmemory] at htells
  exact htells

end Traces
end FitSession
