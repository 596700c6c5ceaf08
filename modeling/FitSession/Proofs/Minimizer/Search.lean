import FitSession.Minimizer.Iteration

/-!
# The space of a search

A search that starts in a space never leaves it.

* `Search.StaysWithin`, `Search.StaysIn`: all questions are at points of a set, or at points of `n`
  coordinates, as long as gradients have a component for each coordinate, and the result has a
  property;
* `Search.StaysWithin.bind`, `Search.StaysWithin.attempt`, `Search.StaysWithin.mapM`: how it is
  shown;
* `StaysIn.run`: **a solver stays in a space if each of its steps does**.
-/

namespace FitSession

variable {α β γ : Type}

namespace Search

instance : LawfulMonad (Search α) :=
  LawfulMonad.mk' _
    (fun s => by
      induction s with
      | done x => rfl
      | fail fault => rfl
      | askValue theta next ih => exact congrArg (askValue theta) (funext ih)
      | askGradient theta next ih => exact congrArg (askGradient theta) (funext ih))
    (fun _ _ => rfl)
    (fun s f g => by
      induction s with
      | done x => rfl
      | fail fault => rfl
      | askValue theta next ih => exact congrArg (askValue theta) (funext ih)
      | askGradient theta next ih => exact congrArg (askGradient theta) (funext ih))

/-- All questions of the plan are at points of the set `I` if all gradients that are given as
answers have a component for each coordinate, and then every result has the property `P`. -/
def StaysWithin (I : List α → Prop) (P : β → Prop) : Search α β → Prop
  | done x => P x
  | fail _ => True
  | askValue theta next => I theta ∧ ∀ answer, (next answer).StaysWithin I P
  | askGradient theta next =>
    I theta ∧
      ∀ answer, (∀ g, answer = .ok g → g.length = theta.length) → (next answer).StaysWithin I P

/-- All questions of the plan are at points of `n` coordinates. -/
abbrev StaysIn (n : Nat) (P : β → Prop) (s : Search α β) : Prop :=
  s.StaysWithin (fun theta => theta.length = n) P

/-- Every plan stays within all points. -/
theorem staysWithin_all (s : Search α β) : s.StaysWithin (fun _ => True) fun _ => True := by
  induction s with
  | done x => trivial
  | fail fault => trivial
  | askValue theta next ih => exact ⟨trivial, fun answer => ih answer⟩
  | askGradient theta next ih => exact ⟨trivial, fun answer _ => ih answer⟩

namespace StaysWithin

variable {I : List α → Prop} {P : β → Prop} {Q : γ → Prop} {s : Search α β} {f : β → Search α γ}

theorem pure {x : β} (h : P x) : (Pure.pure x : Search α β).StaysWithin I P := h

theorem bind (hs : s.StaysWithin I P) (hf : ∀ x, P x → (f x).StaysWithin I Q) :
    (s >>= f).StaysWithin I Q := by
  induction s with
  | done x => exact hf x hs
  | fail fault => trivial
  | askValue theta next ih => exact ⟨hs.1, fun a => ih a (hs.2 a)⟩
  | askGradient theta next ih => exact ⟨hs.1, fun a ha => ih a (hs.2 a ha)⟩

theorem attempt (hs : s.StaysWithin I P) :
    s.attempt.StaysWithin I fun r => ∀ x, r = .ok x → P x := by
  induction s with
  | done x => exact fun _ h => Except.ok.inj h ▸ hs
  | fail fault => exact fun _ h => nomatch h
  | askValue theta next ih => exact ⟨hs.1, fun a => ih a (hs.2 a)⟩
  | askGradient theta next ih => exact ⟨hs.1, fun a ha => ih a (hs.2 a ha)⟩

theorem ite {p : Prop} [Decidable p] {t : Search α β} (hs : s.StaysWithin I P)
    (ht : t.StaysWithin I P) : (if p then s else t).StaysWithin I P := by
  split
  · exact hs
  · exact ht

theorem value {theta : List α} (h : I theta) :
    (Search.value theta : Search α α).StaysWithin I fun _ => True := by
  refine ⟨h, fun answer => ?_⟩
  cases answer <;> trivial

theorem gradient {theta : List α} (h : I theta) :
    (Search.gradient theta : Search α (List α)).StaysWithin I
      fun g => g.length = theta.length := by
  refine ⟨h, fun answer ha => ?_⟩
  cases answer with
  | ok g => exact ha g rfl
  | error fault => trivial

theorem mapM {l : List β} {f : β → Search α γ} (h : ∀ x ∈ l, (f x).StaysWithin I Q) :
    (l.mapM f).StaysWithin I fun ys => ys.length = l.length ∧ ∀ y ∈ ys, Q y := by
  induction l with
  | nil => exact ⟨rfl, fun y hy => nomatch hy⟩
  | cons x l ih =>
    rw [List.mapM_cons]
    refine (h x List.mem_cons_self).bind fun y hy => ?_
    refine (ih fun z hz => h z (List.mem_cons_of_mem x hz)).bind fun ys hys => ?_
    refine pure ⟨by simp [hys.1], fun z hz => ?_⟩
    rcases List.mem_cons.mp hz with rfl | hz
    · exact hy
    · exact hys.2 z hz

end StaysWithin
end Search

/-! ## Solvers -/

variable {S : Type} [Scalar α]

/-- A solver whose states keep a property under which its points have `n` coordinates. -/
structure Solver.StaysIn (n : Nat) (I : S → Prop) (solver : Solver α S) : Prop where
  start : solver.start.StaysIn n I
  current : ∀ s, I s → (solver.current s).theta.length = n
  step : ∀ made s, I s → (solver.step made s).StaysIn n fun r => I r.1

namespace Solver

variable {n : Nat} {I : S → Prop} {solver : Solver α S}

theorem length_better {kept new : Candidate α} (hk : kept.theta.length = n)
    (hn : new.theta.length = n) : (better kept new).theta.length = n := by
  unfold better
  split
  · exact hn
  · exact hk

theorem StaysIn.steps (h : solver.StaysIn n I) :
    ∀ {left made : Nat} {s : S} {best : Candidate α}, I s → best.theta.length = n →
      (solver.steps left made s best).StaysIn n fun outcome => outcome.theta.length = n
  | left, made, s, best, hs, hbest => by
    unfold Solver.steps
    refine Search.StaysWithin.ite hbest ?_
    cases left with
    | zero => exact hbest
    | succ left =>
      refine Search.StaysWithin.ite hbest ((h.step made s hs).bind fun (next, stopped) hnext => ?_)
      have hbetter := length_better hbest (h.current next hnext)
      cases stopped with
      | some status => exact hbetter
      | none => exact h.steps hnext hbetter

/-- **A solver stays in a space if each of its steps does.** -/
theorem StaysIn.run (h : solver.StaysIn n I) (limit : Nat) :
    (solver.run limit).StaysIn n fun outcome => outcome.theta.length = n := by
  refine h.start.bind fun s hs => (h.steps hs (h.current s hs)).bind fun outcome houtcome => ?_
  cases checkSolverPoint (some outcome.theta) with
  | ok theta => exact houtcome
  | error e => trivial

end Solver
end FitSession
