import FitSession.Engine.QuasiNewton
import FitSession.Proofs.Bench

/-!
# Searches on profiles

Intervals and contours only touch the bench through minimizations: what every minimization keeps,
they keep.

* `keeps_profileInterval`: **an interval keeps what a minimization keeps**;
* `keeps_profileContour`: so does a contour line.
-/

namespace FitSession

variable {σ α : Type} [Scalar α] {R : Bench σ α → Bench σ α → Prop} [Chains R]

/-! ## Intervals -/

theorem keeps_searchCrossing {rise : α → Run σ α α} (h : ∀ t, Keeps R (rise t))
    (goal : CrossingGoal α) :
    ∀ fuel fence offset, Keeps R (searchCrossing rise goal fuel fence offset)
  | 0, _, offset => Keeps.pure (Crossing.invalid offset)
  | fuel + 1, fence, offset => by
    refine (h offset).bind fun df => Keeps.get_bind fun b => ?_
    refine Keeps.ite (Keeps.pure _) (Keeps.ite (Keeps.pure _) (Keeps.ite (Keeps.pure _) ?_))
    refine Keeps.ite (Keeps.pure _) (Keeps.ite (Keeps.pure _) ?_)
    exact keeps_searchCrossing h goal fuel _ _

variable {fit : Fit σ α} (hfit : ∀ cost state o, Keeps R (fit cost state o))
include hfit

theorem keeps_crossingAt (cost : Cost α) (m : FunctionMinimum α) (index : Nat) (sign : α)
    (o : EngineOptions α) (limit : Nat) : Keeps R (crossingAt fit cost m index sign o limit) := by
  refine Keeps.get_bind fun b => ?_
  cases m.state.entry? index with
  | none => exact Keeps.pure _
  | some entry =>
    refine (keeps_runOfExcept _).bind fun pinned => keeps_searchCrossing (fun offset => ?_) _ _ _ _
    exact (keeps_runOfExcept _).bind fun state => (hfit _ _ _).bind fun m => Keeps.pure _

/-- An interval keeps what a minimization keeps. -/
theorem keeps_profileInterval (cost : Cost α) (m : FunctionMinimum α) (index : Nat)
    (o : EngineOptions α) : Keeps R (profileInterval fit cost m index o) := by
  refine Keeps.get_bind fun before => (keeps_runOfExcept _).bind fun entry => ?_
  refine (keeps_crossingAt hfit cost m index _ o _).bind fun lo => Keeps.get_bind fun between => ?_
  exact (keeps_crossingAt hfit cost m index _ o _).bind fun hi =>
    Keeps.get_bind fun b => Keeps.pure _

/-! ## Contour lines -/

omit hfit in
theorem keeps_searchRay {rise : α → Run σ α α} (h : ∀ t, Keeps R (rise t)) (up room : α) :
    ∀ fuel fence t, Keeps R (searchRay rise up room fuel fence t)
  | 0, _, _ => Keeps.pure none
  | fuel + 1, fence, t => by
    refine (h t).bind fun df => Keeps.ite (Keeps.pure _) (Keeps.ite (Keeps.pure _) ?_)
    exact keeps_searchRay h up room fuel _ _

theorem keeps_contourPoints (cost : Cost α) (m : FunctionMinimum α) (ix iy count : Nat)
    (o : EngineOptions α) : Keeps R (contourPoints fit cost m ix iy count o) := by
  unfold contourPoints
  split
  · refine Keeps.get_bind fun b => (keeps_runOfExcept _).bind fun first => ?_
    refine (keeps_runOfExcept _).bind fun pinned => ?_
    refine (Keeps.mapM (fun h => ?_) _).bind fun found => Keeps.pure _
    refine (keeps_searchRay (fun t => ?_) _ _ _ _ _).bind fun t => Keeps.pure _
    refine (keeps_runOfExcept _).bind fun atX => (keeps_runOfExcept _).bind fun state => ?_
    exact (hfit _ _ _).bind fun m => Keeps.pure _
  · exact Keeps.pure _

/-- A contour line keeps what a minimization keeps. -/
theorem keeps_profileContour (cost : Cost α) (m : FunctionMinimum α) (ix iy count : Nat)
    (o : EngineOptions α) : Keeps R (profileContour fit cost m ix iy count o) :=
  (keeps_runOfExcept _).bind fun _ => (keeps_runOfExcept _).bind fun _ =>
    keeps_contourPoints hfit cost m ix iy count o

end FitSession
