import FitSession.Minimizer.LineSearch.HagerZhang
import FitSession.Minimizer.LineSearch.MoreThuente
import FitSession.Proofs.Minimizer.Search

/-!
# The dimension of line searches

A line search only asks at points of its ray, and ends at one of them.

* `Ray.IsIn`, `Ray.length_point`: rays in a space of `n` coordinates and their points;
* `FindsIn`: line searches that stay in the space of their ray;
* `moreThuente_findsIn`, `hagerZhang_findsIn`: **both line searches do**.
-/

namespace FitSession

variable {α : Type} [Scalar α] {n : Nat}

namespace Scalar

@[simp] theorem length_addVec (xs ys : List α) :
    (addVec xs ys).length = min xs.length ys.length := List.length_zipWith

@[simp] theorem length_subVec (xs ys : List α) :
    (subVec xs ys).length = min xs.length ys.length := List.length_zipWith

@[simp] theorem length_scaleVec (c : α) (xs : List α) :
    (scaleVec c xs).length = xs.length := List.length_map _

end Scalar

/-! ## Rays -/

omit [Scalar α] in
/-- A ray in a space of `n` coordinates. -/
structure Ray.IsIn (n : Nat) (ray : Ray α) : Prop where
  origin : ray.origin.length = n
  direction : ray.direction.length = n

/-- The search stays in the space of its ray and ends at a point of it. -/
def FindsIn (n : Nat) (search : Ray α → Search α (LinePoint α)) : Prop :=
  ∀ ray, ray.IsIn n → (search ray).StaysIn n fun found => found.theta.length = n

namespace Ray

variable {ray : Ray α}

theorem length_point (h : ray.IsIn n) (x : α) : (ray.point x).length = n := by
  simp [point, h.origin, h.direction]

theorem staysIn_costAt (h : ray.IsIn n) (x : α) : (ray.costAt x).StaysIn n fun _ => True :=
  Search.StaysWithin.value (length_point h x)

theorem staysIn_trial (h : ray.IsIn n) (x : α) : (ray.trial x).StaysIn n fun _ => True := by
  refine (staysIn_costAt h x).bind fun f _ => ?_
  refine Search.StaysWithin.bind (P := fun _ => True) ?_ fun g _ => trivial
  exact (Search.StaysWithin.gradient (length_point h x)).bind fun g _ => trivial

end Ray

/-! ## Moré and Thuente -/

namespace MoreThuente

theorem staysIn_cubicScale (name : String) (a b c : α) :
    (cubicScale name a b c).StaysIn n fun _ => True :=
  Search.StaysWithin.ite trivial trivial

theorem staysIn_proposeAbove (b : Bracket α) :
    (proposeAbove b).StaysIn n fun _ => True :=
  (staysIn_cubicScale _ _ _ _).bind fun _ _ => trivial

theorem staysIn_proposeOpposite (b : Bracket α) :
    (proposeOpposite b).StaysIn n fun _ => True :=
  (staysIn_cubicScale _ _ _ _).bind fun _ _ => trivial

theorem staysIn_proposeFlatter (b : Bracket α) (least greatest : α) :
    (proposeFlatter b least greatest).StaysIn n fun _ => True :=
  (staysIn_cubicScale _ _ _ _).bind fun _ _ => trivial

theorem staysIn_proposeSteeper (b : Bracket α) (least greatest : α) :
    (proposeSteeper b least greatest).StaysIn n fun _ => True :=
  Search.StaysWithin.ite ((staysIn_cubicScale _ _ _ _).bind fun _ _ => trivial) trivial

theorem staysIn_advance (b : Bracket α) (least greatest : α) :
    (b.advance least greatest).StaysIn n fun _ => True := by
  unfold Bracket.advance
  extract_lets stx stp sign finish
  -- every proposal is worked into the interval by the same last step
  have hfinish (proposal : Proposal α) : (finish proposal).StaysIn n fun _ => True := by
    unfold finish
    split
    trivial
  refine Search.StaysWithin.ite trivial (Search.StaysWithin.ite ?_ (Search.StaysWithin.ite ?_ ?_))
  · exact (staysIn_proposeAbove b).bind fun p _ => hfinish p
  · exact (staysIn_proposeOpposite b).bind fun p _ => hfinish p
  · exact Search.StaysWithin.ite ((staysIn_proposeFlatter b _ _).bind fun p _ => hfinish p)
      ((staysIn_proposeSteeper b _ _).bind fun p _ => hfinish p)

theorem staysIn_updated (s : State α) (p : Probe α) (firstStage : Bool) (f0 slope : α) :
    (updated s p firstStage f0 slope).StaysIn n fun _ => True := by
  refine Search.StaysWithin.ite ?_ (staysIn_advance _ _ _)
  refine (staysIn_advance _ _ _).bind fun found _ => ?_
  cases found <;> trivial

theorem staysIn_probes {ray : Ray α} (h : ray.IsIn n) (slope : α) :
    ∀ fuel s, (probes ray slope fuel s).StaysIn n fun found => found.theta.length = n
  | 0, s => (Ray.staysIn_costAt h _).bind fun _ _ => Ray.length_point h _
  | fuel + 1, s => by
    refine (Ray.staysIn_trial h _).bind fun here _ => ?_
    refine Search.StaysWithin.ite (Ray.length_point h _) ?_
    refine (staysIn_updated _ _ _ _ _).bind fun next _ => ?_
    cases next with
    | some b => exact staysIn_probes h slope fuel _
    | none => exact staysIn_probes h slope fuel _

end MoreThuente

/-- The line search of Moré and Thuente stays on its ray. -/
theorem moreThuente_findsIn : FindsIn n (moreThuente : Ray α → Search α (LinePoint α)) :=
  fun _ h => Search.StaysWithin.ite trivial (MoreThuente.staysIn_probes h _ _ _)

/-! ## Hager and Zhang -/

namespace HagerZhang

variable {ray : Ray α}

theorem staysIn_bisected (h : ray.IsIn n) (goal : Goal α) :
    ∀ fuel r, (bisected ray goal fuel r).StaysIn n fun _ => True
  | 0, _ => trivial
  | fuel + 1, r => by
    refine (Ray.staysIn_trial h _).bind fun d _ => Search.StaysWithin.ite trivial ?_
    refine Search.StaysWithin.ite (staysIn_bisected h goal fuel _) ?_
    exact Search.StaysWithin.ite (staysIn_bisected h goal fuel _) (staysIn_bisected h goal fuel _)

theorem staysIn_narrowed (h : ray.IsIn n) (goal : Goal α) (r : Range α) (c : α) :
    (narrowed ray goal r c).StaysIn n fun _ => True := by
  refine (Ray.staysIn_trial h _).bind fun t _ => Search.StaysWithin.ite trivial ?_
  refine Search.StaysWithin.ite trivial (Search.StaysWithin.ite trivial ?_)
  exact Search.StaysWithin.ite (staysIn_bisected h goal _ _) trivial

theorem staysIn_doubleSecant (h : ray.IsIn n) (goal : Goal α) (r : Range α) :
    (doubleSecant ray goal r).StaysIn n fun _ => True := by
  refine (staysIn_narrowed h goal _ _).bind fun s _ => ?_
  refine Search.StaysWithin.ite (staysIn_narrowed h goal _ _) ?_
  exact Search.StaysWithin.ite (staysIn_narrowed h goal _ _) trivial

theorem staysIn_shrunk (h : ray.IsIn n) (goal : Goal α) (r : Range α) :
    (shrunk ray goal r).StaysIn n fun _ => True :=
  (staysIn_doubleSecant h goal r).bind fun _ _ =>
    Search.StaysWithin.ite (staysIn_narrowed h goal _ _) trivial

theorem staysIn_settle (h : ray.IsIn n) (goal : Goal α) (first : Trial α) :
    ∀ fuel r, (settle ray goal first fuel r).StaysIn n fun found => found.theta.length = n
  | 0, _ => Ray.length_point h _
  | fuel + 1, r => Search.StaysWithin.ite (Ray.length_point h _)
    ((staysIn_shrunk h goal r).bind fun s _ => staysIn_settle h goal first fuel s)

end HagerZhang

/-- The line search of Hager and Zhang stays on its ray. -/
theorem hagerZhang_findsIn : FindsIn n (hagerZhang : Ray α → Search α (LinePoint α)) := by
  intro ray h
  refine (Ray.staysIn_trial h _).bind fun lower _ => (Ray.staysIn_trial h _).bind fun upper _ => ?_
  exact (Ray.staysIn_trial h _).bind fun first _ => HagerZhang.staysIn_settle h _ first _ _

end FitSession
