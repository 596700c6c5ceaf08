import FitSession.Minimizer.LineSearch

/-!
# The Hager–Zhang line search

A bracketing search with an approximate Wolfe condition. An interval whose lower end goes downhill
and whose upper end does not is narrowed by secant steps from both ends, and by bisection when the
secants do not shrink it enough.

* `Range`, `Goal`: the interval, and what an acceptable step must fulfil;
* `secant`, `bisected`, `narrowed`, `doubleSecant`: the steps on an interval;
* `hagerZhang`: the search.
-/

namespace FitSession
namespace HagerZhang

/-- The interval between two trials. -/
structure Range (α : Type) where
  lower : Trial α
  upper : Trial α

/-- The start of a search: cost and slope, and the rise of the cost that is still tolerated. -/
structure Goal (α : Type) where
  cost : α
  slope : α
  slack : α

variable {α : Type} [Scalar α]

/-- Fraction of the slope that the decrease must reach. -/
def decreaseFraction : α := 0.1

/-- Fraction of the slope at the start that may remain. -/
def slopeFraction : α := 0.9

/-- The tolerated rise, in units of the cost at the start. -/
def slackFraction : α := 1e-6

/-- How far a bisection goes from the lower end. -/
def bisectionPoint : α := 0.5

/-- The share of an interval's width that secant steps must not exceed. -/
def shrinkFraction : α := 0.66

namespace Goal

/-- The goal of a search along a ray. -/
def ofRay (ray : Ray α) : Goal α := ⟨ray.cost, ray.slope, slackFraction * Scalar.abs ray.cost⟩

/-- The greatest cost that a step downhill may have and still become a lower end. -/
def ceiling (goal : Goal α) : α := goal.cost + goal.slack

/-- Whether a step is acceptable: by both conditions of Wolfe, or by their approximations. -/
def isMetBy (goal : Goal α) (t : Trial α) : Bool :=
  let strict := decide (t.f - goal.cost ≤ decreaseFraction * t.x * goal.slope)
    && decide (slopeFraction * goal.slope ≤ t.g)
  let approximate := decide (t.g ≤ (2 * decreaseFraction - 1) * goal.slope)
    && decide (slopeFraction * goal.slope ≤ t.g) && decide (t.f ≤ goal.ceiling)
  strict || approximate

end Goal

/-- Where the line through two slopes meets zero. -/
def secant (a b : Trial α) : α := (a.x * b.g - b.x * a.g) / (b.g - a.g)

/-- The upper end replaced by bisection until the slope there does not go downhill. -/
def bisected (ray : Ray α) (goal : Goal α) : Nat → Range α → Search α (Range α)
  | 0, r => pure r
  | fuel + 1, r => do
    let d ← ray.trial ((1 - bisectionPoint) * r.lower.x + bisectionPoint * r.upper.x)
    if 0 ≤ d.g then pure ⟨r.lower, d⟩
    else if d.g < 0 && d.f ≤ goal.ceiling then bisected ray goal fuel ⟨d, r.upper⟩
    else if d.g < 0 && goal.ceiling < d.f then bisected ray goal fuel ⟨r.lower, d⟩
    else bisected ray goal fuel r

/-- The interval narrowed by the step `c`; a step outside the interval is tried, but changes
nothing. A slope that goes neither uphill nor downhill, since it is not a number, has no place in
the interval. -/
def narrowed (ray : Ray α) (goal : Goal α) (r : Range α) (c : α) : Search α (Range α) := do
  let t ← ray.trial c
  if c ≤ r.lower.x || r.upper.x ≤ c then pure r
  else if 0 ≤ t.g then pure ⟨r.lower, t⟩
  else if t.g < 0 && t.f ≤ goal.ceiling then pure ⟨t, r.upper⟩
  else if t.g < 0 && goal.ceiling < t.f then bisected ray goal lineSearchLimit ⟨r.lower, t⟩
  else
    .fail (.potentialBug "`HagerZhangLineSearch`: Reached unreachable point in `update` method.")

/-- The interval narrowed by a secant step, and by a second one from the end that it replaced. -/
def doubleSecant (ray : Ray α) (goal : Goal α) (r : Range α) : Search α (Range α) := do
  let c := secant r.lower r.upper
  let s ← narrowed ray goal r c
  let atUpper := decide (Scalar.abs (c - s.upper.x) < Scalar.epsilon)
  let atLower := decide (Scalar.abs (c - s.lower.x) < Scalar.epsilon)
  if atLower then narrowed ray goal s (secant r.lower s.lower)
  else if atUpper then narrowed ray goal s (secant r.upper s.upper)
  else pure s

/-- The trial with the least cost; of equal ones the last. -/
def leastTrial (a b c : Trial α) : Trial α :=
  if c.f ≤ a.f && c.f ≤ b.f then c
  else if b.f ≤ a.f && b.f ≤ c.f then b
  else a

/-- One step on an interval. -/
def shrunk (ray : Ray α) (goal : Goal α) (r : Range α) : Search α (Range α) := do
  let s ← doubleSecant ray goal r
  if shrinkFraction * (r.upper.x - r.lower.x) < s.upper.x - s.lower.x then
    narrowed ray goal s ((s.lower.x + s.upper.x) / 2)
  else pure s

/-- The steps from an interval on, until a trial is acceptable. The trial `first` stays in the
choice throughout. -/
def settle (ray : Ray α) (goal : Goal α) (first : Trial α) :
    Nat → Range α → Search α (LinePoint α)
  | 0, r =>
    let t := leastTrial r.lower r.upper first
    pure ⟨ray.point t.x, t.f⟩
  | fuel + 1, r => do
    let t := leastTrial r.lower r.upper first
    if goal.isMetBy t then pure ⟨ray.point t.x, t.f⟩
    else settle ray goal first fuel (← shrunk ray goal r)

end HagerZhang

/-- The search along a ray. -/
def hagerZhang {α : Type} [Scalar α] (ray : Ray α) : Search α (LinePoint α) := do
  let lower ← ray.trial Scalar.epsilon
  let upper ← ray.trial 1e5
  let first ← ray.trial 1
  HagerZhang.settle ray (.ofRay ray) first lineSearchLimit ⟨lower, upper⟩

end FitSession
