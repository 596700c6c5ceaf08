import FitSession.Minimizer.LineSearch

/-!
# The Moré–Thuente line search

A safeguarded search for a step with sufficient decrease and a small slope. It keeps the best step
`best`, the other end `other` of an interval of uncertainty, and the current trial, and chooses the
next trial from cubic and quadratic models of the ends.

* `Bracket`, `Proposal`: the interval and what a model step makes of it;
* `cubicScale`, `proposeAbove`, `proposeOpposite`, `proposeFlatter`, `proposeSteeper`: the four
  cases of a model step;
* `Bracket.advance`: one safeguarded model step;
* `moreThuente`: the search.
-/

namespace FitSession
namespace MoreThuente

/-- The steps around a minimum along a ray. -/
structure Bracket (α : Type) where
  best : Trial α
  other : Trial α
  trial : Trial α
  bracketed : Bool

/-- A proposed step; `bounded` asks to keep it from the far end of the interval. -/
structure Proposal (α : Type) where
  step : α
  bounded : Bool
  bracketed : Bool

variable {α : Type} [Scalar α]

/-- Fraction of the slope that the decrease must reach. -/
def decreaseFraction : α := 1e-4

/-- Fraction of the slope at the start that may remain. -/
def slopeFraction : α := 0.9

/-- Relative width at which an interval is not divided further. -/
def widthTolerance : α := 1e-10

/-- The least step. -/
def leastStep : α := 1 / 67108864

/-- The search's name in a fault. -/
def plainName : String := "MoreThuenteLineSearch"

/-- The search's name in a fault, marked as a name. -/
def markedName : String := "`" ++ plainName ++ "`"

/-- The largest of three numbers, which must all be finite; the fault otherwise starts with
`name`. -/
def cubicScale (name : String) (a b c : α) : Search α α :=
  if Scalar.isFinite a && Scalar.isFinite b && Scalar.isFinite c then
    pure (Scalar.maxNum (Scalar.maxNum a b) c)
  else .fail (.conditionViolated (name ++ ": NaN or Inf encountered during iteration"))

/-- The slope term of the cubic through two trials. -/
def cubicTheta (a b : Trial α) : α := 3 * (a.f - b.f) / (b.x - a.x) + a.g + b.g

/-- What stands under the root of the cubic's minimum, in units of the scale. -/
def cubicRadicand (theta s a b : α) : α := theta / s * (theta / s) - a / s * (b / s)

/-- The step of the secant through the slopes of two trials. -/
def secantStep (from_ to_ : Trial α) : α :=
  from_.x + from_.g / (from_.g - to_.g) * (to_.x - from_.x)

/-- The trial is higher than the best step: the cubic step if it is nearer to the best step than
the quadratic one, else halfway between them. -/
def proposeAbove (b : Bracket α) : Search α (Proposal α) := do
  let stx := b.best
  let stp := b.trial
  let theta := cubicTheta stx stp
  let s ← cubicScale plainName theta stx.g stp.g
  let root := s * Scalar.sqrt (cubicRadicand theta s stx.g stp.g)
  let gamma := if stp.x < stx.x then -root else root
  let p := gamma - stx.g + theta
  let q := gamma - stx.g + gamma + stp.g
  let cubic := stx.x + p / q * (stp.x - stx.x)
  let quadratic :=
    stx.x + stx.g / ((stx.f - stp.f) / (stp.x - stx.x) + stx.g) / 2 * (stp.x - stx.x)
  let step :=
    if Scalar.abs (cubic - stx.x) < Scalar.abs (quadratic - stx.x) then cubic
    else cubic + (quadratic - cubic) / 2
  pure ⟨step, true, true⟩

/-- The slopes point against each other: the step farther from the trial. -/
def proposeOpposite (b : Bracket α) : Search α (Proposal α) := do
  let stx := b.best
  let stp := b.trial
  let theta := cubicTheta stx stp
  let s ← cubicScale markedName theta stx.g stp.g
  let root := s * Scalar.sqrt (cubicRadicand theta s stx.g stp.g)
  let gamma := if stx.x < stp.x then -root else root
  let p := gamma - stp.g + theta
  let q := gamma - stp.g + gamma + stx.g
  let cubic := stp.x + p / q * (stx.x - stp.x)
  let secant := secantStep stp stx
  let step :=
    if Scalar.abs (secant - stp.x) < Scalar.abs (cubic - stp.x) then cubic else secant
  pure ⟨step, false, true⟩

/-- The slope keeps its sign and becomes smaller: the nearer step within an interval, else the
farther one. -/
def proposeFlatter (b : Bracket α) (least greatest : α) : Search α (Proposal α) := do
  let stx := b.best
  let stp := b.trial
  let theta := cubicTheta stx stp
  let s ← cubicScale markedName theta stx.g stp.g
  let root := s * Scalar.sqrt (Scalar.maxNum 0 (cubicRadicand theta s stx.g stp.g))
  let gamma := if stx.x < stp.x then -root else root
  let p := gamma - stp.g + theta
  let q := gamma + (stx.g - stp.g) + gamma
  let r := p / q
  let cubic :=
    if r < 0 && !(gamma == 0) then stp.x + r * (stx.x - stp.x)
    else if stx.x < stp.x then greatest else least
  let secant := secantStep stp stx
  let toCubic := Scalar.abs (stp.x - cubic)
  let toSecant := Scalar.abs (stp.x - secant)
  let useCubic := if b.bracketed then decide (toCubic < toSecant) else decide (toSecant < toCubic)
  pure ⟨if useCubic then cubic else secant, true, b.bracketed⟩

/-- The slope keeps its sign and becomes no smaller: the cubic step towards the other end, or as
far as allowed without one. -/
def proposeSteeper (b : Bracket α) (least greatest : α) : Search α (Proposal α) := do
  let stp := b.trial
  if b.bracketed then
    let sty := b.other
    let theta := 3 * (stp.f - sty.f) / (sty.x - stp.x) + sty.g + stp.g
    let s ← cubicScale markedName theta sty.g stp.g
    let root := s * Scalar.sqrt (cubicRadicand theta s sty.g stp.g)
    let gamma := if sty.x < stp.x then -root else root
    let p := gamma - stp.g + theta
    let q := gamma - stp.g + gamma + sty.g
    pure ⟨stp.x + p / q * (sty.x - stp.x), false, true⟩
  else pure ⟨if b.best.x < stp.x then greatest else least, false, false⟩

namespace Bracket

/-- Whether no model step can be made: the trial has left the interval, does not go downhill, or
the allowed range is empty. -/
def isStuck (b : Bracket α) (least greatest : α) : Bool :=
  let lo := Scalar.minNum b.best.x b.other.x
  let hi := Scalar.maxNum b.best.x b.other.x
  (b.bracketed && (decide (b.trial.x ≤ lo) || decide (hi ≤ b.trial.x)))
    || decide (0 ≤ b.best.g * (b.trial.x - b.best.x)) || decide (greatest < least)

/-- One model step within `[least, greatest]`; nothing if none can be made. -/
def advance (b : Bracket α) (least greatest : α) : Search α (Option (Bracket α)) := do
  if b.isStuck least greatest then pure none
  else
    let stx := b.best
    let stp := b.trial
    let sign := stp.g * (stx.g / Scalar.abs stx.g)
    let proposal ←
      if stx.f < stp.f then proposeAbove b
      else if sign < 0 then proposeOpposite b
      else if Scalar.abs stp.g < Scalar.abs stx.g then proposeFlatter b least greatest
      else proposeSteeper b least greatest
    let (best, other) :=
      if stx.f < stp.f then (stx, stp)
      else if sign < 0 then (stp, stx)
      else (stp, b.other)
    let step := Scalar.maxNum least (Scalar.minNum greatest proposal.step)
    let far := best.x + 0.66 * (other.x - best.x)
    let step :=
      if proposal.bracketed && proposal.bounded then
        if best.x < other.x then Scalar.minNum far step else Scalar.maxNum far step
      else step
    pure (some ⟨best, other, { stp with x := step }, proposal.bracketed⟩)

end Bracket

/-- The state of a search. -/
structure State (α : Type) where
  bracket : Bracket α
  /-- The decrease has not been sufficient yet. -/
  firstStage : Bool
  /-- The last model step could be made. -/
  moving : Bool
  width : α
  widthBefore : α

/-- The trial, its range, and what the objective says there. -/
structure Probe (α : Type) where
  least : α
  greatest : α
  x : α
  f : α
  g : α

/-- The range of the next trial. -/
def trialRange (b : Bracket α) : α × α :=
  if b.bracketed then
    (Scalar.minNum b.best.x b.other.x, Scalar.maxNum b.best.x b.other.x)
  else (b.best.x, b.trial.x + 4 * (b.trial.x - b.best.x))

/-- The step that is tried: within the bounds of steps, or the best one when the interval cannot be
divided further. -/
def trialStep (s : State α) (least greatest : α) : α :=
  let x := Scalar.minNum (Scalar.maxNum s.bracket.trial.x leastStep) Scalar.inf
  let exhausted := s.bracket.bracketed
    && (decide (x ≤ least) || decide (greatest ≤ x)
      || decide (greatest - least ≤ widthTolerance * greatest))
  if exhausted || !s.moving then s.bracket.best.x else x

/-- Whether the search ends at a probe. `f0` and `slope` belong to the start. -/
def isFinal (s : State α) (p : Probe α) (f0 slope : α) : Bool :=
  let needed := decreaseFraction * slope
  let bound := f0 + p.x * needed
  let bracketed := s.bracket.bracketed
  (bracketed && (decide (p.x ≤ p.least) || decide (p.greatest ≤ p.x))) || !s.moving
    || (decide (Scalar.abs (p.x - Scalar.inf) < Scalar.epsilon) && decide (p.f ≤ bound)
      && decide (p.g ≤ needed))
    || (decide (Scalar.abs (p.x - leastStep) < Scalar.epsilon)
      && (decide (bound < p.f) || decide (needed ≤ p.g)))
    || (bracketed && decide (p.greatest - p.least ≤ widthTolerance * p.greatest))
    || (decide (p.f ≤ bound) && decide (Scalar.abs p.g ≤ slopeFraction * (-slope)))

/-- A trial of the objective less the required decrease. -/
def lowered (needed : α) (t : Trial α) : Trial α := ⟨t.x, t.f - t.x * needed, t.g - needed⟩

/-- The interval after a model step at a probe. While the decrease is not sufficient the step is
made on the lowered objective. -/
def updated (s : State α) (p : Probe α) (firstStage : Bool) (f0 slope : α) :
    Search α (Option (Bracket α)) := do
  let b := s.bracket
  let needed := decreaseFraction * slope
  let bound := f0 + p.x * needed
  let here : Trial α := ⟨p.x, p.f, p.g⟩
  if firstStage && decide (p.f ≤ b.trial.f) && decide (bound < p.f) then
    let low : Bracket α :=
      ⟨lowered needed b.best, lowered needed b.other, lowered needed here, b.bracketed⟩
    let raise (old new : Trial α) : Trial α :=
      ⟨new.x, old.f + new.x * needed, old.g + needed⟩
    match ← low.advance p.least p.greatest with
    | some n => pure (some ⟨raise b.best n.best, raise b.other n.other, n.trial, n.bracketed⟩)
    | none => pure none
  else
    let plain : Bracket α := { b with trial := here }
    plain.advance p.least p.greatest

/-- The interval shortened by bisection if it has not shrunk enough in two steps. -/
def shortened (s : State α) (b : Bracket α) (firstStage moving : Bool) : State α :=
  if b.bracketed then
    let width := Scalar.abs (b.other.x - b.best.x)
    let x :=
      if 0.66 * s.widthBefore ≤ width then b.best.x + 0.5 * (b.other.x - b.best.x)
      else b.trial.x
    ⟨{ b with trial := { b.trial with x } }, firstStage, moving, width, s.width⟩
  else ⟨b, firstStage, moving, s.width, s.widthBefore⟩

/-- The probes from a state on, as many as the first argument allows. -/
def probes (ray : Ray α) (slope : α) : Nat → State α → Search α (LinePoint α)
  | 0, s => do
    let f ← ray.costAt s.bracket.best.x
    pure ⟨ray.point s.bracket.best.x, f⟩
  | fuel + 1, s => do
    let (least, greatest) := trialRange s.bracket
    let x := trialStep s least greatest
    let here ← ray.trial x
    let probe : Probe α := ⟨least, greatest, x, here.f, here.g⟩
    if isFinal s probe ray.cost slope then pure ⟨ray.point x, here.f⟩
    else
      let bound := ray.cost + x * (decreaseFraction * slope)
      let reached := decide (here.f ≤ bound)
        && decide (Scalar.minNum decreaseFraction slopeFraction * slope ≤ here.g)
      let firstStage := s.firstStage && !reached
      match ← updated s probe firstStage ray.cost slope with
      | some b => probes ray slope fuel (shortened s b firstStage true)
      | none =>
        let b := { s.bracket with trial := here }
        probes ray slope fuel (shortened s b firstStage false)

end MoreThuente

/-- The search along a ray, which must go downhill. -/
def moreThuente {α : Type} [Scalar α] (ray : Ray α) : Search α (LinePoint α) := do
  let slope := ray.slope
  if 0 ≤ slope then
    .fail (.conditionViolated
      (MoreThuente.markedName ++ ": Search direction must be a descent direction."))
  else
    let start : Trial α := ⟨0, ray.cost, slope⟩
    let bracket : MoreThuente.Bracket α := ⟨start, start, ⟨1, Scalar.nan, Scalar.nan⟩, false⟩
    let width := Scalar.inf - MoreThuente.leastStep
    MoreThuente.probes ray slope lineSearchLimit ⟨bracket, true, true, width, 2 * width⟩

end FitSession
