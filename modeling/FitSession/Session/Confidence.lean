import FitSession.Derivative.Checks
import FitSession.Scalar

/-!
# Confidence levels

How many standard deviations hold a given share of a normal distribution around its mean: the root
of the quantile of the χ² distribution with one degree of freedom. Its distribution function is a
series near zero and a continued fraction elsewhere. The quantile is found from a bracket, which is
halved eight times, and four Newton steps from its middle. For a level so small that the first of
them leaves the positive axis, the result is not a number.

* `chiSquareSeries`, `chiSquareTail`, `chiSquareShare`: the share below a value;
* `chiSquareDensity`: its derivative;
* `chiSquareQuantile`: the value below which a share lies;
* `sigmaForConfidence`: the number of standard deviations that stands for a confidence level.
-/

namespace FitSession

variable {α : Type} [Scalar α]

/-- The logarithm of `√y e⁻ʸ / Γ(1/2)`. -/
def chiSquareScale (y : α) : α := 0.5 * Scalar.log y - y - 0.5 * Scalar.log Scalar.pi

/-- The sum `1 + y / r + y² / (r (r + 1)) + …` of at most the given number of terms behind `total`,
where `term` is the last one. -/
def chiSquareSeries (y : α) : Nat → α → α → α → α
  | 0, _, _, total => total
  | fuel + 1, r, term, total =>
    let next := term * (y / r)
    let sum := total + next
    if next / sum ≤ 1e-15 then sum else chiSquareSeries y fuel (r + 1) next sum

/-- Two neighbouring convergents of a continued fraction, each with numerator and denominator. -/
structure Convergents (α : Type) where
  p : α
  q : α
  before : α × α

/-- The convergents made smaller by one factor, once they are large. -/
def Convergents.scaled (c : Convergents α) : Convergents α :=
  if 4503599627370496 < Scalar.abs c.p then
    let f (x : α) : α := x * Scalar.epsilon
    ⟨f c.p, f c.q, f c.before.1, f c.before.2⟩
  else c

/-- The continued fraction for the share above a value, from its convergents on, in at most the
given number of steps; `k` counts the steps and `ratio` is the last quotient. -/
def chiSquareTail : Nat → α → α → α → Convergents α → α → α
  | 0, _, _, _, _, ratio => ratio
  | fuel + 1, k, y, z, c, ratio =>
    let yk := y * k
    let p := c.p * z - c.before.1 * yk
    let q := c.q * z - c.before.2 * yk
    let next := (Convergents.mk p q (c.p, c.q)).scaled
    if q == 0 then chiSquareTail fuel (k + 1) (y + 1) (z + 2) next ratio
    else
      let quotient := p / q
      if Scalar.abs ((ratio - quotient) / quotient) ≤ 1e-15 then quotient
      else chiSquareTail fuel (k + 1) (y + 1) (z + 2) next quotient

/-- The share of the χ² distribution below `x`. -/
def chiSquareShare (x : α) : α :=
  if x ≤ 0 then 0
  else if !Scalar.isFinite x && !Scalar.isNaN x then 1
  else
    let y := x * 0.5
    let scale := chiSquareScale y
    if scale < -709.782712893384 then 1
    else if y ≤ 1 then Scalar.exp scale * chiSquareSeries y 200 1.5 1 1 / 0.5
    else
      let z := y + 1.5
      let start : Convergents α := ⟨y + 1, z * y, 1, y⟩
      1 - Scalar.exp scale * chiSquareTail 1000 1 1.5 (z + 2) start (start.p / start.q)

/-- The density of the χ² distribution. -/
def chiSquareDensity (x : α) : α :=
  if x < 0 || (!Scalar.isFinite x && !Scalar.isNaN x) then 0
  else Scalar.exp (-(0.5 * x)) / Scalar.sqrt (Scalar.tau * x)

/-- Halves `low` until no more than the share `p` lies below it. -/
def lowerBracket (p : α) : Nat → α → α
  | 0, low => low
  | fuel + 1, low => if p < chiSquareShare low then lowerBracket p fuel (low / 2) else low

/-- Doubles `high` until no less than the share `p` lies below it. -/
def upperBracket (p : α) : Nat → α → α
  | 0, high => high
  | fuel + 1, high => if chiSquareShare high < p then upperBracket p fuel (high * 2) else high

/-- The middle of a bracket after halving it. -/
def halvedBracket (p : α) : Nat → α → α → α
  | 0, low, high => (high + low) / 2
  | n + 1, low, high =>
    let middle := (high + low) / 2
    if p ≤ chiSquareShare middle then halvedBracket p n low middle
    else halvedBracket p n middle high

/-- Newton steps, until one moves by less than `10⁻⁹`. -/
def newtonQuantile (p : α) : Nat → α → α
  | 0, x => x
  | n + 1, x =>
    let next := x - (chiSquareShare x - p) / chiSquareDensity x
    if Scalar.abs (next - x) ≤ 1e-9 then next else newtonQuantile p n next

/-- The value below which the share `p` of the χ² distribution lies. -/
def chiSquareQuantile (p : α) : α :=
  newtonQuantile p 4 (halvedBracket p 8 (lowerBracket p 1100 1) (upperBracket p 1100 2))

/-- The number of standard deviations for a confidence level; one that is not below 1 is already
such a number. -/
def sigmaForConfidence (level : α) : Except (FitError α) α :=
  if !isPositive level then .error (.configuration (.confidence level))
  else if 1 ≤ level then .ok level
  else .ok (Scalar.sqrt (chiSquareQuantile level))

end FitSession
