import FitSession.Cost

/-!
# Likelihoods

The negative logarithm of the likelihood of a sample under a density. A density below the least
normal number counts as that number.

* `Likelihood`, `Likelihood.value`: the sample, its density and the sum of the logarithms;
* `Likelihood.toCost`: the cost.
-/

namespace FitSession

/-- A sample and a density for it. -/
structure Likelihood (α : Type) where
  sample : List α
  names : List String
  density : α → List α → α

namespace Likelihood

variable {α : Type} [Scalar α]

/-- Minus the sum of the logarithms of the densities. -/
def value (c : Likelihood α) (args : List α) : Except (FitError α) α := do
  checkLength c.names.length args.length
  pure <| c.sample.foldl
    (fun total x => total - Scalar.log (Scalar.maxNum (c.density x args) Scalar.leastNormal)) 0

/-- The cost of the sample under the density. -/
def toCost (c : Likelihood α) : Cost α :=
  { Cost.ofFunction c.value with
    names := some c.names, errordef := some likelihoodErrordef }

end Likelihood
end FitSession
