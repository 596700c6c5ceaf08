import FitSession.Minimizer.Iteration

/-!
# The simplex method

A minimization without gradients. The vertices of a simplex are kept in the order of their costs;
the worst one is reflected through the centre of the others, further or less far as it pays, and
when nothing pays the simplex shrinks towards its best vertex.

* `Simplex.spread`, `Simplex.hasSettled`: how different the costs of the vertices are;
* `Simplex.Move`, `Simplex.move`: the trials of one step and what becomes of the worst vertex;
* `Simplex.solver`, `Simplex.vertices`: the solver, and the simplex spanned by steps.
-/

namespace FitSession
namespace Simplex

variable {α : Type} [Scalar α]

/-- The candidates in ascending order of their costs; candidates of equal cost keep their order. -/
def sorted (candidates : List (Candidate α)) : List (Candidate α) :=
  candidates.mergeSort fun a b => !decide (b.cost < a.cost)

/-- The candidates at a list of points. -/
def evaluate (points : List (List α)) : Search α (List (Candidate α)) :=
  points.mapM fun theta => do
    let cost ← Search.value theta
    pure ⟨theta, cost⟩

/-- The sample standard deviation of the costs. -/
def spread (candidates : List (Candidate α)) : α :=
  let n : α := Scalar.ofCount candidates.length
  let mean := Scalar.sum (candidates.map (·.cost)) / n
  let squares := candidates.map fun c => (c.cost - mean) * (c.cost - mean)
  Scalar.sqrt (1 / (n - 1) * Scalar.sum squares)

/-- Whether the costs are as good as equal. -/
def hasSettled (tolerance : α) (candidates : List (Candidate α)) : Bool :=
  decide (spread candidates < tolerance)

/-- The centre of a list of candidates. -/
def centre : List (Candidate α) → List α
  | [] => []
  | first :: rest =>
    let total := rest.foldl (fun acc c => Scalar.addVec acc c.theta) first.theta
    Scalar.scaleVec (1 / Scalar.ofCount (rest.length + 1)) total

/-- The point at the fraction `c` of the way from `a` to `b`. -/
def along (a b : List α) (c : α) : List α :=
  Scalar.addVec a (Scalar.scaleVec c (Scalar.subVec b a))

/-- The reflection of `b` through `a`. -/
def reflection (a b : List α) : List α := Scalar.addVec a (Scalar.subVec a b)

/-- What becomes of the worst vertex. -/
inductive Move (α : Type)
  | replace (by_ : Candidate α)
  | shrink

/-- The trial at a point. -/
def trial (theta : List α) : Search α (Candidate α) := do
  let cost ← Search.value theta
  pure ⟨theta, cost⟩

/-- The trials of one step for the best cost, the second worst cost, the worst candidate and the
centre of all others. -/
def move (best second : α) (worst : Candidate α) (centre : List α) : Search α (Move α) := do
  let reflected ← trial (reflection centre worst.theta)
  if reflected.cost < second && best ≤ reflected.cost then pure (.replace reflected)
  else if reflected.cost < best then
    let expanded ← trial (along centre reflected.theta 2)
    pure (.replace (if expanded.cost < reflected.cost then expanded else reflected))
  else if reflected.cost < worst.cost then
    let contracted ← trial (along centre reflected.theta 0.5)
    pure (if contracted.cost ≤ reflected.cost then .replace contracted else .shrink)
  else
    let contracted ← trial (along centre worst.theta 0.5)
    pure (if contracted.cost < worst.cost then .replace contracted else .shrink)

/-- All candidates but the first moved halfway towards it. -/
def shrunk : List (Candidate α) → Search α (List (Candidate α))
  | [] => pure []
  | best :: rest => do
    let moved ← evaluate (rest.map fun c => along best.theta c.theta 0.5)
    pure (best :: moved)

/-- One step of the simplex. -/
def advance (candidates : List (Candidate α)) : Search α (List (Candidate α)) := do
  let others := candidates.dropLast
  match candidates.head?, others.getLast?, candidates.getLast? with
  | some best, some second, some worst =>
    match ← move best.cost second.cost worst (centre others) with
    | .replace c => pure (sorted (others ++ [c]))
    | .shrink => do
      let moved ← shrunk candidates
      pure (sorted moved)
  | _, _, _ => pure candidates

/-- The simplex spanned by a point and one step along each axis. -/
def vertices (theta steps : List α) : List (List α) :=
  theta :: steps.zipIdx.map fun (step, k) => theta.modify k (· + step)

/-- The solver from a list of vertices. It has settled when the costs are as good as equal. -/
def solver (tolerance : α) (vertices : List (List α)) : Solver α (List (Candidate α)) where
  start := do
    let candidates ← evaluate vertices
    pure (sorted candidates)
  current candidates := candidates.head?.getD ⟨[], Scalar.inf⟩
  hasConverged := hasSettled tolerance
  step _ candidates := do
    let next ← advance candidates
    pure (next, none)

end Simplex
end FitSession
