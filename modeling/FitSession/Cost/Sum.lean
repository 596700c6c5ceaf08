import FitSession.Cost.Union
import FitSession.Naming.Chain
import FitSession.Registry

/-!
# Sums of costs

Costs over overlapping sets of named parameters add up to one cost over the union of the names, in
the order in which they are first seen. Each term gets the arguments of its own names in its own
order. A sum put into a sum contributes its terms, so that the terms of a sum are never sums,
unless a sum is kept whole behind a pointer that is shared.

* `Term`, `Term.ofCost`: a cost with the names deduced for it;
* `CostSum`, `CostSum.rebuilt`: terms, the union of their names and the places of a term in it;
* `CostSum.value`, `CostSum.grad`, `CostSum.toCost`: the sum as a cost;
* `Addend`, `Addend.leaves`, `Pointer`: what is put into a sum, perhaps behind pointers;
* `CostSum.push`, `CostSum.append`, `Addend.add`: the ways to build a sum.
-/

namespace FitSession

/-- The first name that occurs earlier in the list. -/
def firstRepeated : List String → List String → Option String
  | _, [] => none
  | seen, name :: rest =>
    if name ∈ seen then some name else firstRepeated (name :: seen) rest

/-- A cost with the names deduced for its arguments. -/
structure Term (α : Type) where
  cost : Cost α
  names : List String
  deduced : NameChain.standard.deduce cost = .ok names
  distinct : firstRepeated [] names = none

/-- Terms, the union of their names and the places of each term in it, and a verbosity that
overrides those of the terms. -/
structure CostSum (α : Type) where
  terms : List (Term α)
  names : List String
  maps : List (List Nat)
  verbose : Option Nat
  union_eq : unionOf (terms.map (·.names)) = (names, maps)

variable {α : Type}

/-- A cost as a term; its names must be deducible and different. -/
def Term.ofCost (cost : Cost α) : Except (FitError α) (Term α) :=
  match deduced : NameChain.standard.deduce cost with
  | .error e => .error e
  | .ok names =>
    match distinct : firstRepeated [] names with
    | some name => .error (.configuration (.repeatedTermName name))
    | none => .ok ⟨cost, names, deduced, distinct⟩

namespace CostSum

/-- The sum of some terms. -/
def rebuilt (terms : List (Term α)) (verbose : Option Nat) : CostSum α where
  terms
  names := (unionOf (terms.map (·.names))).1
  maps := (unionOf (terms.map (·.names))).2
  verbose
  union_eq := rfl

/-- The sum without terms. -/
def empty : CostSum α := rebuilt [] none

/-- The places of the names of term `i` in the union. -/
def map? (s : CostSum α) (i : Nat) : Option (List Nat) := s.maps[i]?

/-- The costs that a sum consists of. -/
def leaves (s : CostSum α) : List (Cost α) := s.terms.map (·.cost)

/-- The costs of a sum, and what is left of it. -/
def giveUpTerms (s : CostSum α) : List (Cost α) × CostSum α := (s.leaves, rebuilt [] s.verbose)

/-- Whether every term has a gradient, and there is one. -/
def hasGrad (s : CostSum α) : Bool := !s.terms.isEmpty && s.terms.all (·.cost.hasGrad)

/-- The verbosity: its own, or the largest of the terms. -/
def verbosity (s : CostSum α) : Nat :=
  s.verbose.getD (s.terms.foldl (fun v t => max v t.cost.verbose) 0)

variable [Scalar α]

/-- The arguments at the given places. -/
def argumentsAt (args : List α) (places : List Nat) : List α :=
  places.map fun j => args[j]?.getD 0

/-- The errordef that all terms declare. -/
def errordef (s : CostSum α) : Option α :=
  match s.terms with
  | [] => none
  | first :: rest =>
    match first.cost.errordef with
    | none => none
    | some up =>
      let agrees (t : Term α) : Bool := match t.cost.errordef with
        | some x => x == up
        | none => false
      if rest.all agrees then some up else none

/-- A sum takes one argument for each name of the union. -/
def checkArguments (s : CostSum α) (args : List α) : Except (FitError α) Unit :=
  checkLength s.names.length args.length

/-- The sum of the answers of all terms, each asked at its own arguments. The terms are asked in
their order. -/
def total {m : Type → Type} [Monad m] (ask : Cost α → List α → m α) (s : CostSum α)
    (args : List α) : m α :=
  (s.terms.zip s.maps).foldlM (fun total (t, places) => do
    let v ← ask t.cost (argumentsAt args places)
    pure (total + v)) 0

/-- The sum of the terms, each at its own arguments. -/
def value (s : CostSum α) (args : List α) : Except (FitError α) α := do
  s.checkArguments args
  s.total Cost.value args

/-- The vector `total` with the components of `g` added at their places. -/
def scatterAdd (total : List α) (places : List Nat) (g : List α) : List α :=
  (places.zip g).foldl (fun acc (j, x) => acc.modify j (· + x)) total

/-- The gradient: the gradients of the terms, added at their places in the union. -/
def grad (s : CostSum α) (args : List α) : Except (FitError α) (List α) := do
  s.checkArguments args
  if !s.hasGrad then throw .gradientNotImplemented
  (s.terms.zip s.maps).foldlM (fun total (t, places) => do
    let g ← t.cost.grad (argumentsAt args places)
    if g.length ≠ places.length then throw (.gradientDimMismatch places.length g.length)
    pure (scatterAdd total places g)) (List.replicate s.names.length 0)

/-- The sum as a cost. -/
def toCost (s : CostSum α) : Cost α where
  value := s.value
  grad := s.grad
  hasGrad := s.hasGrad
  names := some s.names
  signature := none
  doc := none
  errordef := s.errordef
  verbose := s.verbosity

end CostSum

/-- What is put into a sum: a single cost, or another sum. -/
inductive Addend (α : Type)
  | single (cost : Cost α)
  | sum (s : CostSum α)

/-- A pointer to a cost. -/
inductive Pointer
  | box
  /-- A pointer that counts its owners; a shared one has more than one. -/
  | counted (shared : Bool)

/-- Whether a pointer lets its cost be changed, as it must be to give up its terms. -/
def Pointer.isSole : Pointer → Bool
  | .box => true
  | .counted shared => !shared

variable [Scalar α]

namespace Addend

/-- The addend as a cost. -/
def toCost : Addend α → Cost α
  | .single cost => cost
  | .sum s => s.toCost

/-- The costs that the addend gives up, if it is made of others. -/
def takeTerms : Addend α → Option (List (Cost α))
  | .single _ => none
  | .sum s => some s.leaves

/-- The addend behind a pointer. Behind one that is shared, a sum gives up no terms. -/
def behind (p : Pointer) (x : Addend α) : Addend α :=
  if p.isSole then x else .single x.toCost

/-- The costs that the addend puts into a sum. -/
def leaves (x : Addend α) : List (Cost α) := x.takeTerms.getD [x.toCost]

end Addend

namespace CostSum

/-- One more addend at the end of a sum. -/
def push (s : CostSum α) (x : Addend α) : Except (FitError α) (CostSum α) := do
  let terms ← x.leaves.mapM Term.ofCost
  pure (rebuilt (s.terms ++ terms) s.verbose)

/-- The sum of a list of addends. -/
def ofAddends (xs : List (Addend α)) : Except (FitError α) (CostSum α) := xs.foldlM push empty

/-- The terms of one sum after those of another. -/
def append (s other : CostSum α) : CostSum α := rebuilt (s.terms ++ other.terms) s.verbose

end CostSum

/-- The sum `left + right`: the addend on the left is the sum that the other is put into. -/
def Addend.add (left right : Addend α) : Except (FitError α) (CostSum α) :=
  match left with
  | .sum s => s.push right
  | .single cost => do
    let s ← CostSum.empty.push (.single cost)
    s.push right

end FitSession
