import FitSession.Cost.Formula
import FitSession.Cost.LeastSquares
import FitSession.Cost.Likelihood
import FitSession.Cost.NormalConstraint
import FitSession.Cost.Sum
import FitSession.Document.Given

/-!
# Costs given as documents

A formula is a number, the text `x` for the data variable, or a list that starts with the name of a
function. A cost is described by its kind and its parts; a description nests other descriptions
where a cost is made from costs.

* `Formula.ofDocument`: formulas;
* `FormulaCost.ofDocument`, `LeastSquares.ofDocument`, `NormalConstraint.ofDocument`,
  `Likelihood.ofDocument`: costs of one kind;
* `Addend.ofDocument`: any cost, which is kept as a sum if it is one.
-/

namespace FitSession

namespace Formula

/-- The function of a name. -/
def elementary (name : String) : Elementary :=
  match name with
  | "neg" => .neg
  | "sq" => .square
  | "sqrt" => .sqrt
  | "exp" => .exp
  | "ln" => .log
  | "sin" => .sin
  | "cos" => .cos
  | _ => .abs

/-- The formula of a name and its arguments. -/
def assemble (name : String) (args : List (Formula Float)) : Formula Float :=
  match name, args with
  | "+", a :: rest => chain .add a rest
  | "*", a :: rest => chain .mul a rest
  | "-", a :: rest => chain .sub a rest
  | "/", a :: rest => chain .div a rest
  | "lt", [a, b, yes, no] => ifLess a b yes no
  | _, a :: _ => apply (elementary name) a
  | _, [] => constant 0

mutual

/-- The formula of a document. -/
def ofDocument : Document → Formula Float
  | .text s => if s = "x" then data else constant (numberOfText s)
  | .list (.text "p" :: i :: _) => parameter i.toNat
  | .list (.text name :: args) => assemble name (ofDocuments args)
  | d => constant d.toFloat

/-- The formulas of a list of documents. -/
def ofDocuments : List Document → List (Formula Float)
  | [] => []
  | d :: rest => ofDocument d :: ofDocuments rest

end

end Formula

/-- A cost given by formulas. -/
def FormulaCost.ofDocument (d : Document) : FormulaCost Float where
  value := .ofDocument d["f"]
  grad := (d.field? "grad").map fun gs => Formula.ofDocuments gs.elems
  names := (d.field? "names").map (·.toTexts)
  signature := (d.field? "signature").map (·.toTexts)
  doc := (d.field? "doc").map (·.toText)
  errordef := d.float? "errordef"
  verbose := d.natOr "verbose" 0

/-- Measured points with a formula as the model. -/
def LeastSquares.ofDocument (d : Document) : Except (FitError Float) (LeastSquares Float) := do
  let model := Formula.ofDocument d["model"]
  let c ← LeastSquares.ofData d["x"].toFloats d["y"].toFloats d["yerror"].toFloats
    d["names"].toTexts fun x args => model.eval x args
  let loss : Loss := if d["loss"].toText = "soft_l1" then .softL1 else .linear
  pure { c with loss, verbose := d.natOr "verbose" 0 }

/-- A constraint by its covariance, or else by its errors. -/
def NormalConstraint.ofDocument (d : Document) :
    Except (FitError Float) (NormalConstraint Float) :=
  let names := d["names"].toTexts
  let mean := d["mean"].toFloats
  match d.field? "cov" with
  | some c => NormalConstraint.ofCovariance names mean (.ofDocument c)
  | none => NormalConstraint.ofErrors names mean d["errors"].toFloats

/-- A sample with a formula as the density. -/
def Likelihood.ofDocument (d : Document) : Likelihood Float :=
  let pdf := Formula.ofDocument d["pdf"]
  ⟨d["data"].toFloats, d["names"].toTexts, fun x args => pdf.eval x args⟩

/-- The sum with the verbosity that a description sets, if it does. -/
def CostSum.withVerbosityOf (d : Document) (s : CostSum Float) : CostSum Float :=
  match d.nat? "verbose" with
  | some v => { s with verbose := some v }
  | none => s

namespace Addend

/-- A cost that says it has a gradient, but has none. -/
def claiming (d : Document) : Cost Float :=
  let c : FormulaCost Float := .ofDocument d
  let bare := FormulaCost.toCost { c with
    grad := none, signature := none, doc := none, errordef := none, verbose := 0 }
  { bare with hasGrad := true }

/-- The cost of a description with at most as many levels as the first argument says. -/
def ofNested : Nat → Document → Except (FitError Float) (Addend Float)
  | 0, _ => .error (.configuration (.stated "the cost is nested too deeply"))
  | depth + 1, d => do
    let inner (name : String) : Except (FitError Float) (Addend Float) := ofNested depth d[name]
    match d["kind"].toText with
    | "fn" => pure (.single (FormulaCost.ofDocument d).toCost)
    | "lsq" => do
      let c ← LeastSquares.ofDocument d
      pure (.single c.toCost)
    | "normal" => do
      let c ← NormalConstraint.ofDocument d
      pure (.single c.toCost)
    | "nll" => pure (.single (Likelihood.ofDocument d).toCost)
    | "bare" =>
      let f := Formula.ofDocument d["f"]
      pure (.single (Cost.ofFunction fun args => .ok (f.value args)))
    | "claims" => pure (.single (claiming d))
    | "raise" => do
      let c ← inner "cost"
      pure (.single (c.toCost.raising (.ofDocument d["when"]) "cost raised"))
    | "sum" => do
      let terms ← d["terms"].elems.mapM (ofNested depth)
      let s ← CostSum.ofAddends terms
      pure (.sum (s.withVerbosityOf d))
    | "append" => do
      let left ← inner "left"
      let right ← inner "right"
      match left, right with
      | .sum a, .sum b => pure (.sum ((a.append b).withVerbosityOf d))
      | _, _ => pure left
    | "add" => do
      let right ← inner "right"
      let left ← inner "left"
      let s ← left.add right
      pure (.sum (s.withVerbosityOf d))
    | "box" => do
      let c ← inner "cost"
      pure (c.behind .box)
    | _ => do
      let c ← inner "cost"
      pure (c.behind (.counted d["shared"].toBool))

/-- The cost of a description. -/
def ofDocument (d : Document) : Except (FitError Float) (Addend Float) := ofNested (d.depth + 1) d

end Addend

/-- The cost of a description, as one cost. -/
def Cost.ofDocument (d : Document) : Except (FitError Float) (Cost Float) :=
  (Addend.ofDocument d).map Addend.toCost

end FitSession
