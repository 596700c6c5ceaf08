import FitSession.Cost

/-!
# Formulas

A cost, a gradient, a model or a density may be given as a formula over the parameters and one data
variable. A formula is evaluated from its leaves; a comparison with a NaN is false.

* `Elementary`, `Operation`: functions of one number, and of two;
* `Formula`, `Formula.eval`: the expressions and their values;
* `FormulaCost`, `FormulaCost.toCost`: a cost given by formulas, with all that it may declare;
* `Cost.raising`: a cost that fails where a formula is positive.
-/

namespace FitSession

/-- The functions of one number. -/
inductive Elementary
  | neg
  | square
  | sqrt
  | exp
  | log
  | sin
  | cos
  | abs
deriving DecidableEq, Repr

/-- The operations on two numbers. -/
inductive Operation
  | add
  | sub
  | mul
  | div
deriving DecidableEq, Repr

/-- An expression over the parameters and the data variable. -/
inductive Formula (α : Type)
  | constant (x : α)
  | data
  | parameter (i : Nat)
  | apply (f : Elementary) (a : Formula α)
  | combine (op : Operation) (a b : Formula α)
  /-- The third part if the first one is less than the second, else the fourth. -/
  | ifLess (a b yes no : Formula α)
deriving Repr

variable {α : Type} [Scalar α]

/-- The value of a function. -/
def Elementary.eval : Elementary → α → α
  | .neg, x => -x
  | .square, x => x * x
  | .sqrt, x => Scalar.sqrt x
  | .exp, x => Scalar.exp x
  | .log, x => Scalar.log x
  | .sin, x => Scalar.sin x
  | .cos, x => Scalar.cos x
  | .abs, x => Scalar.abs x

/-- The value of an operation. -/
def Operation.eval : Operation → α → α → α
  | .add, x, y => x + y
  | .sub, x, y => x - y
  | .mul, x, y => x * y
  | .div, x, y => x / y

namespace Formula

/-- The value of a formula; a parameter that is missing is not a number. -/
def eval (x : α) (args : List α) : Formula α → α
  | constant c => c
  | data => x
  | parameter i => args[i]?.getD Scalar.nan
  | apply f a => f.eval (a.eval x args)
  | combine op a b => op.eval (a.eval x args) (b.eval x args)
  | ifLess a b yes no =>
    if a.eval x args < b.eval x args then yes.eval x args else no.eval x args

/-- The value of a formula without data. -/
def value (f : Formula α) (args : List α) : α := f.eval 0 args

/-- Formulas put together from the left. -/
def chain (op : Operation) (first : Formula α) (rest : List (Formula α)) : Formula α :=
  rest.foldl (combine op) first

end Formula

/-- A cost given by formulas, and what it declares. -/
structure FormulaCost (α : Type) where
  value : Formula α
  grad : Option (List (Formula α))
  names : Option (List String)
  signature : Option (List String)
  doc : Option String
  errordef : Option α
  verbose : Nat

/-- The cost of the formulas. -/
def FormulaCost.toCost (c : FormulaCost α) : Cost α :=
  let base := Cost.ofFunction fun args => .ok (c.value.value args)
  { base with
    grad := match c.grad with
      | some gs => fun args => .ok (gs.map (·.value args))
      | none => base.grad
    hasGrad := c.grad.isSome, names := c.names, signature := c.signature, doc := c.doc,
    errordef := c.errordef, verbose := c.verbose }

/-- The cost that fails where `condition` is positive. It hides how the cost can be called. -/
def Cost.raising (condition : Formula α) (reason : String) (c : Cost α) : Cost α :=
  let guarded {β : Type} (f : List α → Except (FitError α) β) (args : List α) :
      Except (FitError α) β :=
    if 0 < condition.value args then .error (.backendError reason) else f args
  { c with
    value := guarded c.value, grad := guarded c.grad, signature := none, doc := none, verbose := 0 }

end FitSession
