import FitSession.Cost
import FitSession.Naming.CallText

/-!
# Name deduction

The parameter names of a cost are the first answer of a chain of sources that is not empty. A
leading `self` is not an argument of a call.

* `NameSource`: one source of names, with its label;
* `declaredNames`, `signatureNames`, `docNames`: what a cost tells about itself;
* `NameChain`, `NameChain.deduce`: the sources in order and their first answer;
* `NameChain.describe`: the text of a chain.
-/

namespace FitSession

variable {α : Type}

/-- One source of names. -/
structure NameSource (α : Type) where
  label : String
  names : Cost α → Option (List String)

/-- The list without a leading `self`. -/
def dropSelf : List String → List String
  | "self" :: rest => rest
  | names => names

/-- The names that the cost declares. -/
def declaredNames : NameSource α := ⟨"declared names", fun c => c.names⟩

/-- The argument names of the function behind the cost. -/
def signatureNames : NameSource α := ⟨"call signature", fun c => c.signature.map dropSelf⟩

/-- The names in the call that the description shows. -/
def docNames : NameSource α :=
  ⟨"doc signature", fun c => (c.doc.bind argumentsOfCall).map dropSelf⟩

/-- Sources in order of priority. -/
structure NameChain (α : Type) where
  sources : List (NameSource α)

namespace NameChain

/-- No sources. -/
def empty : NameChain α := ⟨[]⟩

/-- What a cost declares, then its signature, then its description. -/
def standard : NameChain α := ⟨[declaredNames, signatureNames, docNames]⟩

/-- One more source, of lowest priority. -/
def push (chain : NameChain α) (source : NameSource α) : NameChain α :=
  ⟨chain.sources ++ [source]⟩

/-- One more source, of highest priority. -/
def prepend (chain : NameChain α) (source : NameSource α) : NameChain α :=
  ⟨source :: chain.sources⟩

/-- The answer of a source, unless it has none or an empty one. -/
def answer (cost : Cost α) (source : NameSource α) : Option (List String) :=
  match source.names cost with
  | some (name :: rest) => some (name :: rest)
  | _ => none

/-- The first answer that is not empty. -/
def deduce (chain : NameChain α) (cost : Cost α) : Except (FitError α) (List String) :=
  match chain.sources.findSome? (answer cost) with
  | some names => .ok names
  | none => .error (.nameDeduction .noNames)

/-- The labels of the sources in order. -/
def describe (chain : NameChain α) : String :=
  let labels := chain.sources.map fun s => "\"" ++ s.label ++ "\""
  "NameDeduction \x7b strategies: [" ++ ", ".intercalate labels ++ "] \x7d"

end NameChain
end FitSession
