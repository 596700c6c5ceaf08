import FitSession.Document.Basic
import FitSession.Numeral.Written
import FitSession.Text.Quoted

/-!
# Writing documents

A document is written as JSON on one line. Numbers have their shortest digits, or are rounded to a
number of digits: of the fraction below one, and of the whole number from there on. A zero has no
sign, a number that is not finite is a text, and a finite one whose rounding is beyond the largest
finite number is `null`.

* `documentNumber`: the text of a number;
* `Document.write`: the text of a document.
-/

namespace FitSession

/-- Whether a written number has no digits but zeros. -/
def isWrittenZero (text : String) : Bool :=
  (text.toList.takeWhile (· ≠ 'e')).all fun c => c = '0' || c = '.' || c = '-'

/-- A finite number, rounded if digits are given. -/
def roundedNumber (digits : Option Nat) (x : Float) : String :=
  match digits with
  | none => Layout.json.write x
  | some d =>
    if x.abs < 1 then writeFixed d .onlyMinus x else writeScientific (d - 1) .onlyMinus x

/-- The text of a number. -/
def documentNumber (digits : Option Nat) (x : Float) : String :=
  if x.isNaN then jsonQuote "nan"
  else if x.isFinite then
    let text := roundedNumber digits x
    if isWrittenZero text then "0.0"
    else if (spanNumber text.toList).1.isFinite then text
    else "null"
  else jsonQuote (if x < 0 then "-inf" else "inf")

namespace Document

mutual

/-- The text of a document. -/
def write (digits : Option Nat) : Document → String
  | .null => "null"
  | .flag on => toString on
  | .whole n => toString n
  | .number x => documentNumber digits x
  | .text s => jsonQuote s
  | .list items => "[" ++ ", ".intercalate (writeItems digits items) ++ "]"
  | .fields items => "\x7b" ++ ", ".intercalate (writeFields digits items) ++ "\x7d"

/-- The texts of the elements of a list. -/
def writeItems (digits : Option Nat) : List Document → List String
  | [] => []
  | d :: rest => write digits d :: writeItems digits rest

/-- The texts of named fields. -/
def writeFields (digits : Option Nat) : List (String × Document) → List String
  | [] => []
  | (name, d) :: rest => (jsonQuote name ++ ": " ++ write digits d) :: writeFields digits rest

end

end Document
end FitSession
