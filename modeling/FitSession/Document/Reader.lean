import FitSession.Document.Basic
import FitSession.Text.JsonString

/-!
# Reading documents

A document is written as JSON. A number without point and exponent is whole.

* `readDocument`: a document at the start of a text;
* `Document.read?`: the document of a whole text.
-/

namespace FitSession

/-- The word at the start of a text, and what it stands for. -/
def readWord (cs : List Char) : Option (Document × List Char) :=
  match cs with
  | 'n' :: 'u' :: 'l' :: 'l' :: rest => some (.null, rest)
  | 't' :: 'r' :: 'u' :: 'e' :: rest => some (.flag true, rest)
  | 'f' :: 'a' :: 'l' :: 's' :: 'e' :: rest => some (.flag false, rest)
  | _ => none

/-- Whether a character continues a whole number into one with a fraction or an exponent. -/
def isFractionMark (c : Char) : Bool := c = '.' || c = 'e' || c = 'E'

/-- Whether a text starts with a number. -/
def startsNumber : List Char → Bool
  | '-' :: c :: _ => c.isDigit
  | c :: _ => c.isDigit
  | [] => false

/-- The number at the start of a text. -/
def readNumeral (cs : List Char) : Option (Document × List Char) :=
  let (n, rest) := spanInt cs
  if !startsNumber cs then none
  else if (rest.head?.map isFractionMark).getD false then
    let (x, rest) := spanNumber cs
    some (.number x, rest)
  else some (.whole n, rest)

mutual

/-- A document at the start of a text. The first argument bounds its parts. -/
def readDocument : Nat → List Char → Option (Document × List Char)
  | 0, _ => none
  | fuel + 1, cs =>
    match dropJsonBlanks cs with
    | '"' :: rest => (readString ('"' :: rest)).map fun (s, rest) => (.text s, rest)
    | '[' :: rest =>
      match dropJsonBlanks rest with
      | ']' :: rest => some (.list [], rest)
      | rest => (readElems fuel rest).map fun (items, rest) => (.list items, rest)
    | '\x7b' :: rest =>
      match dropJsonBlanks rest with
      | '\x7d' :: rest => some (.fields [], rest)
      | rest => (readFields fuel rest).map fun (items, rest) => (.fields items, rest)
    | cs => (readWord cs).or (readNumeral cs)

/-- The elements of a list up to its end. -/
def readElems : Nat → List Char → Option (List Document × List Char)
  | 0, _ => none
  | fuel + 1, cs => do
    let (d, rest) ← readDocument fuel cs
    match dropJsonBlanks rest with
    | ',' :: rest => do
      let (items, rest) ← readElems fuel rest
      pure (d :: items, rest)
    | ']' :: rest => pure ([d], rest)
    | _ => none

/-- The named fields up to their end. -/
def readFields : Nat → List Char → Option (List (String × Document) × List Char)
  | 0, _ => none
  | fuel + 1, cs => do
    let (name, rest) ← readString (dropJsonBlanks cs)
    let rest ← readMark ':' rest
    let (d, rest) ← readDocument fuel rest
    match dropJsonBlanks rest with
    | ',' :: rest => do
      let (items, rest) ← readFields fuel rest
      pure ((name, d) :: items, rest)
    | '\x7d' :: rest => pure ([(name, d)], rest)
    | _ => none

end

/-- The document of a text, if it is one. -/
def Document.read? (text : String) : Option Document := do
  let cs := text.toList
  let (d, rest) ← readDocument (cs.length + 1) cs
  if (dropJsonBlanks rest).isEmpty then pure d else none

end FitSession
