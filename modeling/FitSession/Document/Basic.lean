import FitSession.Scalar

/-!
# Documents

A document is what a fit exchanges with other programs: a tree of flags, numbers, texts, lists and
named fields. A whole number and a number with a fraction are kept apart, as they are written. A
number that is not finite, or whose digits matter, may also stand as a text.

* `Document`: the trees;
* `Document.numbers`, `Document.texts`, `Document.optional`: documents of lists and options;
* `Document.field?`, `Document.elems`: parts of a document; a missing part is `null`;
* `Document.depth`: how deeply a document is nested;
* `Document.toFloat`, `Document.toInt`, `Document.toText`: what a document stands for.
-/

namespace FitSession

/-- A tree of flags, numbers, texts, lists and named fields. -/
inductive Document
  | null
  | flag (on : Bool)
  | whole (n : Int)
  | number (x : Float)
  | text (s : String)
  | list (items : List Document)
  | fields (items : List (String × Document))
deriving Inhabited

/-- The digits at the start of a text, and what follows them. -/
def spanDigits (cs : List Char) : List Char × List Char :=
  (cs.takeWhile Char.isDigit, cs.dropWhile Char.isDigit)

/-- The number of a list of digits. -/
def digitsValue (cs : List Char) : Nat := cs.foldl (fun n c => n * 10 + (c.toNat - '0'.toNat)) 0

/-- The double nearest to `m * 10 ^ e`. -/
def nearestDouble (m : Nat) (e : Int) : Float := Float.ofScientific m (decide (e < 0)) e.natAbs

/-- A signed whole number at the start of a text, and what follows it. -/
def spanInt (cs : List Char) : Int × List Char :=
  let (negative, rest) := match cs with
    | '-' :: rest => (true, rest)
    | '+' :: rest => (false, rest)
    | _ => (false, cs)
  let (digits, rest) := spanDigits rest
  let n : Int := digitsValue digits
  (if negative then -n else n, rest)

/-- The exponent at the start of a text, zero if there is none, and what follows it. -/
def spanExponent (cs : List Char) : Int × List Char :=
  match cs with
  | 'e' :: rest => spanInt rest
  | 'E' :: rest => spanInt rest
  | _ => (0, cs)

/-- The number at the start of a text, rounded to the nearest double, and what follows it. -/
def spanNumber (cs : List Char) : Float × List Char :=
  let (negative, rest) := match cs with
    | '-' :: rest => (true, rest)
    | _ => (false, cs)
  let (whole, rest) := spanDigits rest
  let (fraction, rest) := match rest with
    | '.' :: more => spanDigits more
    | _ => ([], rest)
  let (exponent, rest) := spanExponent rest
  let x := nearestDouble (digitsValue (whole ++ fraction)) (exponent - fraction.length)
  (if negative then -x else x, rest)

/-- The number that a text stands for. -/
def numberOfText (text : String) : Float :=
  if text = "nan" then Scalar.nan
  else if text = "inf" then Scalar.inf
  else if text = "-inf" then Scalar.negInf
  else (spanNumber text.toList).1

namespace Document

/-- A list of numbers. -/
def numbers (xs : List Float) : Document := .list (xs.map .number)

/-- A list of texts. -/
def texts (xs : List String) : Document := .list (xs.map .text)

/-- A list of flags. -/
def flags (xs : List Bool) : Document := .list (xs.map .flag)

/-- A natural number. -/
def count (n : Nat) : Document := .whole n

/-- A list of natural numbers. -/
def counts (xs : List Nat) : Document := .list (xs.map count)

/-- What may be missing. -/
def optional {β : Type} (f : β → Document) : Option β → Document
  | some x => f x
  | none => .null

/-- A pair of numbers. -/
def pair (p : Float × Float) : Document := numbers [p.1, p.2]

/-- A named field; `null` counts as missing. -/
def field? (d : Document) (name : String) : Option Document :=
  match d with
  | .fields items =>
    match items.find? fun (k, _) => k == name with
    | some (_, .null) => none
    | some (_, v) => some v
    | none => none
  | _ => none

/-- The elements of a list. -/
def elems : Document → List Document
  | .list items => items
  | _ => []

/-- The named fields. -/
def members : Document → List (String × Document)
  | .fields items => items
  | _ => []

instance : GetElem Document String Document fun _ _ => True where
  getElem d name _ := (d.field? name).getD .null

instance : GetElem Document Nat Document fun _ _ => True where
  getElem d i _ := d.elems[i]?.getD .null

/-- Whether a document is `null`. -/
def isNull : Document → Bool
  | .null => true
  | _ => false

mutual

/-- How deeply lists and fields are nested. -/
def depth : Document → Nat
  | .list items => depthOfItems items + 1
  | .fields items => depthOfFields items + 1
  | _ => 0

/-- The greatest depth in a list. -/
def depthOfItems : List Document → Nat
  | [] => 0
  | d :: rest => max (depth d) (depthOfItems rest)

/-- The greatest depth among named fields. -/
def depthOfFields : List (String × Document) → Nat
  | [] => 0
  | (_, d) :: rest => max (depth d) (depthOfFields rest)

end

/-- What a document stands for, unless it is `null`. -/
def unlessNull {β : Type} (f : Document → β) (d : Document) : Option β :=
  if d.isNull then none else some (f d)

/-- The number of a document. -/
def toFloat : Document → Float
  | .whole n => if n < 0 then -(nearestDouble n.natAbs 0) else nearestDouble n.natAbs 0
  | .number x => x
  | .text s => numberOfText s
  | _ => Scalar.nan

/-- The whole number of a document. -/
def toInt : Document → Int
  | .whole n => n
  | _ => 0

/-- The natural number of a document. -/
def toNat (d : Document) : Nat := d.toInt.toNat

/-- The flag of a document. -/
def toBool : Document → Bool
  | .flag on => on
  | _ => false

/-- The text of a document. -/
def toText : Document → String
  | .text s => s
  | _ => ""

/-- Whether a document is a text. -/
def isText : Document → Bool
  | .text _ => true
  | _ => false

/-- The numbers of a list. -/
def toFloats (d : Document) : List Float := d.elems.map toFloat

/-- The texts of a list. -/
def toTexts (d : Document) : List String := d.elems.map toText

end Document
end FitSession
