import FitSession.Numeral.Written

/-!
# Numbers of a snapshot's text

The digits of a number are read into a significand of 64 bits as far as they fit, and the rest
into a power of ten. The significand is then multiplied or divided by that power once, so the
number may differ from the nearest double by its last place.

* `Significand`, `Significand.whole`, `Significand.fraction`: the digits read so far;
* `scaleByTen`: the number of a significand and an exponent;
* `readNumber`: a number at the start of a text.
-/

namespace FitSession

/-- The significands that fit. -/
def significandBound : Nat := Nat.pow 2 64

/-- The exponents that fit. -/
def exponentBound : Nat := Nat.pow 2 31

/-- Digits read so far: their number is `digits * 10 ^ exponent`. Once `full`, no further digit
enters. -/
structure Significand where
  digits : Nat
  exponent : Int
  full : Bool

/-- Whether a character is a decimal digit. -/
def isDigit (c : Char) : Bool := '0' ≤ c && c ≤ '9'

/-- The value of a decimal digit. -/
def digitValue (c : Char) : Nat := c.toNat - '0'.toNat

namespace Significand

/-- One more digit before the point: when it does not fit, it only counts as a place. -/
def whole (s : Significand) (c : Char) : Significand :=
  let next := s.digits * 10 + digitValue c
  if s.full || significandBound ≤ next then { s with exponent := s.exponent + 1, full := true }
  else { s with digits := next }

/-- One more digit after the point: when it does not fit, it and all after it are dropped. -/
def fraction (s : Significand) (c : Char) : Significand :=
  let next := s.digits * 10 + digitValue c
  if s.full || significandBound ≤ next then { s with full := true }
  else { s with digits := next, exponent := s.exponent - 1 }

end Significand

/-- The number `x * 10 ^ e`, dividing by large powers in steps of `10 ^ 308`; nothing if it is too
large. -/
def scaleByTen : Nat → Float → Int → Option Float
  | 0, _, _ => some 0
  | fuel + 1, x, e =>
    if e.natAbs ≤ 308 then
      let power := Float.ofScientific 1 false e.natAbs
      if 0 ≤ e then
        let y := x * power
        if y.isFinite then some y else none
      else some (x / power)
    else if x == 0 then some x
    else if 0 ≤ e then none
    else scaleByTen fuel (x / 1e308) (e + 308)

/-- The number of a significand. -/
def Significand.toFloat? (s : Significand) (e : Int) : Option Float :=
  scaleByTen 8 (Float.ofScientific s.digits false 0) e

/-- The number with a written exponent. One that does not fit in 32 bits gives zero, or is too
large. -/
def Significand.withExponent (s : Significand) (negative : Bool) (digits : List Char) :
    Option Float :=
  let e := digits.foldl (fun n c => n * 10 + digitValue c) 0
  if exponentBound ≤ e then if s.digits = 0 || negative then some 0 else none
  else s.toFloat? (s.exponent + if negative then -(e : Int) else (e : Int))

/-- The exponent at the start of a text, after its mark, and the number that it gives. -/
def readExponent (s : Significand) (cs : List Char) : Option (Float × List Char) := do
  let (negative, rest) := match cs with
    | '+' :: rest => (false, rest)
    | '-' :: rest => (true, rest)
    | rest => (false, rest)
  let digits := rest.takeWhile isDigit
  if digits.isEmpty then none
  let x ← s.withExponent negative digits
  pure (x, rest.dropWhile isDigit)

/-- What follows the digits before the point. -/
def readTail (s : Significand) (cs : List Char) : Option (Float × List Char) :=
  match cs with
  | '.' :: rest =>
    let digits := rest.takeWhile isDigit
    let s := digits.foldl Significand.fraction { s with full := false }
    if digits.isEmpty then none
    else
      match rest.dropWhile isDigit with
      | 'e' :: rest => readExponent s rest
      | 'E' :: rest => readExponent s rest
      | rest => (s.toFloat? s.exponent).map fun x => (x, rest)
  | 'e' :: rest => readExponent s rest
  | 'E' :: rest => readExponent s rest
  | rest => (s.toFloat? s.exponent).map fun x => (x, rest)

/-- A number without a sign at the start of a text. A leading zero stands alone. -/
def readMagnitude (cs : List Char) : Option (Float × List Char) :=
  let digits := cs.takeWhile isDigit
  match digits with
  | [] => none
  | '0' :: _ :: _ => none
  | _ => readTail (digits.foldl Significand.whole ⟨0, 0, false⟩) (cs.dropWhile isDigit)

/-- A number at the start of a text. -/
def readNumber (cs : List Char) : Option (Float × List Char) :=
  match cs with
  | '-' :: rest => (readMagnitude rest).map fun (x, rest) => (-x, rest)
  | _ => readMagnitude cs

end FitSession
