import FitSession.Numeral.Binary64

/-!
# Rounding to decimal digits

A quotient of natural numbers is rounded to a chosen number of decimal places or of significant
digits; a half goes to the even neighbour.

* `roundDiv`: the nearest natural number to a quotient;
* `toPlaces`: a fixed number of digits after the point;
* `toSignificant`: a fixed number of significant digits, with the exponent of the first.
-/

namespace FitSession

/-- The natural number nearest to `num / den`; a half goes to the even one. -/
def roundDiv (num den : Nat) : Nat :=
  let q := num / den
  let r := num % den
  if 2 * r < den then q
  else if den < 2 * r then q + 1
  else if q % 2 = 0 then q else q + 1

/-- The magnitude in units of `10 ^ (-places)`. -/
def Binary64.toPlaces (places : Nat) (b : Binary64) : Nat :=
  let (num, den) := b.ratio
  roundDiv (num * Nat.pow 10 places) den

/-- The first `count` digits of the magnitude, as one number, and the exponent of the leading
digit. Zero has the exponent 0. -/
def Binary64.toSignificant (count : Nat) (b : Binary64) : Nat × Int :=
  if b.significand = 0 then (0, 0)
  else
    let (num, den) := b.ratio
    let e := tenExponent num den
    let (n, d) := timesTen num den ((count : Int) - 1 - e)
    let digits := roundDiv n d
    if digits = Nat.pow 10 count then (Nat.pow 10 (count - 1), e + 1) else (digits, e)

end FitSession
