/-!
# The value of a double

A finite double is a sign, a natural significand and a power of two. All number texts of the
library are computed from these three, in exact arithmetic on natural numbers.

* `Binary64`, `Binary64.ofFloat?`: the parts of a finite double;
* `Binary64.ratio`: its magnitude as a quotient of natural numbers;
* `tenExponent`: the decimal exponent of the leading digit of a quotient.
-/

namespace FitSession

/-- A finite double: its magnitude is `significand * 2 ^ exponent`. -/
structure Binary64 where
  negative : Bool
  significand : Nat
  exponent : Int
deriving DecidableEq, Repr

namespace Binary64

/-- The parts of a double, unless it is infinite or a NaN. -/
def ofFloat? (x : Float) : Option Binary64 :=
  let bits := x.toBits.toNat
  let negative := decide (bits / Nat.pow 2 63 = 1)
  let biased : Nat := bits / Nat.pow 2 52 % Nat.pow 2 11
  let fraction : Nat := bits % Nat.pow 2 52
  if biased = 2047 then none
  else if biased = 0 then some ⟨negative, fraction, -1074⟩
  else some ⟨negative, fraction + Nat.pow 2 52, (biased : Int) - 1075⟩

/-- The number `n * 2 ^ e` as numerator and denominator. -/
def scaled (n : Nat) (e : Int) : Nat × Nat :=
  (n * Nat.pow 2 e.toNat, Nat.pow 2 (-e).toNat)

/-- The magnitude as numerator and denominator. -/
def ratio (b : Binary64) : Nat × Nat := scaled b.significand b.exponent

end Binary64

/-- The number `num / den * 10 ^ e` as numerator and denominator. -/
def timesTen (num den : Nat) (e : Int) : Nat × Nat :=
  (num * Nat.pow 10 e.toNat, den * Nat.pow 10 (-e).toNat)

/-- Whether `10 ^ e` is at most `num / den`. -/
def tenPowerLe (e : Int) (num den : Nat) : Bool :=
  let (n, d) := timesTen num den (-e)
  d ≤ n

/-- The exponent `e` with `10 ^ e ≤ num / den < 10 ^ (e + 1)`, for a positive quotient: a lower
estimate from the bit lengths, raised at most three times. -/
def tenExponent (num den : Nat) : Int :=
  let bits : Int := (Nat.log2 num : Int) - (Nat.log2 den : Int)
  let start : Int := Int.fdiv ((bits - 1) * 30103) 100000 - 1
  (List.range 4).foldl (fun e _ => if tenPowerLe (e + 1) num den then e + 1 else e) start

end FitSession
