import FitSession.Numeral.Binary64

/-!
# The fewest digits that read back

The shortest decimal of a double is the decimal with the fewest digits among those that round to
the double, and of these the nearest to it.

* `Binary64.Interval`, `Binary64.interval`: the numbers that round to a double;
* `Binary64.shortest`: digits and exponent of its shortest decimal.
-/

namespace FitSession
namespace Binary64

/-- The numbers that round to a double, in quarters of its last place. The ends belong to it when
`closed` is set. -/
structure Interval where
  low : Nat
  mid : Nat
  high : Nat
  exponent : Int
  closed : Bool

/-- The interval of a finite double. Below a power of two the neighbour is half as far. -/
def interval (b : Binary64) : Interval :=
  let gap := if b.significand = Nat.pow 2 52 ∧ -1074 < b.exponent then 1 else 2
  ⟨4 * b.significand - gap, 4 * b.significand, 4 * b.significand + 2, b.exponent - 2,
    b.significand % 2 = 0⟩

/-- Whether `digits * 10 ^ e` lies in the interval. -/
def Interval.contains (i : Interval) (digits : Nat) (e : Int) : Bool :=
  let (num, den) := timesTen digits 1 e
  let (twos, halves) := scaled 1 i.exponent
  let here := num * halves
  let low := i.low * twos * den
  let high := i.high * twos * den
  if i.closed then low ≤ here && here ≤ high else low < here && here < high

/-- The neighbours of the value on the grid of `count` digits that lie in the interval; the nearer
one if both do, the even one on a tie. -/
def onGrid (b : Binary64) (first : Int) (count : Nat) : Option (Nat × Int) :=
  let e := first + 1 - (count : Int)
  let (num, den) := b.ratio
  let (n, d) := timesTen num den (-e)
  let below := n / d
  let twice := 2 * (n % d)
  match b.interval.contains below e, b.interval.contains (below + 1) e with
  | true, true =>
    if twice < d then some (below, e)
    else if d < twice then some (below + 1, e)
    else if below % 2 = 0 then some (below, e) else some (below + 1, e)
  | true, false => some (below, e)
  | false, true => some (below + 1, e)
  | false, false => none

/-- Moves the zeros at the end of `digits` into the exponent. -/
def trimZeros : Nat → Nat → Int → Nat × Int
  | 0, digits, e => (digits, e)
  | fuel + 1, digits, e =>
    if digits ≠ 0 ∧ digits % 10 = 0 then trimZeros fuel (digits / 10) (e + 1) else (digits, e)

/-- Digits `d` and exponent `e` of the shortest decimal `d * 10 ^ e`. Seventeen digits always
suffice. Zero is `(0, 0)`. -/
def shortest (b : Binary64) : Nat × Int :=
  if b.significand = 0 then (0, 0)
  else
    let (num, den) := b.ratio
    let first := tenExponent num den
    match (List.range 17).findSome? fun k => onGrid b first (k + 1) with
    | some (digits, e) => trimZeros 20 digits e
    | none => (0, 0)

end Binary64
end FitSession
