/-!
# Scalars

Every numerical part of the library is written once, over a type of scalars. `Float` runs it; any
other instance, such as extended reals with exact arithmetic, reads the same definitions.

* `Scalar`: the operations, comparisons and special values that the library asks of a number;
* `maxNum`, `minNum`, `clampTo`: order operations that say what becomes of a NaN;
* `halfPi`, `tau`, `epsilon`: constants derived from the class;
* `sum`, `dot`, `norm`: folds over coordinate lists.
-/

namespace FitSession

/-- What the library asks of a number type. Comparisons with a NaN are false. -/
class Scalar (α : Type) extends Add α, Sub α, Mul α, Div α, Neg α, LT α, LE α, BEq α where
  /-- The decimal literal `m * 10 ^ e`, or `m * 10 ^ (-e)` when the flag is set. -/
  ofDecimal : Nat → Bool → Nat → α
  decLt : ∀ a b : α, Decidable (a < b)
  decLe : ∀ a b : α, Decidable (a ≤ b)
  /-- Positive infinity. -/
  inf : α
  /-- Not a number. -/
  nan : α
  pi : α
  /-- The least positive normal number. -/
  leastNormal : α
  isNaN : α → Bool
  isFinite : α → Bool
  abs : α → α
  sqrt : α → α
  sin : α → α
  cos : α → α
  asin : α → α
  exp : α → α
  log : α → α

namespace Scalar

variable {α : Type} [Scalar α]

instance (a b : α) : Decidable (a < b) := decLt a b
instance (a b : α) : Decidable (a ≤ b) := decLe a b

instance (priority := low) : OfScientific α := ⟨ofDecimal⟩
instance (priority := low) (n : Nat) : OfNat α n := ⟨ofDecimal n false 0⟩

/-- The scalar of a natural number. -/
def ofCount (n : Nat) : α := ofDecimal n false 0

/-- A right angle, `π / 2`. -/
def halfPi : α := pi / 2

/-- A full turn, `2 π`. -/
def tau : α := 2 * pi

/-- The spacing of double precision numbers at 1, `2⁻⁵²`. -/
def epsilon : α := 1 / 4503599627370496

/-- Negative infinity. -/
def negInf : α := -inf

/-- The larger of two scalars; a NaN gives way to the other operand. -/
def maxNum (a b : α) : α :=
  if isNaN a then b else if a < b then b else a

/-- The smaller of two scalars; a NaN gives way to the other operand. -/
def minNum (a b : α) : α :=
  if isNaN a then b else if b < a then b else a

/-- The number `x` moved into `[lo, hi]`; a NaN stays a NaN. -/
def clampTo (lo hi x : α) : α :=
  let y := if x < lo then lo else x
  if hi < y then hi else y

/-- Left-to-right sum of a list. -/
def sum (xs : List α) : α := xs.foldl (· + ·) 0

/-- Left-to-right inner product. -/
def dot (xs ys : List α) : α := sum (List.zipWith (· * ·) xs ys)

/-- Euclidean length. -/
def norm (xs : List α) : α := sqrt (dot xs xs)

/-- Coordinate-wise sum. -/
def addVec (xs ys : List α) : List α := List.zipWith (· + ·) xs ys

/-- Coordinate-wise difference. -/
def subVec (xs ys : List α) : List α := List.zipWith (· - ·) xs ys

/-- Every coordinate times `c`. -/
def scaleVec (c : α) (xs : List α) : List α := xs.map (c * ·)

end Scalar

/-- Double precision numbers. -/
instance : Scalar Float where
  ofDecimal := Float.ofScientific
  decLt a b := inferInstanceAs (Decidable (a < b))
  decLe a b := inferInstanceAs (Decidable (a ≤ b))
  inf := 1.0 / 0.0
  nan := 0.0 / 0.0
  pi := 3.141592653589793
  leastNormal := Float.ofBits 0x0010000000000000
  isNaN := Float.isNaN
  isFinite := Float.isFinite
  abs := Float.abs
  sqrt := Float.sqrt
  sin := Float.sin
  cos := Float.cos
  asin := Float.asin
  exp := Float.exp
  log := Float.log

end FitSession
