import FitSession.Numeral.Rounded
import FitSession.Numeral.Shortest

/-!
# Written numbers

The number formats of the library's output. A `Layout` says which magnitudes are written
positionally and whether a whole number shows a fraction; the digits are the shortest that read
back. Fixed places and fixed significant digits are rounded from the exact value.

* `Layout`, `Layout.write`: shortest decimals;
* `Layout.plain`: never an exponent, as in messages;
* `Layout.tagged`: an exponent below `10⁻⁴` and from `10¹⁶` on, as in the text of a view;
* `Layout.json`: an exponent below `10⁻⁵` and from `10¹⁶` on, as in a snapshot;
* `writeFixed`, `writeScientific`: rounded forms for tables.
-/

namespace FitSession

/-- The text of a number that is not finite. -/
def writeSpecial (x : Float) : String :=
  if x.isNaN then "NaN" else if x < 0 then "-inf" else "inf"

/-- A run of `count` zeros. -/
def zeros (count : Nat) : String := String.ofList (List.replicate count '0')

/-- The text `digits` in at least `width` places, filled with zeros on the left. -/
def zeroFilled (width digits : Nat) : String :=
  let text := toString digits
  zeros (width - text.length) ++ text

/-- The digits of a number split by a point before the last `places` of them. -/
def pointed (places digits : Nat) : String :=
  let text := (zeroFilled (places + 1) digits).toList
  let whole := text.take (text.length - places)
  if places = 0 then String.ofList whole
  else String.ofList (whole ++ '.' :: text.drop (text.length - places))

/-- How shortest decimals are written. The exponent is that of the leading digit. -/
structure Layout where
  /-- Positional notation is used from this exponent on, if a bound is given. -/
  least : Option Int
  /-- Positional notation is used up to this exponent, if a bound is given. -/
  greatest : Option Int
  /-- A whole number ends in `.0`. -/
  fraction : Bool
  /-- A positive exponent has a sign. -/
  plus : Bool

namespace Layout

/-- Always positional; whole numbers have no point. -/
def plain : Layout := ⟨none, none, false, false⟩

/-- Positional from `10⁻⁴` to below `10¹⁶`; whole numbers end in `.0`. -/
def tagged : Layout := ⟨some (-4), some 15, true, false⟩

/-- Positional from `10⁻⁵` to below `10¹⁶`; whole numbers end in `.0`, and every exponent has a
sign. -/
def json : Layout := ⟨some (-5), some 15, true, true⟩

/-- Whether a number whose leading digit has this exponent is written positionally. -/
def isPositional (l : Layout) (first : Int) : Bool :=
  (l.least.all fun lo => decide (lo ≤ first)) && (l.greatest.all fun hi => decide (first ≤ hi))

/-- The number `digits * 10 ^ e` with all its places. -/
def positional (l : Layout) (digits : Nat) (e : Int) : String :=
  if 0 ≤ e then toString digits ++ zeros e.toNat ++ (if l.fraction then ".0" else "")
  else pointed (-e).toNat digits

/-- The digits with a point after the first, and the exponent of the first. -/
def exponential (l : Layout) (digits : Nat) (first : Int) : String :=
  let mark := if l.plus && decide (0 ≤ first) then "e+" else "e"
  match (toString digits).toList with
  | [] => ""
  | [d] => String.ofList [d] ++ mark ++ toString first
  | d :: rest => String.ofList (d :: '.' :: rest) ++ mark ++ toString first

/-- The shortest decimal of a number in this layout. -/
def write (l : Layout) (x : Float) : String :=
  match Binary64.ofFloat? x with
  | none => writeSpecial x
  | some b =>
    let sign := if b.negative then "-" else ""
    let (digits, e) := b.shortest
    let first := e + ((toString digits).length : Int) - 1
    if digits = 0 || l.isPositional first then sign ++ l.positional digits e
    else sign ++ l.exponential digits first

end Layout

/-- When a sign is written. -/
inductive SignRule
  | onlyMinus
  | always
deriving DecidableEq, Repr

/-- The sign of a number under a rule; a NaN has none. -/
def SignRule.write (rule : SignRule) (negative : Bool) : String :=
  if negative then "-" else match rule with
    | .onlyMinus => ""
    | .always => "+"

/-- The text of a number that is not finite, under a sign rule. -/
def SignRule.writeSpecial (rule : SignRule) (x : Float) : String :=
  if x.isNaN then "NaN" else rule.write (decide (x < 0)) ++ "inf"

/-- A number with `places` digits after the point. -/
def writeFixed (places : Nat) (rule : SignRule) (x : Float) : String :=
  match Binary64.ofFloat? x with
  | none => rule.writeSpecial x
  | some b => rule.write b.negative ++ pointed places (b.toPlaces places)

/-- A number with one digit before the point, `places` after it, and an exponent. -/
def writeScientific (places : Nat) (rule : SignRule) (x : Float) : String :=
  match Binary64.ofFloat? x with
  | none => rule.writeSpecial x
  | some b =>
    let (digits, e) := b.toSignificant (places + 1)
    rule.write b.negative ++ pointed places digits ++ "e" ++ toString e

end FitSession
