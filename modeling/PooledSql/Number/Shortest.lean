import PooledSql.Number.Binary64

/-!
# Shortest decimal digits

The decimal text of a binary64 number has the fewest digits that still read back as that number,
and among those the nearest ones. The reals that read back as a number form an interval around
it; on each decimal grid, from coarse to fine, only the two neighbours of the number need to be
tried, for if any point of the grid lies in the interval, one of them does.
-/

namespace PooledSql

namespace Binary64

/-- The reals that are read as a given positive number: all three bounds are numerators over one
denominator. -/
structure Interval where
  /-- The number itself. -/
  center : Nat
  /-- The least real that may round to it. -/
  lower : Nat
  /-- The greatest real that may round to it. -/
  upper : Nat
  /-- The common denominator. -/
  den : Nat
  /-- Whether the two bounds themselves are read as the number. -/
  closed : Bool

/-- The interval of `mantissa * 2 ^ exponent`. Below a power of two the numbers lie twice as close
as above it. -/
def interval (mantissa : Nat) (exponent : Int) : Interval :=
  let below := if mantissa = Nat.pow 2 52 ∧ minExponent < exponent then 1 else 2
  let (up, den) := if 2 ≤ exponent then (Nat.pow 2 (exponent - 2).toNat, 1)
    else (1, Nat.pow 2 (2 - exponent).toNat)
  { center := 4 * mantissa * up
    lower := (4 * mantissa - below) * up
    upper := (4 * mantissa + 2) * up
    den := den
    closed := mantissa % 2 == 0 }

/-- Whether the real `num / den` is read as the number of the interval. -/
def Interval.holds (i : Interval) (num den : Nat) : Bool :=
  let x := num * i.den
  if i.closed then i.lower * den ≤ x && x ≤ i.upper * den
  else i.lower * den < x && x < i.upper * den

/-- How many digits stand before the decimal point of `num / den`; zero or less counts the zeros
after the point. -/
def pointPlace (num den : Nat) : Int :=
  if den ≤ num then digitCount (num / den)
  else 1 - (digitCount ((den + num - 1) / num - 1) : Int)

/-- The power of ten with an integer exponent, as a numerator and a denominator. -/
def powerOfTen (e : Int) : Nat × Nat :=
  if 0 ≤ e then (Nat.pow 10 e.toNat, 1) else (1, Nat.pow 10 (-e).toNat)

/-- The point of the grid of `10 ^ e` nearest to the number that is read as the number, if one of
its two neighbours on that grid is. -/
def Interval.onGrid? (i : Interval) (e : Int) : Option Nat :=
  let (n, d) := powerOfTen e
  let c := i.center * d / (i.den * n)
  let rest := i.center * d % (i.den * n)
  let holds := fun k => i.holds (k * n) d
  match holds c && c != 0, holds (c + 1) with
  | true, true =>
    if 2 * rest < i.den * n then some c
    else if i.den * n < 2 * rest then some (c + 1)
    else some (c + c % 2)
  | true, false => some c
  | false, true => some (c + 1)
  | false, false => none

/-- The first grid on which the number can be written, starting with `digits` digits and trying
at most `fuel` grids. -/
def Interval.firstGrid (i : Interval) (place : Int) : Nat → Nat → Nat × Int
  | 0, digits => (i.center / i.den, place - digits)
  | fuel + 1, digits =>
    match i.onGrid? (place - digits) with
    | some c => (c, place - digits)
    | none => i.firstGrid place fuel (digits + 1)

/-- A number without the zeros at its end, and one more in the exponent for each. -/
def dropZeros : Nat → Nat → Int → Nat × Int
  | 0, c, e => (c, e)
  | fuel + 1, c, e => if c ≠ 0 ∧ c % 10 = 0 then dropZeros fuel (c / 10) (e + 1) else (c, e)

/-- The shortest decimal `c * 10 ^ e` that is read as the positive number
`mantissa * 2 ^ exponent`. Seventeen digits always suffice. -/
def shortest (mantissa : Nat) (exponent : Int) : Nat × Int :=
  let i := interval mantissa exponent
  let (c, e) := i.firstGrid (pointPlace i.center i.den) 17 1
  dropZeros 18 c e

/-- How the text of a number is laid out. -/
structure Layout where
  /-- The least decimal exponent that is written with leading zeros. -/
  least : Int
  /-- The first decimal exponent that is written as a power. -/
  bound : Int
  /-- What follows the digits of a whole number. -/
  whole : String
  /-- The fewest digits of a power. -/
  powerDigits : Nat

/-- Digits with `place` of them before the point. -/
def positional (layout : Layout) (digits : String) (place : Int) : String :=
  if place ≤ 0 then "0." ++ "".pushn '0' (-place).toNat ++ digits
  else if (digits.length : Int) ≤ place then
    digits.pushn '0' (place.toNat - digits.length) ++ layout.whole
  else
    String.ofList (digits.toList.take place.toNat) ++ "."
      ++ String.ofList (digits.toList.drop place.toNat)

/-- The first digit, the others after a point, and a signed power of ten. -/
def scientific (layout : Layout) (digits : String) (power : Int) : String :=
  let head := String.ofList (digits.toList.take 1)
  let tail := String.ofList (digits.toList.drop 1)
  let size := toString power.natAbs
  head ++ (if tail.isEmpty then "" else "." ++ tail) ++ "e" ++ (if power < 0 then "-" else "+")
    ++ "".pushn '0' (layout.powerDigits - size.length) ++ size

/-- The digits of a positive number in a layout. -/
def layOut (layout : Layout) (mantissa : Nat) (exponent : Int) : String :=
  let (c, e) := shortest mantissa exponent
  let digits := toString c
  let power := e + digits.length - 1
  if layout.least ≤ power ∧ power < layout.bound then positional layout digits (power + 1)
  else scientific layout digits power

/-- The text of a number in a layout, its sign included. -/
def render (layout : Layout) : Binary64 → String
  | nan => "nan"
  | infinity negative => if negative then "-inf" else "inf"
  | finite negative m e =>
    (if negative then "-" else "") ++ (if m = 0 then "0" ++ layout.whole else layOut layout m e)

/-- Numbers are written with all their digits from `0.0001` up to sixteen places before the point,
whole ones end in `.0`, and powers have two digits at least. -/
def textLayout : Layout := ⟨-4, 16, ".0", 2⟩

/-- The text of a number. -/
def text (x : Binary64) : String := x.render textLayout

/-- The layout of the two parts of a complex number: as `textLayout`, with no point after a whole
number. -/
def partLayout : Layout := ⟨-4, 16, "", 2⟩

end Binary64

end PooledSql
