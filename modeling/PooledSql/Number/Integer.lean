/-!
# Digits and numerals

Unicode 14 has several sets of ten decimal digits; in each of them the digits stand next to one
another, in the order of their values.

An integer is written in ASCII digits. Its numeral takes longer to make, the longer it is, in more
than proportion, so there is a limit to the number of digits, in reading as in writing.
-/

namespace PooledSql

namespace Text

/-- The code points of the digits zero. -/
def zeroDigits : List Nat := [
  48, 1632, 1776, 1984, 2406, 2534, 2662, 2790, 2918, 3046, 3174, 3302, 3430, 3558, 3664, 3792,
  3872, 4160, 4240, 6112, 6160, 6470, 6608, 6784, 6800, 6992, 7088, 7232, 7248, 42528, 43216,
  43264, 43472, 43504, 43600, 44016, 65296, 66720, 68912, 69734, 69872, 69942, 70096, 70384,
  70736, 70864, 71248, 71360, 71472, 71904, 72016, 72784, 73040, 73120, 92768, 92864, 93008,
  120782, 120792, 120802, 120812, 120822, 123200, 123632, 125264, 130032]

/-- The value of a decimal digit of any script, `none` for any other character. -/
def digitValue? (c : Char) : Option Nat :=
  if c.toNat < 128 then
    if 48 ≤ c.toNat ∧ c.toNat ≤ 57 then some (c.toNat - 48) else none
  else
    (zeroDigits.find? fun first => first ≤ c.toNat && c.toNat ≤ first + 9).map (c.toNat - ·)

end Text

/-- How many digits an integer may be written with. -/
def integerDigitLimit : Nat := 4300

/-- Whether an integer has more digits than it may be written with. -/
def isOverlong (n : Int) : Bool := integerDigitLimit < (Nat.toDigits 10 n.natAbs).length

/-- The numeral of an integer, if it may be written. -/
def numeral? (n : Int) : Option String := if isOverlong n then none else some (toString n)

end PooledSql
