/-!
# Floating-point numbers

The numbers of IEEE 754 binary64, as exact values: a finite number is a sign, a natural mantissa
and a power of two. Everything that is read or computed here goes through ratios of natural
numbers, so that rounding happens at one place, `Binary64.ofRatio`, to nearest with ties to even.
-/

namespace PooledSql

/-- A binary64 number. A finite number has a mantissa below `2 ^ 53` and an exponent from `-1074`
to `971`; its mantissa is at least `2 ^ 52` unless its exponent is the least one. -/
inductive Binary64
  /-- The result of no number. -/
  | nan
  /-- Larger in size than every finite number. -/
  | infinity (negative : Bool)
  /-- The number `± mantissa * 2 ^ exponent`. -/
  | finite (negative : Bool) (mantissa : Nat) (exponent : Int)
  deriving DecidableEq, Inhabited

namespace Binary64

/-- The least exponent of a finite number. -/
def minExponent : Int := -1074

/-- The largest exponent of a finite number. -/
def maxExponent : Int := 971

/-- The quotient of two natural numbers rounded to nearest, ties to the even neighbour. -/
def roundedQuotient (num den : Nat) : Nat :=
  let q := num / den
  let r := num % den
  if 2 * r < den then q
  else if den < 2 * r then q + 1
  else q + q % 2

/-- The ratio `num / den / 2 ^ e`, as a numerator and a denominator. -/
def shifted (num den : Nat) (e : Int) : Nat × Nat :=
  if 0 ≤ e then (num, den * Nat.pow 2 e.toNat) else (num * Nat.pow 2 (-e).toNat, den)

/-- The exponent that leaves a ratio a mantissa of 53 bits, or the least one. -/
def exponentOf (num den : Nat) : Int :=
  let e : Int := (num.log2 : Int) - den.log2 - 52
  let (n, d) := shifted num den e
  max minExponent (if Nat.pow 2 52 ≤ n / d then e else e - 1)

/-- The zero of a sign. -/
def zero (negative : Bool) : Binary64 := finite negative 0 minExponent

/-- The number nearest to a ratio. -/
def ofRatio (negative : Bool) (num den : Nat) : Binary64 :=
  if num = 0 then zero negative
  else
    let e := exponentOf num den
    let (n, d) := shifted num den e
    let m := roundedQuotient n d
    let (m, e) := if m = Nat.pow 2 53 then (Nat.pow 2 52, e + 1) else (m, e)
    if maxExponent < e then infinity negative else finite negative m e

/-- How many decimal digits a natural number has. -/
def digitCount (n : Nat) : Nat := (Nat.toDigits 10 n).length

/-- The number nearest to `± coefficient * 10 ^ exponent`. A number with its first digit beyond
the four hundredth place before or after the point is out of range, whatever its digits. -/
def ofDecimal (negative : Bool) (coefficient : Nat) (exponent : Int) : Binary64 :=
  let place := (digitCount coefficient : Int) + exponent
  if coefficient = 0 ∨ place < -400 then zero negative
  else if 400 < place then infinity negative
  else if 0 ≤ exponent then ofRatio negative (coefficient * Nat.pow 10 exponent.toNat) 1
  else ofRatio negative coefficient (Nat.pow 10 (-exponent).toNat)

/-- The number nearest to an integer. -/
def ofInt (n : Int) : Binary64 := ofRatio (n < 0) n.natAbs 1

/-- Whether a number is neither infinite nor `nan`. -/
def isFinite : Binary64 → Bool
  | finite .. => true
  | _ => false

/-- Whether a number is one of the two zeros. -/
def isZero : Binary64 → Bool
  | finite _ m _ => m == 0
  | _ => false

/-- Whether a number is at least zero. This holds of both zeros and not of `nan`. -/
def isNonneg : Binary64 → Bool
  | nan => false
  | infinity negative => !negative
  | finite negative m _ => !negative || m == 0

/-- Whether a number exceeds zero. -/
def isPositive : Binary64 → Bool
  | nan => false
  | infinity negative => !negative
  | finite negative m _ => !negative && m != 0

/-- A finite number as a signed numerator over a power of two. -/
def toRatio? : Binary64 → Option (Int × Nat)
  | finite negative m e =>
    let n : Int := if negative then -m else m
    some (if 0 ≤ e then (n * Nat.pow 2 e.toNat, 1) else (n, Nat.pow 2 (-e).toNat))
  | _ => none

/-- The integer that a finite number is, if it has no fractional part. -/
def toInt? (x : Binary64) : Option Int :=
  x.toRatio?.bind fun (n, d) => if n % d = 0 then some (n / d) else none

/-- The sign of a number that has one. -/
def isNegative : Binary64 → Bool
  | nan => false
  | infinity negative => negative
  | finite negative _ _ => negative

end Binary64

end PooledSql
