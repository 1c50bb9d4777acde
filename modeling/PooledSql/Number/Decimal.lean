import PooledSql.Number.Binary64

/-!
# Decimal numbers

A decimal number keeps the digits it was written with: `1.50` and `1.5` are different values of
this type. Its text uses a power of ten only when the digits do not reach the point, or reach it
from more than six places away.
-/

namespace PooledSql

/-- A decimal number. -/
inductive Decimal
  /-- The number `± coefficient * 10 ^ exponent`. -/
  | finite (negative : Bool) (coefficient : Nat) (exponent : Int)
  /-- Larger in size than every finite number. -/
  | infinity (negative : Bool)
  /-- The result of no number, which may signal when used, with a diagnostic code. -/
  | nan (negative signaling : Bool) (diagnostic : Nat)
  deriving DecidableEq, Inhabited

namespace Decimal

/-- Whether a number is neither infinite nor a `nan`. -/
def isFinite : Decimal → Bool
  | finite .. => true
  | _ => false

/-- Whether a number is a zero of either sign and any exponent. -/
def isZero : Decimal → Bool
  | finite _ c _ => c == 0
  | _ => false

/-- The digits of a coefficient with the point that its exponent calls for, and a power of ten
where the point is out of reach. -/
def finiteText (coefficient : Nat) (exponent : Int) : String :=
  let digits := (Nat.toDigits 10 coefficient)
  let left := exponent + digits.length
  let point := if exponent ≤ 0 ∧ -6 < left then left else 1
  let body :=
    if point ≤ 0 then '0' :: '.' :: List.replicate (-point).toNat '0' ++ digits
    else if (digits.length : Int) ≤ point then
      digits ++ List.replicate (point.toNat - digits.length) '0'
    else digits.take point.toNat ++ '.' :: digits.drop point.toNat
  let power := left - point
  String.ofList body ++
    (if power = 0 then "" else "E" ++ (if power < 0 then "-" else "+") ++ toString power.natAbs)

/-- The text of a number. -/
def text : Decimal → String
  | finite negative c e => (if negative then "-" else "") ++ finiteText c e
  | infinity negative => if negative then "-Infinity" else "Infinity"
  | nan negative signaling code =>
    (if negative then "-" else "") ++ (if signaling then "sNaN" else "NaN")
      ++ (if code = 0 then "" else toString code)

/-- A finite number as a signed numerator over a power of ten. -/
def toRatio? : Decimal → Option (Int × Nat)
  | finite negative c e =>
    let n : Int := if negative then -c else c
    some (if 0 ≤ e then (n * Nat.pow 10 e.toNat, 1) else (n, Nat.pow 10 (-e).toNat))
  | _ => none

/-- The integer that a finite number is, if it has no fractional part. -/
def toInt? (x : Decimal) : Option Int :=
  x.toRatio?.bind fun (n, d) => if n % d = 0 then some (n / d) else none

/-- The nearest floating-point number; a signaling `nan` has none. -/
def toBinary64? : Decimal → Option Binary64
  | finite negative c e => some (.ofDecimal negative c e)
  | infinity negative => some (.infinity negative)
  | nan _ signaling _ => if signaling then none else some .nan

end Decimal

end PooledSql
