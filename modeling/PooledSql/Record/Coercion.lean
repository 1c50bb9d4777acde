import PooledSql.Number.Reading
import PooledSql.Failure

/-!
# Lenient reading of values

What a field of a record takes for an integer, a number or a text. An integer may come as a number
without a fractional part or as a text; a number may come as a text; a text may come as bytes.
-/

namespace PooledSql

namespace Record

/-- The text that a byte string holds in UTF-8. -/
def utf8? (content : List UInt8) : Option String :=
  String.fromUTF8? ⟨content.toArray⟩

/-- The zeros that may follow the point of an integer. -/
def isZeroFraction : List Char → Bool
  | '.' :: zeros => zeros.all (· == '0')
  | rest => rest.isEmpty

/-- An integer written as a text between blanks: digits in groups, and zeros after a point. The
length of the text is limited. -/
def integerOfText (s : String) : Except Complaint Int :=
  let trimmed := Text.trimBy Text.isSpacing s.toList
  let (negative, body) := takeSign trimmed
  if integerDigitLimit < trimmed.length then .error .tooLarge
  else match NumberGrammar.groupedAscii.takeDigits false body with
  | ([], _) => .error .integerText
  | (digits, rest) =>
    if isZeroFraction rest then .ok (signedInt negative digits) else .error .integerText

/-- A text without underscores, which must stand alone and inside the text. -/
def withoutUnderscores? (cs : List Char) : Option (List Char) :=
  let doubled := (cs.zip cs.tail).any fun (a, b) => a == '_' && b == '_'
  if cs.head? == some '_' || cs.getLast? == some '_' || doubled || !cs.contains '_' then none
  else some (cs.filter (· != '_'))

/-- A number written as a text: between blanks, or with underscores and nothing around it. -/
def numberOfText (s : String) : Except Complaint Binary64 :=
  match readBinary64By .plainAscii (Text.trimBy Text.isSpacing s.toList) with
  | some x => .ok x
  | none =>
    match (withoutUnderscores? s.toList).bind (readBinary64By .plainAscii) with
    | some x => .ok x
    | none => .error .numberText

/-- The size below which a floating-point number is read as an integer. -/
def floatIntegerBound : Nat := Nat.pow 2 63

/-- What is read as an integer. -/
def integer : Value → Except Complaint Int
  | .bool b => .ok (if b then 1 else 0)
  | .int _ n => .ok n
  | .float _ x =>
    if x.isFinite then
      match x.toInt? with
      | some n => if n.natAbs < floatIntegerBound then .ok n else .error .tooLarge
      | none => .error .fractional
    else .error .notFinite
  | .decimal _ x =>
    if x.isFinite then
      match x.toInt? with
      | some n => .ok n
      | none => .error .fractional
    else .error .notFinite
  | .text _ s => integerOfText s
  | .bytes false content =>
    match utf8? content with
    | some s => integerOfText s
    | none => .error .integerText
  | _ => .error .notAnInteger

/-- What is read as a number. -/
def number : Value → Except Complaint Binary64
  | .bool b => .ok (.ofInt (if b then 1 else 0))
  | .int _ n =>
    let x := Binary64.ofInt n
    if x.isFinite then .ok x else .error .notANumber
  | .float _ x => .ok x
  | .decimal _ x =>
    match x.toBinary64? with
    | some x => .ok x
    | none => .error .notANumber
  | .text _ s => numberOfText s
  | .bytes false content =>
    match utf8? content with
    | some s => numberOfText s
    | none => .error .numberText
  | _ => .error .notANumber

/-- What is read as a text. -/
def string : Value → Except Complaint String
  | .text _ s => .ok s
  | .bytes _ content =>
    match utf8? content with
    | some s => .ok s
    | none => .error .notUnicode
  | _ => .error .notAString

/-- What is read as a text or its absence. -/
def optionalString : Value → Except Complaint (Option String)
  | .null => .ok none
  | v => (string v).map some

/-- An integer with a lower bound. -/
def integerFrom (bound : Nat) (v : Value) : Except Complaint Int := do
  let n ← integer v
  if (bound : Int) ≤ n then .ok n else .error (.below bound)

/-- A number that is not negative. -/
def nonnegative (v : Value) : Except Complaint Binary64 := do
  let x ← number v
  if x.isNonneg then .ok x else .error (.below 0)

/-- A number above zero. -/
def positive (v : Value) : Except Complaint Binary64 := do
  let x ← number v
  if x.isPositive then .ok x else .error (.notAbove 0)

end Record

end PooledSql
