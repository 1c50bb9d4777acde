import PooledSql.Number.Decimal
import PooledSql.Number.Integer
import PooledSql.Text.Blank

/-!
# Reading numbers

Numbers are read from texts after one grammar: a sign, digits with or without a point, and for
numbers with a point a power of ten or one of the words for infinity and `nan`. Readers differ in
the digits they know and in whether underscores may separate digits.
-/

namespace PooledSql

/-- What a reader of numbers admits. -/
structure NumberGrammar where
  /-- The value of a digit. -/
  digit : Char → Option Nat
  /-- Whether single underscores may stand between digits. -/
  grouped : Bool

/-- Digits of all scripts, in groups. -/
def NumberGrammar.liberal : NumberGrammar := ⟨Text.digitValue?, true⟩

/-- Digits of all scripts without groups. -/
def NumberGrammar.anyScript : NumberGrammar := ⟨Text.digitValue?, false⟩

/-- The value of an ASCII digit. -/
def asciiDigit? (c : Char) : Option Nat :=
  if c.toNat < 128 then Text.digitValue? c else none

/-- ASCII digits in groups. -/
def NumberGrammar.groupedAscii : NumberGrammar := ⟨asciiDigit?, true⟩

/-- ASCII digits without groups. -/
def NumberGrammar.plainAscii : NumberGrammar := ⟨asciiDigit?, false⟩

namespace NumberGrammar

/-- The digits at the start of a text and the rest of it. An underscore is passed over between two
digits; `afterDigit` says whether one has just been read. -/
def takeDigits (g : NumberGrammar) (afterDigit : Bool) : List Char → List Nat × List Char
  | [] => ([], [])
  | c :: cs =>
    match g.digit c with
    | some d =>
      let (ds, rest) := g.takeDigits true cs
      (d :: ds, rest)
    | none =>
      if g.grouped && afterDigit && c == '_' && (cs.head?.bind g.digit).isSome then
        g.takeDigits false cs
      else ([], c :: cs)

end NumberGrammar

/-- The number that a row of digits stands for. -/
def numberOfDigits (digits : List Nat) : Nat := digits.foldl (fun n d => 10 * n + d) 0

/-- Whether a sign at the start is a minus, and the text after it. -/
def takeSign : List Char → Bool × List Char
  | '-' :: cs => (true, cs)
  | '+' :: cs => (false, cs)
  | cs => (false, cs)

/-- The integer of a sign and a row of digits. -/
def signedInt (negative : Bool) (digits : List Nat) : Int :=
  if negative then -(numberOfDigits digits : Int) else numberOfDigits digits

/-- Why a text is not read as an integer. -/
inductive IntegerFault
  /-- The text is not a signed row of digits. -/
  | malformed
  /-- The text has more digits than may be read. -/
  | tooLong (digits : Nat)
  deriving DecidableEq

/-- An integer between blanks. -/
def readInteger (s : String) : Except IntegerFault Int :=
  let (negative, body) := takeSign (Text.trimBy Text.isSpacing s.toList)
  match NumberGrammar.liberal.takeDigits false body with
  | ([], _) => .error .malformed
  | (digits, []) =>
    if integerDigitLimit < digits.length then .error (.tooLong digits.length)
    else .ok (signedInt negative digits)
  | (_, _ :: _) => .error .malformed

/-- A text in ASCII lower case. -/
def lowerAscii (cs : List Char) : List Char := cs.map Char.toLower

/-- The digits, the number of those after the point, and the power of ten of an unsigned number
with digits, and the text that follows. -/
def takeMagnitude (g : NumberGrammar) (cs : List Char) : List Nat × Nat × Int × List Char :=
  let (whole, rest) := g.takeDigits false cs
  let (fraction, rest) :=
    match rest with
    | '.' :: after => g.takeDigits false after
    | _ => ([], rest)
  match rest with
  | c :: after =>
    if c = 'e' ∨ c = 'E' then
      let (negative, body) := takeSign after
      match g.takeDigits false body with
      | ([], _) => (whole ++ fraction, fraction.length, 0, rest)
      | (power, rest) => (whole ++ fraction, fraction.length, signedInt negative power, rest)
    else (whole ++ fraction, fraction.length, 0, rest)
  | [] => (whole ++ fraction, fraction.length, 0, [])

/-- A floating-point number with nothing around it. -/
def readBinary64By (g : NumberGrammar) (cs : List Char) : Option Binary64 :=
  let (negative, body) := takeSign cs
  let word := String.ofList (lowerAscii body)
  if word == "inf" || word == "infinity" then some (.infinity negative)
  else if word == "nan" then some .nan
  else match takeMagnitude g body with
    | ([], _) => none
    | (digits, places, power, []) =>
      some (.ofDecimal negative (numberOfDigits digits) (power - places))
    | (_, _, _, _ :: _) => none

/-- A floating-point number between blanks. -/
def readBinary64 (s : String) : Option Binary64 :=
  readBinary64By .liberal (Text.trimBy Text.isSpacing s.toList)

/-- A decimal number between blanks; underscores are ignored wherever they stand. -/
def readDecimal (s : String) : Option Decimal :=
  let cs := (Text.trimBy Text.isBlank s.toList).filter (· != '_')
  let (negative, body) := takeSign cs
  let word := String.ofList (lowerAscii body)
  let codeOf := fun (skip : Nat) =>
    match NumberGrammar.anyScript.takeDigits false (body.drop skip) with
    | (digits, []) => some (numberOfDigits digits)
    | _ => none
  if word == "inf" || word == "infinity" then some (.infinity negative)
  else if word.startsWith "nan" then (codeOf 3).map (.nan negative false)
  else if word.startsWith "snan" then (codeOf 4).map (.nan negative true)
  else match takeMagnitude .anyScript body with
    | ([], _) => none
    | (digits, places, power, []) =>
      some (.finite negative (numberOfDigits digits) (power - places))
    | (_, _, _, _ :: _) => none

end PooledSql
