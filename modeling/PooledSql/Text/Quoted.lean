import PooledSql.Text.Printable

/-!
# Quoted spelling of texts and byte strings

A text is spelled between quote marks so that it can be told apart in a message: the marks are
single unless the text holds a single mark and no double one; a backslash, the mark in use and
what is not printable are escaped.
-/

namespace PooledSql.Text

/-- The apostrophe, which is the usual mark around a spelled-out text. -/
def apostrophe : Char := '\x27'

/-- The mark that encloses a text: the double mark if that saves escaping. -/
def enclosingMark (cs : List Char) : Char :=
  if cs.contains apostrophe && !cs.contains '"' then '"' else apostrophe

/-- The last `width` hexadecimal digits of a number, in lower case. -/
def hexDigits (width n : Nat) : List Char :=
  match width with
  | 0 => []
  | width + 1 => hexDigits width (n / 16) ++ [Nat.digitChar (n % 16)]

/-- The escape that all spellings share: the backslash, the mark in use, and the three control
characters with a letter of their own. -/
def shortEscape? (mark c : Char) : Option (List Char) :=
  if c = mark ∨ c = '\\' then some ['\\', c]
  else if c = '\n' then some ['\\', 'n']
  else if c = '\r' then some ['\\', 'r']
  else if c = '\t' then some ['\\', 't']
  else none

/-- One character of a text between marks: an unprintable one is given by its code point, in two,
four or eight digits. -/
def spellChar (mark c : Char) : List Char :=
  match shortEscape? mark c with
  | some escape => escape
  | none =>
    if isPrintable c then [c]
    else if c.toNat < 0x100 then '\\' :: 'x' :: hexDigits 2 c.toNat
    else if c.toNat < 0x10000 then '\\' :: 'u' :: hexDigits 4 c.toNat
    else '\\' :: 'U' :: hexDigits 8 c.toNat

/-- A text between quote marks. -/
def quoted (s : String) : String :=
  let mark := enclosingMark s.toList
  String.ofList (mark :: s.toList.flatMap (spellChar mark) ++ [mark])

/-- One byte of a byte string between marks: bytes outside printable ASCII are given in two
hexadecimal digits. -/
def spellByte (mark : Char) (byte : UInt8) : List Char :=
  let c := Char.ofNat byte.toNat
  match shortEscape? mark c with
  | some escape => escape
  | none =>
    if 32 ≤ byte.toNat ∧ byte.toNat < 127 then [c] else '\\' :: 'x' :: hexDigits 2 byte.toNat

/-- A byte string between quote marks, after the letter `b`. One that can be changed in place has
its apostrophes escaped whatever the mark in use. -/
def quotedBytes (mutable : Bool) (bytes : List UInt8) : String :=
  let mark := enclosingMark (bytes.map fun byte => Char.ofNat byte.toNat)
  let escaped := if mutable then apostrophe else mark
  String.ofList ('b' :: mark :: bytes.flatMap (spellByte escaped) ++ [mark])

end PooledSql.Text
