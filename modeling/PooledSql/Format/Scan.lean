import PooledSql.Failure.Message

/-!
# Format strings

A format string is literal text with fields in braces; literal braces are doubled. A field is a
name, then perhaps a conversion after `!` and a format after `:`. Brackets in a name hide braces
and the two marks, and the format of a field may hold balanced braces.
-/

namespace PooledSql

namespace Format

/-- A field of a format string. -/
structure Field where
  /-- The path to the value. -/
  name : List Char
  /-- The conversion, if there is one. -/
  conversion : Option Char
  /-- The format, which may be empty. -/
  spec : List Char
  deriving DecidableEq

/-- A format string taken apart: the text in front, and each field with the text after it. -/
structure Parts where
  text : List Char
  fields : List (Field × List Char)
  deriving DecidableEq

/-- Parts with one more character in front. -/
def Parts.push (c : Char) (p : Parts) : Parts := { p with text := c :: p.text }

/-- Parts with a field, and no text before it, in front. -/
def Parts.cons (f : Field) (p : Parts) : Parts := ⟨[], (f, p.text) :: p.fields⟩

/-- A field with one more character in front of its name. -/
def Field.pushName (c : Char) (f : Field) : Field := { f with name := c :: f.name }

mutual

/-- Literal text up to the next field. -/
def scanText : List Char → Except FormatFault Parts
  | [] => .ok ⟨[], []⟩
  | '\x7b' :: '\x7b' :: cs => (scanText cs).map (.push '\x7b')
  | ['\x7b'] => .error .singleOpening
  | '\x7b' :: c :: cs => (scanName (c :: cs)).map fun (f, p) => .cons f p
  | '\x7d' :: '\x7d' :: cs => (scanText cs).map (.push '\x7d')
  | '\x7d' :: _ => .error .singleClosing
  | c :: cs => (scanText cs).map (.push c)

/-- The rest of a field whose name is being read, and the parts after it. -/
def scanName : List Char → Except FormatFault (Field × Parts)
  | [] => .error .unclosedField
  | '\x7b' :: _ => .error .braceInName
  | '[' :: cs => (scanIndex cs).map fun (f, p) => (f.pushName '[', p)
  | '\x7d' :: cs => (scanText cs).map fun p => (⟨[], none, []⟩, p)
  | ':' :: cs => (scanSpec 0 cs).map fun (spec, p) => (⟨[], none, spec⟩, p)
  | '!' :: cs => (scanConversion cs).map fun (conversion, spec, p) => (⟨[], conversion, spec⟩, p)
  | c :: cs => (scanName cs).map fun (f, p) => (f.pushName c, p)

/-- The rest of a field inside a bracket of its name. -/
def scanIndex : List Char → Except FormatFault (Field × Parts)
  | [] => .error .unclosedField
  | ']' :: cs => (scanName cs).map fun (f, p) => (f.pushName ']', p)
  | c :: cs => (scanIndex cs).map fun (f, p) => (f.pushName c, p)

/-- The conversion of a field, its format, and the parts after it. The character NUL is no
conversion. -/
def scanConversion : List Char → Except FormatFault (Option Char × List Char × Parts)
  | [] => .error .endsInConversion
  | [_] => .error .unclosedSpec
  | c :: '\x7d' :: cs =>
    (scanText cs).map fun p => (if c.toNat = 0 then none else some c, [], p)
  | c :: ':' :: cs =>
    (scanSpec 0 cs).map fun (spec, p) => (if c.toNat = 0 then none else some c, spec, p)
  | _ :: _ :: _ => .error .textAfterConversion

/-- The format of a field inside a number of further braces, and the parts after it. -/
def scanSpec (depth : Nat) : List Char → Except FormatFault (List Char × Parts)
  | [] => .error .unclosedSpec
  | '\x7b' :: cs => (scanSpec (depth + 1) cs).map fun (spec, p) => ('\x7b' :: spec, p)
  | '\x7d' :: cs =>
    match depth with
    | 0 => (scanText cs).map fun p => ([], p)
    | depth + 1 => (scanSpec depth cs).map fun (spec, p) => ('\x7d' :: spec, p)
  | c :: cs => (scanSpec depth cs).map fun (spec, p) => (c :: spec, p)

end

/-- The parts of a format string. -/
def parts (format : String) : Except FormatFault Parts := scanText format.toList

end Format

end PooledSql
