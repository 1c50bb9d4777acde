import PooledSql.Number.Integer
import PooledSql.Number.Shortest
import PooledSql.Text.Quoted
import PooledSql.Value

/-!
# Spelling of values

How a value is written out in a message, so that a reader can tell values of different types
apart: texts stand in quotes, a tuple of one item keeps its comma, and a value of a client's type
is spelled the way that type wants. A value has no spelling if an integer in it has too many digits
to be written.
-/

namespace PooledSql

namespace Value

/-- The spelling that a type derived by a client gives to all its values, if there is one. -/
def ownSpelling? : Lineage → Option String
  | .plain => none
  | .derived type => type.spelling

/-- The spelling of a number or text of some lineage, where `plain` is that of the plain type. -/
def spellAs (lineage : Lineage) (plain : String) : String := (ownSpelling? lineage).getD plain

/-- The spelling of a floating-point number. -/
def spellFloat (lineage : Lineage) (x : Binary64) : String := spellAs lineage x.text

/-- The spelling of a decimal number. -/
def spellDecimal (lineage : Lineage) (x : Decimal) : String :=
  spellAs lineage ("Decimal('" ++ x.text ++ "')")

/-- A complex number: the imaginary part alone when the real part is a positive zero. -/
def spellComplex (re im : Binary64) : String :=
  let part := Binary64.render Binary64.partLayout
  if re = .zero false then part im ++ "j"
  else "(" ++ part re ++ (if im.isNegative then "" else "+") ++ part im ++ "j)"

/-- Spellings with commas between them. -/
def commaSeparated (spellings : List String) : String := ", ".intercalate spellings

/-- The spelling of a tuple. -/
def spellTuple : List String → String
  | [item] => "(" ++ item ++ ",)"
  | items => "(" ++ commaSeparated items ++ ")"

/-- The spelling of a segment of a template. -/
def spellSegment : Segment → String
  | .text lineage s => spellAs lineage (Text.quoted s)
  | .fragment _ => "RawFragment()"

mutual

/-- A value as it is written out in messages, if it can be. -/
def spell? : Value → Option String
  | null => some "None"
  | bool b => some (if b then "True" else "False")
  | int lineage n => ownSpelling? lineage <|> numeral? n
  | float lineage x => some (spellFloat lineage x)
  | decimal lineage x => some (spellDecimal lineage x)
  | text lineage s => some (spellAs lineage (Text.quoted s))
  | list items => do return "[" ++ commaSeparated (← spellAll? items) ++ "]"
  | tuple items => do return spellTuple (← spellAll? items)
  | dict entries => do return "\x7b" ++ commaSeparated (← spellEntries? entries) ++ "\x7d"
  | bytes mutable content =>
    let spelling := Text.quotedBytes mutable content
    some (if mutable then "bytearray(" ++ spelling ++ ")" else spelling)
  | record fields => do return "namespace(" ++ commaSeparated (← spellFields? fields) ++ ")"
  | date year month day =>
    some ("datetime.date(" ++ commaSeparated [toString year, toString month, toString day] ++ ")")
  | complex re im => some (spellComplex re im)
  | range stop => do return "range(0, " ++ (← numeral? stop) ++ ")"
  | object type => some (type.spelling.getD ("<" ++ type.name ++ ">"))
  | fragment _ => some "RawFragment()"
  | template segments values => do
    return "SqlTemplate(strings=" ++ spellTuple (segments.map spellSegment) ++ ", values="
      ++ spellTuple (← spellAll? values) ++ ")"
  | interpolation .. => some "<Template>"
  | statement sql params => do
    return "Statement(sql=" ++ (← spell? sql) ++ ", params=" ++ (← spell? params) ++ ")"

/-- The spellings of several values. -/
def spellAll? : List Value → Option (List String)
  | [] => some []
  | v :: vs => do return (← spell? v) :: (← spellAll? vs)

/-- The spellings of the entries of a dictionary. -/
def spellEntries? : List (Value × Value) → Option (List String)
  | [] => some []
  | (k, v) :: rest => do
    return ((← spell? k) ++ ": " ++ (← spell? v)) :: (← spellEntries? rest)

/-- The spellings of the fields of a record. -/
def spellFields? : List (String × Value) → Option (List String)
  | [] => some []
  | (name, v) :: rest => do return (name ++ "=" ++ (← spell? v)) :: (← spellFields? rest)

end

/-- Whether a value can be written out. -/
def isSpelled (v : Value) : Bool := v.spell?.isSome

end Value

end PooledSql
