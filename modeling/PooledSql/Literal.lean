import PooledSql.Value.Access

/-!
# Literals and identifiers

How a value is written into SQL text. A quote inside a quoted text is doubled; a text with a
backslash is written in the form whose backslashes escape, behind a space that keeps the `E` from
joining a word in front of it. Numbers are written from their value alone, whatever their type says
of itself; an integer with too many digits is not written.
-/

namespace PooledSql

namespace Literal

/-- A text with every occurrence of a mark doubled. -/
def doubling (mark : Char) (cs : List Char) : List Char :=
  cs.flatMap fun c => if c = mark then [c, c] else [c]

/-- A quoted identifier. -/
def identifierText (s : String) : String :=
  String.ofList ('"' :: doubling '"' s.toList ++ ['"'])

/-- One character of a text constant: quotes and backslashes are doubled. -/
def constantChar (c : Char) : List Char :=
  if c = '\x27' ∨ c = '\\' then [c, c] else [c]

/-- A text constant. -/
def constantText (s : String) : String :=
  let body := '\x27' :: s.toList.flatMap constantChar ++ ['\x27']
  String.ofList (if s.toList.contains '\\' then ' ' :: 'E' :: body else body)

/-- A value as a quoted identifier, which only a text can be. -/
def identifier : Value → Except Failure String
  | .text _ s => .ok (identifierText s)
  | v => .error (Fault.literal (.identifierType v.typeName)).failure

/-- Pieces with a separator between neighbours. -/
def joinWith (separator : String) (pieces : List String) : String := separator.intercalate pieces

mutual

/-- A value as a literal. Lists and tuples are array constructors. -/
def ofValue : Value → Except Failure String
  | .null => .ok "null"
  | .bool b => .ok (if b then "true" else "false")
  | .int _ n =>
    match numeral? n with
    | some text => .ok text
    | none => .error (Fault.number .overlong).failure
  | .float lineage x =>
    if x.isFinite then .ok x.text
    else .error (Fault.literal (.notFinite (Value.spellFloat lineage x))).failure
  | .decimal lineage x =>
    if x.isFinite then .ok x.text
    else .error (Fault.literal (.notFinite (Value.spellDecimal lineage x))).failure
  | .list items => do
    let pieces ← ofValues items
    return "Array[" ++ joinWith ", " pieces ++ "]"
  | .tuple items => do
    let pieces ← ofValues items
    return "Array[" ++ joinWith ", " pieces ++ "]"
  | .text _ s => .ok (constantText s)
  | v => .error (Fault.literal (.literalType v.typeName)).failure

/-- Several values as literals; the first one that has no literal decides the failure. -/
def ofValues : List Value → Except Failure (List String)
  | [] => .ok []
  | v :: vs => do
    let piece ← ofValue v
    let pieces ← ofValues vs
    return piece :: pieces

end

/-- Several values as quoted identifiers. -/
def identifiers : List Value → Except Failure (List String)
  | [] => .ok []
  | v :: vs => do
    let piece ← identifier v
    let pieces ← identifiers vs
    return piece :: pieces

/-- What a value runs through, as literals with a separator between them. -/
def joinedLiterals (values : Value) (separator : String) : Except Failure String := do
  return joinWith separator (← ofValues (← values.items))

/-- What a value runs through, as quoted identifiers with a separator between them. -/
def joinedIdentifiers (values : Value) (separator : String) : Except Failure String := do
  return joinWith separator (← identifiers (← values.items))

/-- The separator of lists. -/
def defaultSeparator : String := ", "

end Literal

end PooledSql
