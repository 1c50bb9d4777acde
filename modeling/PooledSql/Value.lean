import PooledSql.Failure.Kind
import PooledSql.Number.Decimal

/-!
# Values

What a client may put into a statement, and what a server may give back. Values are dynamic: a
list may hold anything, and whether a value has a form in SQL is decided when it is rendered.

Fragments are pieces of SQL text that are spliced rather than passed. What a fragment is resolved to
depends on nothing but the connection, so it can be resolved any number of times and to the same
text each time.
-/

namespace PooledSql

/-- A type that a client has defined. -/
structure ClientType where
  /-- Its name in messages. -/
  name : String
  /-- How its values are spelled in messages, if the type decides that itself. -/
  spelling : Option String
  deriving DecidableEq, Inhabited

/-- Whether a number or text has its plain type or one that a client derived from it. A derived
type may spell its values as it likes, so nothing rendered into SQL may ask it. -/
inductive Lineage
  | plain
  | derived (type : ClientType)
  deriving DecidableEq, Inhabited

/-- What a statement is being rendered for. -/
inductive Context
  /-- No connection. -/
  | nowhere
  /-- A connection known by a name. -/
  | named (name : String)
  /-- A connection and the process that serves it, if the server tells. -/
  | connection (pid : Option Nat)
  deriving DecidableEq, Inhabited

/-- The text that stands for a context. -/
def Context.text : Context → String
  | nowhere => "none"
  | named name => name
  | connection (some pid) => "backend " ++ toString pid
  | connection none => "backend None"

/-- SQL text that is spliced into a statement. -/
inductive Fragment
  /-- Text that was escaped when the fragment was made. -/
  | text (content : String)
  /-- A label followed by the connection that the statement is going to run on. -/
  | onConnection (label : String)
  /-- A fragment that cannot be resolved. -/
  | failing (message : String)
  /-- A rendering of a client's own: a text, or a failure of some kind with a message. -/
  | rendered (render : Context → Except (Kind × Option String) String)
  /-- Fragments one after the other, with a text between neighbours. -/
  | joined (separator : String) (parts : List Fragment)

/-- A literal piece of a template: text, or a fragment in the place of text. -/
inductive Segment
  | text (lineage : Lineage) (content : String)
  | fragment (fragment : Fragment)

/-- A dynamic value. -/
inductive Value
  /-- No value. -/
  | null
  | bool (b : Bool)
  | int (lineage : Lineage) (n : Int)
  | float (lineage : Lineage) (x : Binary64)
  | decimal (lineage : Lineage) (x : Decimal)
  | text (lineage : Lineage) (content : String)
  | list (items : List Value)
  | tuple (items : List Value)
  /-- Entries in the order in which their keys were first inserted. -/
  | dict (entries : List (Value × Value))
  /-- A byte string, which may be of the kind that can be changed in place. -/
  | bytes (mutable : Bool) (content : List UInt8)
  /-- An object with named fields. -/
  | record (fields : List (String × Value))
  | date (year month day : Nat)
  | complex (re im : Binary64)
  /-- The integers from zero up to a bound. -/
  | range (stop : Int)
  /-- An object of a client's own making. -/
  | object (type : ClientType)
  | fragment (fragment : Fragment)
  | template (segments : List Segment) (values : List Value)
  /-- A text with interpolated values: its pieces, and for each value the expression it comes
  from, its conversion and its format. -/
  | interpolation (pieces : List Value) (parts : List (Value × String × Option String × String))
  | statement (sql params : Value)

instance : Inhabited Value := ⟨.null⟩

namespace Value

/-- A plain integer. -/
abbrev ofInt (n : Int) : Value := .int .plain n

/-- A plain text. -/
abbrev ofString (s : String) : Value := .text .plain s

/-- A plain floating-point number. -/
abbrev ofBinary64 (x : Binary64) : Value := .float .plain x

/-- A segment as a value. -/
def ofSegment : Segment → Value
  | .text lineage s => .text lineage s
  | .fragment f => .fragment f

/-- The name of a value's type in messages. -/
def typeName : Value → String
  | null => "NoneType"
  | bool _ => "bool"
  | int .plain _ => "int"
  | int (.derived type) _ => type.name
  | float .plain _ => "float"
  | float (.derived type) _ => type.name
  | decimal .plain _ => "Decimal"
  | decimal (.derived type) _ => type.name
  | text .plain _ => "str"
  | text (.derived type) _ => type.name
  | list _ => "list"
  | tuple _ => "tuple"
  | dict _ => "dict"
  | bytes false _ => "bytes"
  | bytes true _ => "bytearray"
  | record _ => "SimpleNamespace"
  | date .. => "date"
  | complex .. => "complex"
  | range _ => "range"
  | object type => type.name
  | fragment _ => "RawFragment"
  | template .. => "SqlTemplate"
  | interpolation .. => "Template"
  | statement .. => "Statement"

/-- The name of a value's type in messages about an operation that it lacks, where types of the
standard library carry the name of their module. -/
def qualifiedTypeName : Value → String
  | record _ => "types.SimpleNamespace"
  | date .. => "datetime.date"
  | decimal .plain _ => "decimal.Decimal"
  | v => v.typeName

/-- Whether a value counts as true: zeros and empty containers do not. -/
def truthy : Value → Bool
  | null => false
  | bool b => b
  | int _ n => n != 0
  | float _ x => !x.isZero
  | decimal _ x => !x.isZero
  | text _ s => !s.isEmpty
  | list vs => !vs.isEmpty
  | tuple vs => !vs.isEmpty
  | dict es => !es.isEmpty
  | bytes _ bs => !bs.isEmpty
  | complex re im => !(re.isZero && im.isZero)
  | range stop => 0 < stop
  | _ => true

/-- The integers that a range holds, as values. -/
def rangeItems (stop : Int) : List Value :=
  (List.range stop.toNat).map fun (k : Nat) => ofInt k

/-- The bytes of a byte string, as values. -/
def byteItems (content : List UInt8) : List Value :=
  content.map fun byte => ofInt byte.toNat

/-- The characters of a text, as values. -/
def charItems (content : String) : List Value :=
  content.toList.map fun c => ofString (String.singleton c)

/-- What a loop over a value runs through: the characters of a text, the keys of a dictionary. -/
def items? : Value → Option (List Value)
  | text _ s => some (charItems s)
  | list vs => some vs
  | tuple vs => some vs
  | dict es => some (es.map Prod.fst)
  | bytes _ bs => some (byteItems bs)
  | range stop => some (rangeItems stop)
  | _ => none

end Value

/-- A statement that is ready to run: SQL text with numbered placeholders, and the parameters in
the order of their numbers. -/
structure Statement where
  sql : String
  /-- Parameters in the order of the placeholders. -/
  params : List Value := []
  /-- Whether the text came in as it is from a client's own type of text. -/
  lineage : Lineage := .plain

/-- Literal segments with values between them; a well-formed template has one segment more than it
has values. -/
structure Template where
  segments : List Segment
  values : List Value
  /-- A value stands between two segments. -/
  length_segments : segments.length = values.length + 1

end PooledSql
