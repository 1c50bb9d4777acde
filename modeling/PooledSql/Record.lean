import PooledSql.Record.Coercion
import PooledSql.Value.Spelling

/-!
# Records of named fields

A record is read from named values, field after field. Fields that it does not know are passed
over, and everything that is wrong with the others is reported together.
-/

namespace PooledSql

namespace Record

/-- Something wrong with a part of a record. -/
abbrev Problem := List Location × Complaint

/-- The outcome of reading: a value, or everything that is wrong. -/
abbrev Checked (α : Type) := Except (List Problem) α

/-- Two outcomes together; problems of both are reported. -/
def Checked.both {α β : Type} : Checked α → Checked β → Checked (α × β)
  | .ok a, .ok b => .ok (a, b)
  | .ok _, .error q => .error q
  | .error p, .ok _ => .error p
  | .error p, .error q => .error (p ++ q)

/-- Outcomes in a row together. -/
def Checked.all {α : Type} : List (Checked α) → Checked (List α)
  | [] => .ok []
  | c :: cs => (c.both (Checked.all cs)).map fun (a, as) => a :: as

/-- A single value, with its place. -/
def Checked.at {α : Type} (place : List Location) : Except Complaint α → Checked α
  | .ok a => .ok a
  | .error c => .error [(place, c)]

/-- A failure that reports everything that is wrong. -/
def Checked.toExcept {α : Type} : Checked α → Except Failure α
  | .ok a => .ok a
  | .error problems => .error (Fault.invalid problems).failure

/-- A field with a default value. -/
def optional {α : Type} (fields : List (String × Value)) (name : String) (default : α)
    (read : Value → Except Complaint α) : Checked α :=
  match fields.lookup name with
  | some v => Checked.at [.name name] (read v)
  | none => .ok default

/-- A field that must be there. -/
def required {α : Type} (fields : List (String × Value)) (name : String)
    (read : Value → Except Complaint α) : Checked α :=
  match fields.lookup name with
  | some v => Checked.at [.name name] (read v)
  | none => .error [([.name name], .missing)]

/-- The largest integer that a place can show as a position. -/
def positionBound : Int := Nat.pow 2 63

/-- The name of a place that a value which is no text stands for. -/
def placeName (v : Value) : String := v.spell?.getD ("<unprintable " ++ v.typeName ++ " object>")

/-- The key of a dictionary as a place. -/
def keyPlace : Value → Location
  | .text _ s => .name s
  | .bool b => .position (if b then 1 else 0)
  | .int lineage n =>
    if -positionBound ≤ n ∧ n < positionBound then .position n
    else .name (placeName (.int lineage n))
  | v => .name (placeName v)

/-- A dictionary with texts for keys. -/
def row (place : List Location) : Value → Checked (List (String × Value))
  | .dict entries =>
    Checked.all (entries.map fun (k, v) =>
      (Checked.at (place ++ [keyPlace k, .name "[key]"]) (string k)).map fun name => (name, v))
  | _ => .error [(place, .notADictionary)]

/-- A list of dictionaries. -/
def rows (place : List Location) (v : Value) : Checked (List (List (String × Value))) :=
  let items? : Option (List Value) :=
    match v with
    | .list items => some items
    | .tuple items => some items
    | .range stop => some (Value.rangeItems stop)
    | _ => none
  match items? with
  | none => .error [(place, .notAList)]
  | some items =>
    Checked.all (items.zipIdx.map fun (item, k) => row (place ++ [.position k]) item)

end Record

end PooledSql
