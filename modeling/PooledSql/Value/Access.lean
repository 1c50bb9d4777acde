import PooledSql.Failure

/-!
# Access to the parts of values

Looking up a part of a value by position, key or name, running through it, and counting its parts.
What a value does not allow is a failure that says so.
-/

namespace PooledSql

/-- A number that keys are compared by: exact, so that equal numbers of different types are the
same key. -/
inductive KeyNumber
  | ratio (num : Int) (den : Nat)
  | infinity (negative : Bool)

/-- Whether two key numbers are equal. -/
def KeyNumber.same : KeyNumber → KeyNumber → Bool
  | ratio n d, ratio n' d' => n * d' == n' * d
  | infinity a, infinity b => a == b
  | _, _ => false

/-- The number that a floating-point number is as a key; a `nan` is none. -/
def Binary64.keyNumber? : Binary64 → Option KeyNumber
  | .infinity negative => some (.infinity negative)
  | x => x.toRatio?.map fun (n, d) => .ratio n d

/-- The number that a decimal number is as a key; a `nan` is none. -/
def Decimal.keyNumber? : Decimal → Option KeyNumber
  | .infinity negative => some (.infinity negative)
  | x => x.toRatio?.map fun (n, d) => .ratio n d

namespace Value

/-- The real and the imaginary part of the number that a value is as a key. -/
def keyNumbers? : Value → Option (KeyNumber × KeyNumber)
  | bool b => some (.ratio (if b then 1 else 0) 1, .ratio 0 1)
  | int _ n => some (.ratio n 1, .ratio 0 1)
  | float _ x => x.keyNumber?.map (·, .ratio 0 1)
  | decimal _ x => x.keyNumber?.map (·, .ratio 0 1)
  | complex re im => do return (← re.keyNumber?, ← im.keyNumber?)
  | _ => none

mutual

/-- Whether two values are the same key of a dictionary. -/
def sameKey : Value → Value → Bool
  | null, null => true
  | text _ s, text _ t => s == t
  | bytes _ a, bytes _ b => a == b
  | tuple a, tuple b => sameKeys a b
  | date y m d, date y' m' d' => y == y' && m == m' && d == d'
  | range a, range b => a.toNat == b.toNat
  | v, w =>
    match v.keyNumbers?, w.keyNumbers? with
    | some (a, b), some (c, d) => a.same c && b.same d
    | _, _ => false

/-- Whether two rows of values are the same keys in order. -/
def sameKeys : List Value → List Value → Bool
  | [], [] => true
  | v :: vs, w :: ws => sameKey v w && sameKeys vs ws
  | _, _ => false

end

/-- The value under a key. -/
def lookupKey (key : Value) (entries : List (Value × Value)) : Option Value :=
  (entries.find? fun (k, _) => k.sameKey key).map Prod.snd

/-- A value put under a key: in the place of the old one, or at the end under a new key. -/
def putKey (key v : Value) : List (Value × Value) → List (Value × Value)
  | [] => [(key, v)]
  | (k, old) :: rest => if k.sameKey key then (k, v) :: rest else (k, old) :: putKey key v rest

/-- A dictionary of entries given one after the other. -/
def ofEntries (entries : List (Value × Value)) : Value :=
  .dict (entries.foldl (fun es (k, v) => putKey k v es) [])

/-- An item of a sequence, counted from its start. -/
def itemAt (sequence : Sequence) (items : List Value) (n : Nat) : Except Failure Value :=
  match items[n]? with
  | some v => .ok v
  | none => .error (Fault.missingIndex sequence).failure

/-- The sequence that a value is, and its items. -/
def sequence? : Value → Option (Sequence × List Value)
  | list items => some (.list, items)
  | tuple items => some (.tuple, items)
  | text _ s => some (.text, charItems s)
  | bytes mutable content =>
    some (if mutable then .bytearray else .bytes, byteItems content)
  | range stop => some (.range, rangeItems stop)
  | _ => none

/-- The part of a value in a position; for a dictionary, under an integer key. -/
def atPosition (v : Value) (n : Nat) : Except Failure Value :=
  match v.sequence?, v with
  | some (sequence, items), _ => itemAt sequence items n
  | none, dict entries =>
    match lookupKey (ofInt n) entries with
    | some v => .ok v
    | none => .error (Fault.missingKey (ofInt n)).failure
  | none, v => .error (Fault.misuse (.notSubscriptable v.qualifiedTypeName)).failure

/-- The part of a value under a text key, which only a dictionary has. -/
def atKey (v : Value) (key : String) : Except Failure Value :=
  match v.sequence?, v with
  | some (sequence, _), _ => .error (Fault.misuse (.textIndex sequence)).failure
  | none, dict entries =>
    match lookupKey (ofString key) entries with
    | some v => .ok v
    | none => .error (Fault.missingKey (ofString key)).failure
  | none, v => .error (Fault.misuse (.notSubscriptable v.qualifiedTypeName)).failure

/-- The integer that a value of an integer type is. -/
def asInt? : Value → Option Int
  | bool b => some (if b then 1 else 0)
  | int _ n => some n
  | _ => none

/-- The fields of a value that hold its data. Integers are ratios, and every number has the parts of
a complex one. What a value owes to its type is left out: its methods, the type itself, and whatever
can be reached through these. A path by way of one of them is taken for one that leads nowhere,
although there is a value at its end. -/
def fields : Value → List (String × Value)
  | record fields => fields
  | float _ x => [("real", ofBinary64 x), ("imag", ofBinary64 (.zero false))]
  | decimal lineage x =>
    [("real", decimal lineage x), ("imag", decimal .plain (.finite false 0 0))]
  | complex re im => [("real", ofBinary64 re), ("imag", ofBinary64 im)]
  | date year month day =>
    [("year", ofInt year), ("month", ofInt month), ("day", ofInt day)]
  | range stop => [("start", ofInt 0), ("stop", ofInt stop), ("step", ofInt 1)]
  | template segments values =>
    [("strings", tuple (segments.map ofSegment)), ("values", tuple values)]
  | statement sql params => [("sql", sql), ("params", params)]
  | v =>
    match v.asInt? with
    | some n =>
      [("real", ofInt n), ("imag", ofInt 0), ("numerator", ofInt n), ("denominator", ofInt 1)]
    | none => []

/-- The field of a name. -/
def fieldNamed (v : Value) (name : String) : Except Failure Value :=
  match v.fields.lookup name with
  | some v => .ok v
  | none => .error (Fault.missingField v.typeName name).failure

/-- What a loop over a value runs through. -/
def items (v : Value) : Except Failure (List Value) :=
  match v.items? with
  | some items => .ok items
  | none => .error (Fault.misuse (.notIterable v.qualifiedTypeName)).failure

/-- How many parts a value has. -/
def size (v : Value) : Except Failure Nat :=
  match v.items? with
  | some items => .ok items.length
  | none => .error (Fault.misuse (.noLength v.qualifiedTypeName)).failure

end Value

end PooledSql
