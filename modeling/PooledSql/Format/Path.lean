import PooledSql.Number.Integer
import PooledSql.Value.Access

/-!
# Paths to values

The name of a field leads to a value: its first part names an argument, by number or by keyword,
and each further step takes a field of the value reached so far, or the part under an index. The
steps are taken as they are read, so a fault in the spelling of a later step shows only if the
steps before it succeed.
-/

namespace PooledSql

namespace Format

/-- An argument or the index of a part: a number, or any other text. -/
inductive Key
  | position (n : Nat)
  | name (s : List Char)
  deriving DecidableEq

/-- What is left of a path. -/
inductive Steps
  /-- The value has been reached. -/
  | done
  /-- The path is not spelled correctly from here on. -/
  | fault (f : PathFault)
  | field (name : List Char) (rest : Steps)
  | item (key : Key) (rest : Steps)
  deriving DecidableEq

/-- The largest number that a path may hold. -/
def largestIndex : Nat := Nat.pow 2 63 - 1

/-- A text as a key, given the number that its digits so far stand for. -/
def readKeyFrom (whole : List Char) (n : Nat) : List Char → Except PathFault Key
  | [] => .ok (.position n)
  | c :: cs =>
    match Text.digitValue? c with
    | none => .ok (.name whole)
    | some d =>
      if largestIndex < 10 * n + d then .error .tooManyDigits
      else readKeyFrom whole (10 * n + d) cs

/-- A text as a key: digits of any script are a number, unless it is too large. -/
def readKey (cs : List Char) : Except PathFault Key :=
  if cs.isEmpty then .ok (.name []) else readKeyFrom cs 0 cs

/-- A step to a field of some name. -/
def Steps.ofField : List Char × Steps → Steps
  | ([], _) => .fault .emptyStep
  | (name, rest) => .field name rest

/-- A step to the part under an index, if its bracket is closed. -/
def Steps.ofItem : Option (List Char × Steps) → Steps
  | none => .fault .unclosedIndex
  | some ([], _) => .fault .emptyStep
  | some (index, rest) =>
    match readKey index with
    | .ok key => .item key rest
    | .error f => .fault f

mutual

/-- The steps of a path from the end of a step on. -/
def readSteps : List Char → Steps
  | [] => .done
  | '.' :: cs => .ofField (readFieldName cs)
  | '[' :: cs => .ofItem (readIndex cs)
  | _ :: _ => .fault .textAfterIndex

/-- The name of a field and the steps after it. -/
def readFieldName : List Char → List Char × Steps
  | [] => ([], .done)
  | '.' :: cs => ([], .ofField (readFieldName cs))
  | '[' :: cs => ([], .ofItem (readIndex cs))
  | c :: cs =>
    let (name, rest) := readFieldName cs
    (c :: name, rest)

/-- The text up to the closing bracket and the steps after it. -/
def readIndex : List Char → Option (List Char × Steps)
  | [] => none
  | ']' :: cs => some ([], readSteps cs)
  | c :: cs => (readIndex cs).map fun (index, rest) => (c :: index, rest)

end

/-- Whether a character ends the first part of a path. -/
def startsStep (c : Char) : Bool := c == '.' || c == '['

/-- The values that a format string draws on. -/
structure Arguments where
  /-- Arguments by number. -/
  positional : List Value := []
  /-- Arguments by keyword. -/
  keyword : List (String × Value) := []

/-- Whether there are no arguments. -/
def Arguments.isEmpty (a : Arguments) : Bool := a.positional.isEmpty && a.keyword.isEmpty

/-- The argument under a key. -/
def Arguments.get (a : Arguments) : Key → Except Failure Value
  | .position n => Value.itemAt .tuple a.positional n
  | .name s =>
    match a.keyword.lookup (String.ofList s) with
    | some v => .ok v
    | none => .error (Fault.missingKey (.ofString (String.ofList s))).failure

/-- The value at the end of some steps. -/
def Steps.follow (v : Value) : Steps → Except Failure Value
  | .done => .ok v
  | .fault f => .error (Fault.format f).failure
  | .field name rest => do rest.follow (← v.fieldNamed (String.ofList name))
  | .item (.position n) rest => do rest.follow (← v.atPosition n)
  | .item (.name s) rest => do rest.follow (← v.atKey (String.ofList s))

/-- The value that a field name leads to. -/
def Arguments.resolve (a : Arguments) (name : List Char) : Except Failure Value :=
  match readKey (name.takeWhile fun c => !startsStep c) with
  | .error f => .error (Fault.format f).failure
  | .ok key => do
    (readSteps (name.dropWhile fun c => !startsStep c)).follow (← a.get key)

end Format

end PooledSql
