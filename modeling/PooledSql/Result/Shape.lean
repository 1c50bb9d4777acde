import PooledSql.Result

/-!
# Shapes of results

A query may ask for all of a result or for a part of it: its rows, its first row, the first value
of its first row, or the first value of every row. The name of the first row's first column decides
which values make up the column.
-/

namespace PooledSql

/-- What a query asks for. -/
inductive Shape
  | result
  | rows
  | row
  | value
  | column
  deriving DecidableEq, Inhabited

/-- What a task gives back. -/
inductive Reply
  | result (r : Result)
  | rows (rows : List Row)
  | row (row : Option Row)
  | value (v : Value)
  | column (vs : List Value)

namespace Result

/-- The first row, if there is one. -/
def firstRow (r : Result) : Option Row := r.rows.head?

/-- The first value of the first row; `null` if there is none. -/
def firstValue (r : Result) : Value :=
  match r.rows with
  | ((_, v) :: _) :: _ => v
  | _ => .null

/-- The values of rows under a name, which every row must have. -/
def valuesUnder (name : String) : List Row → Except Failure (List Value)
  | [] => .ok []
  | row :: rows =>
    match row.lookup name with
    | none => .error (Fault.missingKey (.ofString name)).failure
    | some v => do
      let vs ← valuesUnder name rows
      return v :: vs

/-- The value of every row under the name of the first column of the first row; `null` for every
row if the first row has no column. -/
def firstColumn (r : Result) : Except Failure (List Value) :=
  match r.rows with
  | [] => .ok []
  | [] :: _ => .ok (r.rows.map fun _ => .null)
  | ((name, _) :: _) :: _ => valuesUnder name r.rows

end Result

/-- The part of a result that a shape names. -/
def Shape.ofResult (r : Result) : Shape → Except Failure Reply
  | .result => .ok (.result r)
  | .rows => .ok (.rows r.rows)
  | .row => .ok (.row r.firstRow)
  | .value => .ok (.value r.firstValue)
  | .column => do return .column (← r.firstColumn)

/-- The part of a reply that a shape names; only a whole result has parts. -/
def Shape.ofReply (shape : Shape) : Reply → Except Failure Reply
  | .result r => shape.ofResult r
  | reply => .ok reply

end PooledSql
