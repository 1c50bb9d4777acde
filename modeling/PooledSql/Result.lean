import PooledSql.Record

/-!
# Results

The outcome of a statement: the command that was run, how many rows it touched, and the rows that
it gave back. A row holds its columns in order and each name once; where a server gives a name
twice, the first place and the last value remain.
-/

namespace PooledSql

/-- The columns of a row, in order, with different names. -/
abbrev Row := List (String × Value)

namespace Row

/-- A row with a value put under a name: in the old place, or at the end under a new name. -/
def put (name : String) (v : Value) : Row → Row
  | [] => [(name, v)]
  | (n, old) :: rest => if n = name then (n, v) :: rest else (n, old) :: put name v rest

/-- The row of some named values given one after the other. -/
def ofColumns (columns : List (String × Value)) : Row :=
  columns.foldl (fun row (name, v) => put name v row) []

/-- A row as a value. -/
def toValue (row : Row) : Value := .dict (row.map fun (name, v) => (.ofString name, v))

end Row

/-- The outcome of a statement. -/
structure Result where
  command : String
  /-- The number of rows that the command reports, or `-1` if it reports none. -/
  rowCount : Int := -1
  rows : List Row := []

namespace Result

/-- A result of named fields. -/
def ofFields (fields : List (String × Value)) : Except Failure Result :=
  let command := Record.required fields "command" Record.string
  let rowCount := Record.optional fields "row_count" (-1) Record.integer
  let rows :=
    match fields.lookup "rows" with
    | some v => Record.rows [.name "rows"] v
    | none => .ok []
  Record.Checked.toExcept <|
    (command.both (rowCount.both rows)).map fun (command, rowCount, rows) =>
      { command, rowCount, rows := rows.map Row.ofColumns }

end Result

end PooledSql
