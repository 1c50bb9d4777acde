import PooledSql.Number.Reading
import PooledSql.Result

/-!
# Status tags

A server ends a statement with a tag such as `INSERT 0 1`: the first word names the command, and
the last one is the number of rows touched if it is a number.
-/

namespace PooledSql

namespace StatusTag

/-- The count that the words of a tag report. -/
def count (words : List String) : Int :=
  if words.length < 2 then -1
  else
    match (words.getLast?.map readInteger) with
    | some (.ok n) => n
    | _ => -1

/-- The command and the count of a tag. Without a tag there is no command, and the rows fetched are
counted; a tag of blanks has no first word to go by. -/
def parse (tag : Option String) (fetched : Int) : Except Failure (String × Int) :=
  match tag with
  | none => .ok ("", fetched)
  | some tag =>
    if tag.isEmpty then .ok ("", fetched)
    else
      match Text.words tag with
      | [] => .error (Fault.missingIndex .list).failure
      | command :: rest => .ok (command, count (command :: rest))

end StatusTag

end PooledSql
