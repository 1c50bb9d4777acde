import PooledSql.Settings
import PooledSql.Task.Program

/-!
# The wire

What a client library for the server offers: raw pools of raw connections, here called links.
Statements are prepared and fetched, and their status tag is read afterwards. A link on its own,
outside any pool, carries requests to stop what runs on another one. It is assumed that a link can
always tell its process, and that it can be broken off without a failure.
-/

namespace PooledSql

/-- The name of a raw pool. -/
abbrev RawPoolId := Nat

/-- The name of a raw connection of a pool. -/
abbrev LinkId := Nat

/-- The name of a prepared statement. -/
abbrev PreparedId := Nat

/-- The name of a raw connection outside any pool. -/
abbrev SiblingId := Nat

namespace Wire

/-- What is done at once. Assumption: a link can always tell the process that serves it, or that it
does not know, and breaking a link off always succeeds; the status tag is the only one of these that
may be refused. -/
inductive Act
  /-- The process that serves a link, if the server tells. -/
  | pid (link : LinkId)
  /-- Break a link off. -/
  | terminate (link : LinkId)
  /-- The status tag of a statement that has been fetched, which a link may refuse to tell. -/
  | statusTag (prepared : PreparedId)

/-- What is given back. -/
def Act.Outcome : Act → Type
  | pid _ => Option Nat
  | terminate _ => Unit
  | statusTag _ => Except Failure (Option String)

/-- What may take time, and may fail. -/
inductive Wait
  | openPool (settings : PoolSettings)
  | acquire (pool : RawPoolId)
  | release (pool : RawPoolId) (link : LinkId)
  | prepare (link : LinkId) (lineage : Lineage) (sql : String)
  | fetch (prepared : PreparedId) (params : List Value)
  /-- Open a link outside any pool. -/
  | connect (dsn : Option String) (timeout : Binary64)
  /-- Send a command about a process over such a link. -/
  | request (sibling : SiblingId) (sql : String) (pid : Nat)
  /-- Close such a link. -/
  | hangUp (sibling : SiblingId)
  | closePool (pool : RawPoolId)

/-- What is given back. -/
def Wait.Answer : Wait → Type
  | openPool _ => RawPoolId
  | acquire _ => LinkId
  | release .. => Unit
  | prepare .. => PreparedId
  | fetch .. => List (List (String × Value))
  | connect .. => SiblingId
  | request .. => Unit
  | hangUp _ => Unit
  | closePool _ => Unit

/-- What the wire offers. -/
def interface : Interface := ⟨Act, Act.Outcome, Wait, Wait.Answer⟩

end Wire

end PooledSql
