import PooledSql.Pool
import PooledSql.Log
import PooledSql.Task.Request

/-!
# The ledger

What the users of a database share besides connections: the runs of statements with the requests to
stop them, the scopes that have been opened, and the default database.
-/

namespace PooledSql

/-- The name of a scope. -/
abbrev ScopeId := Nat

/-- A connection that one borrower uses for several statements. -/
structure Scope where
  lease : LeaseId
  /-- Where the transaction has got to, if the scope is one. -/
  state : Option TransactionState
  /-- Whether the connection has been given back. -/
  closed : Bool := false
  deriving DecidableEq, Inhabited

/-- What is shared by the users of a database. -/
structure Ledger where
  /-- The request to stop each run, if there is one. -/
  runs : List (Option TaskId) := []
  scopes : List Scope := []
  /-- The default database. -/
  default : Option PoolId := none

namespace Ledger

/-- Entries in the ledger. -/
inductive Act
  /-- Name a new run. -/
  | newRun
  /-- Note the request to stop a run. -/
  | noteRequest (run : RunId) (request : TaskId)
  /-- The request to stop a run. -/
  | request (run : RunId)
  | openScope (lease : LeaseId) (state : Option TransactionState)
  | closeScope (scope : ScopeId)
  | scope (scope : ScopeId)
  | setState (scope : ScopeId) (state : TransactionState)
  | default
  | setDefault (pool : Option PoolId)

/-- What is given back. -/
def Act.Outcome : Act → Type
  | newRun => RunId
  | noteRequest .. => Unit
  | request _ => Option TaskId
  | openScope .. => ScopeId
  | closeScope _ => Unit
  | scope _ => Option Scope
  | setState .. => Unit
  | default => Option PoolId
  | setDefault _ => Unit

/-- What the ledger is used for. -/
def interface : Interface := ⟨Act, Act.Outcome, Empty, nofun⟩

/-- The effect of an entry. -/
def perform (l : Ledger) : (r : Act) → r.Outcome × Ledger
  | .newRun => (l.runs.length, { l with runs := l.runs ++ [none] })
  | .noteRequest run request =>
    ((), { l with runs := l.runs.modify run fun _ => some request })
  | .request run => (l.runs[run]?.join, l)
  | .openScope lease state =>
    (l.scopes.length, { l with scopes := l.scopes ++ [{ lease, state }] })
  | .closeScope scope =>
    ((), { l with scopes := l.scopes.modify scope fun s => { s with closed := true } })
  | .scope scope => (l.scopes[scope]?, l)
  | .setState scope state =>
    ((), { l with scopes := l.scopes.modify scope fun s => { s with state := some state } })
  | .default => (l.default, l)
  | .setDefault pool => ((), { l with default := pool })

end Ledger

end PooledSql
