import PooledSql.Database

/-!
# Scopes and transactions

A scope is one connection for several statements. It ends with the work that it was opened for, and
its later use is refused. A transaction is a scope between `BEGIN` and `COMMIT`, or `ROLLBACK` if
anything fails; when the rollback fails as well, the connection is not used again.
-/

namespace PooledSql

namespace Scope

variable {c : Client} {α : Type}

/-- Issue a query in a scope; its text is put together at once. -/
def submit (scope : ScopeId) (source params : Value) : DatabaseM c Query := do
  let entry : Option Scope ← DatabaseM.ledger (.scope scope)
  match entry with
  | some { lease, closed := false, .. } =>
    let context := Context.connection (← DatabaseM.pid lease)
    let statement ← Fiber.ofExcept (Statement.build source params context)
    Query.issue (Work.scoped lease statement)
  | _ => throw Fault.scopeClosed.failure

/-- Run a command without parameters in a scope. -/
def command (scope : ScopeId) (sql : String) : DatabaseM c Unit := do
  discard (← submit scope (.ofString sql) (.tuple [])).result

/-- Work in a scope of its own. -/
def withScope (pool : PoolId) (state : Option TransactionState)
    (work : ScopeId → DatabaseM c α) : DatabaseM c α :=
  DatabaseM.withConnection pool none fun lease => do
    let scope ← DatabaseM.ledger (.openScope lease state)
    let outcome ← Fiber.attempt (work scope)
    DatabaseM.ledger (.closeScope scope)
    Fiber.ofExcept outcome

/-- Work with one connection. -/
def connection (pool : PoolId) (work : ScopeId → DatabaseM c α) : DatabaseM c α :=
  withScope pool none work

/-- Note where a transaction has got to. -/
def transition (scope : ScopeId) (state : TransactionState) : DatabaseM c Unit := do
  let entry : Option Scope ← DatabaseM.ledger (.scope scope)
  TaskM.log (.transition (entry.bind (·.state)) state)
  DatabaseM.ledger (.setState scope state)

/-- Undo a transaction after a failure. An error on the way leaves the connection in an unknown
state, which is a failure of its own. -/
def rollback (scope : ScopeId) (first : Failure) : DatabaseM c Unit := do
  match ← Fiber.attempt (command scope "ROLLBACK") with
  | .ok _ => transition scope .rolledBack
  | .error f =>
    if !f.isError then throw f
    transition scope .abortedConnection
    TaskM.log (.rollbackFailed first f)
    throw (.mk (.abandoned first f) (some first) none [])

/-- Work in a transaction. -/
def transaction (pool : PoolId) (work : ScopeId → DatabaseM c α) : DatabaseM c α :=
  withScope pool (some .notStarted) fun scope => do
    command scope "BEGIN"
    transition scope .inTransaction
    let outcome ← Fiber.attempt do
      let a ← work scope
      command scope "COMMIT"
      return a
    match outcome with
    | .ok a =>
      transition scope .committed
      return a
    | .error f =>
      rollback scope f
      throw f

end Scope

end PooledSql
