import PooledSql.Query.Execution

/-!
# Databases

A database issues queries on connections of a pool. Every unit of work holds one connection and
gives it back on every way out; the one thing that keeps a connection from being used again is a
failure after which its state is unknown.
-/

namespace PooledSql

/-- What says where a database is. -/
inductive Target
  | environment (env : Environment)
  | dsn (dsn : String)
  | settings (settings : PoolSettings)

/-- The settings of a target. -/
def Target.poolSettings : Target → Except Failure PoolSettings
  | .environment env => env.poolSettings
  | .dsn s => PoolSettings.ofDsn s
  | .settings s => .ok s

namespace DatabaseM

variable {c : Client} {α : Type}

/-- Work with a connection of a pool, under a token if there is one: when the token has been set by
the time that the connection is there, the work is left undone. -/
def withConnection (pool : PoolId) (token : Option TokenId) (work : LeaseId → DatabaseM c α) :
    DatabaseM c α := do
  let lease ← poolWait (.acquire pool)
  TaskM.log (.acquired (← pid lease))
  let outcome ← Fiber.attempt do
    if let some token := token then TaskM.raiseIfCancelled token
    work lease
  match outcome with
  | .ok a =>
    poolWait (.release lease none)
    TaskM.log (.released (← pid lease))
    return a
  | .error f =>
    if f.isAbort then
      TaskM.log (.evicting (← pid lease))
      poolWait (.release lease (some f))
    else
      poolWait (.release lease none)
    throw f

/-- Run a statement on a connection of a pool; its text is put together once the connection is
there. -/
def runPooled (pool : PoolId) (source : Source) (params : Value) (token : TokenId) :
    DatabaseM c Result :=
  withConnection pool (some token) fun lease => do
    let statement ← Fiber.ofExcept (source.statement params (.connection (← pid lease)))
    execute lease statement token (some .here)

/-- Issue a query on a pool. What cannot be a source is refused at once. -/
def submit (pool : PoolId) (source params : Value) : DatabaseM c Query := do
  let source ← Fiber.ofExcept (Source.ofValue source params)
  Query.issue (Work.pooled pool source params)

/-- The part of a query's result that a shape names, as a query. -/
def shaped (shape : Shape) (q : Query) : DatabaseM c Query :=
  match shape with
  | .result => return q
  | shape => q.derive shape.ofReply

/-- Open a database. -/
def openDatabase (target : Target) : DatabaseM c PoolId := do
  let settings ← Fiber.ofExcept target.poolSettings
  TaskM.log (.openingPool settings.maxSize)
  poolWait (.openPool settings)

/-- Close a database. -/
def closeDatabase (pool : PoolId) : DatabaseM c Unit := poolWait (.close pool)

end DatabaseM

/-- The meaning of the computations of a database, for a meaning of the client's own. -/
def Work.meaning {c : Client} (client : c.Task → DatabaseM c Reply) : Work c → DatabaseM c Reply
  | .pooled pool source params token =>
    return .result (← DatabaseM.runPooled pool source params token)
  | .scoped lease statement token =>
    return .result (← DatabaseM.execute lease statement token (some .here))
  | .cancelRequest lease => do
    DatabaseM.cancelRequest lease
    return .value .null
  | .client task => client task

end PooledSql
