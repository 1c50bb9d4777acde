import PooledSql.Database

/-!
# The default database

One database may be the default. It is opened at the start and closed at the end; nothing is opened
by itself.
-/

namespace PooledSql

namespace DefaultDatabase

variable {c : Client}

/-- The default database, or a failure if there is none. -/
def get : DatabaseM c PoolId := do
  let pool : Option PoolId ← DatabaseM.ledger .default
  match pool with
  | some pool => return pool
  | none => throw Fault.notInitialized.failure

/-- Make a database the default, or leave no default. -/
def set (pool : Option PoolId) : DatabaseM c Unit := DatabaseM.ledger (.setDefault pool)

/-- Open the default database, if there is none so far. -/
def start (target : Target) : DatabaseM c PoolId := do
  let pool : Option PoolId ← DatabaseM.ledger .default
  if pool.isSome then throw Fault.alreadyInitialized.failure
  let pool ← DatabaseM.openDatabase target
  set (some pool)
  TaskM.log .defaultReady
  return pool

/-- Forget the default database and close it. -/
def stop : DatabaseM c Unit := do
  let pool : Option PoolId ← DatabaseM.ledger .default
  match pool with
  | none => return ()
  | some pool =>
    set none
    DatabaseM.closeDatabase pool

end DefaultDatabase

end PooledSql
