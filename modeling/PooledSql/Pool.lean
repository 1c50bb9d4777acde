import PooledSql.Result
import PooledSql.Settings
import PooledSql.Task.Program

/-!
# Pools of connections

What a pool offers: connections are lent out, one borrower at a time, and come back with a word on
whether they may be used again. A lease stands for a connection while it is lent out. Statements run
on a lease one at a time; a request to stop the running one goes past the lease.

Here it is only said what may be asked for and what answers have which type. That a pool hands out
no connection twice, or reports its refusals as driver failures, is up to whoever answers. It is
assumed that the questions about a lease do not fail.
-/

namespace PooledSql

/-- The name of a pool. -/
abbrev PoolId := Nat

/-- The name of a lease. -/
abbrev LeaseId := Nat

/-- The name of a run of a statement. -/
abbrev RunId := Nat

namespace Pool

/-- What can be asked about a lease at once. Assumption: a lease can always tell the process that
serves it, or that it does not know, before and after its return; no failure comes out of such a
question. -/
inductive Act
  /-- The process that serves the connection, if the server tells. -/
  | pid (lease : LeaseId)
  /-- The run that is under way on the connection. -/
  | activeRun (lease : LeaseId)

/-- What such a question is answered with. -/
def Act.Outcome : Act → Type
  | pid _ => Option Nat
  | activeRun _ => Option RunId

/-- What a pool does in its own time, and may fail at. -/
inductive Wait
  /-- Open a pool. -/
  | openPool (settings : PoolSettings)
  /-- Lend out a connection. -/
  | acquire (pool : PoolId)
  /-- Take a connection back; a failure says why it should not be used again. -/
  | release (lease : LeaseId) (cause : Option Failure)
  /-- Run a statement. -/
  | execute (lease : LeaseId) (run : RunId) (statement : Statement)
  /-- Ask the server to stop what is running on a connection. -/
  | cancelRunning (lease : LeaseId)
  /-- Close all connections. -/
  | close (pool : PoolId)

/-- What is given back. -/
def Wait.Answer : Wait → Type
  | openPool _ => PoolId
  | acquire _ => LeaseId
  | release .. => Unit
  | execute .. => Result
  | cancelRunning _ => Unit
  | close _ => Unit

/-- What a pool offers. -/
def interface : Interface := ⟨Act, Act.Outcome, Wait, Wait.Answer⟩

end Pool

end PooledSql
