import PooledSql.Failure.Message
import PooledSql.Ledger
import PooledSql.Query
import PooledSql.Result.Shape
import PooledSql.Statement

/-!
# Execution of statements

A statement runs on a lease on behalf of a token. While it runs, setting the token sends a request
to the server to stop it, past the lease, and the statement does not count as over before the
request has been dealt with, so that the request cannot reach whatever runs next. A rejection by the
server is reported with the statement and the place where it was issued; once the token is set, only
the cancellation is reported. The report spells the parameters of the statement, and where one of
them has no spelling, that is what is reported.
-/

namespace PooledSql

/-- The cancel action of a run: to stop it if it is still under way. -/
structure Interrupt where
  lease : LeaseId
  run : RunId
  deriving DecidableEq

/-- What the users of a database do besides. -/
structure Client where
  /-- Their own computations, by name. -/
  Task : Type
  /-- Their own requests. -/
  Requests : Interface

/-- The computations of a database. -/
inductive Work (c : Client)
  /-- Run a statement on a connection of a pool. -/
  | pooled (pool : PoolId) (source : Source) (params : Value) (token : TokenId)
  /-- Run a statement on a connection that has been lent out. -/
  | scoped (lease : LeaseId) (statement : Statement) (token : TokenId)
  /-- Ask the server to stop what is running on a connection. -/
  | cancelRequest (lease : LeaseId)
  /-- A computation of the client. -/
  | client (task : c.Task)

/-- The tasks of a database. -/
def Client.setting (c : Client) : Setting := ⟨Work c, Interrupt, Reply⟩

instance (c : Client) : BEq c.setting.Action := inferInstanceAs (BEq Interrupt)

/-- The requests of a database beyond tasks. -/
def Client.requests (c : Client) : Interface :=
  Pool.interface.sum (Ledger.interface.sum c.Requests)

/-- A program that uses a database. -/
abbrev DatabaseM (c : Client) (α : Type) : Type := TaskM c.setting c.requests α

namespace DatabaseM

variable {c : Client} {α : Type}

/-- An inquiry about a lease. -/
def poolAct (r : Pool.Act) : DatabaseM c r.Outcome := TaskM.outside (O := c.requests) (.inl r)

/-- A request to a pool. -/
def poolWait (w : Pool.Wait) : DatabaseM c w.Answer := TaskM.outsideWait (O := c.requests) (.inl w)

/-- An entry in the ledger. -/
def ledger (r : Ledger.Act) : DatabaseM c r.Outcome :=
  TaskM.outside (O := c.requests) (.inr (.inl r))

/-- An act of the client. -/
def client (r : c.Requests.Act) : DatabaseM c (c.Requests.Outcome r) :=
  TaskM.outside (O := c.requests) (.inr (.inr r))

/-- The process that serves a lease. -/
def pid (lease : LeaseId) : DatabaseM c (Option Nat) := poolAct (.pid lease)

/-- The run that is under way on a lease. -/
def activeRun (lease : LeaseId) : DatabaseM c (Option RunId) := poolAct (.activeRun lease)

/-- Ask the server to stop what is running on a connection. It is a matter of best effort: a request
that fails is logged and forgotten. -/
def cancelRequest (lease : LeaseId) : DatabaseM c Unit := do
  let pid ← pid lease
  TaskM.log (.sendingCancel pid)
  match ← Fiber.attempt (poolWait (.cancelRunning lease)) with
  | .ok _ => return ()
  | .error f => if f.isError then TaskM.log (.cancelFailed pid) else throw f

/-- Stop a run if it is under way, and wait for the request to have been dealt with. -/
def interrupt (i : Interrupt) : DatabaseM c Unit := do
  if (← activeRun i.lease) ≠ some i.run then return ()
  let request ← TaskM.spawn (.plain (Work.cancelRequest i.lease))
  ledger (.noteRequest i.run request)
  discard (TaskM.joinShielded request)

/-- What a rejection of a statement is reported as: a failure of the statement that answers for the
rejection, or the fault that comes up while its parameters are spelled. -/
def rejection (statement : Statement) (site : Option CallSite) (f : Failure) : Failure :=
  if statement.params.all Value.isSpelled then
    .mk (.rejected f.message statement.sql statement.lineage statement.params site) (some f) none []
  else .mk (.number .overlong) none (some f) []

/-- The outcome of a run, in view of its token: a rejection is a failure of the statement, or, once
the token is set, what brought about the cancellation. -/
def report (statement : Statement) (token : TokenId) (site : Option CallSite)
    (outcome : Except Failure Result) : DatabaseM c Result := do
  match outcome with
  | .ok result => return result
  | .error f =>
    if !f.isDriver then throw f
    if ← TaskM.isCancelled token then TaskM.raiseCancelledFor token f
    throw (rejection statement site f)

/-- Run a statement on a lease. -/
def execute (lease : LeaseId) (statement : Statement) (token : TokenId)
    (site : Option CallSite) : DatabaseM c Result := do
  TaskM.raiseIfCancelled token
  let run ← ledger .newRun
  TaskM.register token (Interrupt.mk lease run)
  TaskM.log (.executing statement.sql statement.params.length)
  let outcome ← Fiber.attempt (poolWait (.execute lease run statement))
  let outcome ← Fiber.attempt (report statement token site outcome)
  TaskM.unregister token (Interrupt.mk lease run)
  if let some request ← ledger (.request run) then
    discard (TaskM.joinShielded request)
  let result ← Fiber.ofExcept outcome
  TaskM.raiseIfCancelled token
  return result

/-- Cancel a query. -/
def cancel (q : Query) : DatabaseM c Unit := q.cancel interrupt

end DatabaseM

end PooledSql
