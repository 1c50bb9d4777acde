import PooledSql.Failure.Message
import PooledSql.Result.StatusTag
import PooledSql.Task.Request
import PooledSql.Wire.Holdings

/-!
# Pools over the wire

How everything that a pool offers is done over the wire. Failures that the connection or the network
raises are reported as rejections by the driver, with what raised them as their cause; giving
connections back and closing pools are the exceptions, whose failures pass as they are. A request to
stop a statement takes a link of its own, so that a pool without free connections is no obstacle.
-/

namespace PooledSql

/-- A program over the wire. -/
abbrev WireM (S : Setting) (X : Interface) (α : Type) : Type :=
  TaskM S (Wire.interface.sum (Holdings.interface.sum X)) α

namespace WireM

variable {S : Setting} {X : Interface} {α : Type}

/-- The requests of a program over the wire. -/
abbrev requests (X : Interface) : Interface := Wire.interface.sum (Holdings.interface.sum X)

/-- An act of the wire. -/
def wireAct (r : Wire.Act) : WireM S X r.Outcome := TaskM.outside (O := requests X) (.inl r)

/-- A request over the wire. -/
def wireWait (w : Wire.Wait) : WireM S X w.Answer := TaskM.outsideWait (O := requests X) (.inl w)

/-- An entry about pools and leases. -/
def holdings (r : Holdings.Act) : WireM S X r.Outcome :=
  TaskM.outside (O := requests X) (.inr (.inl r))

/-- The failure to name a pool or a lease that there is. -/
def unknownName : Failure :=
  (Fault.raised .interfaceMisuse (some "no such pool or connection")).failure

/-- A pool that has been opened. -/
def openedPool (pool : PoolId) : WireM S X OpenedPool := do
  let found : Option OpenedPool ← holdings (.pool pool)
  Fiber.ofExcept (found.elim (.error unknownName) .ok)

/-- A link that has been lent out. -/
def lease (lease : LeaseId) : WireM S X Lease := do
  let found : Option Lease ← holdings (.lease lease)
  Fiber.ofExcept (found.elim (.error unknownName) .ok)

/-- A failure as a pool reports it: what the connection raised is a rejection by the driver. -/
def asRejection (f : Failure) : Failure :=
  if f.kind.isRaisedByConnection then f.driverError f.message else f

/-- A program whose failures are reported as a pool reports them. -/
def guarded (x : WireM S X α) : WireM S X α := do
  match ← Fiber.attempt x with
  | .ok a => return a
  | .error f => throw (asRejection f)

/-- The process that serves a link. -/
def linkPid (link : LinkId) : WireM S X (Option Nat) := wireAct (.pid link)

/-- Open a pool. -/
def openPool (settings : PoolSettings) : WireM S X PoolId := do
  let raw ← guarded (wireWait (.openPool settings))
  holdings (.addPool { raw, settings })

/-- Lend out a connection. -/
def acquire (pool : PoolId) : WireM S X LeaseId := do
  let opened ← openedPool pool
  let link ← guarded (wireWait (.acquire opened.raw))
  holdings (.addLease pool link)

/-- Take a connection back, unless it has come back before. A connection whose state is unknown is
broken off first. -/
def release (id : LeaseId) (cause : Option Failure) : WireM S X Unit := do
  let l ← lease id
  if l.released then return ()
  let opened ← openedPool l.pool
  holdings (.markReleased id)
  if cause.any Failure.isAbort then
    TaskM.log (.terminating (← linkPid l.link))
    wireAct (.terminate l.link)
  wireWait (.release opened.raw l.link)

/-- The rows and the status of a statement. -/
def fetched (link : LinkId) (statement : Statement) :
    WireM S X ((String × Int) × List (List (String × Value))) := do
  let prepared ← wireWait (.prepare link statement.lineage statement.sql)
  let records : List (List (String × Value)) ← wireWait (.fetch prepared statement.params)
  let tag ← Fiber.ofExcept (← wireAct (.statusTag prepared))
  return (← Fiber.ofExcept (StatusTag.parse tag records.length), records)

/-- Run a statement, which is what runs on the connection until it is over. -/
def execute (id : LeaseId) (run : RunId) (statement : Statement) : WireM S X Result := do
  let l ← lease id
  holdings (.setRunning id (some (run, statement)))
  let outcome ← Fiber.attempt (guarded (fetched l.link statement))
  holdings (.setRunning id none)
  let ((command, rowCount), records) ← Fiber.ofExcept outcome
  return { command, rowCount, rows := records.map Row.ofColumns }

/-- The command that stops a process. -/
def cancelCommand : String := "SELECT pg_cancel_backend($1)"

/-- Ask the server to stop what runs on a connection; without a process to name, nothing is
asked. -/
def cancelRunning (id : LeaseId) : WireM S X Unit := do
  let l ← lease id
  let pid : Option Nat ← linkPid l.link
  match pid with
  | none => return ()
  | some pid =>
    let opened ← openedPool l.pool
    guarded do
      let sibling ← wireWait (.connect opened.settings.dsn opened.settings.connectTimeout)
      let outcome ← Fiber.attempt (wireWait (.request sibling cancelCommand pid))
      wireWait (.hangUp sibling)
      Fiber.ofExcept outcome

/-- Close all connections. -/
def close (pool : PoolId) : WireM S X Unit := do
  wireWait (.closePool (← openedPool pool).raw)

/-- What becomes of a request to a pool. -/
def poolWait : (w : Pool.Wait) → WireM S X w.Answer
  | .openPool settings => openPool settings
  | .acquire pool => acquire pool
  | .release lease cause => release lease cause
  | .execute lease run statement => execute lease run statement
  | .cancelRunning lease => cancelRunning lease
  | .close pool => close pool

/-- A program without failures over the wire. -/
abbrev Steady (S : Setting) (X : Interface) (α : Type) : Type :=
  Program (S.interface.sum (requests X)) α

/-- What becomes of an inquiry about a lease. -/
def poolAct : (r : Pool.Act) → Steady S X r.Outcome
  | .pid lease =>
    Program.act (I := S.interface.sum (requests X)) (.inr (.inr (.inl (.lease lease)))) fun
      | some (l : Lease) =>
        Program.act (I := S.interface.sum (requests X)) (.inr (.inl (.pid l.link))) .done
      | none => .done none
  | .activeRun lease =>
    Program.act (I := S.interface.sum (requests X)) (.inr (.inr (.inl (.lease lease)))) fun
      (l : Option Lease) => .done ((l.bind (·.running)).map (·.1))

/-- A program that uses pools, over the wire. -/
def ofPooled (x : TaskM S (Pool.interface.sum X) α) : WireM S X α :=
  Program.carryRight (K := requests X) (J := Pool.interface.sum X)
    (fun
      | .inl r => poolAct r
      | .inr r => Program.act (I := S.interface.sum (requests X)) (.inr (.inr (.inr r))) .done)
    (fun
      | .inl w => poolWait w
      | .inr w =>
        Program.await (I := S.interface.sum (requests X)) (.inr (.inr (.inr w))) .done)
    x

end WireM

end PooledSql
