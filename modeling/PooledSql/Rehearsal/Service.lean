import PooledSql.Rehearsal.Server
import PooledSql.Wire.Pooled

/-!
# The service of a scripted server

What the scripted server does with every request over the wire. A request is a program that changes
the server and waits for the script where the script wants it to.
-/

namespace PooledSql

namespace Rehearsal

/-- A program that runs against the scripted server. -/
abbrev ServiceM (S : Setting) (X : Interface) (α : Type) : Type :=
  TaskM S ((Interface.state Server).sum X) α

namespace ServiceM

variable {S : Setting} {X : Interface} {α β : Type}

/-- The requests of a program that runs against the scripted server. -/
abbrev requests (X : Interface) : Interface := (Interface.state Server).sum X

/-- The state of the server. -/
def look : ServiceM S X Server := TaskM.outside (O := requests X) (.inl .look)

/-- A new state of the server. -/
def put (s : Server) : ServiceM S X Unit := TaskM.outside (O := requests X) (.inl (.change s))

/-- A change of the server. -/
def change (f : Server → β × Server) : ServiceM S X β := do
  let (b, s) := f (← look)
  put s
  return b

/-- A change of the server with nothing to give back. -/
def modify (f : Server → Server) : ServiceM S X Unit := do put (f (← look))

/-- Give a signal, if there is one. -/
def fire? : Option SignalId → ServiceM S X Unit
  | none => pure ()
  | some signal => TaskM.fire signal

/-- Raise a failure, if there is one. -/
def raise? : Option Failure → ServiceM S X Unit
  | none => pure ()
  | some f => throw f

/-- Wait at a gate until it is open. -/
def pass (gate : Server → Gate) (set : Gate → Server → Server) : ServiceM S X Unit := do
  let g := gate (← look)
  if g.closed then
    let signal ← TaskM.newSignal
    modify (set { g with waiting := g.waiting ++ [signal] })
    TaskM.signal signal

/-- Take a place among those that use a link, in order of arrival. -/
def takePlace : ServiceM S X Unit := do
  let signal ← TaskM.newSignal
  if ← change (Server.join signal) then return ()
  match ← Fiber.attempt (TaskM.signal signal) with
  | .ok _ => return ()
  | .error f =>
    if !(← change (Server.abandon signal)) then fire? (← change Server.leave)
    throw f

/-- Hand out a link. -/
def acquire : ServiceM S X LinkId := do
  pass (·.acquireGate) fun g s => { s with acquireGate := g }
  takePlace
  match (← look).acquireError with
  | none => change Server.lend
  | some f =>
    fire? (← change Server.leave)
    throw f

/-- Take a link back. -/
def release (link : LinkId) : ServiceM S X Unit := do
  modify (Server.takeBack link)
  fire? (← change Server.leave)

/-- Prepare a statement. -/
def prepare (link : LinkId) (lineage : Lineage) (sql : String) : ServiceM S X PreparedId := do
  Fiber.ofExcept (← change (Server.prepare link lineage sql))

/-- The failure of a statement that has been stopped. -/
def stoppedFailure : Failure :=
  (Fault.raised .queryCanceled (some "canceling statement due to user request")).failure

/-- Wait until the script lets a statement go on, or a request stops it. -/
def block (p : Prepared) : ServiceM S X Unit := do
  let signal ← TaskM.newSignal
  modify fun s => { s with blocked := s.blocked ++ [{ signal, prepared := p }] }
  match ← Fiber.attempt (TaskM.signal signal) with
  | .ok _ => if (← look).stopped.contains signal then throw stoppedFailure
  | .error f =>
    modify fun s => { s with blocked := s.blocked.filter (·.signal != signal) }
    throw f

/-- A statement that has been prepared. -/
def preparedStatement (id : PreparedId) : ServiceM S X Prepared := do
  Fiber.ofExcept ((← look).prepared[id]?.elim (.error WireM.unknownName) .ok)

/-- Fetch the rows of a statement. -/
def fetch (id : PreparedId) (params : List Value) :
    ServiceM S X (List (List (String × Value))) := do
  let p ← preparedStatement id
  modify (Server.note (.fetch p.link params))
  if p.behaviour.block then block p
  raise? p.behaviour.error
  return p.behaviour.rows

/-- Open a link outside any pool. -/
def connect (dsn : Option String) (timeout : Binary64) : ServiceM S X SiblingId := do
  modify (Server.note (.connect dsn timeout))
  raise? (← look).connectError
  return 0

/-- Stop what a process is doing. -/
def request (sql : String) (pid : Nat) : ServiceM S X Unit := do
  modify (Server.note (.request sql pid))
  pass (·.cancelGate) fun g s => { s with cancelGate := g }
  raise? (← look).cancelError
  fire? (← change (Server.stop pid))

/-- Open a raw pool. -/
def openPool (settings : PoolSettings) : ServiceM S X RawPoolId := do
  modify (Server.note (.openPool settings))
  raise? (← look).createError
  change fun s => (s.pools, { s with pools := s.pools + 1 })

/-- What becomes of a request over the wire. -/
def wireWait : (w : Wire.Wait) → ServiceM S X w.Answer
  | .openPool settings => openPool settings
  | .acquire _ => acquire
  | .release _ link => release link
  | .prepare link lineage sql => prepare link lineage sql
  | .fetch prepared params => fetch prepared params
  | .connect dsn timeout => connect dsn timeout
  | .request _ sql pid => request sql pid
  | .hangUp _ => modify (Server.note .hangUp)
  | .closePool _ => modify (Server.note .closePool)

/-- A program without failures that runs against the scripted server. -/
abbrev Steady (S : Setting) (X : Interface) (α : Type) : Type :=
  Program (S.interface.sum (requests X)) α

/-- What becomes of an act over the wire. -/
def wireAct (r : Wire.Act) : Steady S X r.Outcome :=
  Program.act (I := S.interface.sum (requests X)) (.inr (.inl .look)) fun (s : Server) =>
    match r with
    | .pid link => .done (s.pid link)
    | .terminate link =>
      Program.act (I := S.interface.sum (requests X))
        (.inr (.inl (.change (s.terminate link)))) .done
    | .statusTag prepared => .done (.ok (s.prepared[prepared]?.bind Server.status))

/-- A program over the wire, against the scripted server. -/
def ofWire (x : TaskM S (Wire.interface.sum X) α) : ServiceM S X α :=
  Program.carryRight (K := requests X) (J := Wire.interface.sum X)
    (fun
      | .inl r => wireAct r
      | .inr r => Program.act (I := S.interface.sum (requests X)) (.inr (.inr r)) .done)
    (fun
      | .inl w => wireWait w
      | .inr w => Program.await (I := S.interface.sum (requests X)) (.inr (.inr w)) .done)
    x

end ServiceM

end Rehearsal

end PooledSql
