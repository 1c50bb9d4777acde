import PooledSql.Rehearsal.Script
import PooledSql.Rehearsal.Service

/-!
# Sessions

A script run step by step against the scripted server: everything from queries down to the requests
that reach the server. After each step all tasks go on until they wait for a later one.
-/

namespace PooledSql

namespace Rehearsal

/-- Everything that a session changes apart from tasks. -/
structure World where
  server : Server
  holdings : Holdings := {}
  ledger : Ledger := {}
  desk : Desk

/-- The requests of a session beyond tasks. -/
abbrev sessionRequests : Interface :=
  (Interface.state Server).sum
    (Holdings.interface.sum (Ledger.interface.sum Desk.interface))

/-- The effect of a request on the world. -/
def World.perform : (r : sessionRequests.Act) → World → sessionRequests.Outcome r × World
  | .inl .look, w => (w.server, w)
  | .inl (.change server), w => ((), { w with server })
  | .inr (.inl r), w =>
    let (out, holdings) := w.holdings.perform r
    (out, { w with holdings })
  | .inr (.inr (.inl r)), w =>
    let (out, ledger) := w.ledger.perform r
    (out, { w with ledger })
  | .inr (.inr (.inr r)), w =>
    let (out, desk) := w.desk.perform w.holdings r
    (out, { w with desk })

/-- What a session runs: the library over the wire, against the scripted server. -/
def sessionEngine : Engine scriptClient.setting sessionRequests World where
  meaning body := ServiceM.ofWire (WireM.ofPooled (Work.meaning ScriptM.errand body))
  perform := World.perform

/-- The state of a session. -/
abbrev Session : Type := Machine scriptClient.setting sessionRequests World

/-- What a step has brought about. -/
structure StepReport where
  /-- What the step gave back, or how it failed, at once. -/
  direct : Except Failure Reply
  events : List Event
  /-- The errands that have ended during the step. -/
  settled : List (Label × Except Failure Reply)
  /-- Where every scope has got to. -/
  states : List (Label × Option TransactionState)
  /-- How many links there are. -/
  size : Nat
  /-- What runs on every lease that the script has taken. -/
  active : List (Label × Option Statement)
  log : List LogEntry
  /-- What has brought about the failures of tokens. -/
  cause? : TokenId → Option Failure

namespace Session

/-- A session at its start, with a server and a database opened on it. -/
def start (server : Server) (settings : PoolSettings) : Session where
  world := {
    server := { server with pools := 1 }
    holdings := { pools := [{ raw := 0, settings }] }
    desk := { database := 0 } }

/-- A change of the server in a session. -/
def onServer (f : Server → List SignalId × Server) (m : Session) : Session :=
  let (signals, server) := f m.world.server
  signals.foldl (fun m signal => m.fire signal) { m with world := { m.world with server } }

/-- The beginning of a step, and the task that does what is done at once, if there is one. -/
def begin (s : Step) (m : Session) : Option TaskId × Session :=
  match s with
  | .kill label =>
    match find label m.world.desk.errands with
    | .ok task => (none, m.interrupt task)
    | .error _ => (none, m)
  | .change c => (none, onServer c.apply m)
  | .unblock sql =>
    (none, onServer (fun server =>
      let (signal, server) := server.unblock sql
      (signal.toList, server)) m)
  | s =>
    let (task, m) := m.spawn (.plain (Work.client (Errand.step s)))
    (some task, m)

/-- A step of a script. -/
def step (s : Step) (m : Session) : StepReport × Session :=
  let m : Session := { m with log := [], world :=
    { m.world with server := { m.world.server with events := [] } } }
  let before := unsettled m m.world.desk.errands
  let known := m.world.desk.errands.length
  let (task, m) := begin s m
  let m := m.runTurns sessionEngine turnLimit
  let w := m.world
  ({ direct := ((task.bind m.outcome?).getD (.ok (.value .null)))
     events := w.server.events
     settled := settled m (before ++ w.desk.errands.drop known)
     states := w.desk.scopes.map fun (label, scope) =>
       (label, w.ledger.scopes[scope]?.bind (·.state))
     size := w.server.live.length
     active := w.desk.leases.map fun (label, lease) =>
       (label, w.holdings.leases[lease]?.bind fun l => l.running.map (·.2))
     log := m.log
     cause? := m.cause? }, m)

/-- All steps of a script. -/
def run (m : Session) : List Step → List StepReport
  | [] => []
  | s :: rest =>
    let (report, m) := step s m
    report :: run m rest

end Session

end Rehearsal

end PooledSql
