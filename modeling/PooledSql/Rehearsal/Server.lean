import PooledSql.Settings
import PooledSql.Task.Request
import PooledSql.Text.Blank
import PooledSql.Text.Upper
import PooledSql.Wire

/-!
# A scripted server

A server that does what a script says: how statements go, which requests fail, and what waits at a
gate until the script opens it. It hands out links to its pools, at most a number of them at a time,
the one given back last first, and it keeps a record of what has reached it.

The server is a state and changes of it. What waits is told by a signal; a change that ends a wait
says which signal to give.
-/

namespace PooledSql

namespace Rehearsal

/-- How a statement goes. -/
structure Behaviour where
  prepareError : Option Failure := none
  /-- Whether fetching waits until the script lets it go on. -/
  block : Bool := false
  error : Option Failure := none
  rows : List (List (String × Value)) := []
  /-- The status tag, if the script gives one; it may give none. -/
  status : Option (Option String) := none
  /-- Whether a request to stop the statement does nothing. -/
  ignoresCancel : Bool := false

/-- What has reached the server. -/
inductive Event
  | acquire (link : LinkId)
  | release (link : LinkId)
  | terminate (link : LinkId)
  | prepare (link : LinkId) (lineage : Lineage) (sql : String)
  | fetch (link : LinkId) (params : List Value)
  | connect (dsn : Option String) (timeout : Binary64)
  | request (sql : String) (pid : Nat)
  | hangUp
  | openPool (settings : PoolSettings)
  | closePool

/-- A gate, and who waits at it. -/
structure Gate where
  closed : Bool := false
  waiting : List SignalId := []

/-- A statement that has been prepared. -/
structure Prepared where
  link : LinkId
  sql : String
  behaviour : Behaviour

/-- A statement that waits for the script. -/
structure Blocked where
  signal : SignalId
  prepared : Prepared

/-- The state of the server. -/
structure Server where
  /-- How statements go; the first entry counts. -/
  statements : List (String × Behaviour) := []
  /-- Whether links tell which process serves them. -/
  tellsPid : Bool := true
  acquireGate : Gate := {}
  cancelGate : Gate := {}
  acquireError : Option Failure := none
  connectError : Option Failure := none
  cancelError : Option Failure := none
  createError : Option Failure := none
  /-- How many more links may be handed out. -/
  free : Nat
  /-- Who waits for a link, in order. -/
  queue : List SignalId := []
  /-- How many links there have been. -/
  opened : Nat := 0
  live : List LinkId := []
  /-- The links that nobody uses, the one given back last first. -/
  idle : List LinkId := []
  broken : List LinkId := []
  terminated : List LinkId := []
  prepared : List Prepared := []
  /-- The statements that wait for the script, in the order in which they began to. -/
  blocked : List Blocked := []
  /-- The waits that a request has put an end to. -/
  stopped : List SignalId := []
  /-- How many raw pools there have been. -/
  pools : Nat := 0
  events : List Event := []

namespace Server

/-- The server with one more event on record. -/
def note (e : Event) (s : Server) : Server := { s with events := s.events ++ [e] }

/-- The process that serves a link. -/
def pid (link : LinkId) (s : Server) : Option Nat := if s.tellsPid then some (100 + link) else none

/-- How a statement goes. -/
def behaviour (sql : String) (s : Server) : Behaviour := (s.statements.lookup sql).getD {}

/-- The status tag of a statement: what the script gives, or the first word of the statement in
capitals. -/
def status (p : Prepared) : Option String :=
  p.behaviour.status.getD ((Text.words p.sql).head?.map Text.upper)

/-- Joining the queue for a link: a signal to wait for is needed unless a link is free. -/
def join (signal : SignalId) (s : Server) : Bool × Server :=
  if s.queue.isEmpty && 0 < s.free then (true, { s with free := s.free - 1 })
  else (false, { s with queue := s.queue ++ [signal] })

/-- Giving up a place: the first one in the queue gets it. -/
def leave (s : Server) : Option SignalId × Server :=
  match s.queue with
  | [] => (none, { s with free := s.free + 1 })
  | signal :: rest => (some signal, { s with queue := rest })

/-- Leaving the queue before one's turn; `false` if one's turn had come. -/
def abandon (signal : SignalId) (s : Server) : Bool × Server :=
  (s.queue.contains signal, { s with queue := s.queue.erase signal })

/-- Handing out a link: the one given back last, or a new one. -/
def lend (s : Server) : LinkId × Server :=
  match s.idle with
  | link :: rest => (link, note (.acquire link) { s with idle := rest })
  | [] =>
    let link := s.opened + 1
    (link, note (.acquire link) { s with opened := link, live := s.live ++ [link] })

/-- Taking a link back; one that has been broken off is dropped. -/
def takeBack (link : LinkId) (s : Server) : Server :=
  note (.release link) <|
    if s.terminated.contains link then { s with live := s.live.erase link }
    else { s with idle := link :: s.idle }

/-- Breaking a link off. -/
def terminate (link : LinkId) (s : Server) : Server :=
  note (.terminate link) { s with terminated := link :: s.terminated }

/-- Preparing a statement on a link. -/
def prepare (link : LinkId) (lineage : Lineage) (sql : String) (s : Server) :
    Except Failure PreparedId × Server :=
  let s := s.note (.prepare link lineage sql)
  let behaviour := s.behaviour sql
  if s.broken.contains link then
    (.error (Fault.raised .interfaceMisuse (some "connection is closed")).failure, s)
  else
    match behaviour.prepareError with
    | some f => (.error f, s)
    | none =>
      (.ok s.prepared.length, { s with prepared := s.prepared ++ [{ link, sql, behaviour }] })

/-- The oldest statement of some text that waits is let go on. -/
def unblock (sql : String) (s : Server) : Option SignalId × Server :=
  match s.blocked.find? (·.prepared.sql == sql) with
  | none => (none, s)
  | some b => (some b.signal,
      { s with blocked := s.blocked.filter (·.signal != b.signal) })

/-- The statement that began to wait last on the link of a process is stopped, unless it ignores
the request. -/
def stop (pid : Nat) (s : Server) : Option SignalId × Server :=
  match s.blocked.reverse.find? fun b => s.pid b.prepared.link == some pid with
  | none => (none, s)
  | some b =>
    if b.prepared.behaviour.ignoresCancel then (none, s)
    else (some b.signal,
      { s with
        blocked := s.blocked.filter (·.signal != b.signal)
        stopped := b.signal :: s.stopped })

end Server

/-- What the script changes about the server; what it does not mention stays. -/
structure Change where
  acquireGate : Option Bool := none
  cancelGate : Option Bool := none
  acquireError : Option (Option Failure) := none
  connectError : Option (Option Failure) := none
  cancelError : Option (Option Failure) := none
  createError : Option (Option Failure) := none
  statements : List (String × Behaviour) := []
  broken : List LinkId := []

/-- A gate opened or closed, and the signals to give. -/
def Gate.set (g : Gate) : Option Bool → List SignalId × Gate
  | none => ([], g)
  | some true => (g.waiting, {})
  | some false => ([], { g with closed := true })

/-- The server after a change, and the signals to give. -/
def Change.apply (c : Change) (s : Server) : List SignalId × Server :=
  let (first, acquireGate) := s.acquireGate.set c.acquireGate
  let (second, cancelGate) := s.cancelGate.set c.cancelGate
  (first ++ second,
    { s with
      acquireGate, cancelGate
      acquireError := c.acquireError.getD s.acquireError
      connectError := c.connectError.getD s.connectError
      cancelError := c.cancelError.getD s.cancelError
      createError := c.createError.getD s.createError
      statements := c.statements ++ s.statements
      broken := s.broken ++ c.broken.filter s.live.contains })

end Rehearsal

end PooledSql
