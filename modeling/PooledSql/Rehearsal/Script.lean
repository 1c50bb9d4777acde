import PooledSql.Database.Default
import PooledSql.Database.Scope
import PooledSql.Rehearsal.Computation
import PooledSql.Rehearsal.Server
import PooledSql.Wire.Holdings

/-!
# Scripts

A script uses databases step by step. It gives names to the queries, tokens, leases and scopes that
it has to do with, and keeps them at its desk; the work in a scope finds out at the desk how it is
to end. What takes time is an errand, a task whose outcome the script hears of.
-/

namespace PooledSql

namespace Rehearsal

/-- What a query is issued on. -/
inductive Place
  /-- The database in use. -/
  | database
  /-- The default database. -/
  | default
  | scope (label : Label)

/-- Whether work runs in a plain scope or in a transaction. -/
inductive ScopeSort
  | connection
  | transaction
  deriving DecidableEq

/-- How the work in a scope ends. -/
inductive Ending
  | raise (f : Failure)
  /-- As a query ends. -/
  | follow (query : Label)
  | give (v : Value)

/-- A step of a script. Values that cannot be built are failures of the step that uses them. -/
inductive Step
  | query (label : Label) (place : Place) (shape : Shape) (source params : Except Failure Value)
  /-- Wait for a query once more. -/
  | await (label query : Label)
  | cancel (query : Label)
  | cancelToken (token : Label)
  | openScope (label : Label) (sort : ScopeSort) (place : Place)
  | endScope (label : Label) (ending : Except Failure Ending)
  /-- Interrupt an errand. -/
  | kill (label : Label)
  | change (c : Change)
  | unblock (sql : String)
  | checkOut (label : Label)
  | giveBack (label lease : Label) (cause : Option Failure)
  | cancelRunning (label lease : Label)
  | execute (label lease : Label) (source params : Except Failure Value) (token : Option Label)
      (site : Option CallSite)
  | create (label : Label) (target : Except Failure Target)
  | close (label : Label)
  /-- Open the default database. -/
  | start (label : Label) (target : Except Failure Target)
  /-- Close the default database. -/
  | stop (label : Label)
  /-- Make the database in use the default one, or leave no default. -/
  | setDefault (present : Bool)
  /-- Is the default database the one in use? -/
  | getDefault
  /-- Use the default database. -/
  | useDefault

/-- What a task of the script does. -/
inductive Errand
  /-- The part of a step that is done at once. -/
  | step (s : Step)
  | await (query : Query)
  | cancel (query : Query)
  | cancelToken (token : TokenId)
  /-- Work in a scope, of the default database unless a pool is named. -/
  | work (label : Label) (sort : ScopeSort) (pool : Option PoolId)
  | checkOut (label : Label) (pool : PoolId)
  | giveBack (lease : LeaseId) (cause : Option Failure)
  | cancelRunning (lease : LeaseId)
  | execute (lease : LeaseId) (statement : Statement) (token : Option TokenId)
      (site : Option CallSite)
  | create (target : Target)
  | close (pool : PoolId)
  | start (target : Target)
  | stop

/-- The end of the work in a scope: the signal that the work waits for, and what it finds then. -/
structure Closing where
  signal : SignalId
  ending : Option Ending := none

/-- What a script keeps. The last entry under a name counts. -/
structure Desk where
  /-- The database in use. -/
  database : PoolId
  queries : List (Label × Query) := []
  tokens : List (Label × TokenId) := []
  leases : List (Label × LeaseId) := []
  scopes : List (Label × ScopeId) := []
  closings : List (Label × Closing) := []
  /-- How many cancellations there have been. -/
  cancellations : Nat := 0
  /-- The errands, in the order in which they began. -/
  errands : List (Label × TaskId) := []

namespace Desk

/-- What a script asks of its desk. -/
inductive Act
  | look
  | change (d : Desk)
  /-- The link of a lease. -/
  | link (lease : LeaseId)

/-- What is given back. -/
def Act.Outcome : Act → Type
  | look => Desk
  | change _ => Unit
  | link _ => Option LinkId

/-- What the desk is used for. -/
def interface : Interface := ⟨Act, Act.Outcome, Empty, nofun⟩

/-- The effect on the desk, which knows the links that have been lent out. -/
def perform (h : Holdings) (d : Desk) : (r : Act) → r.Outcome × Desk
  | .look => (d, d)
  | .change d => ((), d)
  | .link lease => (h.leases[lease]?.map (·.link), d)

end Desk

/-- The client that a script is. -/
def scriptClient : Client := ⟨Errand, Desk.interface⟩

/-- A program of a script. -/
abbrev ScriptM (α : Type) : Type := DatabaseM scriptClient α

namespace ScriptM

/-- The desk. -/
def desk : ScriptM Desk := DatabaseM.client (c := scriptClient) .look

/-- A change at the desk. -/
def modifyDesk (f : Desk → Desk) : ScriptM Unit := do
  DatabaseM.client (c := scriptClient) (.change (f (← desk)))

/-- The link of a lease. -/
def link (lease : LeaseId) : ScriptM (Option LinkId) :=
  DatabaseM.client (c := scriptClient) (.link lease)

/-- Send a task on an errand. -/
def send (label : Label) (errand : Errand) : ScriptM Unit := do
  let task ← TaskM.spawn (.plain (Work.client errand))
  modifyDesk fun d => { d with errands := d.errands ++ [(label, task)] }

/-- The query of a name. -/
def query (label : Label) : ScriptM Query := do Fiber.ofExcept (find label (← desk).queries)

/-- The lease of a name. -/
def lease (label : Label) : ScriptM LeaseId := do Fiber.ofExcept (find label (← desk).leases)

/-- The token of a name, made at its first mention. -/
def token (label : Label) : ScriptM TokenId := do
  match find label (← desk).tokens with
  | .ok token => return token
  | .error _ =>
    let token ← TaskM.newToken
    modifyDesk fun d => { d with tokens := d.tokens ++ [(label, token)] }
    return token

/-- The end of the work in a scope, made at its first mention. -/
def closing (label : Label) : ScriptM Closing := do
  match find label (← desk).closings with
  | .ok closing => return closing
  | .error _ =>
    let closing : Closing := { signal := ← TaskM.newSignal }
    modifyDesk fun d => { d with closings := d.closings ++ [(label, closing)] }
    return closing

/-- The name under which the next cancellation is reported. -/
def nextCancellation : ScriptM Label := do
  let n := (← desk).cancellations + 1
  modifyDesk fun d => { d with cancellations := n }
  return "cancel" ++ toString n

/-- Issue a query at a place. -/
def issue (place : Place) (source params : Value) : ScriptM Query := do
  match place with
  | .database => DatabaseM.submit (← desk).database source params
  | .default => DatabaseM.submit (← DefaultDatabase.get) source params
  | .scope label => Scope.submit (← Fiber.ofExcept (find label (← desk).scopes)) source params

/-- The part of a step that is done at once, and what it gives back. -/
def step : Step → ScriptM Value
  | .query label place shape source params => do
    let source ← Fiber.ofExcept source
    let params ← Fiber.ofExcept params
    let q ← DatabaseM.shaped shape (← issue place source params)
    modifyDesk fun d => { d with queries := d.queries ++ [(label, q)] }
    send label (.await q)
    return .null
  | .await label q => do
    send label (.await (← query q))
    return .null
  | .cancel q => do
    send (← nextCancellation) (.cancel (← query q))
    return .null
  | .cancelToken label => do
    send (← nextCancellation) (.cancelToken (← token label))
    return .null
  | .openScope label sort place => do
    let pool ← match place with
      | .database => pure (some (← desk).database)
      | _ => pure none
    let signal ← TaskM.newSignal
    modifyDesk fun d => { d with closings := d.closings ++ [(label, { signal })] }
    send label (.work label sort pool)
    return .null
  | .endScope label ending => do
    let ending ← Fiber.ofExcept ending
    let closing ← closing label
    modifyDesk fun d => { d with
      closings := d.closings ++ [(label, { closing with ending := some ending })] }
    TaskM.fire closing.signal
    return .null
  | .checkOut label => do
    send label (.checkOut label (← desk).database)
    return .null
  | .giveBack label l cause => do
    send label (.giveBack (← lease l) cause)
    return .null
  | .cancelRunning label l => do
    send label (.cancelRunning (← lease l))
    return .null
  | .execute label l source params t site => do
    let lease ← lease l
    let source ← Fiber.ofExcept source
    let params ← Fiber.ofExcept params
    let context := Context.connection (← DatabaseM.pid lease)
    let statement ← Fiber.ofExcept (Statement.build source params context)
    let t ← match t with
      | some t => do pure (some (← token t))
      | none => pure none
    send label (.execute lease statement t site)
    return .null
  | .create label target => do
    send label (.create (← Fiber.ofExcept target))
    return .null
  | .close label => do
    send label (.close (← desk).database)
    return .null
  | .start label target => do
    send label (.start (← Fiber.ofExcept target))
    return .null
  | .stop label => do
    send label .stop
    return .null
  | .setDefault present => do
    let database := (← desk).database
    DefaultDatabase.set (if present then some database else none)
    return .null
  | .getDefault => return .bool ((← DefaultDatabase.get) == (← desk).database)
  | .useDefault => do
    let pool ← DefaultDatabase.get
    modifyDesk fun d => { d with database := pool }
    return .null
  | .kill _ | .change _ | .unblock _ => return .null

/-- The work in a scope: it is known by its name from now on, and ends as the script says. -/
def work (label : Label) (signal : SignalId) (scope : ScopeId) : ScriptM Reply := do
  modifyDesk fun d => { d with scopes := d.scopes ++ [(label, scope)] }
  TaskM.signal signal
  match (← closing label).ending with
  | some (.raise f) => throw f
  | some (.follow q) => (← query q).result
  | some (.give v) => return .value v
  | none => return .value .null

/-- The meaning of errands. -/
def errand : Errand → ScriptM Reply
  | .step s => return .value (← step s)
  | .await q => q.result
  | .cancel q => do
    DatabaseM.cancel q
    return .value .null
  | .cancelToken token => do
    TaskM.cancelToken DatabaseM.interrupt token
    return .value .null
  | .work label sort pool => do
    let signal := (← closing label).signal
    let pool ← match pool with
      | some pool => pure pool
      | none => DefaultDatabase.get
    match sort with
    | .connection => Scope.connection pool (work label signal)
    | .transaction => Scope.transaction pool (work label signal)
  | .checkOut label pool => do
    let lease : LeaseId ← DatabaseM.poolWait (.acquire pool)
    modifyDesk fun d => { d with leases := d.leases ++ [(label, lease)] }
    let number := fun (n : Option Nat) => (n.map fun n => Value.ofInt n).getD .null
    return .value (.list [number (← link lease), number (← DatabaseM.pid lease)])
  | .giveBack lease cause => do
    DatabaseM.poolWait (.release lease cause)
    return .value .null
  | .cancelRunning lease => do
    DatabaseM.poolWait (.cancelRunning lease)
    return .value .null
  | .execute lease statement token site => do
    let token ← match token with
      | some token => pure token
      | none => TaskM.newToken
    return .result (← DatabaseM.execute lease statement token site)
  | .create target => do
    let pool ← DatabaseM.openDatabase target
    modifyDesk fun d => { d with database := pool }
    return .value .null
  | .close pool => do
    DatabaseM.closeDatabase pool
    return .value .null
  | .start target => do
    discard (DefaultDatabase.start target)
    return .value (.bool true)
  | .stop => do
    DefaultDatabase.stop
    return .value .null

end ScriptM

end Rehearsal

end PooledSql
