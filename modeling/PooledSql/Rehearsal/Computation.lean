import PooledSql.Query
import PooledSql.Task.Machine
import PooledSql.Value.Access

/-!
# Computations by script

A script gives names to what it has to do with, and it hears of the tasks that it watches: of each
one once, in the step in which it ends.

The first kind of script has queries without a database: each one computes what the script says,
when the script says so. Tokens, cancel actions and derived queries are what it tries out on them.
-/

namespace PooledSql

namespace Rehearsal

/-- The name that a script gives to something. -/
abbrev Label := String

/-- What is kept under a name; the last entry under the name counts. -/
def find {α : Type} (label : Label) (entries : List (Label × α)) : Except Failure α :=
  match entries.reverse.lookup label with
  | some a => .ok a
  | none => .error (Fault.missingKey (.ofString label)).failure

section

variable {S : Setting} {O : Interface} {W : Type}

/-- More turns than the tasks of a script take after a step. -/
def turnLimit : Nat := 1000000

/-- The watched tasks that have not ended. -/
def unsettled (m : Machine S O W) (watched : List (Label × TaskId)) : List (Label × TaskId) :=
  watched.filter fun (_, task) => (m.outcome? task).isNone

/-- The outcomes of the watched tasks that have ended. -/
def settled (m : Machine S O W) (watched : List (Label × TaskId)) :
    List (Label × Except Failure S.Value) :=
  watched.filterMap fun (label, task) => (m.outcome? task).map (label, ·)

end

/-- What a derived query does with a result. -/
inductive Derivation
  | size
  | first
  | wrap
  | same
  | raise (f : Failure)

/-- The function that a derivation is. -/
def Derivation.apply (v : Value) : Derivation → Except Failure Value
  | size => do return .ofInt (← v.size)
  | first => v.atPosition 0
  | wrap => .ok (.list [v])
  | same => .ok v
  | raise f => .error f

/-- What a cancel action does beyond leaving its name. -/
inductive Reaction
  | nothing
  /-- Set the action's own token. -/
  | recancel
  /-- Wait until the script opens the gate of the action's name. -/
  | wait
  /-- Take a registration back. -/
  | remove (handle : Label)
  | raise (f : Failure)

/-- A step of a script. -/
inductive ComputationStep
  | new (label token : Label)
  | settle (label : Label) (outcome : Except Failure Value)
  | derive (label base : Label) (f : Derivation)
  /-- Wait for a query once more. -/
  | await (label query : Label)
  | cancel (query : Label)
  | cancelToken (token : Label)
  /-- Register an action. What it does is settled when its name comes up first. -/
  | register (token handle name : Label) (reaction : Reaction)
  /-- Take a registration back. -/
  | remove (handle : Label)
  /-- Raise the failure of a token that has been set. -/
  | check (token : Label)
  | openGate (name : Label)

/-- What a task of the script does. -/
inductive ComputationBody
  /-- The part of a step that is done at once. -/
  | step (s : ComputationStep)
  /-- Wait for the script and do what it says. -/
  | compute (label : Label) (signal : SignalId)
  | await (query : Query)
  | cancel (query : Query)
  | cancelToken (token : TokenId)

/-- A cancel action: its own token, and what it does. -/
structure CancelAction where
  token : TokenId
  reaction : Reaction

/-- A registration: a token, and the name of an action. -/
structure Registration where
  token : TokenId
  action : Label

/-- What a script keeps. -/
structure Board where
  /-- How often tokens may be set within one another: more often than there can be tokens. -/
  depth : Nat
  queries : List (Label × Query) := []
  tokens : List (Label × TokenId) := []
  /-- The signals that computations wait for. -/
  signals : List (Label × SignalId) := []
  outcomes : List (Label × Except Failure Value) := []
  actions : List (Label × CancelAction) := []
  handles : List (Label × Registration) := []
  /-- The signals that actions wait for. -/
  gates : List (Label × SignalId) := []
  /-- How many cancellations there have been. -/
  cancellations : Nat := 0
  /-- The tasks whose outcomes are reported, in the order in which they began. -/
  watched : List (Label × TaskId) := []
  /-- What actions have written. -/
  written : List String := []

/-- The tasks of computations by script. -/
def computationSetting : Setting := ⟨ComputationBody, Label, Value⟩

instance : BEq computationSetting.Action := inferInstanceAs (BEq String)

/-- A program of a script. -/
abbrev ComputationM (α : Type) : Type := TaskM computationSetting (Interface.state Board) α

namespace ComputationM

/-- The board. -/
def board : ComputationM Board := TaskM.outside (O := Interface.state Board) .look

/-- A change of the board. -/
def modifyBoard (f : Board → Board) : ComputationM Unit := do
  TaskM.outside (O := Interface.state Board) (.change (f (← board)))

/-- The query of a name. -/
def query (label : Label) : ComputationM Query := do
  Fiber.ofExcept (find label (← board).queries)

/-- The token of a name, made at its first mention. -/
def token (label : Label) : ComputationM TokenId := do
  match find label (← board).tokens with
  | .ok token => return token
  | .error _ =>
    let token ← TaskM.newToken
    modifyBoard fun b => { b with tokens := b.tokens ++ [(label, token)] }
    return token

/-- The signal of an action's gate, made at its first mention. -/
def gate (name : Label) : ComputationM SignalId := do
  match find name (← board).gates with
  | .ok signal => return signal
  | .error _ =>
    let signal ← TaskM.newSignal
    modifyBoard fun b => { b with gates := b.gates ++ [(name, signal)] }
    return signal

/-- Watch a task under a name. -/
def watch (label : Label) (body : ComputationBody) : ComputationM Unit := do
  let task ← TaskM.spawn (S := computationSetting) (.plain body)
  modifyBoard fun b => { b with watched := b.watched ++ [(label, task)] }

/-- Keep a query under a name and watch it. -/
def keep (label : Label) (q : Query) : ComputationM Unit := do
  modifyBoard fun b => { b with queries := b.queries ++ [(label, q)] }
  watch label (.await q)

/-- The name under which the next cancellation is reported. -/
def nextCancellation : ComputationM Label := do
  let n := (← board).cancellations + 1
  modifyBoard fun b => { b with cancellations := n }
  return "cancel" ++ toString n

/-- Write something down. -/
def write (s : String) : ComputationM Unit :=
  modifyBoard fun b => { b with written := b.written ++ [s] }

/-- Take a registration back. -/
def remove (handle : Label) : ComputationM Unit := do
  let r ← Fiber.ofExcept (find handle (← board).handles)
  TaskM.unregister (S := computationSetting) r.token r.action

/-- A cancel action. An action that sets a token runs that token's actions, and so on: every further
one sets a token that had not been set before. -/
def perform : Nat → Label → ComputationM Unit
  | depth, name => do
    write name
    let action ← Fiber.ofExcept (find name (← board).actions)
    match action.reaction with
    | .nothing => return ()
    | .recancel =>
      match depth with
      | 0 => return ()
      | depth + 1 => TaskM.cancelToken (S := computationSetting) (perform depth) action.token
    | .wait =>
      TaskM.signal (← gate name)
      write (name ++ " done")
    | .remove handle => remove handle
    | .raise f => throw f

/-- The part of a step that is done at once, and what it gives back. -/
def step : ComputationStep → ComputationM Value
  | .new label t => do
    let token ← token t
    let signal ← TaskM.newSignal
    modifyBoard fun b => { b with signals := b.signals ++ [(label, signal)] }
    keep label (← Query.issueUnder (S := computationSetting) token (.compute label signal))
    return .null
  | .settle label outcome => do
    modifyBoard fun b => { b with outcomes := b.outcomes ++ [(label, outcome)] }
    TaskM.fire (← Fiber.ofExcept (find label (← board).signals))
    return .null
  | .derive label base f => do
    keep label (← (← query base).derive (S := computationSetting) fun v => f.apply v)
    return .null
  | .await label q => do
    watch label (.await (← query q))
    return .null
  | .cancel q => do
    watch (← nextCancellation) (.cancel (← query q))
    return .null
  | .cancelToken t => do
    watch (← nextCancellation) (.cancelToken (← token t))
    return .null
  | .register t handle name reaction => do
    let token ← token t
    if let .error _ := find name (← board).actions then
      modifyBoard fun b => { b with actions := b.actions ++ [(name, { token, reaction })] }
    TaskM.register (S := computationSetting) token name
    modifyBoard fun b => { b with handles := b.handles ++ [(handle, ⟨token, name⟩)] }
    return .null
  | .remove handle => do
    remove handle
    return .null
  | .check t => do
    TaskM.raiseIfCancelled (← token t)
    return .ofString "not cancelled"
  | .openGate name => do
    TaskM.fire (← gate name)
    return .null

/-- The meaning of the computations of a script. -/
def meaning : ComputationBody → ComputationM Value
  | .step s => step s
  | .compute label signal => do
    TaskM.signal signal
    Fiber.ofExcept (← Fiber.ofExcept (find label (← board).outcomes))
  | .await q => q.result (S := computationSetting)
  | .cancel q => do
    q.cancel (S := computationSetting) (perform (← board).depth)
    return .null
  | .cancelToken token => do
    TaskM.cancelToken (S := computationSetting) (perform (← board).depth) token
    return .null

end ComputationM

/-- The effect of looking at the board and changing it. -/
def Board.perform :
    (r : (Interface.state Board).Act) → Board → (Interface.state Board).Outcome r × Board
  | .look, b => (b, b)
  | .change b, _ => ((), b)

/-- What a script of computations runs. -/
def computationEngine : Engine computationSetting (Interface.state Board) Board where
  meaning := ComputationM.meaning
  perform := Board.perform

/-- The state of a script of computations. -/
abbrev Computations : Type := Machine computationSetting (Interface.state Board) Board

/-- What a step has brought about. -/
structure ComputationReport where
  /-- What the step gave back, or how it failed, at once. -/
  direct : Except Failure Value
  written : List String
  /-- The watched tasks that have ended during the step. -/
  settled : List (Label × Except Failure Value)
  /-- Whether each query has ended. -/
  done : List (Label × Bool)
  /-- Whether each token has been set. -/
  cancelled : List (Label × Bool)
  /-- What has brought about the failures of tokens. -/
  cause? : TokenId → Option Failure

namespace Computations

/-- A step of a script. -/
def step (s : ComputationStep) (m : Computations) : ComputationReport × Computations :=
  let m : Computations := { m with world := { m.world with written := [] } }
  let before := unsettled m m.world.watched
  let known := m.world.watched.length
  let (task, m) := m.spawn (.plain (ComputationBody.step s))
  let m := m.runTurns computationEngine turnLimit
  let b := m.world
  ({ direct := (m.outcome? task).getD (.ok .null)
     written := b.written
     settled := settled m (before ++ b.watched.drop known)
     done := b.queries.map fun (label, q) => (label, (m.outcome? q.task).isSome)
     cancelled := b.tokens.map fun (label, token) => (label, m.isCancelled token)
     cause? := m.cause? }, m)

/-- The steps of a script, from some state on. -/
def runFrom (m : Computations) : List ComputationStep → List ComputationReport
  | [] => []
  | s :: rest =>
    let (report, m) := step s m
    report :: runFrom m rest

/-- All steps of a script. -/
def run (steps : List ComputationStep) : List ComputationReport :=
  runFrom { world := { depth := steps.length + 1 } } steps

end Computations

end Rehearsal

end PooledSql
