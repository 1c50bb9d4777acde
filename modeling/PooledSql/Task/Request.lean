import PooledSql.Log
import PooledSql.Task.Program
import PooledSql.Task.Token

/-!
# Tasks

Programs run as tasks. A task may start further tasks and wait for them, share cancellation tokens
with them, and wait for signals that other tasks give. What tasks compute and what their cancel
actions are differs from use to use; it is collected in a `Setting`, and the requests that go beyond
tasks are an interface of their own.
-/

namespace PooledSql

/-- The name of a task. -/
abbrev TaskId := Nat

/-- The name of a signal. -/
abbrev SignalId := Nat

/-- What varies between uses of tasks. -/
structure Setting where
  /-- The computations that tasks run, by name. -/
  Body : Type
  /-- The actions that run when a token is set, by name. -/
  Action : Type
  /-- What tasks give back. -/
  Value : Type

/-- What a task does. -/
inductive Job (S : Setting)
  /-- A computation whose outcome is replaced once its token is set. -/
  | query (body : S.Body) (token : TokenId)
  /-- The outcome of another task, sent through a function, under the same token. -/
  | derived (base : TaskId) (f : S.Value → Except Failure S.Value) (token : TokenId)
  /-- A computation on its own. -/
  | plain (body : S.Body)

/-- The acts of a task. -/
inductive TaskAct (S : Setting)
  /-- Start a task. -/
  | spawn (job : Job S)
  /-- Has a task ended? -/
  | isDone (task : TaskId)
  | newToken
  | isCancelled (token : TokenId)
  | register (token : TokenId) (action : S.Action)
  | unregister (token : TokenId) (action : S.Action)
  /-- Set a token and take its actions. -/
  | trip (token : TokenId)
  /-- Say what brought about the failure of a token. -/
  | blame (token : TokenId) (cause : Failure)
  | newSignal
  /-- Give a signal. -/
  | fire (signal : SignalId)
  | log (entry : LogEntry)

/-- What an act gives back. -/
def TaskAct.Outcome {S : Setting} : TaskAct S → Type
  | spawn _ => TaskId
  | isDone _ => Bool
  | newToken => TokenId
  | isCancelled _ => Bool
  | register .. => Unit
  | unregister .. => Unit
  | trip _ => List S.Action
  | blame .. => Unit
  | newSignal => SignalId
  | fire _ => Unit
  | log _ => Unit

/-- The waits of a task. -/
inductive TaskWait
  /-- Wait for a task to end; an interruption of the wait is passed on to that task. -/
  | join (task : TaskId)
  /-- Wait for a task to end; an interruption of the wait leaves that task alone. -/
  | joinShielded (task : TaskId)
  /-- Wait for a signal. -/
  | signal (signal : SignalId)

/-- What a wait gives back. -/
def TaskWait.Answer (S : Setting) : TaskWait → Type
  | join _ => S.Value
  | joinShielded _ => S.Value
  | signal _ => Unit

/-- What a task may ask of others. -/
def Setting.interface (S : Setting) : Interface :=
  ⟨TaskAct S, TaskAct.Outcome, TaskWait, TaskWait.Answer S⟩

/-- A program that runs as a task, or as part of one, and asks for more besides. -/
abbrev TaskM (S : Setting) (O : Interface) (α : Type) : Type := Fiber (S.interface.sum O) α

namespace TaskM

variable {S : Setting} {O : Interface}

/-- An act of a task. -/
def ask (r : TaskAct S) : TaskM S O r.Outcome := Fiber.act (I := S.interface.sum O) (.inl r)

/-- A wait of a task. -/
def wait (w : TaskWait) : TaskM S O (w.Answer S) := Fiber.await (I := S.interface.sum O) (.inl w)

/-- An act beyond tasks. -/
def outside (r : O.Act) : TaskM S O (O.Outcome r) := Fiber.act (I := S.interface.sum O) (.inr r)

/-- A wait beyond tasks. -/
def outsideWait (w : O.Wait) : TaskM S O (O.Answer w) :=
  Fiber.await (I := S.interface.sum O) (.inr w)

/-- Start a task. -/
def spawn (job : Job S) : TaskM S O TaskId := ask (.spawn job)

/-- Has a task ended? -/
def isDone (task : TaskId) : TaskM S O Bool := ask (.isDone task)

/-- A new token. -/
def newToken : TaskM S O TokenId := ask .newToken

/-- Has a token been set? -/
def isCancelled (token : TokenId) : TaskM S O Bool := ask (.isCancelled token)

/-- Register an action of a token. -/
def register (token : TokenId) (action : S.Action) : TaskM S O Unit :=
  ask (.register token action)

/-- Take back a registration. -/
def unregister (token : TokenId) (action : S.Action) : TaskM S O Unit :=
  ask (.unregister token action)

/-- Set a token and take its actions. -/
def trip (token : TokenId) : TaskM S O (List S.Action) := ask (.trip token)

/-- Say what brought about the failure of a token. -/
def blame (token : TokenId) (cause : Failure) : TaskM S O Unit := ask (.blame token cause)

/-- A new signal. -/
def newSignal : TaskM S O SignalId := ask .newSignal

/-- Give a signal. -/
def fire (signal : SignalId) : TaskM S O Unit := ask (.fire signal)

/-- Write an entry to the log. -/
def log (entry : LogEntry) : TaskM S O Unit := ask (.log entry)

/-- Wait for a task to end. -/
def join (task : TaskId) : TaskM S O S.Value := wait (.join task)

/-- Wait for a task to end, keeping interruptions from it. -/
def joinShielded (task : TaskId) : TaskM S O S.Value := wait (.joinShielded task)

/-- Wait for a signal. -/
def signal (signal : SignalId) : TaskM S O Unit := wait (.signal signal)

end TaskM

end PooledSql
