import PooledSql.Task.Settlement

/-!
# The machine

Tasks take turns. A task runs until it has to wait, and whoever waits for something is put at the
end of the queue of turns when it happens. An act takes effect at once; a wait for something that
has happened already is no wait at all. A task may be interrupted from outside while it waits: the
interruption goes to the task that it waits for, if the wait passes interruptions on, and otherwise
ends the wait with a failure.

The queue makes the order of turns definite. Everything else, such as what the acts beyond tasks do,
is a parameter, the `Engine`.
-/

namespace PooledSql

/-- What there is to run: the meaning of computations, and the effect of the acts beyond tasks on
the world around them. -/
structure Engine (S : Setting) (O : Interface) (W : Type) where
  meaning : S.Body → TaskM S O S.Value
  perform : (r : O.Act) → W → O.Outcome r × W

/-- Who waits for a task to end. -/
inductive Waiter
  /-- A task that has its turn when the other one has ended. -/
  | direct (task : TaskId)
  /-- A task that has its turn one turn later. -/
  | relayed (task : TaskId)
  deriving DecidableEq

/-- How far a task has got. -/
inductive Phase (S : Setting) (O : Interface)
  | fresh (job : Job S)
  | waiting (w : (S.interface.sum O).Wait)
      (next : Except Failure ((S.interface.sum O).Answer w) →
        Program (S.interface.sum O) (Except Failure S.Value))
  | ended (outcome : Except Failure S.Value)

/-- A task. -/
structure Task (S : Setting) (O : Interface) where
  phase : Phase S O
  /-- Whether the next turn of the task begins with an interruption. -/
  interrupted : Bool := false
  /-- Who waits for the task, in order. -/
  waiters : List Waiter := []

namespace Task

variable {S : Setting} {O : Interface}

/-- The outcome of a task that has ended. -/
def outcome? (t : Task S O) : Option (Except Failure S.Value) :=
  match t.phase with
  | .ended outcome => some outcome
  | _ => none

end Task

/-- A signal, which is given once and for all. -/
structure Signal where
  fired : Bool := false
  /-- The tasks that wait for the signal, in order. -/
  waiters : List TaskId := []

/-- An entry of the queue of turns. -/
inductive Turn
  /-- A task goes on. -/
  | resume (task : TaskId)
  /-- A task gets a turn at the end of the queue. -/
  | relay (task : TaskId)
  deriving DecidableEq

/-- The turn that a waiter gets. -/
def Waiter.turn : Waiter → Turn
  | direct task => .resume task
  | relayed task => .relay task

/-- The state of the machine. -/
structure Machine (S : Setting) (O : Interface) (W : Type) where
  tasks : List (Task S O) := []
  tokens : List (Token S.Action) := []
  signals : List Signal := []
  /-- The turns to come, in order. -/
  turns : List Turn := []
  /-- What has been logged, in order. -/
  log : List LogEntry := []
  world : W

namespace Machine

variable {S : Setting} {O : Interface} {W : Type}

/-- The outcome of a task, once it has ended. -/
def outcome? (m : Machine S O W) (i : TaskId) : Option (Except Failure S.Value) :=
  m.tasks[i]?.bind Task.outcome?

/-- Whether a token has been set. -/
def isCancelled (m : Machine S O W) (token : TokenId) : Bool :=
  (m.tokens[token]?.map (·.cancelled)).getD false

/-- What brought about the failure of a token. -/
def cause? (m : Machine S O W) (token : TokenId) : Option Failure :=
  m.tokens[token]?.bind (·.cause)

/-- Whether a signal has been given. -/
def hasFired (m : Machine S O W) (signal : SignalId) : Bool :=
  (m.signals[signal]?.map (·.fired)).getD false

/-- A change to a task. -/
def modifyTask (i : TaskId) (f : Task S O → Task S O) (m : Machine S O W) : Machine S O W :=
  { m with tasks := m.tasks.modify i f }

/-- A change to a token. -/
def modifyToken (token : TokenId) (f : Token S.Action → Token S.Action) (m : Machine S O W) :
    Machine S O W :=
  { m with tokens := m.tokens.modify token f }

/-- A change to a signal. -/
def modifySignal (signal : SignalId) (f : Signal → Signal) (m : Machine S O W) :
    Machine S O W :=
  { m with signals := m.signals.modify signal f }

/-- More turns at the end of the queue. -/
def enqueue (turns : List Turn) (m : Machine S O W) : Machine S O W :=
  { m with turns := m.turns ++ turns }

/-- A new task, whose first turn is at the end of the queue. -/
def spawn (job : Job S) (m : Machine S O W) : TaskId × Machine S O W :=
  (m.tasks.length,
    enqueue [.resume m.tasks.length] { m with tasks := m.tasks ++ [{ phase := .fresh job }] })

/-- A new token. -/
def newToken (m : Machine S O W) : TokenId × Machine S O W :=
  (m.tokens.length, { m with tokens := m.tokens ++ [{}] })

/-- A new signal. -/
def newSignal (m : Machine S O W) : SignalId × Machine S O W :=
  (m.signals.length, { m with signals := m.signals ++ [{}] })

/-- Giving a signal: those who wait for it get their turns. -/
def fire (signal : SignalId) (m : Machine S O W) : Machine S O W :=
  match m.signals[signal]? with
  | none => m
  | some s =>
    (m.modifySignal signal fun _ => { fired := true }).enqueue (s.waiters.map .resume)

/-- The end of a task: those who wait for it get their turns. -/
def finish (i : TaskId) (outcome : Except Failure S.Value) (m : Machine S O W) :
    Machine S O W :=
  match m.tasks[i]? with
  | none => m
  | some t =>
    (m.modifyTask i fun _ => { phase := .ended outcome }).enqueue (t.waiters.map Waiter.turn)

/-- The effect of an act of a task. -/
def act [BEq S.Action] (m : Machine S O W) : (r : TaskAct S) → r.Outcome × Machine S O W
  | .spawn job => m.spawn job
  | .isDone i => ((m.outcome? i).isSome, m)
  | .newToken => m.newToken
  | .isCancelled token => (m.isCancelled token, m)
  | .register token a => ((), m.modifyToken token (Token.register a))
  | .unregister token a => ((), m.modifyToken token (Token.unregister a))
  | .trip token => ((m.tokens[token]?.map (·.trip.1)).getD [],
      m.modifyToken token (·.trip.2))
  | .blame token f => ((), m.modifyToken token (Token.blame f))
  | .newSignal => m.newSignal
  | .fire signal => ((), m.fire signal)
  | .log entry => ((), { m with log := m.log ++ [entry] })

/-- What a wait would give back at once. -/
def answer? (m : Machine S O W) :
    (w : (S.interface.sum O).Wait) → Option (Except Failure ((S.interface.sum O).Answer w))
  | .inl (.join i) => m.outcome? i
  | .inl (.joinShielded i) => m.outcome? i
  | .inl (.signal s) => if m.hasFired s then some (.ok ()) else none
  | .inr _ => none

/-- The beginning of a wait: the task is among those who get a turn when it is over. -/
def await (i : TaskId) (m : Machine S O W) : (S.interface.sum O).Wait → Machine S O W
  | .inl (.join t) => m.modifyTask t fun t => { t with waiters := t.waiters ++ [.direct i] }
  | .inl (.joinShielded t) =>
    m.modifyTask t fun t => { t with waiters := t.waiters ++ [.relayed i] }
  | .inl (.signal s) => m.modifySignal s fun s => { s with waiters := s.waiters ++ [i] }
  | .inr _ => m

/-- A turn of a task: its program goes on until it has to wait or has ended. -/
def run [BEq S.Action] (e : Engine S O W) (i : TaskId) :
    Program (S.interface.sum O) (Except Failure S.Value) → Machine S O W → Machine S O W
  | .done outcome, m => m.finish i outcome
  | .act (.inl r) next, m =>
    let done := m.act r
    run e i (next done.1) done.2
  | .act (.inr r) next, m =>
    let done := e.perform r m.world
    run e i (next done.1) { m with world := done.2 }
  | .await w next, m =>
    match m.answer? w with
    | some answer => run e i (next answer) m
    | none => (m.await i w).modifyTask i fun t => { t with phase := .waiting w next }

/-- A task goes on after a wait, or for the first time. -/
def resume [BEq S.Action] (e : Engine S O W) (i : TaskId) (m : Machine S O W) :
    Machine S O W :=
  match m.tasks[i]? with
  | none => m
  | some t =>
    match t.phase with
    | .ended _ => m
    | .fresh job =>
      if t.interrupted then m.finish i (.error .interrupted)
      else run e i (job.program e.meaning) m
    | .waiting w next =>
      if t.interrupted then
        run e i (next (.error .interrupted))
          (m.modifyTask i fun t => { t with interrupted := false })
      else
        match m.answer? w with
        | some answer => run e i (next answer) m
        | none => m

/-- The answer to a wait beyond tasks, upon which the task goes on; it comes from whoever runs the
machine. -/
def reply [BEq S.Action] (e : Engine S O W) (i : TaskId)
    (answer : (w : O.Wait) → Except Failure (O.Answer w)) (m : Machine S O W) : Machine S O W :=
  match m.tasks[i]? with
  | some { phase := .waiting (.inr w) next, interrupted := false, .. } =>
    run e i (next (answer w)) m
  | _ => m

/-- What happens at a turn. -/
def turn [BEq S.Action] (e : Engine S O W) : Turn → Machine S O W → Machine S O W
  | .resume i, m => m.resume e i
  | .relay i, m => m.enqueue [.resume i]

/-- Turns are taken in order until there are no more, or up to a number of them. -/
def runTurns [BEq S.Action] (e : Engine S O W) : Nat → Machine S O W → Machine S O W
  | 0, m => m
  | n + 1, m =>
    match m.turns with
    | [] => m
    | t :: rest => runTurns e n (turn e t { m with turns := rest })

/-- An interruption at a task: its next turn begins with a failure. -/
def interruptHere (i : TaskId) (m : Machine S O W) : Machine S O W :=
  m.modifyTask i fun t => { t with interrupted := true }

/-- An interruption that ends the wait of a task. -/
def endWait (i : TaskId) (m : Machine S O W) : Machine S O W :=
  (m.interruptHere i).enqueue [.resume i]

/-- A task taken from those who wait for another one, which it keeps interruptions from. -/
def forgetRelayed (i j : TaskId) (m : Machine S O W) : Machine S O W :=
  m.modifyTask j fun t => { t with waiters := t.waiters.erase (.relayed i) }

/-- A task taken from those who wait for a signal. -/
def forgetSignal (i : TaskId) (s : SignalId) (m : Machine S O W) : Machine S O W :=
  m.modifySignal s fun s => { s with waiters := s.waiters.erase i }

/-- The interruption of a task from outside, passed on at most a number of times. -/
def interruptWithin : Nat → TaskId → Machine S O W → Machine S O W
  | 0, i, m => m.interruptHere i
  | n + 1, i, m =>
    match m.tasks[i]? with
    | none => m
    | some t =>
      match t.phase with
      | .ended _ => m
      | .fresh _ => m.interruptHere i
      | .waiting (.inl (.join j)) _ =>
        if (m.outcome? j).isSome then m.interruptHere i else m.interruptWithin n j
      | .waiting (.inl (.joinShielded j)) _ =>
        if (m.outcome? j).isSome then m.interruptHere i else (m.forgetRelayed i j).endWait i
      | .waiting (.inl (.signal s)) _ =>
        if m.hasFired s then m.interruptHere i else (m.forgetSignal i s).endWait i
      | .waiting (.inr _) _ => m.endWait i

/-- The interruption of a task from outside. Waits form no circle, so that it is passed on fewer
times than there are tasks. -/
def interrupt (i : TaskId) (m : Machine S O W) : Machine S O W :=
  m.interruptWithin m.tasks.length i

end Machine

end PooledSql
