import PooledSql.Proofs.Task.History

/-!
# Runs of the machine

The states that the machine can come to, each with the history of what has happened on the way.
Tasks may be started and interrupted from outside, waits beyond tasks may be answered at any time,
and turns may be taken in any order, the order of the queue among them.

`Regime.Run R h m` says that the machine can come to the state `m` by the history `h`. What happens
in a turn is collected along the program that runs, in step with `Machine.run`.
-/

namespace PooledSql

variable {S : Setting} {O : Interface} {W : Type}

namespace Machine

section Happenings

variable [BEq S.Action]

/-- What happens while a task goes on with a program. -/
def happenings (e : Engine S O W) (i : TaskId) :
    Program (S.interface.sum O) (Except Failure S.Value) → Machine S O W → History S O
  | .done outcome, _ => [.finish i outcome]
  | .act (.inl r) next, m =>
    let done := m.act r
    .deed i (.act (.inl r) done.1) :: happenings e i (next done.1) done.2
  | .act (.inr r) next, m =>
    let done := e.perform r m.world
    .deed i (.act (.inr r) done.1) :: happenings e i (next done.1) { m with world := done.2 }
  | .await w next, m =>
    match m.answer? w with
    | some answer =>
      .deed i (.call w) :: .deed i (.answer w answer) :: happenings e i (next answer) m
    | none => [.deed i (.call w)]

/-- What happens when a task goes on after a wait, or for the first time. -/
def resumeHappenings (e : Engine S O W) (i : TaskId) (m : Machine S O W) : History S O :=
  match m.tasks[i]? with
  | none => []
  | some t =>
    match t.phase with
    | .ended _ => []
    | .fresh job =>
      if t.interrupted then [.finish i (.error .interrupted)]
      else happenings e i (job.program e.meaning) m
    | .waiting w next =>
      if t.interrupted then
        .deed i (.answer w (.error .interrupted)) ::
          happenings e i (next (.error .interrupted))
            (m.modifyTask i fun t => { t with interrupted := false })
      else
        match m.answer? w with
        | some answer => .deed i (.answer w answer) :: happenings e i (next answer) m
        | none => []

/-- What happens at a turn. -/
def turnHappenings (e : Engine S O W) : Turn → Machine S O W → History S O
  | .resume i, m => m.resumeHappenings e i
  | .relay _, _ => []

/-- What happens while turns are taken in order, up to a number of them. -/
def turnsHappenings (e : Engine S O W) : Nat → Machine S O W → History S O
  | 0, _ => []
  | n + 1, m =>
    match m.turns with
    | [] => []
    | t :: rest =>
      ({ m with turns := rest } : Machine S O W).turnHappenings e t ++
        turnsHappenings e n (turn e t { m with turns := rest })

/-- What happens upon the answer to a wait beyond tasks. -/
def replyHappenings (e : Engine S O W) (i : TaskId)
    (answer : (w : O.Wait) → Except Failure (O.Answer w)) (m : Machine S O W) : History S O :=
  match m.tasks[i]? with
  | some { phase := .waiting (.inr w) next, interrupted := false, .. } =>
    .deed i (.answer (.inr w) (answer w)) :: happenings e i (next (answer w)) m
  | _ => []

end Happenings

/-- The task that an interruption from outside reaches, passed on at most a number of times. -/
def reachedWithin : Nat → TaskId → Machine S O W → Option TaskId
  | 0, i, _ => some i
  | n + 1, i, m =>
    match m.tasks[i]? with
    | none => none
    | some t =>
      match t.phase with
      | .ended _ => none
      | .waiting (.inl (.join j)) _ =>
        if (m.outcome? j).isSome then some i else reachedWithin n j m
      | _ => some i

/-- The task that an interruption of a task from outside reaches. -/
def reached (i : TaskId) (m : Machine S O W) : Option TaskId := reachedWithin m.tasks.length i m

end Machine

/-- The states that the machine can come to, with what has happened on the way. -/
inductive Regime.Run [BEq S.Action] (R : Regime S O W) : History S O → Machine S O W → Prop
  | start {w : W} : R.Agrees [] w → Run R [] { world := w }
  | launch {h : History S O} {m : Machine S O W} {job : Job S} :
      Run R h m → R.Launches job → Run R (h ++ [.launch job]) (m.spawn job).2
  | turn {h : History S O} {m : Machine S O W} {t : Turn} {before after : List Turn} :
      Run R h m → m.turns = before ++ t :: after →
      Run R (h ++ ({ m with turns := before ++ after } : Machine S O W).turnHappenings R.engine t)
        (Machine.turn R.engine t { m with turns := before ++ after })
  | reply {h : History S O} {m : Machine S O W} (i : TaskId)
      (answer : (w : O.Wait) → Except Failure (O.Answer w)) :
      Run R h m →
      (∀ t w next, m.tasks[i]? = some t → t.phase = .waiting (.inr w) next →
        R.Answers h w (answer w)) →
      Run R (h ++ m.replyHappenings R.engine i answer) (m.reply R.engine i answer)
  | interrupt {h : History S O} {m : Machine S O W} (i : TaskId) :
      Run R h m → Run R (h ++ (m.reached i).toList.map .interrupt) (m.interrupt i)
  | fire {h : History S O} {m : Machine S O W} (signal : SignalId) :
      Run R h m → Run R h (m.fire signal)
  /-- The world changes by itself. -/
  | drift {h : History S O} {m : Machine S O W} {w : W} :
      Run R h m → R.Agrees h w → Run R h { m with world := w }

/-- Turns taken in the order of the queue are among the turns that may be taken. -/
theorem Regime.Run.runTurns [BEq S.Action] {R : Regime S O W} {h : History S O}
    {m : Machine S O W} (hr : R.Run h m) (n : Nat) :
    R.Run (h ++ m.turnsHappenings R.engine n) (m.runTurns R.engine n) := by
  induction n generalizing h m with
  | zero => simpa [Machine.runTurns, Machine.turnsHappenings] using hr
  | succ n ih =>
    rw [Machine.runTurns, Machine.turnsHappenings]
    cases hturns : m.turns with
    | nil => simpa using hr
    | cons t rest =>
      have hfirst : m.turns = [] ++ t :: rest := hturns
      simpa [List.append_assoc] using ih (hr.turn hfirst)

end PooledSql
