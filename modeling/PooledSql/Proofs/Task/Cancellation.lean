import PooledSql.Proofs.Task.Account
import PooledSql.Proofs.Task.Enrolment
import PooledSql.Proofs.Task.Record
import PooledSql.Proofs.Task.Settlement

/-!
# What the cancellation of a token does

Programs that set a token only by cancelling it (`TaskM.Orderly`) run its actions as they should,
whatever else they do meanwhile. Whoever cancels the token first finds the actions that are
registered then, and runs them one after the other up to the first that fails (`TaskM.Course`); all
others find none. From then on the token is set, and nothing that is registered or taken back makes
a difference (`Regime.Run.cancelsOnce`).
-/

namespace PooledSql

variable {S : Setting} {O : Interface} {token : TokenId}

namespace TaskM

variable {perform : S.Action → TaskM S O Unit} {actions : List S.Action} {a : S.Action}
  {l part : List (Exchange (S.interface.sum O))} {e : Exchange (S.interface.sum O)}

/-- The exchanges of actions that are run one after the other and do not fail. -/
def InSequence (perform : S.Action → TaskM S O Unit) (actions : List S.Action)
    (l : List (Exchange (S.interface.sum O))) : Prop :=
  ∃ parts, List.Forall₂ (fun a part => Fiber.Ends (perform a) part (.ok ())) actions parts ∧
    l = parts.flatten

/-- One more action is run before the others. -/
theorem InSequence.cons (ha : Fiber.Ends (perform a) part (.ok ()))
    (hl : InSequence perform actions l) :
    InSequence perform (a :: actions) (part ++ l) := by
  obtain ⟨parts, hparts, rfl⟩ := hl
  exact ⟨part :: parts, .cons ha hparts, rfl⟩

/-- How far actions that are run one after the other have got: through all of them, to the failure
of one of them, after which no other one is started, or to a wait of one of them. -/
inductive Course (perform : S.Action → TaskM S O Unit) (actions : List S.Action) :
    List (Exchange (S.interface.sum O)) → Option (Except Failure Unit) → Prop
  | through {l : List (Exchange (S.interface.sum O))} :
      InSequence perform actions l → Course perform actions l (some (.ok ()))
  | failed {before after : List S.Action} {a : S.Action}
      {l part : List (Exchange (S.interface.sum O))} {f : Failure} :
      actions = before ++ a :: after → InSequence perform before l →
      Fiber.Ends (perform a) part (.error f) → Course perform actions (l ++ part) (some (.error f))
  | within {before after : List S.Action} {a : S.Action}
      {l part : List (Exchange (S.interface.sum O))} {w : (S.interface.sum O).Wait} :
      actions = before ++ a :: after → InSequence perform before l →
      Fiber.Asks (perform a) part (.call w) → Course perform actions (l ++ (part ++ [.call w])) none

/-- How far actions get when one more is run before them. -/
theorem Course.cons {o : Option (Except Failure Unit)} (ha : Fiber.Ends (perform a) part (.ok ()))
    (hl : Course perform actions l o) : Course perform (a :: actions) (part ++ l) o := by
  cases hl with
  | through hl => exact .through (hl.cons ha)
  | failed hsplit hl hend =>
    rw [← List.append_assoc]
    exact .failed (congrArg (a :: ·) hsplit) (hl.cons ha) hend
  | within hsplit hl hask =>
    rw [← List.append_assoc]
    exact .within (congrArg (a :: ·) hsplit) (hl.cons ha) hask

/-- Running actions ends with the last of them or with the first that fails. -/
theorem course_of_ends {r : Except Failure Unit} (h : Fiber.Ends (runActions perform actions) l r) :
    Course perform actions l (some r) := by
  induction actions generalizing l with
  | nil =>
    obtain ⟨rfl, rfl⟩ := Fiber.ends_pure_iff.mp h
    exact .through ⟨[], .nil, rfl⟩
  | cons a rest ih =>
    rcases Fiber.ends_bind_iff.mp h with ⟨f, hfail, rfl⟩ | ⟨⟨⟩, l₁, l₂, rfl, hend, hrest⟩
    · have hfirst : a :: rest = [] ++ a :: rest := rfl
      exact .failed hfirst ⟨[], .nil, rfl⟩ hfail
    · exact (ih hrest).cons hend

/-- What is asked for while actions are run is asked for by one of them, when those before it have
ended. -/
theorem asks_runActions (h : Fiber.Asks (runActions perform actions) l e) :
    ∃ before a after l₁ l₂,
      actions = before ++ a :: after ∧ l = l₁ ++ l₂ ∧ InSequence perform before l₁ ∧
      Fiber.Comes (runActions perform actions) l₁ (perform a) ∧ Fiber.Asks (perform a) l₂ e := by
  induction actions generalizing l with
  | nil => exact absurd h Fiber.not_asks_pure
  | cons a rest ih =>
    rcases Fiber.asks_bind_iff.mp h with h | ⟨⟨⟩, part, l', rfl, hend, h⟩
    · exact ⟨[], a, rest, [], l, rfl, rfl, ⟨[], .nil, rfl⟩, Fiber.comes_bind, h⟩
    · obtain ⟨before, b, after, l₁, l₂, rfl, rfl, hbefore, hcomes, hask⟩ := ih h
      exact ⟨a :: before, b, after, part ++ l₁, l₂, rfl, (List.append_assoc ..).symm,
        hbefore.cons hend, hend.comes.trans hcomes, hask⟩

/-- Whoever waits while actions are run has got to one of them. -/
theorem course_of_asks {w : (S.interface.sum O).Wait}
    (h : Fiber.Asks (runActions perform actions) l (.call w)) :
    Course perform actions (l ++ [.call w]) none := by
  obtain ⟨before, a, after, l₁, l₂, hsplit, rfl, hbefore, -, hask⟩ := asks_runActions h
  rw [List.append_assoc]
  exact .within hsplit hbefore hask

/-- A cancellation ends as its actions do. -/
theorem ends_cancelToken_iff {r : Except Failure Unit} :
    Fiber.Ends (cancelToken perform token) l r ↔
      ∃ found l',
        l = .act (.inl (.trip token)) found :: l' ∧ Fiber.Ends (runActions perform found) l' r :=
  Fiber.ends_act_bind_iff

/-- The programs that set a token only by cancelling it. -/
inductive Orderly : {α : Type} → TaskM S O α → Prop
  | ofExcept {α : Type} (x : Except Failure α) : Orderly (Fiber.ofExcept x)
  | bind {α β : Type} {x : TaskM S O α} {f : α → TaskM S O β} :
      Orderly x → (∀ a, Orderly (f a)) → Orderly (x >>= f)
  | attempt {α : Type} {x : TaskM S O α} : Orderly x → Orderly (Fiber.attempt x)
  | act (r : (S.interface.sum O).Act) : (∀ token, r ≠ .inl (.trip token)) → Orderly (Fiber.act r)
  | await (w : (S.interface.sum O).Wait) : Orderly (Fiber.await w)
  | cancelToken {perform : S.Action → TaskM S O Unit} (token : TokenId) :
      (∀ a, Orderly (perform a)) → Orderly (TaskM.cancelToken perform token)

namespace Orderly

variable {α : Type}

/-- Where an orderly program sets a token, it has come to a cancellation. -/
theorem comes {x : TaskM S O α} {out : List S.Action} (hx : Orderly x)
    (h : Fiber.Asks x l (.act (.inl (.trip token)) out)) :
    ∃ perform, Fiber.Comes x l (TaskM.cancelToken perform token) := by
  -- along the program: only a cancellation sets a token
  induction hx generalizing l with
  | ofExcept x => exact absurd h Fiber.not_asks_ofExcept
  | bind _ _ ihx ihf =>
    rcases Fiber.asks_bind_iff.mp h with h | ⟨a, l₁, l₂, rfl, hends, h⟩
    · obtain ⟨perform, hc⟩ := ihx h
      exact ⟨perform, Fiber.comes_bind.trans hc⟩
    · obtain ⟨perform, hc⟩ := ihf a h
      exact ⟨perform, hends.comes.trans hc⟩
  | attempt _ ih =>
    obtain ⟨perform, hc⟩ := ih (Fiber.asks_attempt_iff.mp h)
    exact ⟨perform, Fiber.comes_attempt.trans hc⟩
  | act r hr =>
    obtain ⟨-, out', he⟩ := Fiber.asks_act_iff.mp h
    cases he
    exact absurd rfl (hr token)
  | await w => cases (Fiber.asks_await_iff.mp h).2
  | @cancelToken perform token' _ ih =>
    rcases Fiber.asks_act_bind_iff.mp h with ⟨rfl, out', he⟩ | ⟨found, l', rfl, hrest⟩
    · cases he
      exact ⟨perform, .refl _⟩
    · -- an action cancels a token in its turn
      obtain ⟨before, a, after, l₁, l₂, -, rfl, -, hcomes, hask⟩ := asks_runActions hrest
      obtain ⟨perform', hc⟩ := ih a hask
      have hfirst : Fiber.Comes (TaskM.cancelToken perform token')
          [.act (.inl (.trip token')) found] (runActions perform found) :=
        Fiber.Ends.comes (Fiber.ends_act_iff.mpr ⟨found, rfl, rfl⟩)
      exact ⟨perform', hfirst.trans (hcomes.trans hc)⟩

/-- Where a job of orderly computations sets a token, it has come to a cancellation. -/
theorem comes_program {meaning : S.Body → TaskM S O S.Value} {job : Job S} {out : List S.Action}
    (hmeaning : ∀ body, Orderly (meaning body))
    (h : Fiber.Asks (job.program meaning) l (.act (.inl (.trip token)) out)) :
    ∃ perform, Fiber.Comes (job.program meaning) l (TaskM.cancelToken perform token) := by
  -- looking at a token does not set it
  have hsettle : ∀ {t : TokenId} {work : TaskM S O S.Value}, Orderly work →
      Fiber.Asks (settle t work) l (.act (.inl (.trip token)) out) →
      ∃ perform, Fiber.Comes (settle t work) l (TaskM.cancelToken perform token) := by
    intro t work hwork h
    rcases asks_settle h with h | ⟨_, he⟩ | ⟨_, he⟩
    · obtain ⟨perform, hc⟩ := hwork.comes h
      exact ⟨perform, comes_settle.trans hc⟩
    · cases he
    · cases he
  cases job with
  | query body t => exact hsettle (hmeaning body) h
  | derived base f t => exact hsettle (.bind (.await _) fun v => .ofExcept (f v)) h
  | plain body => exact (hmeaning body).comes h

end Orderly

end TaskM

variable {W : Type} {R : Regime S O W} {g g' h : History S O} {m : Machine S O W} {i : TaskId}
  {a : S.Action} {found : List S.Action} {perform : S.Action → TaskM S O Unit}

/-- Whether a task that has cancelled a token goes on to an action that it has found, those before
it being over. -/
def Regime.Starts (R : Regime S O W) (h : History S O) (i : TaskId) (token : TokenId)
    (a : S.Action) : Prop :=
  ∃ perform b before after l, R.Performs h i b (TaskM.cancelToken perform token) ∧
    h.of i = b ++ .act (.inl (.trip token)) (before ++ a :: after) :: l ∧
    TaskM.InSequence perform before l

variable [BEq S.Action]

namespace Regime

/-- What comes of the cancellations of a token. -/
structure CancelsOnce (R : Regime S O W) (h : History S O) (m : Machine S O W) (token : TokenId) :
    Prop where
  /-- Whoever sets the token cancels it, and finds what is due. -/
  called : ∀ (g g' : History S O) (i : TaskId) (found : List S.Action),
    h = g ++ .deed i (.act (.inl (.trip token)) found) :: g' →
    found = g.due token ∧ ∃ perform, R.Performs h i (g.of i) (TaskM.cancelToken perform token)
  /-- Whoever cancels the token first finds the actions that have been registered and not been taken
  back since, each once and in the order of their registration. -/
  first : ∀ (g g' : History S O) (i : TaskId) (found : List S.Action),
    h = g ++ .deed i (.act (.inl (.trip token)) found) :: g' → token < g.tokenCount →
    ¬ g.Cancelled token →
    found.Sublist (g.registrations token) ∧ found.Nodup ∧ ∀ a, a ∈ found ↔ g.Enrolled token a
  /-- Whoever cancels the token runs what is found one after the other, up to the first action that
  fails, and ends as they do. -/
  course : ∀ (g g' : History S O) (i : TaskId) (found : List S.Action)
    (perform : S.Action → TaskM S O Unit),
    h = g ++ .deed i (.act (.inl (.trip token)) found) :: g' →
    R.Performs h i (g.of i) (TaskM.cancelToken perform token) →
    ∃ l rest o, g'.of i = l ++ rest ∧ TaskM.Course perform found l o ∧
      (o = none → rest = [] ∧ ¬ h.Finished i) ∧
      ∀ r, o = some r →
        Fiber.Ends (TaskM.cancelToken perform token) (.act (.inl (.trip token)) found :: l) r
  /-- An action is started only by whoever has cancelled the token first, after that and if it has
  been found. -/
  started : ∀ (g g' : History S O) (i : TaskId) (a : S.Action), h = g ++ g' → R.Starts g i token a →
    ∃ (p q : History S O) (found : List S.Action),
      g = p ++ .deed i (.act (.inl (.trip token)) found) :: q ∧
      token < p.tokenCount ∧ ¬ p.Cancelled token ∧ a ∈ found
  /-- Whoever cancels the token later finds nothing and has nothing to do. -/
  later : ∀ (g g' : History S O) (i : TaskId) (found : List S.Action)
    (perform : S.Action → TaskM S O Unit),
    h = g ++ .deed i (.act (.inl (.trip token)) found) :: g' → g.Cancelled token →
    found = [] ∧
      Fiber.Ends (TaskM.cancelToken perform token) [.act (.inl (.trip token)) found] (.ok ())
  /-- Once the token is set, nothing is due any more, whatever is registered or taken back. -/
  idle : ∀ g g' : History S O, h = g ++ g' → g.Cancelled token → g.due token = []
  /-- Taking a registration back leaves all others. -/
  withdrawn : ∀ (g g' : History S O) (i : TaskId) (a : S.Action),
    h = g ++ .deed i (.act (.inl (.unregister token a)) ()) :: g' →
    History.due (g ++ [.deed i (.act (.inl (.unregister token a)) ())]) token =
      (g.due token).filter (· != a)
  /-- Taking a registration back once more changes nothing. -/
  again : ∀ (g k g' : History S O) (i j : TaskId) (a : S.Action),
    h = (g ++ .deed i (.act (.inl (.unregister token a)) ()) :: k) ++
      .deed j (.act (.inl (.unregister token a)) ()) :: g' →
    a ∈ g.registrations token →
    History.due ((g ++ .deed i (.act (.inl (.unregister token a)) ()) :: k) ++
        [.deed j (.act (.inl (.unregister token a)) ())]) token =
      History.due (g ++ .deed i (.act (.inl (.unregister token a)) ()) :: k) token
  /-- The token is seen to be set if it has been cancelled before. -/
  looked : ∀ (g g' : History S O) (i : TaskId) (set : Bool),
    h = g ++ .deed i (.act (.inl (.isCancelled token)) set) :: g' → (set = true ↔ g.Cancelled token)
  /-- The token stays set. -/
  stays : ∀ g g' : History S O, h = g ++ g' → g.Cancelled token → m.isCancelled token = true

/-- Whoever sets a token finds what is due. -/
theorem Possible.found_eq_due
    (hp : R.Possible (g ++ .deed i (.act (.inl (.trip token)) found) :: g')) :
    found = g.due token := by
  exact hp.yields.2

/-- Whoever sets a token by an orderly computation has come to a cancellation. -/
theorem Possible.performs_cancelToken (hmeaning : ∀ body, (R.engine.meaning body).Orderly)
    (hp : R.Possible (g ++ .deed i (.act (.inl (.trip token)) found) :: g')) :
    ∃ perform, R.Performs (g ++ .deed i (.act (.inl (.trip token)) found) :: g') i (g.of i)
      (TaskM.cancelToken perform token) := by
  obtain ⟨job, hj, hasks⟩ := hp.asks id
  obtain ⟨perform, hc⟩ := TaskM.Orderly.comes_program hmeaning hasks
  exact ⟨perform, job, History.jobs_mono hj, hc⟩

/-- Between turns, whoever has cancelled a token has run what was found, up to a failure or a
wait. -/
theorem Performs.course (hp : R.Possible h) (hrest : h.AtRest)
    (heq : h = g ++ .deed i (.act (.inl (.trip token)) found) :: g')
    (hy : R.Performs h i (g.of i) (TaskM.cancelToken perform token)) :
    ∃ l rest o, g'.of i = l ++ rest ∧ TaskM.Course perform found l o ∧
      (o = none → rest = [] ∧ ¬ h.Finished i) ∧
      ∀ r, o = some r →
        Fiber.Ends (TaskM.cancelToken perform token) (.act (.inl (.trip token)) found :: l) r := by
  -- the deed that sets the token is the first of the cancellation
  have hof : h.of i = g.of i ++ .act (.inl (.trip token)) found :: g'.of i := by
    rw [heq]
    simp [Happening.deed?]
  -- since then the task has got to the end of the cancellation, or to a wait in it
  rcases hy.ends_or_waits hp hrest hof (by simp [hof]) with ⟨l₁, l₂, r, hl, hends⟩ |
    ⟨l₁, w, hl, hask⟩
  · obtain ⟨found', l, rfl, hrun⟩ := TaskM.ends_cancelToken_iff.mp hends
    obtain ⟨he, hrest⟩ := List.cons.inj hl
    cases he
    refine ⟨l, l₂, some r, hrest, TaskM.course_of_ends hrun, ?_, fun r' hr' => ?_⟩
    · intro hnone
      exact absurd hnone (Option.some_ne_none r)
    · rw [← Option.some.inj hr']
      exact hends
  · rcases Fiber.asks_act_bind_iff.mp hask with ⟨-, _, he⟩ | ⟨found', l, rfl, hrun⟩
    · cases he
    · obtain ⟨he, hrest⟩ := List.cons.inj hl
      cases he
      -- while the last action waits, its task has not ended
      have hwaits : h.of i = (g.of i ++ .act (.inl (.trip token)) found :: l) ++ [.call w] := by
        rw [hof, hrest]
        simp
      have hbusy : ¬ h.Finished i := fun hi => hp.not_waiting_of_finished hi hwaits
      refine ⟨_, [], none, by simpa using hrest, TaskM.course_of_asks hrun,
        fun _ => ⟨rfl, hbusy⟩, ?_⟩
      intro r hr
      exact absurd hr.symm (Option.some_ne_none r)

/-- Whoever starts an action has cancelled the token first and found the action. -/
theorem Starts.first (hp : R.Possible g) (ha : R.Starts g i token a) :
    ∃ (p q : History S O) (found : List S.Action),
      g = p ++ .deed i (.act (.inl (.trip token)) found) :: q ∧
      token < p.tokenCount ∧ ¬ p.Cancelled token ∧ a ∈ found := by
  obtain ⟨perform, b, before, after, l, -, hof, -⟩ := ha
  obtain ⟨p, q, rfl, -, -⟩ := History.exists_split_of hof
  -- what is found is what is due, and something is due only once
  have hmem : a ∈ p.due token := by
    rw [← hp.found_eq_due]
    simp
  refine ⟨p, q, _, rfl, ?_, fun hset => ?_, by simp⟩
  · -- under a token that has not been made nothing is found
    by_contra hlt
    rw [History.due, History.no_token hlt] at hmem
    exact List.not_mem_nil hmem
  · rw [hset.due_eq] at hmem
    exact List.not_mem_nil hmem

variable [LawfulBEq S.Action]

/-- However many tasks register actions under a token, take them back and cancel the token, and
whatever else they do meanwhile, the token is cancelled once. Only the first cancellation runs
actions, and these are the ones that are registered then and have not been taken back. -/
theorem Run.cancelsOnce (hr : R.Run h m) (hmeaning : ∀ body, (R.engine.meaning body).Orderly)
    (honce : (h.registrations token).Nodup) : R.CancelsOnce h m token := by
  have hp := hr.possible
  -- what is registered once is registered once up to any point
  have honce' : ∀ {g g' : History S O}, h = g ++ g' → (g.registrations token).Nodup := by
    rintro g g' rfl
    rw [History.registrations_append] at honce
    exact honce.of_append_left
  exact
    { called := by
        rintro g g' i found rfl
        exact ⟨hp.found_eq_due, hp.performs_cancelToken hmeaning⟩
      first := by
        rintro g g' i found heq hlt hfree
        have hfound : found = g.due token := (heq ▸ hp).found_eq_due
        have hsub : (g.due token).Sublist (g.registrations token) := History.due_sublist
        rw [hfound]
        exact ⟨hsub, hsub.nodup (honce' heq), fun a => History.mem_due_iff (honce' heq) hfree⟩
      course := fun g g' i found perform heq hy => hy.course hp hr.atRest heq
      started := by
        rintro g g' i a rfl ha
        exact ha.first hp.of_append
      later := by
        rintro g g' i found perform rfl hset
        obtain rfl : found = [] := hp.found_eq_due.trans hset.due_eq
        exact ⟨rfl,
          TaskM.ends_cancelToken_iff.mpr ⟨[], [], rfl, Fiber.ends_pure_iff.mpr ⟨rfl, rfl⟩⟩⟩
      idle := fun g g' _ hset => hset.due_eq
      withdrawn := fun g g' i a heq => History.due_withdraw (honce' heq)
      again := by
        rintro g k g' i j a heq ha
        rw [History.due_withdraw (honce' heq), List.filter_eq_self]
        intro b hb
        have hne : b ≠ a := by
          rintro rfl
          exact History.not_mem_due_of_withdrawn (honce' heq) ha hb
        simpa using hne
      looked := by
        rintro g g' i set rfl
        exact hp.yields
      stays := by
        rintro g g' rfl hset
        exact (hr.records.cancelled_iff token).mpr hset.mono }

end Regime

/-- What is set off when a token is cancelled. -/
inductive Alarm
  | bell
  | light
  | horn
  | siren
  deriving DecidableEq

/-- Tasks that register alarms and cancel tokens; one of them cancels a token that it is given. -/
def Setting.alarms : Setting := ⟨Option TokenId, Alarm, Unit⟩

instance : BEq Setting.alarms.Action := inferInstanceAs (BEq Alarm)

instance : LawfulBEq Setting.alarms.Action := inferInstanceAs (LawfulBEq Alarm)

/-- Cancelling a token after somebody else has, registering one more alarm and taking one back. -/
def TaskM.alarmLate (token : TokenId) : TaskM Setting.alarms Interface.nothing Unit := do
  cancelToken (S := Setting.alarms) (fun _ => pure ()) token
  register (S := Setting.alarms) token Alarm.siren
  unregister (S := Setting.alarms) token Alarm.horn

/-- Registering three alarms, taking one of them back twice, and cancelling the token before another
task does so; each alarm waits for that task. -/
def TaskM.alarm : TaskM Setting.alarms Interface.nothing Unit := do
  let token ← newToken
  register (S := Setting.alarms) token Alarm.bell
  register (S := Setting.alarms) token Alarm.light
  register (S := Setting.alarms) token Alarm.horn
  unregister (S := Setting.alarms) token Alarm.light
  unregister (S := Setting.alarms) token Alarm.light
  let other ← spawn (S := Setting.alarms) (.plain (some token))
  cancelToken (S := Setting.alarms) (fun _ => discard (join (S := Setting.alarms) other)) token

/-- A regime in which a token is cancelled twice. -/
def Regime.alarms : Regime Setting.alarms Interface.nothing Unit where
  engine :=
    { meaning := fun body => Option.elim body TaskM.alarm TaskM.alarmLate,
      perform := nofun }
  Agrees _ _ := True
  agrees_act _ r := nomatch r
  agrees_other _ _ := trivial
  Launches _ := True
  Answers _ w := nomatch w

/-- Its computations set tokens only by cancelling them. -/
theorem Regime.orderly_alarms (body : Setting.alarms.Body) :
    (Regime.alarms.engine.meaning body).Orderly := by
  cases body with
  | none =>
    refine .bind (.act _ nofun) fun token => .bind (.act _ nofun) fun _ =>
      .bind (.act _ nofun) fun _ => ?_
    refine .bind (.act _ nofun) fun _ => .bind (.act _ nofun) fun _ =>
      .bind (.act _ nofun) fun _ => ?_
    exact .bind (.act _ nofun) fun other => .cancelToken _ fun _ => .bind (.await _) fun _ =>
      .ofExcept (.ok ())
  | some token =>
    refine .bind (.cancelToken _ fun _ => .ofExcept (.ok ())) fun _ => ?_
    exact .bind (.act _ nofun) fun _ => .act _ nofun

/-- Of three alarms one is taken back, and the two others are found by the first cancellation, after
which one more alarm is registered and one of the two is taken back. The second cancellation finds
none. -/
theorem cancelsOnce_alarms :
    ∃ (h g g' k k' : History Setting.alarms Interface.nothing)
      (m : Machine Setting.alarms Interface.nothing Unit) (found : List Alarm),
      Regime.alarms.Run h m ∧ h = g ++ .deed 0 (.act (.inl (.trip 0)) found) :: g' ∧
      found = [.bell, .horn] ∧ (∀ a, a ∈ found ↔ g.Enrolled 0 a) ∧
      h = k ++ .deed 1 (.act (.inl (.trip 0)) ([] : List Alarm)) :: k' ∧
      m.isCancelled 0 = true := by
  have hstart : Regime.alarms.Run [] { world := () } := .start trivial
  have hrun := (hstart.launch (show Regime.alarms.Launches (.plain none) from trivial)).runTurns 10
  obtain ⟨h, m, g, g', found, k, k', late, hr, hlist, hfirst, hmade, hfound, hlater, hset⟩ :
      ∃ h m g g' found k k' late, Regime.alarms.Run h m ∧
        h.registrations 0 = [Alarm.bell, .light, .horn, .siren] ∧
        h = g ++ .deed 0 (.act (.inl (.trip 0)) found) :: g' ∧
        (History.tokenCount g = 1 ∧ History.tokens g = [({ actions := found } : Token Alarm)]) ∧
        found = [Alarm.bell, .horn] ∧ h = k ++ .deed 1 (.act (.inl (.trip 0)) late) :: k' ∧
        History.Cancelled k 0 := by
    -- the token is set for the first time by the ninth thing that happens, for the second time by
    -- the eleventh
    refine ⟨_, _, _, _, _, _, _, _, hrun, rfl, (List.take_append_drop 8 _).symm, ⟨rfl, rfl⟩, rfl,
      (List.take_append_drop 10 _).symm, ?_⟩
    exact ⟨_, 0, [Alarm.bell, .horn], _, (List.take_append_drop 8 _).symm, by decide⟩
  have honce : ([.bell, .light, .horn, .siren] : List Alarm).Nodup := by decide
  have hall := hr.cancelsOnce Regime.orderly_alarms (hlist ▸ honce)
  have hfree : ¬ History.Cancelled g 0 := fun hset =>
    Bool.false_ne_true ((History.cancelled_iff_of_token (by rw [hmade.2]; rfl)).mpr hset)
  obtain ⟨-, -, hmem⟩ := hall.first g g' 0 found hfirst (by rw [hmade.1]; decide) hfree
  obtain ⟨rfl, -⟩ := hall.later k k' 1 late (fun _ => pure ()) hlater hset
  exact ⟨h, g, g', k, k', m, found, hr, hfirst, hfound, hmem, hlater, hall.stays k _ hlater hset⟩

end PooledSql
