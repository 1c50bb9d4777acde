import PooledSql.Proofs.Task.Record

/-!
# Nobody is forgotten

A task that has not begun has a turn to come. A task that waits for another one, which was there
when the wait began, is among those who get a turn when that one ends, and once it has ended, there
is that turn. So when there are no more turns, every task has begun, and nobody waits for a task
that has ended (`Regime.Run.wakeful_of`).
-/

namespace PooledSql

variable {S : Setting} {O : Interface} {W : Type}

namespace Machine

variable {m m' : Machine S O W} {i j : TaskId}

/-- Whether a task gets a turn when another one ends. -/
def Expects (m : Machine S O W) (i j : TaskId) : Prop :=
  ∃ t, m.tasks[j]? = some t ∧ .direct i ∈ t.waiters

/-- Whether nobody has been forgotten, but perhaps a task that has its turn, where those who wait
for a task do so as `P` says. -/
structure Wakeful (P : TaskId → TaskId → Prop) (m : Machine S O W)
    (busy : Option TaskId) : Prop where
  fresh : ∀ i job, busy ≠ some i → m.phase? i = some (.fresh job) → .resume i ∈ m.turns
  expected : ∀ i j next, busy ≠ some i → P i j →
    m.phase? i = some (.waiting (.inl (.join j)) next) → m.outcome? j = none → m.Expects i j
  joined : ∀ i j next, busy ≠ some i → P i j →
    m.phase? i = some (.waiting (.inl (.join j)) next) → m.outcome? j ≠ none → .resume i ∈ m.turns

/-- Whether a task, in what happens next, waits as `P` says only for tasks that are there by
then. -/
def Foresees (P : TaskId → TaskId → Prop) (m : Machine S O W) (i : TaskId)
    (g : History S O) : Prop :=
  ∀ (a b : History S O) (j : TaskId), g = a ++ .deed i (.call (.inl (.join j))) :: b → P i j →
    j < m.tasks.length + a.jobs.length

/-- What is foreseen of all that happens is foreseen of the rest when the first of it has
happened. -/
theorem Foresees.tail {P : TaskId → TaskId → Prop} {e : Happening S O} {g : History S O}
    (hg : m.Foresees P i (e :: g)) (hm : m'.tasks.length = m.tasks.length + e.job?.toList.length) :
    m'.Foresees P i g := by
  rintro a b j rfl hij
  have hlt := hg (e :: a) b j rfl hij
  rwa [History.jobs_cons, List.length_append, ← Nat.add_assoc, ← hm] at hlt

/-- An act of a task starts at most one task. -/
theorem length_tasks_act [BEq S.Action] (r : TaskAct S) {out : r.Outcome} :
    (m.act r).2.tasks.length = m.tasks.length +
      (Happening.deed i (.act (.inl r) out) : Happening S O).job?.toList.length := by
  cases r with
  | spawn job => simp [act, spawn, enqueue, Happening.job?]
  | fire signal =>
    change (m.fire signal).tasks.length = m.tasks.length
    unfold fire
    split <;> simp [enqueue, modifySignal]
  | _ => rfl

namespace Wakeful

variable {P : TaskId → TaskId → Prop} {busy : Option TaskId}

/-- Who has its turn may be forgotten. -/
theorem weaken (hm : m.Wakeful P none) : m.Wakeful P busy where
  fresh i job _ := hm.fresh i job nofun
  expected i j next _ := hm.expected i j next nofun
  joined i j next _ := hm.joined i j next nofun

/-- The task that has its turn is not forgotten if it has begun, and is among those who get a turn
when the task that it waits for ends. -/
theorem of_busy (hm : m.Wakeful P (some i)) (hfresh : ∀ job, m.phase? i ≠ some (.fresh job))
    (hwaits : ∀ j next, P i j → m.phase? i = some (.waiting (.inl (.join j)) next) →
      m.outcome? j = none ∧ m.Expects i j) : m.Wakeful P none where
  fresh k job _ hk := hm.fresh k job (fun h => hfresh job (Option.some.inj h ▸ hk)) hk
  expected k j next _ hlt hk hj := by
    by_cases hik : i = k
    · subst hik
      exact (hwaits j next hlt hk).2
    · exact hm.expected k j next (by simpa using hik) hlt hk hj
  joined k j next _ hlt hk hj := by
    by_cases hik : i = k
    · subst hik
      exact absurd (hwaits j next hlt hk).1 hj
    · exact hm.joined k j next (by simpa using hik) hlt hk hj

/-- Nobody is forgotten by changes that leave phases alone and take away no turns and no one who
waits for a task. -/
theorem mono (hm : m.Wakeful P busy) (hs : ∀ i, m'.phase? i = m.phase? i)
    (ht : m.turns ⊆ m'.turns) (he : ∀ i j, m.Expects i j → m'.Expects i j) : m'.Wakeful P busy where
  fresh i job hne hi := ht (hm.fresh i job hne (hs i ▸ hi))
  expected i j next hne hlt hi hj :=
    he i j (hm.expected i j next hne hlt (hs i ▸ hi) (outcome?_congr (hs j) ▸ hj))
  joined i j next hne hlt hi hj :=
    ht (hm.joined i j next hne hlt (hs i ▸ hi) (outcome?_congr (hs j) ▸ hj))

/-- A change to one task that leaves its phase alone and takes away no one who has a turn at its
end. -/
theorem modifyTask {f : Task S O → Task S O} (hm : m.Wakeful P busy)
    (hf : ∀ t, (f t).phase = t.phase ∧ ∀ k, .direct k ∈ t.waiters → .direct k ∈ (f t).waiters) :
    (m.modifyTask i f).Wakeful P busy := by
  refine hm.mono (fun j => ?_) (List.Subset.refl _) ?_
  · exact phase?_modifyTask_of_phase fun t => (hf t).1
  · rintro k j ⟨t, ht, hk⟩
    refine ⟨if i = j then f t else t, ?_, ?_⟩
    · simp only [Machine.modifyTask, List.getElem?_modify, ht]
      rfl
    · split
      · exact (hf t).2 k hk
      · exact hk

/-- More turns. -/
theorem enqueue (hm : m.Wakeful P busy) (turns : List Turn) : (m.enqueue turns).Wakeful P busy :=
  hm.mono (fun _ => rfl) (List.subset_append_left ..) fun _ _ h => h

/-- A signal is given. -/
theorem fire (hm : m.Wakeful P busy) (signal : SignalId) : (m.fire signal).Wakeful P busy := by
  unfold Machine.fire
  split
  · exact hm
  · exact hm.mono (fun _ => rfl) (List.subset_append_left ..) fun _ _ h => h

/-- A task is started. -/
theorem spawn (hm : m.Wakeful P busy) (job : Job S) : (m.spawn job).2.Wakeful P busy := by
  have hturns : (m.spawn job).2.turns = m.turns ++ [.resume m.tasks.length] := rfl
  constructor
  case fresh =>
    intro i job' hne hi
    rw [hturns]
    -- the turn of the new task is the last in the queue
    rcases phase?_spawn hi with hi | ⟨rfl, -⟩
    · exact List.mem_append_left _ (hm.fresh i job' hne hi)
    · exact List.mem_append_right _ (List.mem_singleton_self _)
  case expected =>
    intro i j next hne hlt hi hj
    rcases phase?_spawn hi with hi | ⟨-, hp⟩
    · obtain ⟨t, ht, hmem⟩ := hm.expected i j next hne hlt hi (outcome?_spawn ▸ hj)
      exact ⟨t, (List.getElem?_append_left (List.getElem?_eq_some_iff.mp ht).1).trans ht, hmem⟩
    · cases hp
  case joined =>
    intro i j next hne hlt hi hj
    rw [hturns]
    rcases phase?_spawn hi with hi | ⟨-, hp⟩
    · exact List.mem_append_left _ (hm.joined i j next hne hlt hi (outcome?_spawn ▸ hj))
    · cases hp

/-- The task that has its turn ends. -/
theorem finish {r : Except Failure S.Value} (hm : m.Wakeful P (some i)) :
    (m.finish i r).Wakeful P none := by
  cases hi : m.tasks[i]? with
  | none =>
    have hsame : m.finish i r = m := by simp [Machine.finish, hi]
    have hnone : m.phase? i = none := by simp [phase?, hi]
    rw [hsame]
    exact hm.of_busy (fun _ => by simp [hnone]) fun _ _ _ hp => by simp [hnone] at hp
  | some t =>
    have hfinish : m.finish i r = (m.modifyTask i fun _ => { phase := .ended r }).enqueue
        (t.waiters.map Waiter.turn) := by simp [Machine.finish, hi]
    have hended : (m.finish i r).outcome? i = some r := by
      rw [outcome?_eq_some_iff_phase?, hfinish]
      change (m.modifyTask i fun _ => { phase := .ended r }).phase? i = _
      simp [phase?_modifyTask, hi]
    have hphase : ∀ {k}, i ≠ k → (m.finish i r).phase? k = m.phase? k := by
      intro k hne
      rw [hfinish]
      exact phase?_modifyTask.trans (if_neg hne)
    -- a task with another phase is another task
    have hother : ∀ {k p}, (m.finish i r).phase? k = some p → (∀ r, p ≠ .ended r) →
        some i ≠ some k ∧ m.phase? k = some p := by
      intro k p hk hp
      have hne : i ≠ k := by
        rintro rfl
        rw [outcome?_eq_some_iff_phase?.mp hended] at hk
        exact hp r (Option.some.inj hk).symm
      exact ⟨by simpa using hne, hphase hne ▸ hk⟩
    have hturns :
        (m.finish i r).turns = m.turns ++ t.waiters.map Waiter.turn := by rw [hfinish]; rfl
    constructor
    case fresh =>
      intro k job _ hk
      obtain ⟨hne, hk⟩ := hother hk (by simp)
      rw [hturns]
      exact List.mem_append_left _ (hm.fresh k job hne hk)
    case expected =>
      intro k j next _ hlt hk hj
      obtain ⟨hne, hk⟩ := hother hk (by simp)
      -- the task waited for has not ended, so it is another one too
      have hij : i ≠ j := by
        rintro rfl
        rw [hended] at hj
        cases hj
      obtain ⟨t', ht', hmem⟩ :=
        hm.expected k j next hne hlt hk (outcome?_congr (hphase hij) ▸ hj)
      refine ⟨t', ?_, hmem⟩
      simp [hfinish, Machine.enqueue, Machine.modifyTask, hij, ht']
    case joined =>
      intro k j next _ hlt hk hj
      obtain ⟨hne, hk⟩ := hother hk (by simp)
      rw [hturns]
      by_cases hbefore : m.outcome? j = none
      · -- it is the end of the task that has its turn which is waited for
        obtain ⟨t', ht', hmem⟩ := hm.expected k j next hne hlt hk hbefore
        obtain rfl : i = j := by
          by_contra hij
          exact hj ((outcome?_congr (hphase hij)).trans hbefore)
        rw [hi] at ht'
        cases ht'
        exact List.mem_append_right _ (List.mem_map.mpr ⟨_, hmem, rfl⟩)
      · exact List.mem_append_left _ (hm.joined k j next hne hlt hk hbefore)

/-- The task that has its turn begins to wait, for a task that is there. -/
theorem suspend {w : (S.interface.sum O).Wait}
    {next : Except Failure ((S.interface.sum O).Answer w) →
      Program (S.interface.sum O) (Except Failure S.Value)}
    (hm : m.Wakeful P (some i)) (hi : m.outcome? i = none) (hans : m.answer? w = none)
    (hw : ∀ j, w = .inl (.join j) → P i j → j < m.tasks.length) :
    ((m.await i w).modifyTask i fun t => { t with phase := .waiting w next }).Wakeful P none := by
  -- to register with what is waited for gives or takes away no turn
  have hawait : (m.await i w).Wakeful P (some i) := by
    match w with
    | .inl (.join j) => exact hm.modifyTask fun t => ⟨rfl, fun k hk => List.mem_append_left _ hk⟩
    | .inl (.joinShielded j) =>
      exact hm.modifyTask fun t => ⟨rfl, fun k hk => List.mem_append_left _ hk⟩
    | .inl (.signal s) => exact hm.mono (fun _ => rfl) (List.Subset.refl _) fun _ _ h => h
    | .inr w => exact hm
  -- nor does the new phase take anyone from the list of those who wait
  have hexpects : ∀ {k j}, (m.await i w).Expects k j →
      ((m.await i w).modifyTask i fun t => { t with phase := .waiting w next }).Expects k j := by
    rintro k j ⟨t, ht, hk⟩
    refine ⟨if i = j then { t with phase := .waiting w next } else t, ?_, ?_⟩
    · simp only [Machine.modifyTask, List.getElem?_modify, ht]
      rfl
    · split <;> exact hk
  have hother : ∀ {k}, i ≠ k →
      ((m.await i w).modifyTask i fun t => { t with phase := .waiting w next }).phase? k =
        (m.await i w).phase? k := fun hne => phase?_modifyTask.trans (if_neg hne)
  have hown : ∀ {p}, ((m.await i w).modifyTask i fun t =>
      { t with phase := .waiting w next }).phase? i = some p →
      p = .waiting w next := by
    intro p hp
    rw [phase?_modifyTask, if_pos rfl] at hp
    obtain ⟨t, ht, rfl⟩ := Option.map_eq_some_iff.mp hp
    rfl
  have hsame : ∀ {j}, ((m.await i w).modifyTask i fun t =>
      { t with phase := .waiting w next }).outcome? j = m.outcome? j := outcome?_suspend hi
  constructor
  case fresh =>
    intro k job _ hk
    by_cases hik : i = k
    · subst hik
      cases hown hk
    · exact hawait.fresh k job (by simpa using hik) (hother hik ▸ hk)
  case expected =>
    intro k j next' _ hlt hk hj
    by_cases hik : i = k
    · subst hik
      cases hown hk
      have hj : j < m.tasks.length := hw j rfl hlt
      -- the task has just been entered in the list of the one it waits for
      refine hexpects ⟨{ m.tasks[j] with waiters := m.tasks[j].waiters ++ [.direct i] },
        ?_, by simp⟩
      simp [Machine.await, Machine.modifyTask, hj]
    · rw [hsame, ← outcome?_congr (phase?_await (i := i) (w := w))] at hj
      exact hexpects (hawait.expected k j next' (by simpa using hik) hlt (hother hik ▸ hk) hj)
  case joined =>
    intro k j next' _ hlt hk hj
    rw [hsame] at hj
    by_cases hik : i = k
    · subst hik
      cases hown hk
      -- the task waited for has not ended, or there would have been an answer
      exact absurd hans hj
    · rw [← outcome?_congr (phase?_await (i := i) (w := w))] at hj
      exact hawait.joined k j next' (by simpa using hik) hlt (hother hik ▸ hk) hj

/-- An interruption of a task. -/
theorem interruptHere (hm : m.Wakeful P none) (i : TaskId) : (m.interruptHere i).Wakeful P none :=
  hm.modifyTask fun _ => ⟨rfl, fun _ hk => hk⟩

/-- An interruption from outside. -/
theorem interruptWithin (hm : m.Wakeful P none) (n : Nat) (i : TaskId) :
    (m.interruptWithin n i).Wakeful P none := by
  -- along the tasks that the interruption is passed on to
  induction n generalizing i with
  | zero => exact hm.interruptHere i
  | succ n ih =>
    rw [Machine.interruptWithin]
    cases m.tasks[i]? with
    | none => exact hm
    | some t =>
      obtain ⟨phase, b, waiters⟩ := t
      rcases phase with job | ⟨(j | j | s) | w, next⟩ | r
      · exact hm.interruptHere i
      · dsimp only
        split
        · exact hm.interruptHere i
        · exact ih j
      · dsimp only
        split
        · exact hm.interruptHere i
        · -- only those who have a turn at the end count, and the one taken away has none
          have hne : ∀ k, Waiter.direct k ≠ .relayed i := by simp
          have hforget : (m.forgetRelayed i j).Wakeful P none :=
            hm.modifyTask fun _ => ⟨rfl, fun k hk => (List.mem_erase_of_ne (hne k)).mpr hk⟩
          exact (hforget.interruptHere i).enqueue _
      · dsimp only
        split
        · exact hm.interruptHere i
        · have hforget : (m.forgetSignal i s).Wakeful P none :=
            hm.mono (fun _ => rfl) (List.Subset.refl _) fun _ _ h => h
          exact (hforget.interruptHere i).enqueue _
      · exact (hm.interruptHere i).enqueue _
      · exact hm

variable [BEq S.Action]

/-- An act of a task. -/
theorem act (hm : m.Wakeful P busy) (r : TaskAct S) : (m.act r).2.Wakeful P busy := by
  cases r with
  | spawn job => exact hm.spawn job
  | fire signal => exact hm.fire signal
  | _ => exact hm.mono (fun _ => rfl) (List.Subset.refl _) fun _ _ h => h

/-- A turn of a task. -/
theorem run {e : Engine S O W} {x : Program (S.interface.sum O) (Except Failure S.Value)}
    (hm : m.Wakeful P (some i)) (hi : m.outcome? i = none)
    (hP : m.Foresees P i (m.happenings e i x)) : (Machine.run e i x m).Wakeful P none := by
  -- along the turn; while it lasts, its task is excused
  induction x generalizing m with
  | done r => exact hm.finish
  | act r next ih =>
    cases r with
    | inl r => exact ih _ (hm.act r) ((outcome?_act r).trans hi) (hP.tail (length_tasks_act r))
    | inr r =>
      exact ih _ (hm.mono (fun _ => rfl) (List.Subset.refl _) fun _ _ h => h) hi (hP.tail rfl)
  | await w next ih =>
    rw [Machine.run]
    rw [Machine.happenings] at hP
    cases hans : m.answer? w with
    | some ans =>
      simp only [hans] at hP
      have hanswered : m.Foresees P i _ := hP.tail rfl
      exact ih ans hm hi (hanswered.tail rfl)
    | none =>
      simp only [hans] at hP
      refine hm.suspend hi hans fun j hw hij => ?_
      subst hw
      exact hP [] [] j rfl hij

/-- A task goes on, whose turn has been taken from the queue. -/
theorem resume {e : Engine S O W} (hm : m.Wakeful P (some i))
    (hwaits : ∀ j next, P i j → m.phase? i = some (.waiting (.inl (.join j)) next) →
      m.outcome? j = none → m.Expects i j) (hP : m.Foresees P i (m.resumeHappenings e i)) :
    (m.resume e i).Wakeful P none := by
  unfold Machine.resume
  unfold resumeHappenings at hP
  cases hi : m.tasks[i]? with
  | none =>
    have hnone : m.phase? i = none := by simp [phase?, hi]
    exact hm.of_busy (fun _ => by simp [hnone]) fun _ _ _ hp => by simp [hnone] at hp
  | some t =>
    have hphase : m.phase? i = some t.phase := by simp [phase?, hi]
    obtain ⟨phase, b, waiters⟩ := t
    dsimp only at hphase ⊢
    -- a task that has not ended is excused during its turn
    have hbegun : (∀ r, phase ≠ .ended r) → m.outcome? i = none := by
      intro hne
      rw [Option.eq_none_iff_forall_ne_some]
      intro r hr
      rw [outcome?_eq_some_iff_phase?, hphase] at hr
      exact hne r (Option.some.inj hr)
    cases phase with
    | ended r => exact hm.of_busy (fun _ => by simp [hphase]) fun _ _ _ hp => by simp [hphase] at hp
    | fresh job =>
      cases b with
      | true => exact hm.finish
      | false => exact hm.run (hbegun (by simp)) (by simpa [hi] using hP)
    | waiting w next =>
      cases b with
      | true =>
        have hflag : (m.modifyTask i fun t => { t with interrupted := false }).Wakeful P (some i) :=
          hm.modifyTask fun _ => ⟨rfl, fun _ hk => hk⟩
        have hsame : (m.modifyTask i fun t => { t with interrupted := false }).outcome? i =
            m.outcome? i := outcome?_congr (phase?_modifyTask_of_phase fun _ => rfl)
        refine hflag.run (hsame.trans (hbegun (by simp))) ?_
        simp only [hi, if_true] at hP
        exact hP.tail (List.length_modify ..)
      | false =>
        simp only [Bool.false_eq_true, if_false]
        cases hans : m.answer? w with
        | some ans =>
          simp only [hi, hans, Bool.false_eq_true, if_false] at hP
          exact hm.run (hbegun (by simp)) (hP.tail rfl)
        | none =>
          -- the turn came to nothing, and the task is waited for as before
          refine hm.of_busy (fun _ => by simp [hphase]) fun j next' hlt hp => ?_
          have hw : w = .inl (.join j) := by
            rw [hphase] at hp
            cases hp
            rfl
          subst hw
          exact ⟨hans, hwaits j next' hlt hp hans⟩

/-- A turn that has been taken from the queue. -/
theorem turn {e : Engine S O W} {t : Turn} {before after : List Turn} (hm : m.Wakeful P none)
    (ht : m.turns = before ++ t :: after)
    (hP : ∀ i,
      m.Foresees P i (({ m with turns := before ++ after } : Machine S O W).turnHappenings e t)) :
    (Machine.turn e t { m with turns := before ++ after }).Wakeful P none := by
  -- the other turns are still in the queue
  have hother : ∀ {k}, t ≠ .resume k → .resume k ∈ m.turns → .resume k ∈ before ++ after := by
    intro k hne hk
    rw [ht] at hk
    simpa [hne.symm] using hk
  cases t with
  | resume i =>
    refine resume ⟨?_, ?_, ?_⟩ ?_ (hP i)
    · exact fun k job hne hk => hother (by simpa using hne) (hm.fresh k job nofun hk)
    · exact fun k j next _ => hm.expected k j next nofun
    · exact fun k j next hne hlt hk hj =>
        hother (by simpa using hne) (hm.joined k j next nofun hlt hk hj)
    · exact fun j next => hm.expected i j next nofun
  | relay i =>
    have hkept : ({ m with turns := before ++ after } : Machine S O W).Wakeful P none :=
      { fresh := fun k job hne hk => hother nofun (hm.fresh k job hne hk)
        expected := hm.expected
        joined := fun k j next hne hlt hk hj => hother nofun (hm.joined k j next hne hlt hk hj) }
    exact hkept.enqueue _

/-- The answer to a wait beyond tasks. -/
theorem reply {e : Engine S O W} {answer : (w : O.Wait) → Except Failure (O.Answer w)}
    (hm : m.Wakeful P none) (hP : m.Foresees P i (m.replyHappenings e i answer)) :
    (m.reply e i answer).Wakeful P none := by
  unfold Machine.reply
  unfold replyHappenings at hP
  split
  next w next waiters hi =>
    refine hm.weaken.run ?_ ?_
    · simp [outcome?, hi, Task.outcome?]
    · simp only [hi] at hP
      exact hP.tail rfl
  next => exact hm

end Wakeful

end Machine

namespace Regime.Run

variable [BEq S.Action] {R : Regime S O W} {h : History S O} {m : Machine S O W} {i : TaskId}
  {job : Job S}

/-- No task is forgotten on a machine that waits for what is there. -/
theorem wakeful_of {P : TaskId → TaskId → Prop} (hr : R.Run h m)
    (hP : ∀ (a b : History S O) (i j : TaskId),
      h = a ++ .deed i (.call (.inl (.join j))) :: b → P i j →
      j < a.jobs.length) : m.Wakeful P none := by
  -- what the history says of the tasks that are there, the machine says of its own
  have hforesees : ∀ {h g : History S O} {m : Machine S O W} {i : TaskId}, R.Run h m →
      (∀ (a b : History S O) (i j : TaskId),
        h ++ g = a ++ .deed i (.call (.inl (.join j))) :: b → P i j →
        j < a.jobs.length) → m.Foresees P i g := by
    intro h g m i hr hP a b j heq hij
    have hlt := hP (h ++ a) b i j (by simp [heq]) hij
    rw [History.jobs_append, List.length_append, ← hr.records.tasks_eq] at hlt
    simpa [Machine.standing] using hlt
  have hbefore : ∀ {h g : History S O}, (∀ (a b : History S O) (i j : TaskId),
      h ++ g = a ++ .deed i (.call (.inl (.join j))) :: b → P i j → j < a.jobs.length) →
      ∀ (a b : History S O) (i j : TaskId), h = a ++ .deed i (.call (.inl (.join j))) :: b → P i j →
        j < a.jobs.length := by
    rintro h g hP a b i j rfl hij
    exact hP a (b ++ g) i j (by simp) hij
  -- along the run
  induction hr with
  | @start w _ =>
    have hnone : ∀ i, ({ world := w } : Machine S O W).phase? i = none := fun i => rfl
    exact { fresh := fun i _ _ hp => by simp [hnone] at hp
            expected := fun i _ _ _ _ hp => by simp [hnone] at hp
            joined := fun i _ _ _ _ hp => by simp [hnone] at hp }
  | launch _ _ ih => exact (ih (hbefore hP)).spawn _
  | turn hr ht ih => exact (ih (hbefore hP)).turn ht fun _ => hforesees hr hP
  | reply _ _ hr _ ih => exact (ih (hbefore hP)).reply (hforesees hr hP)
  | interrupt i _ ih => exact (ih (hbefore hP)).interruptWithin _ i
  | fire signal _ ih => exact (ih hP).fire signal
  | drift _ _ ih => exact (ih hP).mono (fun _ => rfl) (List.Subset.refl _) fun _ _ h => h

/-- No task is forgotten that waits for one that has been started before it. -/
theorem wakeful (hr : R.Run h m) : m.Wakeful (fun i j => j < i) none := by
  refine hr.wakeful_of fun a b i j heq hlt => ?_
  obtain ⟨⟨job, hj⟩, -⟩ := (heq ▸ hr.possible).started_of_deed
  exact Nat.lt_trans hlt (List.getElem?_eq_some_iff.mp hj).1

/-- The phase of a task that has been started is what the history says of it. -/
theorem phase_of_job (hr : R.Run h m) (hj : h.jobs[i]? = some job) :
    ∃ p, m.phase? i = some p ∧ p.Fits R h i := by
  have hstarted : i < m.standing.length := hr.records.tasks_eq ▸ (List.getElem?_eq_some_iff.mp hj).1
  obtain ⟨⟨p, b⟩, hs⟩ : ∃ s, m.standing[i]? = some s := ⟨_, List.getElem?_eq_getElem hstarted⟩
  refine ⟨p, ?_, hr.records.fits i p b hs nofun⟩
  obtain ⟨t, ht, he⟩ := Option.map_eq_some_iff.mp (List.getElem?_map.symm.trans hs)
  cases he
  simp [Machine.phase?, ht]

/-- When there are no more turns, every task that has been started waits for something or has
ended. -/
theorem begun (hr : R.Run h m) (hturns : m.turns = []) (hj : h.jobs[i]? = some job) :
    (∃ l w, h.of i = l ++ [.call w]) ∨ h.Finished i := by
  obtain ⟨p, hphase, hfits⟩ := hr.phase_of_job hj
  cases p with
  | fresh job =>
    have hturn := hr.wakeful.fresh i job nofun hphase
    simp [hturns] at hturn
  | waiting w next =>
    obtain ⟨-, l, -, hl, -⟩ := hfits
    exact .inl ⟨l, w, hl⟩
  | ended r => exact .inr ⟨r, hfits⟩

end Regime.Run

namespace Regime

variable [BEq S.Action] {R : Regime S O W} {h : History S O} {m : Machine S O W} {i j : TaskId}
  {job : Job S}

/-- A task that waits for one that it has started, which no interruption reaches, has started it
before it waits. -/
theorem Possible.started_of_joins {a b : History S O} (hp : R.Possible h) (hcalm : .interrupt i ∉ h)
    (hspawn : .deed i (.act (.inl (.spawn job)) j) ∈ h)
    (heq : h = a ++ .deed i (.call (.inl (.join j))) :: b) : j < a.jobs.length := by
  obtain ⟨s, s', hs⟩ := List.append_of_mem hspawn
  -- a task gets the next number when it is started
  have hlength : j = (History.jobs s).length := (hs ▸ hp).eq_length_of_spawn
  rcases History.place_cases hs heq with ⟨-, he, -⟩ | ⟨mid, rfl, -⟩ | ⟨mid, rfl, -⟩
  · cases he
  · simp [hlength, Happening.job?]
  -- a wait before the start could only have been over if the task had ended before it was started
  have hof : h.of i = a.of i ++ .call (.inl (.join j)) :: (History.of mid i ++
      .act (.inl (.spawn job)) j :: History.of s' i) := by
    rw [hs]
    simp [Happening.deed?]
  obtain ⟨ans, l', hmid⟩ : ∃ ans l', History.of mid i = .answer (.inl (.join j)) ans :: l' := by
    cases hm : History.of mid i with
    | nil =>
      rw [hm, List.nil_append] at hof
      obtain ⟨ans, he⟩ := hp.answered hof
      cases he
    | cons x l' =>
      rw [hm, List.cons_append] at hof
      obtain ⟨ans, rfl⟩ := hp.answered hof
      exact ⟨ans, l', rfl⟩
  obtain ⟨p, q, rfl, -, -⟩ := History.exists_split_of (l := []) hmid
  -- an ended task has a number that has been given
  have hlate : j < (History.jobs (a ++ .deed i (.call (.inl (.join j))) :: p)).length := by
    have hover : R.Possible ((a ++ .deed i (.call (.inl (.join j))) :: p) ++
        .deed i (.answer (.inl (.join j)) ans) ::
          (q ++ .deed i (.act (.inl (.spawn job)) j) :: s')) := by
      rw [hs] at hp
      simpa using hp
    rcases hover.resolves with hfinish | ⟨-, hint⟩
    · obtain ⟨job', hjob', -⟩ := hover.of_append.finish_cases hfinish
      exact (List.getElem?_eq_some_iff.mp hjob').1
    · refine absurd ?_ hcalm
      rw [hs]
      simp only [List.append_assoc, List.cons_append, List.mem_append, List.mem_cons] at hint ⊢
      tauto
  refine absurd hlength (Nat.ne_of_lt (Nat.lt_of_lt_of_le hlate ?_))
  simp only [History.jobs_append, History.jobs_cons, List.length_append]
  omega

/-- When there are no more turns, a task that waits for one that it has started waits for one that
has not ended. -/
theorem Run.unfinished_of_joins {l : List (Exchange (S.interface.sum O))} (hr : R.Run h m)
    (hturns : m.turns = []) (hcalm : .interrupt i ∉ h)
    (hspawn : .deed i (.act (.inl (.spawn job)) j) ∈ h)
    (hof : h.of i = l ++ [.call (.inl (.join j))]) : ¬ h.Finished j := by
  rintro ⟨r, hfinish⟩
  have hp := hr.possible
  -- of all waits only this one matters here
  have hwakeful : m.Wakeful (fun i' j' => i' = i ∧ j' = j) none := by
    refine hr.wakeful_of ?_
    rintro a b i' j' heq ⟨rfl, rfl⟩
    exact hp.started_of_joins hcalm hspawn heq
  obtain ⟨a, b, heq, -, -⟩ := History.exists_split_of hof
  obtain ⟨job', hjob'⟩ := (heq ▸ hp).started_of_deed.1
  obtain ⟨p, hphase, hfits⟩ := hr.phase_of_job (i := i) (by rw [heq]; exact History.jobs_mono hjob')
  cases p with
  | fresh job =>
    obtain ⟨-, hnil, -⟩ := hfits
    simp [hof] at hnil
  | ended r => exact hp.not_waiting_of_finished ⟨r, hfits⟩ hof
  | waiting w next =>
    obtain ⟨job, l', -, hl', -, -⟩ := hfits
    rw [hof] at hl'
    cases (List.append_inj' hl' rfl).2
    obtain ⟨r', hr'⟩ := hr.records.finished j ⟨r, hfinish⟩
    have hturn := hwakeful.joined i j next nofun ⟨rfl, rfl⟩ hphase (by simp [hr'])
    simp [hturns] at hturn

end Regime

end PooledSql
