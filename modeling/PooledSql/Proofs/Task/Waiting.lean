import Mathlib.Data.List.Nodup
import Mathlib.Data.List.Perm.Subperm
import PooledSql.Proofs.Task.Record

/-!
# Waits for tasks

A task that is interrupted while it waits for another one passes the interruption on, and goes on
only when that one has ended. So the wait for a task is over only when the task has ended,
interrupted or not, unless that task has waited for others itself (`Regime.Run.patient`):
where tasks wait for each other in a circle, an interruption is passed on only as often as there are
tasks.
-/

namespace PooledSql

variable {S : Setting} {O : Interface} {W : Type}

/-- Whether a task has begun to wait for a task to which it passes interruptions on. -/
def History.Joins (h : History S O) (j : TaskId) : Prop :=
  ∃ t, .deed j (.call (.inl (.join t))) ∈ h

namespace Machine

variable {m : Machine S O W} {i j t : TaskId} {l l' : List TaskId}

/-- The task to which an interruption of a task is passed on. -/
def passesTo? (m : Machine S O W) (i : TaskId) : Option TaskId :=
  match m.tasks[i]? with
  | some { phase := .waiting (.inl (.join j)) _, .. } =>
    if (m.outcome? j).isSome then none else some j
  | _ => none

/-- An interruption is passed on by tasks that there are. -/
theorem lt_of_passesTo? (hi : m.passesTo? i = some t) : i < m.tasks.length := by
  by_contra hlt
  simp [passesTo?, List.getElem?_eq_none (Nat.le_of_not_lt hlt)] at hi

/-- A task that passes interruptions on waits for another one. -/
theorem standing_of_passesTo? (hi : m.passesTo? i = some t) :
    ∃ next b, m.standing[i]? = some (.waiting (.inl (.join t)) next, b) ∧ m.outcome? t = none := by
  unfold passesTo? at hi
  split at hi
  next next b waiters htask =>
    split at hi
    · cases hi
    next hnone =>
      cases hi
      exact ⟨next, b, by simp [standing, htask], by simpa using hnone⟩
  next => cases hi

/-- An interruption of the first of some tasks is passed on from each to the next one, and from the
last one to a further task. -/
inductive Chain (m : Machine S O W) : TaskId → List TaskId → TaskId → Prop
  | last {i t : TaskId} : m.passesTo? i = some t → Chain m i [i] t
  | cons {i j t : TaskId} {l : List TaskId} :
      m.passesTo? i = some j → Chain m j l t → Chain m i (i :: l) t

namespace Chain

/-- The first task of a chain passes interruptions on. -/
theorem passesTo? (h : m.Chain i l t) : m.passesTo? i ≠ none := by
  cases h with
  | last hi => simp [hi]
  | cons hi _ => simp [hi]

/-- An interruption takes only one way to a task that passes it on to no other. -/
theorem unique (h : m.Chain i l t) (h' : m.Chain i l' t) (ht : m.passesTo? t = none) : l = l' := by
  induction h generalizing l' with
  | last hi =>
    cases h' with
    | last => rfl
    | cons hi' hrest =>
      cases hi.symm.trans hi'
      -- the other way goes on from a task that passes the interruption on
      exact absurd ht hrest.passesTo?
  | cons hi hrest ih =>
    cases h' with
    | last hi' =>
      cases hi.symm.trans hi'
      exact absurd ht hrest.passesTo?
    | cons hi' hrest' =>
      cases hi.symm.trans hi'
      rw [ih hrest' ht]

/-- From each task of a chain on, the rest is a chain. -/
theorem suffix (h : m.Chain i l t) (hj : j ∈ l) : ∃ l', m.Chain j l' t ∧ l'.length ≤ l.length := by
  induction h with
  | last hi =>
    obtain rfl := List.mem_singleton.mp hj
    exact ⟨_, .last hi, Nat.le_refl _⟩
  | cons hi hrest ih =>
    rcases List.mem_cons.mp hj with rfl | hj
    · exact ⟨_, .cons hi hrest, Nat.le_refl _⟩
    · obtain ⟨l', hl', hle⟩ := ih hj
      exact ⟨l', hl', Nat.le_succ_of_le hle⟩

/-- A chain to a task that passes interruptions on to no other comes to no task twice. -/
theorem nodup (h : m.Chain i l t) (ht : m.passesTo? t = none) : l.Nodup := by
  induction h with
  | last => exact List.nodup_singleton _
  | @cons i j t l hi hrest ih =>
    refine List.nodup_cons.mpr ⟨fun hmem => ?_, ih ht⟩
    obtain ⟨l', hl', hle⟩ := hrest.suffix hmem
    obtain rfl := hl'.unique (.cons hi hrest) ht
    exact absurd hle (Nat.not_succ_le_self _)

/-- A chain to a task that passes interruptions on to no other is not longer than the list of
tasks. -/
theorem length_le (h : m.Chain i l t) (ht : m.passesTo? t = none) : l.length ≤ m.tasks.length := by
  have hsub : l ⊆ List.range m.tasks.length := by
    intro j hj
    obtain ⟨l', hl', -⟩ := h.suffix hj
    obtain ⟨u, hu⟩ := Option.ne_none_iff_exists'.mp hl'.passesTo?
    exact List.mem_range.mpr (lt_of_passesTo? hu)
  simpa using (List.subperm_of_subset (h.nodup ht) hsub).length_le

end Chain

/-- An interruption that reaches a task in the middle of a wait for one that has not ended has been
passed on as often as it may be. -/
theorem chain_of_reachedWithin {n : Nat} (hj : reachedWithin n i m = some j)
    (ht : m.passesTo? j = some t) : ∃ l, m.Chain i l t ∧ l.length = n + 1 := by
  induction n generalizing i with
  | zero =>
    cases hj
    exact ⟨_, .last ht, rfl⟩
  | succ n ih =>
    -- where the interruption stops, the task passes it on to no other
    have hstops : reachedWithin (n + 1) i m = some i → m.passesTo? i = none → False := by
      intro hi hnone
      cases hi.symm.trans hj
      rw [ht] at hnone
      cases hnone
    unfold reachedWithin at hj hstops
    cases htask : m.tasks[i]? with
    | none => simp [htask] at hj
    | some task =>
      obtain ⟨phase, interrupted, waiters⟩ := task
      simp only [htask] at hj hstops
      match phase with
      | .ended _ => cases hj
      | .fresh _ => exact (hstops rfl (by simp [passesTo?, htask])).elim
      | .waiting (.inl (.join j')) next =>
        -- only a wait for a task that has not ended passes it on, which takes one of the times away
        by_cases hover : (m.outcome? j').isSome
        · exact (hstops (if_pos hover) (by simp [passesTo?, htask, hover])).elim
        · obtain ⟨l, hl, hlen⟩ := ih (by simpa [hover] using hj)
          exact ⟨i :: l, .cons (by simp [passesTo?, htask, hover]) hl, by simp [hlen]⟩
      | .waiting (.inl (.joinShielded _)) next =>
        exact (hstops rfl (by simp [passesTo?, htask])).elim
      | .waiting (.inl (.signal _)) next => exact (hstops rfl (by simp [passesTo?, htask])).elim
      | .waiting (.inr _) next => exact (hstops rfl (by simp [passesTo?, htask])).elim

/-- An interruption reaches a task in the middle of a wait for one that has not ended only if that
one passes interruptions on itself. -/
theorem passesTo?_of_reached (hj : m.reached i = some j) (ht : m.passesTo? j = some t) :
    ∃ u, m.passesTo? t = some u := by
  obtain ⟨l, hl, hlen⟩ := chain_of_reachedWithin hj ht
  by_contra hnone
  have hle := hl.length_le (Option.eq_none_iff_forall_ne_some.mpr fun u hu => hnone ⟨u, hu⟩)
  omega

section Turns

variable [BEq S.Action] {e : Engine S O W} {p : Phase S O}
  {x : Program (S.interface.sum O) (Except Failure S.Value)}

/-- An act of a task brings no interruption. -/
theorem interrupted_of_act {r : TaskAct S} (hj : (m.act r).2.standing[j]? = some (p, true)) :
    m.standing[j]? = some (p, true) := by
  rw [standing_act (i := j), List.getElem?_append] at hj
  split at hj
  · exact hj
  · obtain ⟨job, -, hjob⟩ := List.mem_map.mp (List.mem_of_getElem? hj)
    cases hjob

/-- A turn brings no interruption. -/
theorem interrupted_of_run (hi : ∀ p, m.standing[i]? ≠ some (p, true))
    (hj : (run e i x m).standing[j]? = some (p, true)) : m.standing[j]? = some (p, true) := by
  -- along the turn, in which the flag of the task stays down
  induction x generalizing m with
  | done o =>
    rw [run, getElem?_standing_finish] at hj
    split at hj
    · obtain ⟨_, -, heq⟩ := Option.map_eq_some_iff.mp hj
      cases heq
    · exact hj
  | act r next ih =>
    cases r with
    | inl r =>
      rw [run] at hj
      exact interrupted_of_act (ih _ (fun p hp => hi p (interrupted_of_act hp)) hj)
    | inr r =>
      rw [run] at hj
      exact ih _ (m := { m with world := (e.perform r m.world).2 }) hi hj
  | await w next ih =>
    rw [run] at hj
    split at hj
    · exact ih _ hi hj
    · rw [getElem?_standing_modifyTask (g := fun s => (.waiting w next, s.2)) fun _ => rfl,
        standing_await] at hj
      split at hj
      next hij =>
        obtain ⟨⟨p', b⟩, hp', heq⟩ := Option.map_eq_some_iff.mp hj
        cases heq
        exact absurd (hij ▸ hp') (hi p')
      next => exact hj

/-- A wait for a task that is over in the middle of a turn is so because that task has ended
before. -/
theorem outcome?_of_happenings {ans : Except Failure S.Value}
    (hx : .deed j (.answer (.inl (.join t)) ans) ∈ m.happenings e i x) :
    m.outcome? t = some ans := by
  -- along the turn, in which no task ends before the one that has it
  induction x generalizing m with
  | done o => cases List.mem_singleton.mp hx
  | act r next ih =>
    cases r with
    | inl r =>
      rw [happenings] at hx
      exact outcome?_act r ▸ ih _ ((List.mem_cons.mp hx).resolve_left (by simp))
    | inr r =>
      rw [happenings] at hx
      exact ih _ (m := { m with world := (e.perform r m.world).2 })
        ((List.mem_cons.mp hx).resolve_left (by simp))
  | await w next ih =>
    rw [happenings] at hx
    split at hx
    next answer hanswer =>
      rcases List.mem_cons.mp ((List.mem_cons.mp hx).resolve_left (by simp)) with heq | hx
      · cases heq
        exact hanswer
      · exact ih _ hx
    next => cases List.mem_singleton.mp hx

end Turns

/-- A task that waits for one that has not ended passes interruptions on. -/
theorem passesTo?_of_standing
    {next : Except Failure S.Value → Program (S.interface.sum O) _} {b : Bool}
    (hi : m.standing[i]? = some (.waiting (.inl (.join t)) next, b)) (ht : m.outcome? t = none) :
    m.passesTo? i = some t := by
  rw [standing, List.getElem?_map] at hi
  obtain ⟨⟨phase, b', waiters⟩, htask, heq⟩ := Option.map_eq_some_iff.mp hi
  cases heq
  simp [passesTo?, htask, ht]

/-- An interruption from outside is one of the task that it reaches. -/
theorem interrupted_of_interruptWithin {n : Nat} {p : Phase S O}
    (hj : (m.interruptWithin n i).standing[j]? = some (p, true)) :
    m.standing[j]? = some (p, true) ∨
      reachedWithin n i m = some j ∧ ∃ b, m.standing[j]? = some (p, b) := by
  -- where it arrives, the flag of one task is set
  have hhere : ∀ {m' : Machine S O W} {i}, m'.standing = m.standing →
      (m'.interruptHere i).standing[j]? = some (p, true) →
      m.standing[j]? = some (p, true) ∨ i = j ∧ ∃ b, m.standing[j]? = some (p, b) := by
    intro m' i hs hj
    rw [interruptHere, getElem?_standing_modifyTask (g := fun s => (s.1, true)) fun _ =>
      rfl, hs] at hj
    split at hj
    next hij =>
      obtain ⟨⟨p', b⟩, hp', heq⟩ := Option.map_eq_some_iff.mp hj
      cases heq
      exact .inr ⟨hij, b, hp'⟩
    next => exact .inl hj
  -- along the tasks that the interruption is passed on to
  induction n generalizing i with
  | zero => simpa [reachedWithin] using hhere rfl hj
  | succ n ih =>
    simp only [interruptWithin, reachedWithin] at hj ⊢
    cases htask : m.tasks[i]? with
    | none => exact .inl (by simpa [htask] using hj)
    | some task =>
      obtain ⟨phase, interrupted, waiters⟩ := task
      simp only [htask] at hj ⊢
      rcases phase with _ | ⟨(j' | j' | s) | _, next⟩ | _
      · simpa using hhere rfl hj
      · by_cases hover : (m.outcome? j').isSome
        · simpa [hover] using hhere rfl (by simpa [hover] using hj)
        · simpa [hover] using ih (by simpa [hover] using hj)
      · have hforget : (m.forgetRelayed i j').standing = m.standing :=
          standing_modifyTask fun _ => ⟨rfl, rfl⟩
        dsimp only at hj ⊢
        split at hj
        · simpa using hhere rfl hj
        · simpa using hhere hforget hj
      · dsimp only at hj ⊢
        split at hj
        · simpa using hhere rfl hj
        · have hforget : (m.forgetSignal i s).standing = m.standing := rfl
          simpa using hhere hforget hj
      · simpa using hhere rfl hj
      · exact .inl hj

end Machine

namespace History

variable {g g' h : History S O} {j : TaskId}

/-- A task that has begun to wait for another one has done so. -/
theorem Joins.mono (hj : g.Joins j) : Joins (g ++ g') j := by
  obtain ⟨t, ht⟩ := hj
  exact ⟨t, List.mem_append_left _ ht⟩

/-- Whether a task cannot be left by those who wait for it, save at its end: it has not ended and
has not waited for another one. -/
def Binds (h : History S O) (j : TaskId) : Prop := ¬ h.Finished j ∧ ¬ h.Joins j

/-- What binds has bound before. -/
theorem Binds.of_append (hj : Binds (g ++ g') j) : Binds g j :=
  ⟨fun hover => hj.1 hover.mono, fun hjoins => hj.2 hjoins.mono⟩

/-- Whether no wait for a task has been over while that task bound. -/
def Patient (h : History S O) : Prop :=
  ∀ (g g' : History S O) i j ans,
    h = g ++ .deed i (.answer (.inl (.join j)) ans) :: g' → ¬ g.Binds j

/-- Waits go on to be over only when they may be. -/
theorem Patient.append (hh : h.Patient)
    (hg : ∀ i j ans, .deed i (.answer (.inl (.join j)) ans) ∈ g → ¬ h.Binds j) :
    Patient (h ++ g) := by
  intro a a' i j ans heq
  rcases List.append_eq_append_iff.mp heq with ⟨m, rfl, hm⟩ | ⟨m, rfl, hm⟩
  · have hmem : .deed i (.answer (.inl (.join j)) ans) ∈ g := by simp [hm]
    exact fun hbinds => hg i j ans hmem hbinds.of_append
  · cases m with
    | nil =>
      have hmem : .deed i (.answer (.inl (.join j)) ans) ∈ g := by simp [← List.nil_append g ▸ hm]
      simpa using hg i j ans hmem
    | cons e m =>
      obtain ⟨rfl, -⟩ := List.cons.inj hm
      exact hh a m i j ans rfl

end History

namespace Machine

variable {m m' : Machine S O W} {h g : History S O} {i j t : TaskId}

/-- Tasks that are interrupted at their next turn after one of them has heeded its interruption. -/
theorem interrupted_of_heeded {p : Phase S O}
    (hj : (m.modifyTask i fun t => { t with interrupted := false }).standing[j]? = some (p, true)) :
    i ≠ j ∧ m.standing[j]? = some (p, true) := by
  rw [getElem?_standing_modifyTask (g := fun s => (s.1, false)) fun _ => rfl] at hj
  split at hj
  · obtain ⟨_, -, heq⟩ := Option.map_eq_some_iff.mp hj
    cases heq
  next hij => exact ⟨hij, hj⟩

/-- Whether no task is going to be interrupted, at its next turn, in the middle of a wait for one
that binds. -/
def Patient (m : Machine S O W) (h : History S O) : Prop :=
  ∀ (i t : TaskId) next, m.standing[i]? = some (.waiting (.inl (.join t)) next, true) → ¬ h.Binds t

/-- Nothing changes by what brings no interruption. -/
theorem Patient.mono (hm : m.Patient h)
    (hs : ∀ (i : TaskId) p, m'.standing[i]? = some (p, true) → m.standing[i]? = some (p, true)) :
    m'.Patient (h ++ g) :=
  fun i t next hi hbinds => hm i t next (hs i _ hi) hbinds.of_append

variable [BEq S.Action] {R : Regime S O W}

/-- A task that has ended does not bind. -/
theorem Records.not_binds {r : Except Failure S.Value} (hr : m.Records R h none)
    (hj : m.outcome? j = some r) : ¬ h.Binds j :=
  fun hbinds => hbinds.1 ⟨r, hr.outcome j r hj⟩

/-- No interruption from outside reaches a task in the middle of a wait for one that binds. -/
theorem Patient.interrupt (hm : m.Patient h) (hr : m.Records R h none) :
    (m.interrupt i).Patient (h ++ g) := by
  rintro j t next hj hbinds
  rcases interrupted_of_interruptWithin hj with hj | ⟨hreached, b, hj⟩
  · exact hm j t next hj hbinds.of_append
  · cases ht : m.outcome? t with
    | some r => exact hr.not_binds ht hbinds.of_append
    | none =>
      obtain ⟨u, hu⟩ := passesTo?_of_reached hreached (passesTo?_of_standing hj ht)
      obtain ⟨next', b', ht', -⟩ := standing_of_passesTo? hu
      obtain ⟨job, l, -, hl, -⟩ := hr.fits t _ _ ht' nofun
      refine hbinds.of_append.2 ⟨u, History.mem_of_iff.mp ?_⟩
      rw [hl]
      exact List.mem_append_right _ (List.mem_singleton_self _)

/-- What a task waits for in the course of a turn has ended before the turn if the wait is over. -/
theorem Records.not_binds_of_happenings {x : Program (S.interface.sum O) (Except Failure S.Value)}
    {ans : Except Failure S.Value} (hr : m.Records R h none) (hm' : m'.outcome? j = m.outcome? j)
    (hx : .deed t (.answer (.inl (.join j)) ans) ∈ m'.happenings R.engine i x) : ¬ h.Binds j :=
  hr.not_binds (hm' ▸ outcome?_of_happenings hx)

/-- When a task goes on, waits that are over may be. -/
theorem Patient.resume (hm : m.Patient h) (hr : m.Records R h none) :
    (m.resume R.engine i).Patient (h ++ m.resumeHappenings R.engine i) ∧
      ∀ j t ans, .deed j (.answer (.inl (.join t)) ans) ∈ m.resumeHappenings R.engine i →
        ¬ h.Binds t := by
  unfold Machine.resume resumeHappenings
  cases hi : m.tasks[i]? with
  | none => exact ⟨hm.mono fun _ _ hp => hp, by simp⟩
  | some task =>
    have hstanding : m.standing[i]? = some (task.phase, task.interrupted) := by simp [standing, hi]
    obtain ⟨phase, b, waiters⟩ := task
    dsimp only at hstanding ⊢
    -- what the flag says is known from the state
    have hquiet : b = false → ∀ p, m.standing[i]? ≠ some (p, true) := by
      rintro rfl p hp
      cases hstanding.symm.trans hp
    cases phase with
    | ended r => exact ⟨hm.mono fun _ _ hp => hp, by simp⟩
    | fresh job =>
      cases b with
      | true =>
        refine ⟨hm.mono fun j p hp => ?_, fun j t ans hx => by simp at hx⟩
        dsimp only at hp
        rw [if_pos rfl, getElem?_standing_finish] at hp
        split at hp
        · obtain ⟨_, -, heq⟩ := Option.map_eq_some_iff.mp hp
          cases heq
        · exact hp
      | false =>
        exact ⟨hm.mono fun j p hp => interrupted_of_run (hquiet rfl) hp,
          fun j t ans hx => hr.not_binds_of_happenings rfl hx⟩
    | waiting w next =>
      cases b with
      | true =>
        -- the interruption is used up
        refine ⟨hm.mono fun j p hp => ?_, fun j t ans hx => ?_⟩
        · have hquiet : ∀ p,
              (m.modifyTask i fun t => { t with interrupted := false }).standing[i]? ≠
              some (p, true) := fun p hp => (interrupted_of_heeded hp).1 rfl
          exact (interrupted_of_heeded (interrupted_of_run hquiet hp)).2
        · -- the first answer is the interruption itself; all later ones are outcomes that have been
          -- there
          rcases List.mem_cons.mp hx with heq | hx
          · cases heq
            exact hm i t next hstanding
          · have hsame : (m.modifyTask i fun t => { t with interrupted := false }).outcome? t =
                m.outcome? t := outcome?_congr (phase?_modifyTask_of_phase fun _ => rfl)
            exact hr.not_binds_of_happenings hsame hx
      | false =>
        dsimp only
        cases hans : m.answer? w with
        | none => exact ⟨hm.mono fun _ _ hp => by simpa [hans] using hp, by simp⟩
        | some ans =>
          refine ⟨hm.mono fun j p hp => interrupted_of_run (hquiet rfl) (by simpa [hans] using hp),
            fun j t ans' hx => ?_⟩
          rcases List.mem_cons.mp hx with heq | hx
          · cases heq
            exact hr.not_binds hans
          · exact hr.not_binds_of_happenings rfl hx

/-- When a wait beyond tasks is answered, waits that are over may be. -/
theorem Patient.reply {ans : (w : O.Wait) → Except Failure (O.Answer w)} (hm : m.Patient h)
    (hr : m.Records R h none) :
    (m.reply R.engine i ans).Patient (h ++ m.replyHappenings R.engine i ans) ∧
      ∀ j t r, .deed j (.answer (.inl (.join t)) r) ∈ m.replyHappenings R.engine i ans →
        ¬ h.Binds t := by
  refine ⟨?_, fun j t r hx => ?_⟩
  · unfold Machine.reply
    split
    next w next waiters hi =>
      have hstanding : m.standing[i]? = some (.waiting (.inr w) next, false) := by
        simp [standing, hi]
      refine hm.mono fun j p hp => interrupted_of_run (fun p' hp' => ?_) hp
      cases hstanding.symm.trans hp'
    next => exact hm.mono fun _ _ hp => hp
  · -- the reply is to a wait beyond tasks, so only what follows it can answer one for a task
    unfold replyHappenings at hx
    split at hx
    next =>
      exact hr.not_binds_of_happenings rfl
        ((List.mem_cons.mp hx).resolve_left fun he => by cases he)
    next => cases hx

end Machine

namespace Regime.Run

variable [BEq S.Action] {R : Regime S O W} {m : Machine S O W} {h g g' : History S O} {i j : TaskId}

/-- Neither is the wait for a task over while that task binds, nor will it be. -/
theorem patient (hr : R.Run h m) : m.Patient h ∧ h.Patient := by
  -- along the run; tasks are answered only in a turn that goes on after a wait
  induction hr with
  | start hw =>
    exact ⟨fun _ _ _ hi => absurd hi (by simp [Machine.standing]), by simp [History.Patient]⟩
  | @launch h m job hr hjob ih =>
    refine ⟨ih.1.mono fun j p hp => ?_, ih.2.append fun i j ans hmem => by simp at hmem⟩
    have hspawn : (m.spawn job).2.standing = m.standing ++ [(.fresh job, false)] := by
      simp [Machine.spawn, Machine.standing, Machine.enqueue]
    rw [hspawn, List.getElem?_append] at hp
    split at hp
    · exact hp
    · cases List.mem_singleton.mp (List.mem_of_getElem? hp)
  | @turn h m t before after hr ht ih =>
    cases t with
    | relay i =>
      exact ⟨ih.1.mono fun _ _ hp => hp, ih.2.append fun _ _ _ hmem => absurd hmem List.not_mem_nil⟩
    | resume i =>
      have hm : ({ m with turns := before ++ after } : Machine S O W).Patient h := ih.1
      have hrecords : ({ m with turns := before ++ after } : Machine S O W).Records R h none :=
        hr.records.congr rfl rfl hr.records.agrees
      obtain ⟨hpatient, hover⟩ := hm.resume (i := i) hrecords
      exact ⟨hpatient, ih.2.append hover⟩
  | reply i ans hr hans ih =>
    obtain ⟨hm, hover⟩ := ih.1.reply hr.records
    exact ⟨hm, ih.2.append hover⟩
  | interrupt i hr ih =>
    refine ⟨ih.1.interrupt hr.records, ih.2.append fun i j ans hmem => ?_⟩
    obtain ⟨j, -, hj⟩ := List.mem_map.mp hmem
    cases hj
  | fire signal hr ih =>
    exact ⟨fun i t next hi => ih.1 i t next (by rwa [Machine.standing_fire] at hi), ih.2⟩
  | drift hr hw ih => exact ⟨ih.1, ih.2⟩

end Regime.Run

end PooledSql
