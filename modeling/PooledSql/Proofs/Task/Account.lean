import PooledSql.Proofs.Task.Carriage
import PooledSql.Proofs.Task.Waiting

/-!
# Accounts

When the programs of tasks are carried over to another interface, every history of the tasks that do
so has an account in terms of the programs that are carried (`Account`, `Regime.Possible.account`).
The account keeps the order of what happens: a request begins with the first exchange that is made
for it, and it is over with the last one. Where the world of the carried programs may answer all
that the carriage makes of its requests, the account is a history that there can be
(`Account.possible`).
-/

namespace PooledSql

variable {S : Setting} {J K O : Interface}

/-- The interface of those who ask for nothing. -/
def Interface.nothing : Interface := ⟨Empty, nofun, Empty, nofun⟩

/-- What an exchange is among tasks, entries in the log left out. -/
def Exchange.task? :
    Exchange (S.interface.sum O) → Option (Exchange (S.interface.sum Interface.nothing))
  | .act (.inl (.log _)) _ => none
  | .act (.inl r) out => some (.act (.inl r) out)
  | .call (.inl w) => some (.call (.inl w))
  | .answer (.inl w) ans => some (.answer (.inl w) ans)
  | _ => none

/-- What a happening is among tasks, entries in the log left out. -/
def Happening.task? : Happening S O → Option (Happening S Interface.nothing)
  | launch job => some (launch job)
  | deed i x => x.task?.map (deed i)
  | finish i r => some (finish i r)
  | interrupt i => some (interrupt i)

/-- What is exchanged among tasks as something that is exchanged. -/
def Exchange.ofTask :
    Exchange (S.interface.sum Interface.nothing) → Exchange (S.interface.sum O)
  | .act (.inl r) out => .act (.inl r) out
  | .call (.inl w) => .call (.inl w)
  | .answer (.inl w) ans => .answer (.inl w) ans
  | .act (.inr r) _ => nomatch r
  | .call (.inr w) | .answer (.inr w) _ => nomatch w

/-- What happens among tasks as something that happens. -/
def Happening.ofTask : Happening S Interface.nothing → Happening S O
  | launch job => launch job
  | deed i x => deed i x.ofTask
  | finish i r => finish i r
  | interrupt i => interrupt i

/-- What a happening is among tasks tells which happening it is. -/
theorem Happening.eq_ofTask {e : Happening S O} {e' : Happening S Interface.nothing}
    (he : e.task? = some e') : e = e'.ofTask := by
  match e, he with
  | .launch _, rfl | .finish .., rfl | .interrupt _, rfl | .deed _ (.call (.inl _)), rfl
  | .deed _ (.answer (.inl _) _), rfl => rfl
  | .deed _ (.act (.inl r) _), he => cases r <;> cases he <;> rfl

/-- An act among tasks is one, unless it is an entry in the log. -/
theorem Happening.task?_eq_act_iff {e : Happening S O} {i : TaskId} {r : TaskAct S}
    {out : r.Outcome} :
    e.task? = some (.deed i (.act (.inl r) out)) ↔
      e = .deed i (.act (.inl r) out) ∧ ∀ entry, r ≠ .log entry := by
  constructor
  · intro he
    match e, he with
    | .deed _ (.act (.inl r') _), he =>
      cases r' with
      | log => cases he
      | _ =>
        cases he
        exact ⟨rfl, nofun⟩
    | .deed _ (.call (.inl _)), he | .deed _ (.answer (.inl _) _), he => cases he
  · rintro ⟨rfl, hr⟩
    cases r with
    | log entry => exact absurd rfl (hr entry)
    | _ => rfl

namespace History

variable {h : History S O}

/-- What happens among tasks, entries in the log left out. -/
def tasks (h : History S O) : History S Interface.nothing := h.filterMap Happening.task?

@[simp]
theorem tasks_append {g : History S O} : tasks (g ++ h) = tasks g ++ tasks h :=
  List.filterMap_append

@[simp]
theorem tasks_nil : tasks ([] : History S O) = [] := rfl

@[simp]
theorem tasks_cons {e : Happening S O} : tasks (e :: h) = e.task?.toList ++ tasks h := by
  unfold tasks
  rw [List.filterMap_cons]
  cases e.task? <;> rfl

/-- Jobs are started among tasks. -/
theorem jobs_tasks : jobs h.tasks = h.jobs := by
  unfold jobs tasks
  rw [List.filterMap_filterMap]
  refine congrArg (List.filterMap · h) (funext fun e => ?_)
  match e with
  | .launch _ | .finish .. | .interrupt _ | .deed _ (.call (.inl _)) | .deed _ (.call (.inr _))
  | .deed _ (.answer (.inl _) _) | .deed _ (.answer (.inr _) _) | .deed _ (.act (.inr _) _) => rfl
  | .deed _ (.act (.inl r) _) => cases r <;> rfl

/-- Tokens are made among tasks. -/
theorem tokenCount_tasks : tokenCount h.tasks = h.tokenCount := by
  induction h with
  | nil => rfl
  | cons e h ih =>
    rw [tasks_cons, tokenCount_append, tokenCount_cons, ih, Nat.add_comm]
    refine congrArg (tokenCount h + ·) ?_
    match e with
    | .launch _ | .finish .. | .interrupt _ | .deed _ (.call (.inl _)) | .deed _ (.call (.inr _))
    | .deed _ (.answer (.inl _) _) | .deed _ (.answer (.inr _) _) | .deed _ (.act (.inr _) _) => rfl
    | .deed _ (.act (.inl r) _) => cases r <;> rfl

/-- Whatever happens among tasks happens. -/
theorem split_tasks {g g' : History S Interface.nothing} {e : Happening S Interface.nothing}
    (he : h.tasks = g ++ e :: g') : ∃ a a', h = a ++ e.ofTask :: a' ∧ tasks a = g := by
  obtain ⟨a, b, rfl, ha, hb⟩ := List.filterMap_eq_append_iff.mp he
  obtain ⟨b, e', a', rfl, hnone, he', -⟩ := List.filterMap_eq_cons_iff.mp hb
  obtain rfl := Happening.eq_ofTask he'
  refine ⟨a ++ b, a', (List.append_assoc ..).symm, ?_⟩
  rw [tasks_append, tasks, tasks, ha, List.filterMap_eq_nil_iff.mpr hnone, List.append_nil]

/-- What happens among tasks is among all that happens. -/
theorem mem_of_mem_tasks {e : Happening S Interface.nothing} (he : e ∈ h.tasks) : e.ofTask ∈ h := by
  obtain ⟨g, g', heq⟩ := List.append_of_mem he
  obtain ⟨a, a', rfl, -⟩ := split_tasks heq
  exact List.mem_append_right _ (List.mem_cons_self ..)

/-- What happens among tasks does so if it is no entry in the log. -/
theorem mem_tasks_iff {e : Happening S Interface.nothing}
    (he : (e.ofTask : Happening S O).task? = some e) : e ∈ h.tasks ↔ e.ofTask ∈ h :=
  ⟨mem_of_mem_tasks, fun hmem => List.mem_filterMap.mpr ⟨_, hmem, he⟩⟩

/-- A task ends among tasks. -/
theorem mem_tasks_finish {i : TaskId} {r : Except Failure S.Value} :
    .finish i r ∈ h.tasks ↔ .finish i r ∈ h := mem_tasks_iff rfl

/-- An interruption comes in among tasks. -/
theorem mem_tasks_interrupt {i : TaskId} : .interrupt i ∈ h.tasks ↔ .interrupt i ∈ h :=
  mem_tasks_iff rfl

/-- Actions are registered among tasks. -/
theorem mem_tasks_register {i : TaskId} {token : TokenId} {a : S.Action} :
    .deed i (.act (.inl (.register token a)) ()) ∈ h.tasks ↔
      .deed i (.act (.inl (.register token a)) ()) ∈ h := mem_tasks_iff rfl

/-- Tasks end among tasks. -/
theorem finished_tasks {i : TaskId} : Finished h.tasks i ↔ h.Finished i :=
  exists_congr fun _ => mem_tasks_finish

/-- Tasks wait for each other among tasks. -/
theorem joins_tasks {i : TaskId} : Joins h.tasks i ↔ h.Joins i :=
  exists_congr fun t => mem_tasks_iff (e := .deed i (.call (.inl (.join t)))) rfl

/-- Whether no wait has been over while the task waited for bound can be told from what happens
among tasks. -/
theorem patient_tasks : Patient h.tasks ↔ h.Patient := by
  have hbinds : ∀ {g : History S O} {j : TaskId}, Binds g.tasks j ↔ g.Binds j :=
    and_congr (not_congr finished_tasks) (not_congr joins_tasks)
  constructor
  · rintro hpatient g g' i j ans rfl hbound
    exact hpatient g.tasks (tasks g') i j ans (by simp [Happening.task?, Exchange.task?])
      (hbinds.mpr hbound)
  · intro hpatient g g' i j ans heq hbound
    obtain ⟨a, a', rfl, rfl⟩ := split_tasks heq
    exact hpatient a a' i j ans rfl (hbinds.mp hbound)

/-- Tokens are set among tasks. -/
theorem cancelled_tasks {token : TokenId} : Cancelled h.tasks token ↔ h.Cancelled token := by
  induction h using List.reverseRecOn with
  | nil =>
    exact ⟨fun ⟨g, _, _, _, hg, _⟩ => by simp at hg, fun ⟨g, _, _, _, hg, _⟩ => by simp at hg⟩
  | append_singleton h e ih =>
    rw [cancelled_snoc_iff, ← ih, ← tokenCount_tasks, tasks_append, tasks_cons, tasks_nil,
      List.append_nil]
    -- only the trip of a token sets one, and every trip is a happening among tasks
    cases he : e.task? with
    | none =>
      rw [Option.toList_none, List.append_nil]
      refine ⟨.inl, ?_⟩
      rintro (hc | ⟨-, i, out, rfl⟩)
      · exact hc
      · cases he
    | some e' =>
      rw [Option.toList_some, cancelled_snoc_iff]
      refine or_congr_right (and_congr_right fun _ => ?_)
      constructor
      · rintro ⟨i, out, rfl⟩
        exact ⟨i, out, (Happening.task?_eq_act_iff.mp he).1⟩
      · rintro ⟨i, out, rfl⟩
        cases he
        exact ⟨i, out, rfl⟩

/-- Tokens change among tasks. -/
theorem tokens_tasks [BEq S.Action] : tokens h.tasks = h.tokens := by
  induction h using List.reverseRecOn with
  | nil => rfl
  | append_singleton h e ih =>
    rw [tokens_snoc, ← ih, tasks_append, tasks_cons, tasks_nil, List.append_nil]
    -- what a task asks of its surroundings, or logs, changes no token
    match e with
    | .launch _ | .finish .. | .interrupt _ | .deed _ (.call (.inl _))
    | .deed _ (.answer (.inl _) _) => exact tokens_snoc
    | .deed _ (.call (.inr _)) | .deed _ (.answer (.inr _) _) | .deed _ (.act (.inr _) _) =>
      exact congrArg tokens (List.append_nil _)
    | .deed _ (.act (.inl r) _) =>
      cases r with
      | log => exact congrArg tokens (List.append_nil _)
      | _ => exact tokens_snoc

end History

namespace Carriage

variable {α : Type} {C : Carriage S J K} {x : Program (S.interface.sum J) α}
  {l xs : List (Exchange (S.interface.sum J))} {l' : List (Exchange (S.interface.sum K))}
  {e : Exchange (S.interface.sum K)}

/-- What passes while an act is carried over is nothing among tasks. -/
theorem task?_of_act {r : J.Act} (h : Program.Reaches (C.act r) l') (he : e ∈ l') :
    e.task? = none := by
  have hquiet := (C.act_keeps r).of_reaches h e he
  match e, hquiet with
  | .act (.inl (.log _)) _, _ | .act (.inr _) _, _ => rfl

/-- What passes while a wait is carried over is nothing among tasks. -/
theorem task?_of_wait {w : J.Wait} (h : Program.Reaches (C.wait w) l') (he : e ∈ l') :
    e.task? = none := by
  have hquiet := (C.wait_keeps w).of_reaches h e he
  match e, hquiet with
  | .act (.inl (.log _)) _, _ | .act (.inr _) _, _ | .call (.inr _), _ | .answer (.inr _) _, _ =>
    rfl

/-- What an exchange means is the same among tasks. -/
theorem tasks_of_conveys (h : Program.Conveys C.acts C.waits x l l' e xs) :
    xs.filterMap Exchange.task? = e.task?.toList := by
  -- what is asked of the tasks is carried over as itself; what is asked of the surroundings is made
  -- of exchanges that are none among tasks
  cases h with
  | @act r _ out _ b _ _ he =>
    cases r with
    | inl r =>
      have hb : b ++ [e] = [] ++ [.act (.inl r) out] := Program.leads_act_done_iff.mp he
      cases (List.append_inj' hb rfl).2
      simp [List.filterMap_cons]
      cases r <;> rfl
    | inr r =>
      rw [C.task?_of_act he.reaches (List.mem_append_right _ (List.mem_singleton_self e))]
      rfl
  | @acting r _ _ b _ _ he =>
    cases r with
    | inl r => simpa using Program.eq_nil_of_under_act he
    | inr r => simp [C.task?_of_act he.1 (List.mem_append_right _ (List.mem_singleton_self e))]
  | @call w _ _ he =>
    cases w with
    | inl w =>
      cases Program.eq_of_under_await he (by simp)
      rfl
    | inr w =>
      rw [C.task?_of_wait he.1 (List.mem_singleton_self e)]
      rfl
  | @waiting _ w _ _ b _ _ _ hne he =>
    cases w with
    | inl w =>
      have hb : b ++ [e] = [] ++ [.call (.inl w)] := Program.eq_of_under_await he (by simp)
      exact absurd (List.append_inj' hb rfl).1 hne
    | inr w => simp [C.task?_of_wait he.1 (List.mem_append_right _ (List.mem_singleton_self e))]
  | @answer _ w _ ans _ b _ _ _ hne he =>
    cases w with
    | inl w =>
      have hb : b ++ [e] = [.call (.inl w)] ++ [.answer (.inl w) ans] :=
        Program.leads_await_done_iff.mp he
      cases (List.append_inj' hb rfl).2
      rfl
    | inr w =>
      rw [C.task?_of_wait he.reaches (List.mem_append_right _ (List.mem_singleton_self e))]
      rfl
  | @both w _ ans _ he =>
    cases w with
    | inl w =>
      have hb : [e] = [.call (.inl w), .answer (.inl w) ans] := Program.leads_await_done_iff.mp he
      simp at hb
    | inr w =>
      rw [C.task?_of_wait he.reaches (List.mem_singleton_self e)]
      rfl

end Carriage

/-- The account of a history of tasks whose programs carry over others, in terms of these. -/
inductive Account (C : Carriage S J K) (meaning : S.Body → TaskM S J S.Value) :
    History S J → History S K → Prop
  | nil : Account C meaning [] []
  | launch {h : History S J} {h' : History S K} (job : Job S) : Account C meaning h h' →
      Account C meaning (h ++ [.launch job]) (h' ++ [.launch job])
  | finish {h : History S J} {h' : History S K} (i : TaskId) (r : Except Failure S.Value) :
      Account C meaning h h' → Account C meaning (h ++ [.finish i r]) (h' ++ [.finish i r])
  | interrupt {h : History S J} {h' : History S K} (i : TaskId) : Account C meaning h h' →
      Account C meaning (h ++ [.interrupt i]) (h' ++ [.interrupt i])
  | deed {h : History S J} {h' : History S K} {i : TaskId} {job : Job S}
      {e : Exchange (S.interface.sum K)} {xs : List (Exchange (S.interface.sum J))} :
      Account C meaning h h' → h.jobs[i]? = some job →
      Program.Tracks C.acts C.waits (job.program meaning).run (h.of i ++ xs) (h'.of i ++ [e]) →
      Program.Conveys C.acts C.waits (job.program meaning).run (h.of i) (h'.of i) e xs →
      Account C meaning (h ++ xs.map (.deed i)) (h' ++ [.deed i e])

namespace History

/-- What a task does in a row, among tasks. -/
theorem tasks_map_deed {i : TaskId} {xs : List (Exchange (S.interface.sum O))} :
    History.tasks (xs.map (.deed i) : History S O) =
      (xs.filterMap Exchange.task?).map (.deed i) := by
  unfold tasks
  rw [List.filterMap_map, List.map_filterMap]
  rfl

end History

namespace Account

variable {C : Carriage S J K} {meaning : S.Body → TaskM S J S.Value} {h : History S J}
  {h' : History S K} {i : TaskId} {job : Job S}

/-- Among tasks, the account says what has happened. -/
theorem tasks_eq (ha : Account C meaning h h') : h.tasks = h'.tasks := by
  induction ha with
  | nil => rfl
  | launch job _ ih => simp [ih, Happening.task?]
  | finish i r _ ih => simp [ih, Happening.task?]
  | interrupt i _ ih => simp [ih, Happening.task?]
  | @deed h h' i job e xs _ _ _ hc ih =>
    rw [History.tasks_append, History.tasks_append, ih, History.tasks_map_deed,
      C.tasks_of_conveys hc, History.tasks_cons, History.tasks_nil, List.append_nil]
    cases he : e.task? <;> simp [Happening.task?, he]

/-- The account is of the same jobs. -/
theorem jobs_eq (ha : Account C meaning h h') : h.jobs = h'.jobs := by
  rw [← History.jobs_tasks, ha.tasks_eq, History.jobs_tasks]

/-- The same tasks have ended in the account. -/
theorem finished_iff (ha : Account C meaning h h') : h.Finished i ↔ h'.Finished i := by
  rw [← History.finished_tasks, ha.tasks_eq, History.finished_tasks]

/-- The same tasks have ended in the account in the same way. -/
theorem mem_finish_iff (ha : Account C meaning h h') {r : Except Failure S.Value} :
    .finish i r ∈ h ↔ .finish i r ∈ h' := by
  rw [← History.mem_tasks_finish, ha.tasks_eq, History.mem_tasks_finish]

/-- The same interruptions come in in the account. -/
theorem mem_interrupt_iff (ha : Account C meaning h h') : .interrupt i ∈ h ↔ .interrupt i ∈ h' := by
  rw [← History.mem_tasks_interrupt, ha.tasks_eq, History.mem_tasks_interrupt]

/-- Waits are over in the account when they may be. -/
theorem patient_iff (ha : Account C meaning h h') : h.Patient ↔ h'.Patient := by
  rw [← History.patient_tasks, ha.tasks_eq, History.patient_tasks]

/-- A task that has done nothing has none of it on its account. -/
theorem of_eq_nil (ha : Account C meaning h h') (hi : h'.of i = []) : h.of i = [] := by
  induction ha with
  | nil => rfl
  | launch job _ ih => simpa [Happening.deed?] using ih (by simpa [Happening.deed?] using hi)
  | finish j r _ ih => simpa [Happening.deed?] using ih (by simpa [Happening.deed?] using hi)
  | interrupt j _ ih => simpa [Happening.deed?] using ih (by simpa [Happening.deed?] using hi)
  | @deed h h' j job e xs _ _ _ _ ih =>
    rw [History.of_append] at hi
    obtain ⟨hi, he⟩ := List.append_eq_nil_iff.mp hi
    have hij : j ≠ i := by
      rintro rfl
      simp [Happening.deed?] at he
    rw [History.of_append, ih hi, History.of_map_deed_of_ne hij, List.nil_append]

/-- The beginning of what has happened has an account, with which the account of all of it
begins. -/
theorem of_append {f f' : History S K} (ha : Account C meaning h (f ++ f')) :
    ∃ g g', h = g ++ g' ∧ Account C meaning g f := by
  -- what is added at the end is part of the beginning only if that is all of it
  have hstep : ∀ {h₀ ys : History S J} {h₀' f' : History S K} {d : Happening S K},
      (∀ {f'}, f ++ f' = h₀' → ∃ g g', h₀ = g ++ g' ∧ Account C meaning g f) →
      Account C meaning (h₀ ++ ys) (h₀' ++ [d]) → f ++ f' = h₀' ++ [d] →
      ∃ g g', h₀ ++ ys = g ++ g' ∧ Account C meaning g f := by
    intro h₀ ys h₀' f' d ih ha heq
    rcases List.eq_nil_or_concat f' with rfl | ⟨f', e, rfl⟩
    · rw [List.append_nil] at heq
      exact ⟨h₀ ++ ys, [], (List.append_nil _).symm, heq ▸ ha⟩
    · rw [List.concat_eq_append, ← List.append_assoc] at heq
      obtain ⟨g, g', rfl, hg⟩ := ih (List.append_inj' heq rfl).1
      exact ⟨g, g' ++ ys, List.append_assoc .., hg⟩
  generalize heq : f ++ f' = h' at ha
  induction ha generalizing f' with
  | nil =>
    obtain ⟨rfl, -⟩ := List.append_eq_nil_iff.mp heq
    exact ⟨[], [], rfl, .nil⟩
  | launch job ha ih => exact hstep ih (ha.launch job) heq
  | finish i r ha ih => exact hstep ih (ha.finish i r) heq
  | interrupt i ha ih => exact hstep ih (ha.interrupt i) heq
  | deed ha hj ht hc ih => exact hstep ih (ha.deed hj ht hc) heq

/-- Whatever a task does in the account is meant by something that it does. -/
theorem split_deed {g g' : History S J} {x : Exchange (S.interface.sum J)}
    (ha : Account C meaning h h') (hx : h = g ++ .deed i x :: g') :
    ∃ g₀ us vs job f e f', g = g₀ ++ us.map (.deed i) ∧ h' = f ++ .deed i e :: f' ∧
      Account C meaning g₀ f ∧
      Program.Conveys C.acts C.waits (Job.program meaning job).run (g₀.of i)
        (f.of i) e (us ++ x :: vs) := by
  -- it is done in the part before, or in what is added to it
  have hsplit : ∀ {h₀ ys g' : History S J}, h₀ ++ ys = g ++ .deed i x :: g' →
      (∃ g'', h₀ = g ++ .deed i x :: g'') ∨ ∃ m, g = h₀ ++ m ∧ ys = m ++ .deed i x :: g' := by
    intro h₀ ys g' heq
    rcases List.append_eq_append_iff.mp heq with ⟨m, rfl, hm⟩ | ⟨m, rfl, hm⟩
    · exact .inr ⟨m, rfl, hm⟩
    · cases m with
      | nil => exact .inr ⟨[], by simp, hm.symm⟩
      | cons d m =>
        obtain ⟨rfl, -⟩ := List.cons.inj hm
        exact .inl ⟨m, rfl⟩
  -- only what a task does lengthens the account by something that a task does
  induction ha generalizing g' with
  | nil => simp at hx
  | launch _ _ ih | finish _ _ _ ih | interrupt _ _ ih =>
    rcases hsplit hx with ⟨g'', hg⟩ | ⟨m, -, hm⟩
    · obtain ⟨g₀, us, vs, job, f, e, f', hg₀, rfl, hf, hc⟩ := ih hg
      exact ⟨g₀, us, vs, job, f, e, _, hg₀, List.append_assoc .., hf, hc⟩
    · cases m with
      | nil => cases hm
      | cons d m => simp at hm
  | @deed h h' j job e xs ha hj ht hc ih =>
    rcases hsplit hx with ⟨g'', hg⟩ | ⟨m, hg, hm⟩
    · obtain ⟨g₀, us, vs, job, f, e, f', hg₀, rfl, hf, hc⟩ := ih hg
      exact ⟨g₀, us, vs, job, f, e, _, hg₀, List.append_assoc .., hf, hc⟩
    · -- it is among what this exchange means
      obtain ⟨us, ys, rfl, rfl, hys⟩ := List.map_eq_append_iff.mp hm
      obtain ⟨y, vs, rfl, hy, rfl⟩ := List.map_eq_cons_iff.mp hys
      cases hy
      exact ⟨h, us, vs, job, h', e, [], hg, rfl, ha, hc⟩

/-- A wait of the account begins with the first exchange that is made for it. -/
theorem split_call {g g' : History S J} {w : (S.interface.sum J).Wait} (ha : Account C meaning h h')
    (hcall : h = g ++ .deed i (.call w) :: g') :
    ∃ f e f', h' = f ++ .deed i e :: f' ∧ Account C meaning g f ∧
      Program.Reaches (C.waits w) [e] := by
  obtain ⟨g₀, us, vs, job, f, e, f', rfl, rfl, hf, hc⟩ := ha.split_deed hcall
  generalize hxs : us ++ .call w :: vs = xs at hc
  -- a wait begins first of all that an exchange means
  have hfirst :
      ∀ {v ys}, us ++ .call w :: vs = .call v :: ys → (∀ v, .call v ∉ ys) → us = [] ∧ v = w := by
    intro v ys heq hys
    cases us with
    | nil =>
      cases heq
      exact ⟨rfl, rfl⟩
    | cons u us =>
      refine absurd ?_ (hys w)
      rw [← (List.cons.inj heq).2]
      exact List.mem_append_right _ (List.mem_cons_self ..)
  have hmem : .call w ∈ xs := hxs ▸ List.mem_append_right _ (List.mem_cons_self ..)
  cases hc with
  | act | acting | waiting | answer => simp at hmem
  | call hl hu =>
    obtain ⟨rfl, rfl⟩ := hfirst hxs (by simp)
    exact ⟨f, e, f', rfl, by simpa using hf, hu.1⟩
  | both hl hd =>
    obtain ⟨rfl, rfl⟩ := hfirst hxs (by simp)
    exact ⟨f, e, f', rfl, by simpa using hf, hd.reaches⟩

/-- An act of the account is done with the last exchange that is made for it. -/
theorem split_act {g g' : History S J} {r : (S.interface.sum J).Act}
    {out : (S.interface.sum J).Outcome r}
    (ha : Account C meaning h h') (hact : h = g ++ .deed i (.act r out) :: g') :
    ∃ f e f' l b, h' = f ++ .deed i e :: f' ∧ Account C meaning g f ∧ f.of i = l ++ b ∧
      Program.Leads (C.acts r) (b ++ [e]) (.done out) := by
  obtain ⟨g₀, us, vs, job, f, e, f', rfl, rfl, hf, hc⟩ := ha.split_deed hact
  generalize hxs : us ++ .act r out :: vs = xs at hc
  have hmem : .act r out ∈ xs := hxs ▸ List.mem_append_right _ (List.mem_cons_self ..)
  -- an act is all that the exchange means with which it is done
  cases hc with
  | act hl hb hd =>
    cases us with
    | nil =>
      cases hxs
      exact ⟨f, e, f', _, _, rfl, by simpa using hf, hb, hd⟩
    | cons u us => simp at hxs
  | acting | waiting | answer | call | both => simp at hmem

variable {W W' : Type} {R : Regime S J W} {R' : Regime S K W'}

/-- How a wait for another task is over is the same in the account. -/
theorem resolves (ha : Account C meaning h h') {w : TaskWait} {ans : Except Failure (w.Answer S)}
    (hans : R'.Resolves h' i (.inl w) ans) : R.Resolves h i (.inl w) ans := by
  cases w with
  | join j | joinShielded j =>
    exact hans.imp ha.mem_finish_iff.mpr (And.imp_right ha.mem_interrupt_iff.mpr)
  | signal s => exact hans.imp_right (And.imp_right ha.mem_interrupt_iff.mpr)

variable [BEq S.Action]

/-- What a task does is tracked by its account. -/
theorem tracks (ha : Account C meaning h h') (hp : R'.Possible h') (hj : h.jobs[i]? = some job) :
    Program.Tracks C.acts C.waits (job.program meaning).run (h.of i) (h'.of i) := by
  -- a task that has not been started before has done nothing; the job of any other is the same
  have hprev : ∀ {h d : History S J} {h' : History S K}, Account C meaning h h' →
      R'.Possible h' → (h ++ d).jobs[i]? = some job →
      (h.jobs[i]? = some job →
        Program.Tracks C.acts C.waits (job.program meaning).run (h.of i) (h'.of i)) →
      Program.Tracks C.acts C.waits (job.program meaning).run (h.of i) (h'.of i) := by
    intro h d h' ha hp hj ih
    cases hold : h.jobs[i]? with
    | none =>
      rw [hp.of_eq_nil_of_not_started (ha.jobs_eq ▸ hold),
        ha.of_eq_nil (hp.of_eq_nil_of_not_started (ha.jobs_eq ▸ hold))]
      exact .nil _
    | some job₀ =>
      rw [History.jobs_mono hold] at hj
      exact ih (hold.trans hj)
  induction ha with
  | nil => exact .nil _
  | @launch h h' job' ha ih =>
    have hp := hp.of_append
    simp only [History.of_append, History.of_cons, History.of_nil, Happening.deed?,
      Option.toList_none, List.append_nil]
    exact hprev ha hp hj (ih hp)
  | @finish h h' j r ha ih =>
    simpa [Happening.deed?] using ih hp.of_append (by simpa [Happening.job?] using hj)
  | @interrupt h h' j ha ih =>
    simpa [Happening.deed?] using ih hp.of_append (by simpa [Happening.job?] using hj)
  | @deed h h' j job' e xs ha hj' ht _ ih =>
    have hp := hp.of_append
    -- what another task does leaves this one as it was
    by_cases hij : j = i
    · subst hij
      rw [History.jobs_mono hj'] at hj
      cases hj
      simpa [Happening.deed?] using ht
    · rw [History.of_append, History.of_append, History.of_map_deed_of_ne hij]
      simp only [History.of_cons, History.of_nil, Happening.deed?, if_neg hij, Option.toList_none,
        List.append_nil]
      exact hprev ha hp hj (ih hp)

/-- While a task does not have its turn, whatever is made for a wait of its account has come to a
wait of its own, or it is all of it. -/
theorem serves_of_idle (hprogram : ∀ job, R'.program job = C.carried (job.program meaning))
    (hp : R'.Possible h') (hidle : h'.Idle i) {l : List (Exchange (S.interface.sum J))}
    {w : (S.interface.sum J).Wait} {b : List (Exchange (S.interface.sum K))}
    (hj : h'.jobs[i]? = some job)
    (hb : Program.Serves C.acts C.waits (job.program meaning).run l w (h'.of i) b) :
    (∃ b₀ v, b = b₀ ++ [.call v] ∧ Program.Asks (C.waits w) b₀ (.call v)) ∨
      ∃ ans, Program.Leads (C.waits w) b (.done ans) := by
  obtain ⟨m, m', hof, ht, ⟨next, hx⟩, hne, ⟨rfl, hu⟩ | hdone⟩ := hb
  · rw [List.append_nil] at hof
    -- the task has done nothing, waits, or is over
    rcases hidle with hnil | ⟨l₀, v, hv⟩ | ⟨r, hr⟩
    · rw [hnil] at hof
      exact absurd (List.append_eq_nil_iff.mp hof.symm).2 hne
    · obtain ⟨b₀, d, rfl⟩ := (List.eq_nil_or_concat b).resolve_left hne
      rw [hv, List.concat_eq_append, ← List.append_assoc] at hof
      obtain ⟨-, hd⟩ := List.append_inj' hof rfl
      cases hd
      rw [List.concat_eq_append] at hu ⊢
      exact .inl ⟨b₀, v, rfl, hu.1.asks id⟩
    · -- a task that is over is not in the middle of anything
      rcases hp.finish_cases_of_job hj hr with hdone | ⟨hnil, -, -⟩
      · rw [hprogram, hof] at hdone
        obtain ⟨ans, l₁, l₂, rfl, hl₁, -⟩ :=
          Program.leads_bind_done_iff.mp ((ht.leads_await hx).cancel_left hdone)
        exact (hu.not_done hl₁).elim
      · rw [hnil] at hof
        exact absurd (List.append_eq_nil_iff.mp hof.symm).2 hne
  · exact .inr hdone

/-- Whoever does not have its turn does not have it in the account. -/
theorem idle (ha : Account C meaning h h') (hp : R'.Possible h') (hi : h'.Idle i) : h.Idle i := by
  rcases hi with hnil | ⟨l, w, hl⟩ | ⟨r, hr⟩
  · exact .inl (ha.of_eq_nil hnil)
  · cases hj : h.jobs[i]? with
    | none =>
      refine .inl (ha.of_eq_nil (hp.of_eq_nil_of_not_started ?_))
      rw [← ha.jobs_eq, hj]
    | some job => exact .inr (.inl ((ha.tracks hp hj).call_of_call C.not_asks_call hl))
  · exact .inr (.inr ⟨r, ha.mem_finish_iff.mpr hr⟩)

/-- Whoever may go on may go on in the account, unless a request of it is under way there. -/
theorem inTurn (ha : Account C meaning h h') (hp : R'.Possible h') (hturn : h'.InTurn i)
    (hi : ∀ l w, h.of i ≠ l ++ [.call w]) : h.InTurn i := by
  refine ⟨?_, fun j hj => ha.idle hp (hturn.2 j hj)⟩
  -- by what happened last: the turn is with whose exchange it was
  induction ha with
  | nil => exact .inl rfl
  | launch job ha _ | finish j r ha _ | interrupt j ha _ =>
    rcases hturn.1 with hnil | ⟨g, x, heq⟩
    · left
      simpa [Happening.deed?] using ha.of_eq_nil (by simpa [Happening.deed?] using hnil)
    · cases (List.append_inj' heq rfl).2
  | @deed h h' j job e xs ha hj ht hc ih =>
    by_cases hij : j = i
    · subst hij
      rcases List.eq_nil_or_concat xs with rfl | ⟨xs, y, rfl⟩
      · -- an act is being carried over, which takes no time
        cases hc with
        | @acting r _ _ b hl hb hu =>
          have hturn' : h'.InTurn j := hp.inTurn (C.not_isAnswer_of_acts hu.1)
          simpa using ih hp.of_append hturn' (by simpa using hi)
        | waiting hl _ _ _ _ => exact (hi _ _ (by simpa using hl)).elim
      · exact .inr ⟨h ++ xs.map (.deed j), y, by simp⟩
    · -- the last exchange is of another task, so that this one has only been started
      rcases hturn.1 with hnil | ⟨g, x, heq⟩
      · left
        have hnil : History.of h' i = [] := (List.append_eq_nil_iff.mp (History.of_append ▸ hnil)).1
        rw [History.of_append, History.of_map_deed_of_ne hij, ha.of_eq_nil hnil, List.nil_append]
      · have := (List.append_inj' heq rfl).2
        simp only [List.cons.injEq, Happening.deed.injEq, and_true] at this
        exact absurd this.1 hij

/-- What an act among tasks comes to is the same in the account. -/
theorem yields (ha : Account C meaning h h') {r : TaskAct S} {out : r.Outcome}
    (hout : R'.Yields h' (.inl r) out) : R.Yields h (.inl r) out := by
  have ht := ha.tasks_eq
  -- whatever an act among tasks looks at is the same in the account
  cases r with
  | spawn job => exact hout.trans (congrArg List.length ha.jobs_eq.symm)
  | isDone j =>
    exact Iff.trans hout ha.finished_iff.symm
  | newToken =>
    exact hout.trans (by rw [← History.tokenCount_tasks, ← ht, History.tokenCount_tasks])
  | isCancelled token =>
    exact Iff.trans hout (by rw [← History.cancelled_tasks, ← ht, History.cancelled_tasks])
  | trip token =>
    refine ⟨fun a ha => ?_, ?_⟩
    · obtain ⟨i, hi⟩ := hout.1 a ha
      refine ⟨i, ?_⟩
      rw [← History.mem_tasks_register, ht, History.mem_tasks_register]
      exact hi
    · rw [← History.tokens_tasks, ht, History.tokens_tasks]
      exact hout.2
  | register | unregister | blame | newSignal | fire | log => trivial

end Account

/-- Whoever does something goes some way in its program. -/
theorem Regime.Fits.reaches [BEq S.Action] {W : Type} {R : Regime S O W} {h : History S O}
    {i : TaskId} {e : Exchange (S.interface.sum O)} (hf : R.Fits h (.deed i e)) :
    ∃ job, h.jobs[i]? = some job ∧ Program.Reaches (R.program job).run (h.of i ++ [e]) := by
  cases hf with
  | act hj _ _ hx _ => exact ⟨_, hj, (hx.snoc_act _).reaches⟩
  | call hj _ _ hx => exact ⟨_, hj, hx.reaches_call⟩
  | answer hj _ hl hx _ =>
    refine ⟨_, hj, ?_⟩
    rw [hl, List.append_assoc]
    exact (hx.snoc_await _).reaches

section Serves

variable [BEq S.Action] {W W' : Type} {C : Carriage S J K} {R : Regime S J W} {R' : Regime S K W'}
  {h : History S J} {h' : History S K}

/-- Every history of tasks whose programs carry over others has an account in terms of these. -/
theorem Regime.Possible.account {meaning : S.Body → TaskM S J S.Value}
    (hprogram : ∀ job, R'.program job = C.carried (job.program meaning)) (hp : R'.Possible h') :
    ∃ h, Account C meaning h h' := by
  -- each exchange of a task is one of its program, and so means something
  induction hp with
  | nil => exact ⟨[], .nil⟩
  | @snoc h' e hp hf ih =>
    obtain ⟨h, ha⟩ := ih
    cases e with
    | launch job => exact ⟨_, ha.launch job⟩
    | finish i r => exact ⟨_, ha.finish i r⟩
    | interrupt i => exact ⟨_, ha.interrupt i⟩
    | deed i e =>
      obtain ⟨job, hj, hr⟩ := hf.reaches
      rw [← ha.jobs_eq] at hj
      rw [hprogram job] at hr
      obtain ⟨xs, ht, hc⟩ := (ha.tracks hp hj).extend C.acts_ne_done C.waits_ne_done hr
      exact ⟨_, ha.deed hj ht hc⟩

/-- What is carried over to the tasks of one regime is such as the world of another one may do. -/
structure Carriage.Serves (C : Carriage S J K) (R : Regime S J W) (R' : Regime S K W') : Prop where
  program : ∀ job, R'.program job = C.carried (R.program job)
  launches : ∀ {job}, R'.Launches job → R.Launches job
  act : ∀ {h : History S J} {h' : History S K} {i : TaskId} {e : Exchange (S.interface.sum K)}
    {l b : List (Exchange (S.interface.sum K))} {r : J.Act} {out : J.Outcome r},
    Account C R.engine.meaning h h' → R'.Possible (h' ++ [.deed i e]) → h'.of i = l ++ b →
    Program.Leads (C.act r) (b ++ [e]) (.done out) → R.Yields h (.inr r) out
  answer : ∀ {h : History S J} {h' : History S K} {i : TaskId} {e : Exchange (S.interface.sum K)}
    {l b : List (Exchange (S.interface.sum K))} {w : J.Wait} {ans : Except Failure (J.Answer w)},
    Account C R.engine.meaning h h' → R'.Possible (h' ++ [.deed i e]) → h'.of i = l ++ b →
    Program.Leads (C.wait w) (b ++ [e]) (.done ans) → R.Answers h w ans
  /-- That a wait has begun makes no difference to what may be answered. -/
  call : ∀ {h : History S J} {i : TaskId} {v w : J.Wait} {ans : Except Failure (J.Answer w)},
    R.Answers h w ans → R.Answers (h ++ [.deed i (.call (.inr v))]) w ans

/-- What passes between a task and its surroundings is accounted for by what may pass there. -/
theorem Account.possible_deed {i : TaskId} {job : Job S} {e : Exchange (S.interface.sum K)}
    {xs : List (Exchange (S.interface.sum J))} (hs : C.Serves R R')
    (ha : Account C R.engine.meaning h h')
    (hp : R'.Possible (h' ++ [.deed i e])) (hpossible : R.Possible h) (hj : h.jobs[i]? = some job)
    (hc : Program.Conveys C.acts C.waits (job.program R.engine.meaning).run (h.of i)
      (h'.of i) e xs) :
    R.Possible (h ++ xs.map (.deed i)) := by
  have hpo := hp.of_append
  have hnot : ¬ h.Finished i := hp.started_of_deed.2 ∘ ha.finished_iff.mp
  -- whoever begins something has its turn
  have hturn : ¬ e.IsAnswer → (∀ l w, h.of i ≠ l ++ [.call w]) → h.InTurn i :=
    fun he => ha.inTurn hpo (hp.inTurn he)
  -- by what the exchange means: an act done, a wait begun or answered, or nothing as yet
  cases hc with
  | @act r next out l₁ b hl hb he =>
    have hplain : ¬ e.IsAnswer := C.not_isAnswer_of_acts he.reaches
    refine hpossible.snoc (.act hj hnot (hturn hplain fun l w hw => ?_) hl ?_)
    · exact Program.Leads.not_snoc_call (hw ▸ hl)
    · cases r with
      | inl r =>
        have heq : b ++ [e] = [] ++ [.act (.inl r) out] := Program.leads_act_done_iff.mp he
        cases (List.append_inj' heq rfl).2
        exact ha.yields hp.yields
      | inr r => exact hs.act ha hp hb he
  | acting => simpa using hpossible
  | @call w next hl hu =>
    refine hpossible.snoc (.call hj hnot (hturn hu.1.not_isAnswer fun l w hw => ?_) hl)
    exact Program.Leads.not_snoc_call (hw ▸ hl)
  | waiting => simpa using hpossible
  | @answer l₀ w next ans l₁ b hl hx hb hne he =>
    refine hpossible.snoc (.answer hj hnot hl hx ?_)
    cases w with
    | inl w =>
      have heq : b ++ [e] = [.call (.inl w)] ++ [.answer (.inl w) ans] :=
        Program.leads_await_done_iff.mp he
      cases (List.append_inj' heq rfl).2
      exact ha.resolves hp.resolves
    | inr w => exact .inl (hs.answer ha hp hb he)
  | @both w next ans hl he =>
    -- a wait that is answered at once is first begun, in turn, and then answered
    have hcall := hpossible.snoc (.call hj hnot (hturn he.reaches.not_isAnswer fun l w hw =>
      Program.Leads.not_snoc_call (hw ▸ hl)) hl)
    cases w with
    | inl w =>
      have heq : [e] = [.call (.inl w), .answer (.inl w) ans] := Program.leads_await_done_iff.mp he
      simp at heq
    | inr w =>
      have hans : R.Answers (h ++ [.deed i (.call (.inr w))]) w ans :=
        hs.call (hs.answer ha hp (List.append_nil _).symm he)
      have hnot : ¬ History.Finished (h ++ [.deed i (.call (.inr w))]) i := by
        rintro ⟨r, hr⟩
        exact hnot ⟨r, by simpa using hr⟩
      have hof : History.of (h ++ [.deed i (.call (.inr w))]) i = h.of i ++ [.call (.inr w)] := by
        simp [Happening.deed?]
      have hboth := hcall.snoc (.answer (History.jobs_mono hj) hnot hof hl (.inl hans))
      simpa using hboth

/-- The account of what happens while tasks are carried over is a history that there can be. -/
theorem Account.possible (hs : C.Serves R R') (ha : Account C R.engine.meaning h h')
    (hp : R'.Possible h') : R.Possible h := by
  -- the account grows happening by happening, and each is one that there can be
  induction ha with
  | nil => exact .nil
  | launch job ha ih =>
    refine (ih hp.of_append).snoc ?_
    exact .launch (hs.launches hp.launches)
  | interrupt i ha ih => exact (ih hp.of_append).snoc (.interrupt i)
  | @finish h h' i r ha ih =>
    refine (ih hp.of_append).snoc ?_
    have hnot : ¬ h'.Finished i → ¬ h.Finished i := fun hn => hn ∘ ha.finished_iff.mp
    cases hp.fits with
    | finish hj hn hturn hx =>
      rw [hs.program] at hx
      rw [← ha.jobs_eq] at hj
      have hdone := (ha.tracks hp.of_append hj).leads_done C.acts_ne_done C.waits_ne_done hx
      refine .finish hj (hnot hn) (ha.inTurn hp.of_append hturn fun l w hl => ?_) hdone
      exact Program.Leads.not_snoc_call (hl ▸ hdone)
    | stillborn hj hn hnil hint =>
      rw [← ha.jobs_eq] at hj
      exact .stillborn hj (hnot hn) (ha.of_eq_nil hnil) (ha.mem_interrupt_iff.mpr hint)
  | deed ha hj _ hc ih => exact ha.possible_deed hs hp (ih hp.of_append) hj hc

end Serves

end PooledSql
