import PooledSql.Proofs.Database.Course
import PooledSql.Proofs.Task.Settlement

/-!
# What a task may do to a database

A client uses a database by what it offers: it issues queries, works with connections and in
transactions, and cancels queries. Beyond that it may do as it likes, as long as it keeps off what
the database does by itself. Such programs are `Public`.

`Licensed job l e` says what may be asked for by a task with the job `job` when `l` has passed
between it and its surroundings: a scope is opened on a connection just lent out, noted about and
closed by whoever opened it, and a connection is given back by its borrower when the unit of work on
it is over (`Spent`). All programs of a database keep to that
(`Public.licensed`, `Job.Lawful.licensed`).
-/

namespace PooledSql

variable {c : Client} {α β : Type}

/-- The jobs that clients may start by themselves. -/
inductive Job.IsFree : Job c.setting → Prop
  | query (task : c.Task) (token : TokenId) : IsFree (.query (.client task) token)
  | derived (base : TaskId) (f : Reply → Except Failure Reply) (token : TokenId) :
      IsFree (.derived base f token)
  | plain (task : c.Task) : IsFree (.plain (.client task))

/-- The jobs that there are in a database. -/
inductive Job.Lawful : Job c.setting → Prop
  | free {job : Job c.setting} : job.IsFree → Lawful job
  | pooled (pool : PoolId) (source : Source) (params : Value) (token : TokenId) :
      Lawful (.query (.pooled pool source params token) token)
  | statement (k : LeaseId) (statement : Statement) (token : TokenId) :
      Lawful (.query (.scoped k statement token) token)
  | cancelRequest (k : LeaseId) : Lawful (.plain (.cancelRequest k))

/-- The jobs that run a statement under a token. -/
inductive Job.Runs (token : TokenId) : Job c.setting → Prop
  | pooled (pool : PoolId) (source : Source) (params : Value) :
      Runs token (.query (.pooled pool source params token) token)
  | statement (k : LeaseId) (statement : Statement) :
      Runs token (.query (.scoped k statement token) token)

/-- The acts that clients may do by themselves. -/
def Client.IsFreeAct (c : Client) : (c.setting.interface.sum c.requests).Act → Prop
  | .inl (.spawn job) => job.IsFree
  | .inl (.register ..) | .inl (.unregister ..) | .inl (.trip _) | .inl (.blame ..) => False
  | .inl _ => True
  | .inr (.inl _) => True
  | .inr (.inr (.inl (.scope _))) | .inr (.inr (.inl .default))
  | .inr (.inr (.inl (.setDefault _))) => True
  | .inr (.inr (.inl _)) => False
  | .inr (.inr (.inr _)) => True

/-- The waits that clients may begin by themselves. -/
def Client.IsFreeWait (c : Client) : (c.setting.interface.sum c.requests).Wait → Prop
  | .inl _ => True
  | .inr (.inl (.openPool _)) | .inr (.inl (.close _)) => True
  | .inr (.inl _) => False
  | .inr (.inr _) => True

/-- The programs that use a database by what it offers. -/
inductive Public : {α : Type} → DatabaseM c α → Prop
  | ofExcept {α : Type} (x : Except Failure α) : Public (Fiber.ofExcept x)
  | bind {α β : Type} {x : DatabaseM c α} {f : α → DatabaseM c β} :
      Public x → (∀ a, Public (f a)) → Public (x >>= f)
  | attempt {α : Type} {x : DatabaseM c α} : Public x → Public (Fiber.attempt x)
  | act (r : (c.setting.interface.sum c.requests).Act) : c.IsFreeAct r → Public (Fiber.act r)
  | await (w : (c.setting.interface.sum c.requests).Wait) : c.IsFreeWait w →
      Public (Fiber.await w)
  | submit (pool : PoolId) (source params : Value) :
      Public (DatabaseM.submit pool source params)
  | submitIn (scope : ScopeId) (source params : Value) :
      Public (Scope.submit scope source params)
  | cancel (q : Query) : Public (DatabaseM.cancel q)
  | connection {α : Type} (pool : PoolId) {work : ScopeId → DatabaseM c α} :
      (∀ scope, Public (work scope)) → Public (Scope.connection pool work)
  | transaction {α : Type} (pool : PoolId) {work : ScopeId → DatabaseM c α} :
      (∀ scope, Public (work scope)) → Public (Scope.transaction pool work)

namespace Exchange

/-- Whether an exchange is asked for without regard to what has passed before. -/
def IsPlain : Deed c → Prop
  | .act (.inl (.spawn job)) _ => job.IsFree
  | .act (.inl (.register ..)) _ | .act (.inl (.unregister ..)) _ | .act (.inl (.trip _)) _ => False
  | .act (.inl _) _ => True
  | .act (.inr (.inl _)) _ => True
  | .act (.inr (.inr (.inl (.openScope ..)))) _ | .act (.inr (.inr (.inl (.closeScope _)))) _
  | .act (.inr (.inr (.inl (.setState ..)))) _
  | .act (.inr (.inr (.inl (.noteRequest ..)))) _ => False
  | .act (.inr (.inr _)) _ => True
  | .call (.inr (.inl (.release ..))) | .call (.inr (.inl (.execute ..)))
  | .call (.inr (.inl (.cancelRunning _))) => False
  | .call _ => True
  | .answer .. => False

/-- Inquiries and entries in the log are plain. -/
theorem IsIdle.isPlain {e : Deed c} (he : e.IsIdle) : e.IsPlain := by
  rcases he.cases with ⟨r, out, rfl⟩ | ⟨entry, rfl⟩ <;> trivial

end Exchange

/-- What clients may do by themselves is plain. -/
theorem Client.IsFreeAct.isPlain {r : (c.setting.interface.sum c.requests).Act}
    (hr : c.IsFreeAct r) (out : (c.setting.interface.sum c.requests).Outcome r) :
    Exchange.IsPlain (.act r out) := by
  match r, hr with
  | .inl (.spawn job), hr => exact hr
  | .inl (.isDone _), _ | .inl .newToken, _ | .inl (.isCancelled _), _ | .inl .newSignal, _
  | .inl (.fire _), _ | .inl (.log _), _ => trivial
  | .inr (.inl _), _ => trivial
  | .inr (.inr (.inl (.scope _))), _ | .inr (.inr (.inl .default)), _
  | .inr (.inr (.inl (.setDefault _))), _ => trivial
  | .inr (.inr (.inr _)), _ => trivial

/-- What clients may wait for by themselves is plain. -/
theorem Client.IsFreeWait.isPlain {w : (c.setting.interface.sum c.requests).Wait}
    (hw : c.IsFreeWait w) : Exchange.IsPlain (.call w) := by
  match w, hw with
  | .inl _, _ => trivial
  | .inr (.inl (.openPool _)), _ | .inr (.inl (.close _)), _ => trivial
  | .inr (.inr _), _ => trivial

/-- What has passed in a unit of work of a program, from the loan of its connection until this is
given back, and the word with which it is; the program has come to the unit by the exchanges `b`. -/
inductive Spent (x : DatabaseM c α) (b : List (Deed c)) (k : LeaseId) :
    List (Deed c) → Option Failure → Prop
  | connection {β : Type} {pool : PoolId} {pid : Option Nat} {scope : ScopeId}
      {work : ScopeId → DatabaseM c β} {lw : List (Deed c)} {o : Except Failure β} :
      Fiber.Comes x b (Scope.connection pool work) → (∀ scope, Public (work scope)) →
      Fiber.Ends (work scope) lw o →
      Spent x b k (Scope.opening pool k pid none scope ++ (lw ++ [.enters (.closeScope scope) ()]))
        (DatabaseM.releaseCause o)
  | transaction {β : Type} {pool : PoolId} {pid : Option Nat} {scope : ScopeId}
      {work : ScopeId → DatabaseM c β} {lw : List (Deed c)} {o : Except Failure β} :
      Fiber.Comes x b (Scope.transaction pool work) → (∀ scope, Public (work scope)) →
      Fiber.Ends (Scope.bracket scope (work scope)) lw o →
      Spent x b k (Scope.opening pool k pid (some .notStarted) scope ++
        (lw ++ [.enters (.closeScope scope) ()])) (DatabaseM.releaseCause o)
  | pooled {pool : PoolId} {pid : Option Nat} {source : Source} {params : Value} {token : TokenId}
      {lw : List (Deed c)} {o : Except Failure Result} :
      Fiber.Comes x b (DatabaseM.runPooled pool source params token) →
      Fiber.Ends (DatabaseM.unlessCancelled (some token)
        (DatabaseM.runOn source params token k)) lw o →
      Spent x b k (DatabaseM.lending pool k pid ++ lw) (DatabaseM.releaseCause o)

/-- What a program may ask for on behalf of a job, in view of what has passed before. -/
inductive Licensed (x : DatabaseM c α) (job : Job c.setting) (l : List (Deed c)) : Deed c → Prop
  | plain {e : Deed c} : e.IsPlain → Licensed x job l e
  | openScope {b : List (Deed c)} {pool : PoolId} {k : LeaseId} {pid : Option Nat}
      {state : Option TransactionState} {scope : ScopeId} :
      l = b ++ DatabaseM.lending pool k pid → Licensed x job l (.enters (.openScope k state) scope)
  | closeScope {k : LeaseId} {state : Option TransactionState} {scope : ScopeId} :
      .enters (.openScope k state) scope ∈ l → Licensed x job l (.enters (.closeScope scope) ())
  | setState {k : LeaseId} {state : Option TransactionState} {scope : ScopeId}
      {new : TransactionState} :
      .enters (.openScope k state) scope ∈ l → Licensed x job l (.enters (.setState scope new) ())
  | release {b u lr : List (Deed c)} {k : LeaseId} {cause : Option Failure} :
      l = b ++ (u ++ lr) → Spent x b k u cause → (∀ d ∈ lr, d.IsIdle) →
      Licensed x job l (.requests (.release k cause))
  | spawnPooled {b : List (Deed c)} {pool : PoolId} {source : Source} {params : Value}
      {token : TokenId} {task : TaskId} :
      l = b ++ [.does .newToken token] →
      Licensed x job l (.does (.spawn (.query (.pooled pool source params token) token)) task)
  | spawnScoped {b : List (Deed c)} {scope : ScopeId} {k : LeaseId}
      {state : Option TransactionState} {pid : Option Nat} {statement : Statement}
      {token : TokenId} {task : TaskId} :
      l = b ++ Scope.consulting scope k state pid token →
      Licensed x job l (.does (.spawn (.query (.scoped k statement token) token)) task)
  | executeScoped {k : LeaseId} {run : RunId} {statement : Statement} {token : TokenId} :
      job = .query (.scoped k statement token) token →
      Licensed x job l (.requests (.execute k run statement))
  | executePooled {b l₁ : List (Deed c)} {k : LeaseId} {run : RunId} {statement : Statement}
      {pool : PoolId} {pid : Option Nat} {source : Source} {params : Value} {token : TokenId}
      {out : Bool} :
      job = .query (.pooled pool source params token) token →
      l = b ++ (DatabaseM.lending pool k pid ++ .does (.isCancelled token) out :: l₁) →
      Licensed x job l (.requests (.execute k run statement))
  | register {k : LeaseId} {run : RunId} {token : TokenId} :
      job.Runs token → .enters .newRun run ∈ l →
      Licensed x job l (.does (.register token (Interrupt.mk k run)) ())
  | unregister {k : LeaseId} {run : RunId} {token : TokenId} : job.Runs token →
      Licensed x job l (.does (.unregister token (Interrupt.mk k run)) ())
  | cancelRunning {k : LeaseId} : job = .plain (.cancelRequest k) →
      Licensed x job l (.requests (.cancelRunning k))
  | trip {b : List (Deed c)} {q : Query} {actions : List Interrupt} :
      Fiber.Comes x b (DatabaseM.cancel q) →
      l = b ++ [.does (.isDone q.task) false, .does (.log .cancelling) ()] →
      Licensed x job l (.does (.trip q.token) actions)
  | spawnRequest {b m : List (Deed c)} {token : TokenId} {before after : List Interrupt}
      {k : LeaseId} {run : RunId} {request : TaskId} :
      Fiber.Ends (TaskM.runActions DatabaseM.interrupt before : DatabaseM c Unit) m (.ok ()) →
      l = b ++ .does (.trip token) (before ++ Interrupt.mk k run :: after) ::
        (m ++ [.inquires (.activeRun k) (some run)]) →
      Licensed x job l (.does (.spawn (.plain (.cancelRequest k))) request)
  | noteRequest {b m : List (Deed c)} {token : TokenId} {before after : List Interrupt}
      {k : LeaseId} {run : RunId} {request : TaskId} :
      Fiber.Ends (TaskM.runActions DatabaseM.interrupt before : DatabaseM c Unit) m (.ok ()) →
      l = b ++ .does (.trip token) (before ++ Interrupt.mk k run :: after) ::
        (m ++ [.inquires (.activeRun k) (some run),
          .does (.spawn (.plain (.cancelRequest k))) request]) →
      Licensed x job l (.enters (.noteRequest run request) ())

/-- Running actions and then more is running all of them. -/
theorem TaskM.runActions_append {S : Setting} {O : Interface} (perform : S.Action → TaskM S O Unit)
    (before after : List S.Action) :
    runActions perform (before ++ after) = (do
      runActions perform before
      runActions perform after) := by
  induction before with
  | nil => exact (pure_bind () fun _ => runActions perform after).symm
  | cons a before ih => simp only [List.cons_append, runActions, ih, bind_assoc]

/-- Stopping a run begins with a look at what is under way; a request is started and noted for the
run alone, and then it is waited for. -/
theorem DatabaseM.asks_interrupt {i : Interrupt} {l : List (Deed c)} {e : Deed c}
    (h : Fiber.Asks (interrupt i : DatabaseM c Unit) l e) :
    (∃ out, l = [] ∧ e = .inquires (.activeRun i.lease) out) ∨
      (∃ request, l = [.inquires (.activeRun i.lease) (some i.run)] ∧
        e = .does (.spawn (.plain (.cancelRequest i.lease))) request) ∨
      (∃ request, l = [.inquires (.activeRun i.lease) (some i.run),
          .does (.spawn (.plain (.cancelRequest i.lease))) request] ∧
        e = .enters (.noteRequest i.run request) ()) ∨
      ∃ request, e = .call (.inl (.joinShielded request)) := by
  rcases Fiber.asks_act_bind_iff.mp h with ⟨rfl, out, rfl⟩ | ⟨out, _, rfl, hrun⟩
  · exact .inl ⟨out, rfl, rfl⟩
  refine .inr ?_
  -- it goes on only if the run is the one under way
  split at hrun
  · exact absurd hrun Fiber.not_asks_pure
  next hactive =>
    obtain rfl : out = some i.run := Classical.not_not.mp hactive
    rcases Fiber.asks_act_bind_iff.mp hrun with ⟨rfl, request, rfl⟩ | ⟨request, _, rfl, hspawn⟩
    · exact .inl ⟨request, rfl, rfl⟩
    rcases Fiber.asks_act_bind_iff.mp hspawn with ⟨rfl, u, rfl⟩ | ⟨u, _, rfl, hnote⟩
    · exact .inr (.inl ⟨request, rfl, rfl⟩)
    · obtain ⟨-, rfl⟩ := Fiber.asks_await_iff.mp (Fiber.asks_map_iff.mp hnote)
      exact .inr (.inr ⟨request, rfl⟩)

/-- A unit of work of a part of a program is one of the program. -/
theorem Spent.after {x : DatabaseM c α} {y : DatabaseM c β} {b b' u : List (Deed c)} {k : LeaseId}
    {cause : Option Failure} (h : Spent x b k u cause) (hx : Fiber.Comes y b' x) :
    Spent y (b' ++ b) k u cause := by
  cases h with
  | connection hcomes hwork hw => exact .connection (hx.trans hcomes) hwork hw
  | transaction hcomes hwork hw => exact .transaction (hx.trans hcomes) hwork hw
  | pooled hcomes hw => exact .pooled (hx.trans hcomes) hw

namespace Licensed

variable {x : DatabaseM c α} {job : Job c.setting} {l l' : List (Deed c)} {e : Deed c}

/-- What is licensed to a part of a program is licensed to the program. -/
theorem after {y : DatabaseM c β} (h : Licensed x job l e) (hx : Fiber.Comes y l' x) :
    Licensed y job (l' ++ l) e := by
  cases h with
  | plain he => exact .plain he
  | openScope hl => exact .openScope (by rw [hl, List.append_assoc])
  | closeScope hl => exact .closeScope (List.mem_append_right _ hl)
  | setState hl => exact .setState (List.mem_append_right _ hl)
  | release hl hu hr => exact .release (by rw [hl, List.append_assoc]) (hu.after hx) hr
  | spawnPooled hl => exact .spawnPooled (by rw [hl, List.append_assoc])
  | spawnScoped hl => exact .spawnScoped (by rw [hl, List.append_assoc])
  | executeScoped hjob => exact .executeScoped hjob
  | executePooled hjob hl => exact .executePooled hjob (by rw [hl, List.append_assoc])
  | register hjob hl => exact .register hjob (List.mem_append_right _ hl)
  | unregister hjob => exact .unregister hjob
  | cancelRunning hjob => exact .cancelRunning hjob
  | trip hq hl => exact .trip (hx.trans hq) (by rw [hl, List.append_assoc])
  | spawnRequest hm hl => exact .spawnRequest hm (by rw [hl, List.append_assoc])
  | noteRequest hm hl => exact .noteRequest hm (by rw [hl, List.append_assoc])

/-- Whoever is started has a lawful job. -/
theorem lawful_of_spawn {started : Job c.setting} {task : TaskId}
    (h : Licensed x job l (.does (.spawn started) task)) : started.Lawful := by
  cases h with
  | plain he => exact .free he
  | spawnRequest => exact .cancelRequest _
  | spawnPooled _ => exact .pooled ..
  | spawnScoped _ => exact .statement ..

/-- The controls of a scope are licensed to those who have opened it. -/
theorem of_controls {scope : ScopeId} {k : LeaseId} {state : Option TransactionState}
    (hopen : .enters (.openScope k state) scope ∈ l) {l' : List (Deed c)}
    (h : Scope.Controls scope l' e) : Licensed x job (l ++ l') e := by
  -- a command issues a query in the scope, a transition notes its state
  cases h with
  | command hl he =>
    rcases Scope.asks_command he with ⟨entry, rfl⟩ | he | ⟨token, rfl⟩ |
      ⟨k, state, pid, token, task, rfl, rfl⟩ | ⟨task, rfl⟩
    · exact .plain trivial
    · exact .plain he.isPlain
    · exact .plain trivial
    · exact .spawnScoped (b := l ++ _) (by rw [hl, List.append_assoc])
    · exact .plain trivial
  | transition hl he =>
    rcases Scope.asks_transition he with ⟨entry, rfl⟩ | he | rfl
    · exact .plain trivial
    · exact .plain he.isPlain
    · exact .setState (List.mem_append_left _ hopen)
  | log entry => exact .plain trivial

/-- Giving a connection back is licensed once the unit of work on it is over. -/
theorem of_giveBack {k : LeaseId} {u lr : List (Deed c)} {o : Except Failure β}
    (hu : Spent x [] k u (DatabaseM.releaseCause o))
    (h : Fiber.Asks (DatabaseM.giveBack k o) lr e) :
    Licensed x job (u ++ lr) e := by
  rcases DatabaseM.asks_giveBack h with he | ⟨rfl, pid, rfl⟩
  · exact .plain he.isPlain
  · exact .release (b := []) rfl hu DatabaseM.parting_idle

/-- Work in a scope is licensed if all that is asked for in the scope is. -/
theorem of_withScope {pool : PoolId} {state : Option TransactionState}
    {work : ScopeId → DatabaseM c α}
    (hspent : ∀ {k pid scope lw o}, Fiber.Ends (work scope) lw o →
      Spent (Scope.withScope pool state work) [] k
        (Scope.opening pool k pid state scope ++ (lw ++ [.enters (.closeScope scope) ()]))
        (DatabaseM.releaseCause o))
    (hwork : ∀ {scope l'}, Fiber.Asks (work scope) l' e → Licensed (work scope) job l' e ∨
      Scope.Controls scope l' e)
    (h : Fiber.Asks (Scope.withScope pool state work) l e) :
    Licensed (Scope.withScope pool state work) job l e := by
  -- in order: the loan, the opening of the scope, the work, the closing, and the return
  rcases Scope.asks_withScope h with ⟨-, rfl⟩ | he | ⟨k, pid, scope, rfl, rfl⟩ |
    ⟨k, pid, scope, l', rfl, he | ⟨o, lw, hw, ⟨rfl, rfl⟩ | ⟨lr, rfl, he⟩⟩⟩
  · exact .plain trivial
  · exact .plain he.isPlain
  · exact .openScope (b := []) rfl
  · rcases hwork he with he | he
    · exact he.after Scope.comes_withScope
    · have hopen : Exchange.enters (.openScope k state) scope ∈
          (Scope.opening pool k pid state scope : List (Deed c)) := by simp [Scope.opening]
      exact .of_controls hopen he
  · have hopen : Exchange.enters (.openScope k state) scope ∈
        (Scope.opening pool k pid state scope ++ l' : List (Deed c)) := by simp [Scope.opening]
    exact .closeScope hopen
  · rw [List.append_cons, ← List.append_assoc]
    exact of_giveBack (hspent hw) he

/-- Stopping runs is licensed to those who have set the token. -/
theorem of_runActions {token : TokenId} {before rest : List Interrupt} {b m : List (Deed c)}
    (hm : Fiber.Ends (TaskM.runActions DatabaseM.interrupt before : DatabaseM c Unit) m (.ok ()))
    (h : Fiber.Asks (TaskM.runActions DatabaseM.interrupt rest : DatabaseM c Unit) l e) :
    Licensed x job (b ++ .does (.trip token) (before ++ rest) :: (m ++ l)) e := by
  -- along the actions; those that have been run are put behind the ones before
  induction rest generalizing before m l with
  | nil => exact absurd h Fiber.not_asks_pure
  | cons a rest ih =>
    rcases Fiber.asks_bind_iff.mp h with h | ⟨⟨⟩, l₁, l₂, rfl, ha, h⟩
    · rcases DatabaseM.asks_interrupt h with ⟨out, -, rfl⟩ | ⟨request, rfl, rfl⟩ |
        ⟨request, rfl, rfl⟩ | ⟨request, rfl⟩
      · exact .plain trivial
      · exact .spawnRequest hm rfl
      · exact .noteRequest hm rfl
      · exact .plain trivial
    · have hnext : Fiber.Ends (TaskM.runActions DatabaseM.interrupt (before ++ [a]) :
          DatabaseM c Unit) (m ++ l₁) (.ok ()) := by
        have hone : Fiber.Ends (TaskM.runActions DatabaseM.interrupt [a] : DatabaseM c Unit) l₁
            (.ok ()) := Fiber.ends_bind_iff.mpr
          (.inr ⟨(), l₁, [], by simp, ha, Fiber.ends_pure_iff.mpr ⟨rfl, rfl⟩⟩)
        refine (TaskM.runActions_append (S := c.setting) (O := c.requests) DatabaseM.interrupt
          before [a]).symm ▸ Fiber.ends_bind_iff.mpr (.inr ⟨(), m, l₁, rfl, hm, hone⟩)
      simpa using ih hnext h

/-- Cancelling a query is licensed. -/
theorem of_cancel {q : Query} (h : Fiber.Asks (DatabaseM.cancel q : DatabaseM c Unit) l e) :
    Licensed (DatabaseM.cancel q : DatabaseM c Unit) job l e := by
  rcases Fiber.asks_act_bind_iff.mp h with ⟨-, out, rfl⟩ | ⟨out, l', rfl, hdone⟩
  · exact .plain trivial
  -- a query that has ended is not cancelled
  split at hdone
  · exact absurd hdone Fiber.not_asks_pure
  next hrunning =>
    obtain rfl : out = false := by
      cases out with
      | false => rfl
      | true => exact absurd rfl hrunning
    rcases Fiber.asks_act_bind_iff.mp hdone with ⟨-, u, rfl⟩ | ⟨u, _, rfl, hlog⟩
    · exact .plain trivial
    rcases Fiber.asks_act_bind_iff.mp hlog with ⟨rfl, actions, rfl⟩ | ⟨actions, l₂, rfl, htrip⟩
    · exact .trip (.refl _) rfl
    have hnone : Fiber.Ends (TaskM.runActions DatabaseM.interrupt ([] : List Interrupt) :
        DatabaseM c Unit) [] (.ok ()) := Fiber.ends_pure_iff.mpr ⟨rfl, rfl⟩
    exact of_runActions
      (b := [.does (.isDone q.task) false, .does (.log .cancelling) u]) hnone htrip

end Licensed

/-- What a public program asks for is licensed. -/
theorem Public.licensed {job : Job c.setting} {x : DatabaseM c α} {l : List (Deed c)} {e : Deed c}
    (hx : Public x) (h : Fiber.Asks x l e) : Licensed x job l e := by
  -- by induction on what the program is composed of
  induction hx generalizing l with
  | ofExcept x => exact absurd h Fiber.not_asks_ofExcept
  | bind _ _ ihx ihf =>
    rcases Fiber.asks_bind_iff.mp h with h | ⟨a, l₁, l₂, rfl, hx, h⟩
    · exact (ihx h).after Fiber.comes_bind
    · exact (ihf a h).after hx.comes
  | attempt _ ih => exact (ih (Fiber.asks_attempt_iff.mp h)).after Fiber.comes_attempt
  | act r hr =>
    obtain ⟨rfl, out, rfl⟩ := Fiber.asks_act_iff.mp h
    exact .plain (hr.isPlain out)
  | await w hw =>
    obtain ⟨rfl, rfl⟩ := Fiber.asks_await_iff.mp h
    exact .plain hw.isPlain
  | submit pool source params =>
    rcases Fiber.asks_bind_iff.mp h with h | ⟨source, _, _, rfl, hsource, hissue⟩
    · exact absurd h Fiber.not_asks_ofExcept
    obtain ⟨rfl, -⟩ := Fiber.ends_ofExcept_iff.mp hsource
    rcases Query.asks_issue hissue with ⟨-, token, rfl⟩ | ⟨token, task, rfl, rfl⟩
    · exact .plain trivial
    · exact .spawnPooled (b := []) rfl
  | submitIn scope source params =>
    rcases Scope.asks_submit h with ⟨entry, rfl⟩ | he | ⟨token, rfl⟩ |
      ⟨k, state, pid, statement, token, task, -, rfl, rfl⟩
    · exact .plain trivial
    · exact .plain he.isPlain
    · exact .plain trivial
    · exact .spawnScoped (b := []) rfl
  | cancel q => exact .of_cancel h
  | connection pool hw ih =>
    exact .of_withScope (.connection (.refl _) hw) (fun {scope l'} he => .inl (ih scope he)) h
  | @transaction α pool work hw ih =>
    have hspent : ∀ {k pid scope lw} {o : Except Failure α},
        Fiber.Ends (Scope.bracket scope (work scope)) lw o →
        Spent (Scope.transaction pool work) [] k
          (Scope.opening pool k pid (some .notStarted) scope ++
          (lw ++ [.enters (.closeScope scope) ()])) (DatabaseM.releaseCause o) :=
      .transaction (.refl _) hw
    rw [Scope.transaction_eq] at h hspent ⊢
    refine .of_withScope hspent (fun {scope l'} he => ?_) h
    rcases Scope.asks_bracket he with he | ⟨lb, lw, rfl, hb, he⟩
    · exact .inr he
    · exact .inl ((ih scope he).after (Scope.comes_bracket hb))

/-- What concerns the failure of a token is plain. -/
theorem Exchange.isPlain_of_settles {token : TokenId} {e : Deed c} (h : TaskM.Settles token e) :
    e.IsPlain := by
  rcases h with ⟨out, rfl⟩ | ⟨f, rfl⟩ <;> trivial

namespace DatabaseM

variable {k : LeaseId} {statement : Statement} {token : TokenId} {site : Option CallSite}
  {l : List (Deed c)} {e : Deed c}

/-- Reporting an outcome asks about the token only. -/
theorem asks_report {outcome : Except Failure Result}
    (h : Fiber.Asks (report statement token site outcome : DatabaseM c Result) l e) :
    TaskM.Settles token e := by
  cases outcome with
  | ok result => exact absurd h Fiber.not_asks_pure
  | error f =>
    unfold report at h
    dsimp only at h
    -- only a failure of the driver is looked into
    split at h
    · exact absurd h Fiber.not_asks_throw
    rcases Fiber.asks_act_bind_iff.mp h with ⟨-, out, rfl⟩ | ⟨out, _, -, hout⟩
    · exact .inl ⟨out, rfl⟩
    split at hout
    · rcases Fiber.asks_bind_iff.mp hout with hb | ⟨a, _, _, -, -, ht⟩
      · exact TaskM.asks_raiseCancelledFor hb
      · exact absurd ht Fiber.not_asks_throw
    · exact absurd hout Fiber.not_asks_throw

/-- What passes before a statement is run: its token is not set, and the run is registered. -/
def preparing (k : LeaseId) (run : RunId) (statement : Statement) (token : TokenId) :
    List (Deed c) :=
  [.does (.isCancelled token) false, .enters .newRun run,
    .does (.register token (Interrupt.mk k run)) (),
    .does (.log (.executing statement.sql statement.params.length)) ()]

/-- Running a statement. -/
def running (k : LeaseId) (run : RunId) (statement : Statement) (ans : Except Failure Result) :
    List (Deed c) :=
  [.requests (.execute k run statement), .served (.execute k run statement) ans]

/-- Running a statement on a lease is plain, but for the registration of the run, which is taken
back afterwards, and the request itself. -/
theorem asks_execute
    (h : Fiber.Asks (execute k statement token site : DatabaseM c Result) l e) :
    e.IsPlain ∨
      (∃ run, .enters .newRun run ∈ l ∧ e = .does (.register token (Interrupt.mk k run)) ()) ∨
      (∃ run, e = .does (.unregister token (Interrupt.mk k run)) ()) ∨
      ∃ run, l = preparing k run statement token ∧ e = .requests (.execute k run statement) := by
  rcases Fiber.asks_bind_iff.mp h with hr | ⟨⟨⟩, l₁, _, rfl, hunset, hr⟩
  · exact .inl (Exchange.isPlain_of_settles (TaskM.asks_raiseIfCancelled hr))
  obtain rfl := TaskM.unset_of_raiseIfCancelled hunset
  -- in order: the run, its registration, the entry in the log, and the request itself
  rcases Fiber.asks_act_bind_iff.mp hr with ⟨-, run, rfl⟩ | ⟨run, _, rfl, hrun⟩
  · exact .inl trivial
  rcases Fiber.asks_act_bind_iff.mp hrun with ⟨-, out, rfl⟩ | ⟨out, _, rfl, hregister⟩
  · exact .inr (.inl ⟨run, by simp, rfl⟩)
  rcases Fiber.asks_act_bind_iff.mp hregister with ⟨-, out, rfl⟩ | ⟨out, _, rfl, hlog⟩
  · exact .inl trivial
  rcases Fiber.asks_attempt_bind_iff.mp hlog with hw | ⟨o, _, _, rfl, -, ho⟩
  · obtain ⟨rfl, rfl⟩ := Fiber.asks_await_iff.mp hw
    exact .inr (.inr (.inr ⟨run, rfl, rfl⟩))
  -- then the report, and taking the registration back
  rcases Fiber.asks_attempt_bind_iff.mp ho with hp | ⟨o', _, _, rfl, -, ho'⟩
  · exact .inl (Exchange.isPlain_of_settles (asks_report hp))
  rcases Fiber.asks_act_bind_iff.mp ho' with ⟨-, out, rfl⟩ | ⟨out, _, rfl, hun⟩
  · exact .inr (.inr (.inl ⟨run, rfl⟩))
  refine .inl ?_
  rcases Fiber.asks_act_bind_iff.mp hun with ⟨-, request, rfl⟩ | ⟨request, _, rfl, hrequest⟩
  · trivial
  -- at the end there is nothing but a look at the token
  have hend : ∀ {l : List (Deed c)}, Fiber.Asks (do
      let result ← Fiber.ofExcept o'
      TaskM.raiseIfCancelled token
      return result : DatabaseM c Result) l e → e.IsPlain := by
    intro l h
    rcases Fiber.asks_bind_iff.mp h with h | ⟨result, _, _, -, -, h⟩
    · exact absurd h Fiber.not_asks_ofExcept
    rcases Fiber.asks_bind_iff.mp h with h | ⟨⟨⟩, _, _, -, -, h⟩
    · exact Exchange.isPlain_of_settles (TaskM.asks_raiseIfCancelled h)
    · exact absurd h Fiber.not_asks_pure
  match request, hrequest with
  | none, hrequest => exact hend hrequest
  | some request, hrequest =>
    rcases Fiber.asks_bind_iff.mp hrequest with hj | ⟨⟨⟩, _, _, -, -, h⟩
    · obtain ⟨-, rfl⟩ := Fiber.asks_await_iff.mp (Fiber.asks_map_iff.mp hj)
      trivial
    · exact hend h

/-- The work of a query on a pool is plain, but for the registration of the run, which is taken back
afterwards, and the request itself. -/
theorem asks_runOn {source : Source} {params : Value}
    (h : Fiber.Asks
      (unlessCancelled (some token) (runOn source params token k) : DatabaseM c Result)
      l e) :
    e.IsPlain ∨
      (∃ run, .enters .newRun run ∈ l ∧ e = .does (.register token (Interrupt.mk k run)) ()) ∨
      (∃ run, e = .does (.unregister token (Interrupt.mk k run)) ()) ∨
      ∃ run statement pid, source.statement params (.connection pid) = .ok statement ∧
        l = .does (.isCancelled token) false :: .inquires (.pid k) pid ::
          preparing k run statement token ∧
        e = .requests (.execute k run statement) := by
  rcases Fiber.asks_bind_iff.mp h with hr | ⟨⟨⟩, l₁, _, rfl, hr, hwork⟩
  · exact .inl (Exchange.isPlain_of_settles (TaskM.asks_raiseIfCancelled hr))
  obtain rfl := TaskM.unset_of_raiseIfCancelled hr
  -- the statement is put together with an inquiry, and then run
  rcases Fiber.asks_act_bind_iff.mp hwork with ⟨-, pid', rfl⟩ | ⟨pid', _, rfl, hpid⟩
  · exact .inl trivial
  rcases Fiber.asks_bind_iff.mp hpid with hs | ⟨statement, l₂, l₃, rfl, hs, hexecute⟩
  · exact absurd hs Fiber.not_asks_ofExcept
  obtain ⟨rfl, hbuilt⟩ := Fiber.ends_ofExcept_iff.mp hs
  rcases asks_execute hexecute with he | ⟨run, hrun, rfl⟩ | he | ⟨run, rfl, rfl⟩
  · exact .inl he
  · exact .inr (.inl ⟨run, by simp [hrun], rfl⟩)
  · exact .inr (.inr (.inl he))
  · exact .inr (.inr (.inr ⟨run, statement, pid', hbuilt.symm, rfl, rfl⟩))

/-- A statement that runs on a connection of a pool. -/
theorem asks_runPooled {pool : PoolId} {source : Source} {params : Value}
    (h : Fiber.Asks (runPooled pool source params token : DatabaseM c Result) l e) :
    Licensed (runPooled pool source params token) (.query (.pooled pool source params token) token)
      l e := by
  rw [runPooled_eq] at h
  rcases asks_withConnection h with
    ⟨-, rfl⟩ | he | ⟨k, pid, l', rfl, he | ⟨o, lw, lr, rfl, hw, he⟩⟩
  · exact .plain trivial
  · exact .plain he.isPlain
  · rcases asks_runOn he with he | ⟨run, hrun, rfl⟩ | ⟨run, rfl⟩ |
      ⟨run, statement, pid', -, rfl, rfl⟩
    · exact .plain he
    · exact .register (.pooled ..) (by simp [hrun])
    · exact .unregister (.pooled ..)
    · exact .executePooled (b := []) rfl rfl
  · rw [← List.append_assoc]
    exact .of_giveBack (.pooled (.refl _) hw) he

/-- A request to the server to stop a run is plain, but for the request itself. -/
theorem asks_cancelRequest (h : Fiber.Asks (cancelRequest k : DatabaseM c Unit) l e) :
    e.IsPlain ∨ e = .requests (.cancelRunning k) := by
  rcases Fiber.asks_act_bind_iff.mp h with ⟨-, pid, rfl⟩ | ⟨pid, _, rfl, hpid⟩
  · exact .inl trivial
  rcases Fiber.asks_act_bind_iff.mp hpid with ⟨-, out, rfl⟩ | ⟨out, _, rfl, hlog⟩
  · exact .inl trivial
  rcases Fiber.asks_attempt_bind_iff.mp hlog with hw | ⟨o, _, _, rfl, -, ho⟩
  · exact .inr (Fiber.asks_await_iff.mp hw).2
  refine .inl ?_
  -- a failure of the driver is logged, and any other is passed on
  cases o with
  | ok u => exact absurd ho Fiber.not_asks_pure
  | error f =>
    dsimp only at ho
    split at ho
    · obtain ⟨-, out, rfl⟩ := Fiber.asks_act_iff.mp ho
      trivial
    · exact absurd ho Fiber.not_asks_throw

end DatabaseM

/-- What the program of a job asks for is licensed, if the programs of the client are public. -/
theorem Job.Lawful.licensed {client : c.Task → DatabaseM c Reply}
    (hclient : ∀ task, Public (client task)) {job : Job c.setting} {l : List (Deed c)} {e : Deed c}
    (hjob : job.Lawful) (h : Fiber.Asks (job.program (Work.meaning client)) l e) :
    Licensed (job.program (Work.meaning client)) job l e := by
  -- by whose job it is: the client's, a query's or a request's; around the work of a query there
  -- are looks at the token
  cases hjob with
  | free hjob =>
    cases hjob with
    | query task token =>
      rcases TaskM.asks_settle h with h | h
      · exact ((hclient task).licensed h).after TaskM.comes_settle
      · exact .plain (Exchange.isPlain_of_settles h)
    | derived base f token =>
      rcases TaskM.asks_settle h with h | h
      · rcases Fiber.asks_await_bind_iff.mp h with ⟨-, rfl⟩ | ⟨_, _, -, hf⟩
        · exact .plain trivial
        · exact absurd hf Fiber.not_asks_ofExcept
      · exact .plain (Exchange.isPlain_of_settles h)
    | plain task => exact (hclient task).licensed h
  | pooled pool source params token =>
    rcases TaskM.asks_settle h with h | h
    · exact ((DatabaseM.asks_runPooled (Fiber.asks_map_iff.mp h)).after Fiber.comes_map).after
        TaskM.comes_settle
    · exact .plain (Exchange.isPlain_of_settles h)
  | statement k statement token =>
    rcases TaskM.asks_settle h with h | h
    · rcases DatabaseM.asks_execute (Fiber.asks_map_iff.mp h) with
        he | ⟨run, hrun, rfl⟩ | ⟨run, rfl⟩ | ⟨run, -, rfl⟩
      · exact .plain he
      · exact .register (.statement ..) hrun
      · exact .unregister (.statement ..)
      · exact .executeScoped rfl
    · exact .plain (Exchange.isPlain_of_settles h)
  | cancelRequest k =>
    rcases Fiber.asks_bind_iff.mp h with h | ⟨⟨⟩, _, _, -, -, h⟩
    · rcases DatabaseM.asks_cancelRequest h with he | rfl
      · exact .plain he
      · exact .cancelRunning rfl
    · exact absurd h Fiber.not_asks_pure

/-- What is at neither end of a list is in the middle of it. -/
theorem exists_middle {x : α} {p m q u₁ u₂ : List α} (hp : x ∉ p) (hq : x ∉ q)
    (h : p ++ (m ++ q) = u₁ ++ x :: u₂) : ∃ l₁ l₂, m = l₁ ++ x :: l₂ ∧ u₁ = p ++ l₁ := by
  -- it lies behind the front part, and in front of the last one
  rcases List.append_eq_append_iff.mp h with ⟨l₁, rfl, hm⟩ | ⟨l₁, rfl, hl₁⟩
  · rcases List.append_eq_append_iff.mp hm with ⟨l₂, rfl, hl₂⟩ | ⟨l₂, rfl, hl₂⟩
    · simp [hl₂] at hq
    · cases l₂ with
      | nil =>
        rw [List.nil_append] at hl₂
        simp [← hl₂] at hq
      | cons y l₂ =>
        obtain ⟨rfl, -⟩ := List.cons.inj hl₂
        exact ⟨l₁, l₂, rfl, rfl⟩
  · cases l₁ with
    | nil =>
      cases m with
      | nil => simp [← show x :: u₂ = q by simpa using hl₁] at hq
      | cons y m =>
        obtain ⟨rfl, -⟩ := List.cons.inj hl₁
        exact ⟨[], m, rfl, by simp⟩
    | cons y l₁ =>
      obtain ⟨rfl, -⟩ := List.cons.inj hl₁
      simp at hp

namespace Spent

variable {x : DatabaseM c α} {k k' : LeaseId} {b u : List (Deed c)} {cause cause' : Option Failure}

/-- A unit of work begins with the loan of its connection. -/
theorem lending (hu : Spent x b k u cause) :
    ∃ pool pid u', u = DatabaseM.lending pool k pid ++ u' := by
  cases hu with
  | connection => exact ⟨_, _, _, List.append_assoc ..⟩
  | transaction => exact ⟨_, _, _, List.append_assoc ..⟩
  | pooled => exact ⟨_, _, _, rfl⟩

end Spent

/-- A public program gives back only what it has been lent. -/
theorem Public.lending_of_release {work : DatabaseM c α} {l : List (Deed c)} {k : LeaseId}
    {cause : Option Failure} (hwork : Public work)
    (h : Fiber.Asks work l (.requests (.release k cause))) :
    ∃ b pool pid v, l = b ++ (DatabaseM.lending pool k pid ++ v) := by
  have hl : Licensed work (.plain (.cancelRequest k)) l (.requests (.release k cause)) :=
    hwork.licensed h
  cases hl with
  | plain he => exact he.elim
  | @release b u lr _ _ hl hu _ =>
    obtain ⟨pool, pid, v, rfl⟩ := hu.lending
    exact ⟨b, pool, pid, v ++ lr, by rw [hl, List.append_assoc]⟩

namespace Spent

variable {x : DatabaseM c α} {k k' : LeaseId} {b u : List (Deed c)} {cause cause' : Option Failure}

/-- A unit of work does not give its connection back on the way: what it gives back, it has been
lent later. -/
theorem lending_of_release {u₁ u₂ : List (Deed c)} (hu : Spent x b k u cause)
    (h : u = u₁ ++ .requests (.release k' cause') :: u₂) :
    ∃ d b pool pid v, u₁ = d :: (b ++ (DatabaseM.lending pool k' pid ++ v)) := by
  -- neither lending nor opening gives anything back
  have hlending : ∀ {pool pid}, .requests (.release k' cause') ∉
      (DatabaseM.lending pool k pid : List (Deed c)) := by
    intro pool pid hmem
    simp only [DatabaseM.lending, List.mem_cons, List.not_mem_nil, or_false] at hmem
    rcases hmem with he | he | he | he <;> cases he
  have hopening : ∀ {pool pid state scope}, .requests (.release k' cause') ∉
      (Scope.opening pool k pid state scope : List (Deed c)) := by
    intro pool pid state scope hmem
    rcases List.mem_append.mp hmem with hmem | hmem
    · exact hlending hmem
    · cases List.mem_singleton.mp hmem
  -- so it is given back by the work
  cases hu with
  | @connection _ pool pid scope _ lw _ _ hwork hw =>
    obtain ⟨l₁, l₂, rfl, rfl⟩ := exists_middle hopening (by simp) h
    obtain ⟨b, pool', pid', v, rfl⟩ := (hwork _).lending_of_release (hw.asks id)
    exact ⟨_, _, pool', pid', v, by rw [← List.append_assoc]; rfl⟩
  | @transaction _ pool pid scope _ lw _ _ hwork hw =>
    obtain ⟨l₁, l₂, rfl, rfl⟩ := exists_middle hopening (by simp) h
    rcases Scope.asks_bracket (hw.asks id) with he | ⟨lb, lw, rfl, -, he⟩
    · exact (he.not_requests rfl).elim
    · obtain ⟨b, pool', pid', v, rfl⟩ := (hwork _).lending_of_release he
      exact ⟨_, _, pool', pid', v, by rw [← List.append_assoc, ← List.append_assoc]; rfl⟩
  | @pooled pool pid _ _ token lw o _ hw =>
    rw [← List.append_nil lw] at h
    obtain ⟨l₁, l₂, rfl, rfl⟩ := exists_middle hlending (by simp) h
    rcases DatabaseM.asks_runOn (hw.asks id) with he | ⟨_, -, he⟩ | ⟨_, he⟩ | ⟨_, _, _, -, -, he⟩
    · exact he.elim
    · cases he
    · cases he
    · cases he

end Spent

end PooledSql
