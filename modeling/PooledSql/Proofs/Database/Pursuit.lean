import Mathlib.Data.List.Basic
import PooledSql.Proofs.Database.Registration

/-!
# Pursuing runs

What passes when a query is cancelled while its statement is being run: its token is set, the run is
found to be under way, a request to stop it is started and noted, and the request is waited for. The
query looks for such a request when its statement is over, and waits for it before it gives its
connection back.

* `DatabaseM.pursuing`: what passes from the look at a run to the wait for the request to stop it.
* `Query.stopping`: what passes when a query is cancelled while its statement is being run.
* `DatabaseM.awaited_of_asks_release`: a query that gives its connection back has waited for the
  request.
-/

namespace PooledSql

variable {c : Client} {D : Surroundings c} {g g' : History c.setting c.requests} {i r : TaskId}
  {k : LeaseId} {run : RunId} {statement : Statement} {token : TokenId}

/-- What passes when somebody calls for the cancellation of a query that is not over, before its
token is set. -/
def Query.calling (q : Query) : List (Deed c) :=
  [.does (.isDone q.task) false, .does (.log .cancelling) ()]

/-- What passes when a run that is under way is to be stopped, until the request to stop it is
waited for. -/
def DatabaseM.pursuing (k : LeaseId) (run : RunId) (request : TaskId) : List (Deed c) :=
  [.inquires (.activeRun k) (some run), .does (.spawn (.plain (.cancelRequest k))) request,
    .enters (.noteRequest run request) (), .call (.inl (.joinShielded request))]

/-- What passes when somebody cancels a query while a run of it is under way, until the request to
stop the run is waited for. -/
def Query.stopping (q : Query) (k : LeaseId) (run : RunId) (request : TaskId) : List (Deed c) :=
  q.cancelling [Interrupt.mk k run] ++ DatabaseM.pursuing k run request

/-- What passes when somebody cancels a query and finds that a run of it is under way. -/
def Query.finding (q : Query) (k : LeaseId) (run : RunId) : List (Deed c) :=
  q.cancelling [Interrupt.mk k run] ++ [.inquires (.activeRun k) (some run)]

namespace Query

variable {q : Query} {actions actions' : List Interrupt}

/-- Whoever cancels a query calls for that and then sets its token. -/
theorem append_cancelling : g ++ ((q.cancelling actions).map (.deed i) ++ g') =
    (g ++ q.calling.map (.deed i)) ++ .deed i (.does (.trip q.token) actions) :: g' := by
  rw [List.append_assoc]
  rfl

/-- Whoever stops the run of a query calls for its cancellation, sets its token and pursues the
run. -/
theorem append_stopping : g ++ ((q.stopping k run r).map (.deed i) ++ g') =
    (g ++ q.calling.map (.deed i)) ++ .deed i (.does (.trip q.token) [Interrupt.mk k run]) ::
      ((DatabaseM.pursuing k run r).map (.deed i) ++ g') := by
  rw [List.append_assoc]
  rfl

/-- Whoever stops the run of a query starts the request when the run has been found. -/
theorem append_stopping_spawn : g ++ ((q.stopping k run r).map (.deed i) ++ g') =
    (g ++ (q.finding k run).map (.deed i)) ++
      .deed i (.does (.spawn (.plain (.cancelRequest k))) r) ::
      (.deed i (.enters (.noteRequest run r) ()) ::
        .deed i (.call (.inl (.joinShielded r))) :: g') := by
  rw [List.append_assoc]
  rfl

/-- Whoever stops the run of a query notes the request that has been started. -/
theorem append_stopping_note : g ++ ((q.stopping k run r).map (.deed i) ++ g') =
    (g ++ (q.finding k run ++ [.does (.spawn (.plain (.cancelRequest k))) r] : List (Deed c)).map
      (.deed i)) ++ .deed i (.enters (.noteRequest run r) ()) ::
        (.deed i (.call (.inl (.joinShielded r))) :: g') := by
  rw [List.append_assoc]
  rfl

/-- The actions of a token are known by what passes when it is set. -/
theorem cancelling_append_inj {l l' : List (Deed c)}
    (h : q.cancelling actions ++ l = q.cancelling actions' ++ l') :
    actions = actions' ∧ l = l' := by
  simp only [cancelling, List.cons_append, List.nil_append, List.cons.injEq] at h
  obtain ⟨-, -, h, rfl⟩ := h
  cases h
  exact ⟨rfl, rfl⟩

end Query

namespace DatabaseM

variable {l : List (Deed c)}

/-- Stopping a run starts a request if the run is under way, and notes it and waits for it. -/
theorem ends_interrupt {b : Interrupt} {u : Except Failure Unit}
    (h : Fiber.Ends (interrupt b : DatabaseM c Unit) l u) :
    ∃ out v, l = .inquires (.activeRun b.lease) out :: v ∧
      (out = some b.run → ∃ request v', l = pursuing b.lease b.run request ++ v') := by
  obtain ⟨out, v, rfl, hrun⟩ := Fiber.ends_act_bind_iff.mp h
  refine ⟨out, v, rfl, ?_⟩
  rintro rfl
  -- nothing is done unless the run that is under way is the one to be stopped
  split at hrun
  next hne => exact absurd rfl hne
  next =>
    obtain ⟨request, _, rfl, hnote⟩ := Fiber.ends_act_bind_iff.mp hrun
    obtain ⟨⟨⟩, _, rfl, hjoin⟩ := Fiber.ends_act_bind_iff.mp hnote
    obtain ⟨ans, hans, -⟩ := Fiber.ends_map_iff.mp hjoin
    obtain rfl := Fiber.ends_await_iff.mp hans
    exact ⟨request, _, rfl⟩

/-- Stopping a run waits for nothing but for the request. -/
theorem asks_interrupt_call {b : Interrupt} {w : (c.setting.interface.sum c.requests).Wait}
    (h : Fiber.Asks (interrupt b : DatabaseM c Unit) l (.call w)) :
    ∃ request, l ++ [.call w] = pursuing b.lease b.run request := by
  rcases Fiber.asks_act_bind_iff.mp h with ⟨-, out, he⟩ | ⟨out, _, rfl, hrun⟩
  · cases he
  split at hrun
  · exact absurd hrun Fiber.not_asks_pure
  next hactive =>
    -- a request is started only for the run that is under way
    obtain rfl : out = some b.run := Classical.not_not.mp hactive
    rcases Fiber.asks_act_bind_iff.mp hrun with ⟨-, request, he⟩ | ⟨request, _, rfl, hspawn⟩
    · cases he
    rcases Fiber.asks_act_bind_iff.mp hspawn with ⟨-, u, he⟩ | ⟨u, _, rfl, hnote⟩
    · cases he
    obtain ⟨rfl, he⟩ := Fiber.asks_await_iff.mp (Fiber.asks_map_iff.mp hnote)
    cases he
    exact ⟨request, rfl⟩

/-- Whoever has set the token of a query runs its actions. -/
theorem ends_cancel {q : Query} {u : Except Failure Unit}
    (h : Fiber.Ends (cancel q : DatabaseM c Unit) l u) :
    l = [.does (.isDone q.task) true] ∨ ∃ actions l', l = q.cancelling actions ++ l' ∧
      Fiber.Ends (TaskM.runActions interrupt actions : DatabaseM c Unit) l' u := by
  obtain ⟨out, l', rfl, hdone⟩ := Fiber.ends_act_bind_iff.mp h
  cases out with
  | true =>
    obtain ⟨rfl, -⟩ := Fiber.ends_pure_iff.mp hdone
    exact .inl rfl
  | false =>
    obtain ⟨⟨⟩, _, rfl, hlog⟩ := Fiber.ends_act_bind_iff.mp hdone
    obtain ⟨actions, l', rfl, htrip⟩ := Fiber.ends_act_bind_iff.mp hlog
    exact .inr ⟨actions, l', rfl, htrip⟩

/-- Whoever cancels a query waits for what its actions wait for. -/
theorem asks_cancel_call {q : Query} {w : (c.setting.interface.sum c.requests).Wait}
    (h : Fiber.Asks (cancel q : DatabaseM c Unit) l (.call w)) :
    ∃ actions l', l = q.cancelling actions ++ l' ∧
      Fiber.Asks (TaskM.runActions interrupt actions : DatabaseM c Unit) l' (.call w) := by
  rcases Fiber.asks_act_bind_iff.mp h with ⟨-, out, he⟩ | ⟨out, _, rfl, hdone⟩
  · cases he
  cases out with
  | true => exact absurd hdone Fiber.not_asks_pure
  | false =>
    rcases Fiber.asks_act_bind_iff.mp hdone with ⟨-, u, he⟩ | ⟨⟨⟩, _, rfl, hlog⟩
    · cases he
    rcases Fiber.asks_act_bind_iff.mp hlog with ⟨-, actions, he⟩ | ⟨actions, l', rfl, htrip⟩
    · cases he
    · exact ⟨actions, l', rfl, htrip⟩

/-- What follows when a token with one run to stop has been set, as far as it has got. -/
theorem pursued_of_runActions {b : Interrupt} {l l₁ l₂ : List (Deed c)} (hl : l = l₁ ++ l₂)
    (h : (∃ u, Fiber.Ends (TaskM.runActions interrupt [b] : DatabaseM c Unit) l₁ u) ∨
      ∃ w l₀, l₁ = l₀ ++ [.call w] ∧
        Fiber.Asks (TaskM.runActions interrupt [b] : DatabaseM c Unit) l₀ (.call w)) :
    ∃ out v, l = .inquires (.activeRun b.lease) out :: v ∧
      (out = some b.run → ∃ request v', l = pursuing b.lease b.run request ++ v') := by
  -- the token has one action, which has been run or is being run
  rcases h with ⟨u, hends⟩ | ⟨w, l₀, rfl, hasks⟩
  · obtain ⟨l₃, l₄, u', rfl, hinterrupt⟩ : ∃ l₃ l₄ u', l₁ = l₃ ++ l₄ ∧
        Fiber.Ends (interrupt b : DatabaseM c Unit) l₃ u' := by
      rcases Fiber.ends_bind_iff.mp hends with ⟨f, hf, -⟩ | ⟨⟨⟩, l₃, l₄, hl', hl₃, -⟩
      · exact ⟨l₁, [], _, (List.append_nil l₁).symm, hf⟩
      · exact ⟨l₃, l₄, _, hl', hl₃⟩
    obtain ⟨out, v, hv, hstarted⟩ := ends_interrupt hinterrupt
    refine ⟨out, v ++ (l₄ ++ l₂), by simp [hl, hv], fun hout => ?_⟩
    obtain ⟨request, v', hv'⟩ := hstarted hout
    exact ⟨request, v' ++ (l₄ ++ l₂), by simp [hl, hv']⟩
  · rcases Fiber.asks_bind_iff.mp hasks with hinterrupt | ⟨⟨⟩, _, _, -, -, hnone⟩
    · obtain ⟨request, hrequest⟩ := asks_interrupt_call hinterrupt
      rw [hrequest] at hl
      exact ⟨some b.run, _, hl, fun _ => ⟨request, l₂, hl⟩⟩
    · exact absurd hnone Fiber.not_asks_pure

/-- What has been waited for among some exchanges has been among more. -/
theorem Awaited.mono {l' : List (Deed c)} (h : Awaited run l) (hl : l ⊆ l') : Awaited run l' := by
  obtain ⟨lw, u, hw, hsub⟩ := h
  exact ⟨lw, u, hw, List.Subset.trans hsub hl⟩

/-- The request to stop a run has been waited for when the statement has been run. -/
theorem Executes.awaited {statement' : Statement} {site : Option CallSite}
    {o : Except Failure Result}
    (h : Executes k statement token site l o) (hrun : .requests (.execute k' run statement') ∈ l) :
    Awaited run l := by
  rcases h.cases with ⟨rfl, -⟩ | ⟨run', ans, after, rfl, hidle, hawaited, -⟩
  · simp at hrun
  obtain rfl : run = run' := by
    simp only [preparing, running, List.mem_append, List.mem_cons, List.not_mem_nil, or_false,
      reduceCtorEq, false_or] at hrun
    rcases hrun with he | hafter
    · cases he
      rfl
    · cases hidle _ hafter
  exact hawaited.mono fun e he => List.mem_append_right _ (List.mem_append_right _ he)

/-- The request to stop a run has been waited for when the connection is to be given back. -/
theorem OnLease.awaited {source : Source} {params : Value} {o : Except Failure Result}
    (h : OnLease source params token k l o) (hrun : .requests (.execute k' run statement) ∈ l) :
    Awaited run l := by
  cases h with
  | refused => simp at hrun
  | unbuilt _ => simp at hrun
  | run _ he =>
    refine (he.awaited (by simpa using hrun)).mono fun e he => ?_
    exact List.mem_cons_of_mem _ (List.mem_cons_of_mem _ he)

/-- The request to stop a run has been waited for when the query on a pool is over. -/
theorem Pooled.awaited {pool : PoolId} {source : Source} {params : Value}
    {o : Except Failure Result}
    (h : Pooled pool source params token l o) (hrun : .requests (.execute k run statement) ∈ l) :
    Awaited run l := by
  cases h with
  | unserved =>
    rcases List.mem_pair.mp hrun with he | he <;> cases he
  | @served k' pid pid' lw after o' ans hw hafter =>
    -- a statement is run in the work, not while the connection is lent or given back
    have hmem : .requests (.execute k run statement) ∈ lw := by
      simp only [lending, List.mem_append, List.mem_cons, List.not_mem_nil, or_false, reduceCtorEq,
        false_or] at hrun
      rcases hrun with he | hmem | hparting | he | hidle
      · cases he
      · exact hmem
      · exact absurd (parting_idle _ hparting) id
      · cases he
      · exact absurd (hafter _ hidle) id
    exact (hw.awaited hmem).mono fun e he => List.mem_append_right _ (List.mem_append_left _ he)

/-- The request to stop a run has been waited for when the query is over. -/
theorem awaited_of_ends {job : Job c.setting} (hruns : job.Runs token) {o : Except Failure Reply}
    (h : Fiber.Ends (job.program (Work.meaning D.client)) l o)
    (hrun : .requests (.execute k run statement) ∈ l) : Awaited run l := by
  -- what settles the task runs no statement
  have hwork : ∀ {lw lz : List (Deed c)} {o o' : Except Failure Reply}, l = lw ++ lz →
      TaskM.Settling token o lz o' → .requests (.execute k run statement) ∈ lw := by
    rintro lw lz o o' rfl hz
    rcases List.mem_append.mp hrun with hmem | hmem
    · exact hmem
    · cases Exchange.lease?_of_settles (hz.settles _ hmem)
  cases hruns with
  | pooled pool source params =>
    obtain ⟨o', lw, lz, hl, hw, hz, -⟩ := TaskM.ends_settle h
    obtain ⟨o'', hrunPooled, rfl⟩ := Fiber.ends_map_iff.mp hw
    rw [hl]
    exact ((ends_runPooled hrunPooled).awaited (hwork hl hz)).mono (List.subset_append_left ..)
  | statement k' statement' =>
    obtain ⟨o', lw, lz, hl, hw, hz, -⟩ := TaskM.ends_settle h
    obtain ⟨o'', hexecute, rfl⟩ := Fiber.ends_map_iff.mp hw
    rw [hl]
    exact ((ends_execute hexecute).awaited (hwork hl hz)).mono (List.subset_append_left ..)

/-- The request to stop a run has been waited for when a query gives its connection back. -/
theorem awaited_of_asks_release {job : Job c.setting} (hruns : job.Runs token)
    {cause : Option Failure}
    (h : Fiber.Asks (job.program (Work.meaning D.client)) l (.requests (.release k' cause)))
    (hrun : .requests (.execute k run statement) ∈ l) : Awaited run l := by
  cases hruns with
  | pooled pool source params =>
    rcases asks_pooled D.client h with
      ⟨he, -⟩ | ⟨k'', pid, pid', statement', le, -, -, he⟩ | ⟨k'', pid, lw, o, pid', rfl, hw, -⟩
    · cases he
    · rcases asks_execute_call he with ⟨run', -, he⟩ | ⟨run', ans, lr, o, request, -, -, he⟩
      · cases he
      · cases he
    · -- the statement has been run in the work, which has ended
      have hmem : .requests (.execute k run statement) ∈ lw := by
        simp only [lending, List.mem_append, List.mem_cons, List.not_mem_nil, or_false,
          reduceCtorEq] at hrun
        rcases hrun with he | hmem | hparting
        · cases he
        · exact hmem
        · exact absurd (parting_idle _ hparting) id
      exact (hw.awaited hmem).mono fun e he => List.mem_append_right _ (List.mem_append_left _ he)
  | statement k'' statement' =>
    have h := Fiber.asks_map_iff.mp (TaskM.asks_settle_call h)
    rcases asks_execute_call h with ⟨run', -, he⟩ | ⟨run', ans, lr, o, request, -, -, he⟩
    · cases he
    · cases he

/-- What passes before a query runs its statement: the run is named, no other statement is run, and
no request is asked for. -/
theorem before_of_asks_execute {job : Job c.setting} (hruns : job.Runs token)
    (h : Fiber.Asks (job.program (Work.meaning D.client)) l
      (.requests (.execute k run statement))) :
    .enters .newRun run ∈ l ∧ (∀ k' run' statement', .requests (.execute k' run' statement') ∉ l) ∧
      ∀ run' out, .enters (.request run') out ∉ l := by
  -- by the kind of query: what has passed until then is known exchange by exchange
  cases hruns with
  | pooled pool source params =>
    obtain ⟨pid, pid', -, rfl⟩ := asks_pooled_execute D.client h
    refine ⟨by simp [preparing], fun k' run' statement' hmem => ?_, fun run' out hmem => ?_⟩
    · simp only [lending, preparing, List.mem_append, List.mem_cons, List.not_mem_nil, or_false,
        reduceCtorEq] at hmem
      cases hmem
    · simp only [lending, preparing, List.mem_append, List.mem_cons, List.not_mem_nil,
        or_false] at hmem
      rcases hmem with (he | he | he | he) | he | he | he | he | he | he <;> cases he
  | statement k' statement' =>
    have h := Fiber.asks_map_iff.mp (TaskM.asks_settle_call h)
    rcases asks_execute_call h with ⟨run', rfl, he⟩ | ⟨run', ans, lr, o, request, -, -, he⟩
    · cases he
      refine ⟨by simp [preparing], fun k' run' statement' hmem => ?_, fun run' out hmem => ?_⟩
      · simp [preparing] at hmem
      · simp only [preparing, List.mem_cons, List.not_mem_nil, or_false] at hmem
        rcases hmem with he | he | he | he <;> cases he
    · cases he

end DatabaseM

end PooledSql
