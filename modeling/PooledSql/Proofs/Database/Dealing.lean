import PooledSql.Proofs.Database.Pooled
import PooledSql.Proofs.Task.Behaviour

/-!
# Dealings with a pool

What the pools get to see of a unit of work. Tasks that issue a query and tasks that run it share in
one unit of work, so that its dealings with the pools are those of all of them, in the order in
which they take place (`History.dealings`).

A statement that is run once, and nothing besides, is a small program over what a pool offers
(`Pool.runOnce`). What a query does on its own behalf is part of that program, whoever issues it.
-/

namespace PooledSql

variable {c : Client} {D : Surroundings c} {g g' h : History c.setting c.requests} {i j t : TaskId}
  {k : LeaseId} {pool : PoolId} {source : Source} {params : Value} {token : TokenId}
  {statement : Statement}

namespace Exchange

/-- What a pool gets to see of an exchange; it is not told the name of a run. -/
def dealing? : Deed c → Option (Exchange Pool.interface)
  | .act (.inr (.inl r)) out => some (.act r out)
  | .call (.inr (.inl (.execute k _ statement))) => some (.call (.execute k 0 statement))
  | .answer (.inr (.inl (.execute k _ statement))) ans =>
    some (.answer (.execute k 0 statement) ans)
  | .call (.inr (.inl w)) => some (.call w)
  | .answer (.inr (.inl w)) ans => some (.answer w ans)
  | _ => none

/-- What the pools get to see of some exchanges. -/
def dealings (l : List (Deed c)) : List (Exchange Pool.interface) := l.filterMap dealing?

/-- The task that an exchange starts. -/
def started? : Deed c → Option TaskId
  | .act (.inl (.spawn _)) task => some task
  | _ => none

/-- The tasks that some exchanges start. -/
def starts (l : List (Deed c)) : List TaskId := l.filterMap started?

variable {l l' : List (Deed c)}

@[simp]
theorem starts_nil : starts ([] : List (Deed c)) = [] := rfl

@[simp]
theorem starts_cons {x : Deed c} : starts (x :: l) = x.started?.toList ++ starts l := by
  unfold starts
  rw [List.filterMap_cons]
  cases x.started? <;> rfl

@[simp]
theorem starts_append : starts (l ++ l') = starts l ++ starts l' := List.filterMap_append ..

@[simp]
theorem dealings_nil : dealings ([] : List (Deed c)) = [] := rfl

@[simp]
theorem dealings_cons {x : Deed c} : dealings (x :: l) = x.dealing?.toList ++ dealings l := by
  unfold dealings
  rw [List.filterMap_cons]
  cases x.dealing? <;> rfl

@[simp]
theorem dealings_append : dealings (l ++ l') = dealings l ++ dealings l' := List.filterMap_append ..

/-- What concerns the failure of a token is not seen by a pool. -/
theorem dealings_settling {α : Type} {o r : Except Failure α} (hl : TaskM.Settling token o l r) :
    dealings l = [] := by
  refine List.filterMap_eq_nil_iff.mpr fun e he => ?_
  rcases hl.settles e he with ⟨_, rfl⟩ | ⟨_, rfl⟩ <;> rfl

/-- Waiting for a request to stop a run is not seen by a pool. -/
theorem dealings_awaits {run : RunId} {u : Except Failure Unit} (hl : DatabaseM.Awaits run l u) :
    dealings l = [] := by cases hl <;> rfl

/-- All that a pool gets to see while a statement is run is about the connection. -/
theorem unseen_of_executes {site : Option CallSite} {r : Except Failure Result}
    (hl : DatabaseM.Executes k statement token site l r) :
    ∀ e ∈ l, e.lease? = none → e.dealing? = none := by
  -- what passes among tasks is no matter of the pools
  have hsettling : ∀ {o r : Except Failure Result} {l : List (Deed c)}, TaskM.Settling token o l r →
      ∀ e ∈ l, e.dealing? = none := fun hz => List.filterMap_eq_nil_iff.mp (dealings_settling hz)
  have hawaits : ∀ {run u} {l : List (Deed c)},
      DatabaseM.Awaits run l u → ∀ e ∈ l, e.dealing? = none :=
    fun hw => List.filterMap_eq_nil_iff.mp (dealings_awaits hw)
  intro e he hlease
  cases hl with
  | refused =>
    rw [List.mem_singleton.mp he]
    rfl
  | disturbed hr hw =>
    simp only [DatabaseM.preparing, DatabaseM.running, List.mem_append, List.mem_cons,
      List.not_mem_nil, or_false] at he
    rcases he with (rfl | rfl | rfl | rfl) | (rfl | rfl) | he | rfl | he
    any_goals rfl
    · cases hlease
    · cases hlease
    · exact hsettling hr e he
    · exact hawaits hw e he
  | done hr hw hz =>
    simp only [DatabaseM.preparing, DatabaseM.running, List.mem_append, List.mem_cons,
      List.not_mem_nil, or_false] at he
    rcases he with (rfl | rfl | rfl | rfl) | (rfl | rfl) | he | rfl | he | he
    any_goals rfl
    · cases hlease
    · cases hlease
    · exact hsettling hr e he
    · exact hawaits hw e he
    · exact hsettling hz e he

/-- What is idle starts nothing. -/
theorem starts_of_idle (hl : ∀ d ∈ l, d.IsIdle) : starts l = [] := by
  refine List.filterMap_eq_nil_iff.mpr fun d hd => ?_
  rcases (hl d hd).cases with ⟨_, _, rfl⟩ | ⟨_, rfl⟩ <;> rfl

/-- A pool is asked for nothing by what is idle. -/
theorem isAct_of_idle (hl : ∀ d ∈ l, d.IsIdle) : ∀ e ∈ dealings l, e.isAct := by
  intro e he
  obtain ⟨d, hd, hde⟩ := List.mem_filterMap.mp he
  rcases (hl d hd).cases with ⟨r, out, rfl⟩ | ⟨entry, rfl⟩ <;> cases hde
  rfl

end Exchange

namespace Pool

/-- Giving a connection back, in view of what has come of a statement. -/
def returning (k : LeaseId) (outcome : Except Failure Result) : Fiber interface Result := do
  let _ ← Fiber.await (I := interface) (Wait.release k (DatabaseM.releaseCause outcome))
  Fiber.ofExcept outcome

/-- Running a statement on a connection. -/
def executing (k : LeaseId) (statement : Statement) : Fiber interface Result := do
  let answer ← Fiber.attempt (Fiber.await (I := interface) (Wait.execute k 0 statement))
  Fiber.ofExcept (DatabaseM.reported statement (some .here) answer)

/-- Putting a statement together and running it on a connection. -/
def working (source : Source) (params : Value) (k : LeaseId) : Fiber interface Result := do
  let pid : Option Nat ← Fiber.act (I := interface) (Act.pid k)
  let statement ← Fiber.ofExcept (source.statement params (.connection pid))
  executing k statement

/-- A statement that is run once, on a connection that is lent for it. -/
def runOnce (pool : PoolId) (source : Source) (params : Value) : Fiber interface Result := do
  let k : LeaseId ← Fiber.await (I := interface) (Wait.acquire pool)
  let outcome ← Fiber.attempt (working source params k)
  returning k outcome

variable {l l' : List (Exchange interface)} {o : Except Failure Result}
  {x y : Fiber interface Result}

/-- By the exchanges `l`, others among them, a program over what a pool offers comes from one state
to another. -/
abbrev Leads (x : Fiber interface Result) (l : List (Exchange interface))
    (y : Fiber interface Result) : Prop := Program.LeadsAmid x.run l y.run

/-- By the exchanges `l`, others among them, a program comes to a request. -/
def Awaits (x : Fiber interface Result) (l : List (Exchange interface)) (w : Wait) : Prop :=
  ∃ next, Program.LeadsAmid x.run l (.await (I := interface) w next)

/-- Whether a request is one to run a statement. -/
def Wait.isExecute : Wait → Bool
  | .execute .. => true
  | _ => false

/-- A statement that is run once is asked to be run at most once. -/
theorem atMost_runOnce : Program.AtMost Wait.isExecute 1 (runOnce pool source params).run := by
  have hawait : ∀ {w : Wait}, w.isExecute = false →
      Program.AtMost Wait.isExecute 0 (Fiber.await (I := interface) w).run :=
    fun hw => .other hw fun _ => .done _
  have hexcept : ∀ {α : Type} {o : Except Failure α},
      Program.AtMost Wait.isExecute 0 (Fiber.ofExcept (I := interface) o).run :=
    fun {_} {o} => .done o
  have hexecute : ∀ k statement, Program.AtMost Wait.isExecute 1 (executing k statement).run :=
    fun k statement =>
      .bind_fiber (n := 0) (.attempt (.one (n := 0) fun _ => .done _)) fun _ => hexcept
  have hwork : ∀ k, Program.AtMost Wait.isExecute 1 (working source params k).run := fun k =>
    .bind_fiber (m := 0) (.act fun _ => .done _) fun _ => .bind_fiber hexcept fun s => hexecute k s
  exact .bind_fiber (hawait rfl) fun k => .bind_fiber (.attempt (hwork k)) fun _ =>
    .bind_fiber (hawait rfl) fun _ => hexcept

/-- Giving a connection back comes to the outcome of the statement, unless it fails itself. -/
theorem leads_returning {ans : Except Failure Unit} {after : List (Exchange interface)}
    (hafter : ∀ e ∈ after, e.isAct) :
    Leads (returning k o) (.call (Wait.release k (DatabaseM.releaseCause o)) ::
      .answer (I := interface) (Wait.release k (DatabaseM.releaseCause o)) ans :: after)
      (Fiber.ofExcept (ans.bind fun _ => o)) := by
  refine .await ?_
  cases ans <;> exact .of_acts hafter

/-- When the work with a connection has got somewhere, so has the whole. -/
theorem Leads.attempt (h : Leads x l y) :
    Leads (do returning k (← Fiber.attempt x)) l (do returning k (← Fiber.attempt y)) :=
  (Program.LeadsAmid.bind h _).bind _

/-- The text of a statement is put together when the process that serves the connection is known. -/
theorem leads_working {pid : Option Nat} :
    Leads (working source params k) [.act (I := interface) (Act.pid k) pid]
    (do executing k (← Fiber.ofExcept (source.statement params (.connection pid)))) := .act (.nil _)

/-- A statement that cannot be put together is not run. -/
theorem leads_working_of_error {pid : Option Nat} {f : Failure}
    (h : source.statement params (.connection pid) = .error f) :
    Leads (working source params k) [.act (I := interface) (Act.pid k) pid]
      (Fiber.ofExcept (.error f)) := by
  have hunbuilt : Leads (do executing k (← Fiber.ofExcept (.error f))) []
      (Fiber.ofExcept (.error f)) :=
    .nil _
  exact leads_working.trans (h ▸ hunbuilt)

/-- A statement that has been put together is run. -/
theorem leads_working_of_ok {pid : Option Nat}
    (h : source.statement params (.connection pid) = .ok statement) :
    Leads (working source params k) [.act (I := interface) (Act.pid k) pid]
      (executing k statement) := by
  have hbuilt : Leads (do executing k (← Fiber.ofExcept (.ok statement))) []
      (executing k statement) :=
    .nil _
  exact leads_working.trans (h ▸ hbuilt)

/-- What the connection answers to a statement is reported. -/
theorem leads_executing {ans : Except Failure Result} :
    Leads (executing k statement) [.call (Wait.execute k 0 statement),
      .answer (I := interface) (Wait.execute k 0 statement) ans]
      (Fiber.ofExcept (DatabaseM.reported statement (some .here) ans)) := .await (.nil _)

/-- What comes after a stretch of a program comes after the whole of it. -/
theorem Awaits.after {w : Wait} (hy : Awaits y l' w) (hx : Leads x l y) : Awaits x (l ++ l') w :=
  hy.imp fun _ => hx.trans

/-- A request that is waited for on the way to an outcome is waited for in the whole. -/
theorem Awaits.attempt {w : Wait} (h : Awaits x l w) :
    Awaits (do returning k (← Fiber.attempt x)) l w := by
  obtain ⟨next, h⟩ := h
  exact ⟨_, (h.bind _).bind _⟩

/-- The loan of a connection is followed by a look at the process that serves it. -/
theorem leads_lending {pid : Option Nat} :
    Leads (runOnce pool source params)
      (Exchange.dealings (DatabaseM.lending pool k pid : List (Deed c)))
      (do returning k (← Fiber.attempt (working source params k))) := .await (.aside (.nil _))

variable {α : Type} {u : List (Deed c)} {o' r : Except Failure α}

/-- Giving a connection back is the same for a pool if it comes with the same word. -/
theorem leads_giveBack (hcause : DatabaseM.releaseCause o' = DatabaseM.releaseCause o)
    (h : Fiber.Ends (DatabaseM.giveBack k o' : DatabaseM c α) u r) :
    ∃ ans : Except Failure Unit, Leads (returning k o) (Exchange.dealings u)
      (Fiber.ofExcept (ans.bind fun _ => o)) ∧ r = ans.bind fun _ => o' := by
  obtain ⟨pid, ans, after, rfl, hafter, rfl⟩ := DatabaseM.ends_giveBack h
  refine ⟨ans, ?_, rfl⟩
  have hback : Leads (returning k o) _ (Fiber.ofExcept (ans.bind fun _ => o)) :=
    leads_returning (Exchange.isAct_of_idle hafter)
  rw [hcause, Exchange.dealings_append]
  exact (Program.LeadsAmid.of_acts (Exchange.isAct_of_idle DatabaseM.parting_idle)).trans hback

/-- A connection is given back after a word on why, if there is one. -/
theorem awaits_parting {pid : Option Nat} :
    Awaits (returning k o) (Exchange.dealings (DatabaseM.parting k o' pid : List (Deed c)))
      (.release k (DatabaseM.releaseCause o)) :=
  ⟨_, .of_acts (Exchange.isAct_of_idle DatabaseM.parting_idle)⟩

/-- Whoever gives a connection back waits for the pool to take it. -/
theorem awaits_giveBack {w : (c.setting.interface.sum c.requests).Wait}
    (hcause : DatabaseM.releaseCause o' = DatabaseM.releaseCause o)
    (h : Fiber.Asks (DatabaseM.giveBack k o' : DatabaseM c α) u (.call w)) :
    ∃ w', Exchange.dealing? (.call w) = some (.call w') ∧
      Awaits (returning k o) (Exchange.dealings u) w' := by
  rcases DatabaseM.asks_giveBack h with hidle | ⟨he, pid, rfl⟩
  · exact hidle.elim
  cases he
  rw [hcause]
  exact ⟨_, rfl, awaits_parting⟩

end Pool

namespace Regime.Possible

variable {client : c.Task → DatabaseM c Reply} {l : List (Deed c)} {body : Work c}
  {w : (c.setting.interface.sum c.requests).Wait}

/-- A task that is in the middle of a wait has asked for it. -/
theorem asks_of_waiting {job : Job c.setting} (hp : D.regime.Possible h)
    (hjob : h.jobs[j]? = some job)
    (hof : h.of j = l ++ [.call w]) : Fiber.Asks (D.regime.program job) l (.call w) := by
  rcases hp.way hjob with ⟨y, hy⟩ | ⟨l', w', next, hl, hnext⟩
  · exact (Program.Leads.not_snoc_call (hof ▸ hy)).elim
  · rw [hof] at hl
    obtain ⟨rfl, he⟩ := List.append_inj' hl rfl
    cases he
    exact .call hnext

/-- A query that is left alone ends as its work does. -/
theorem ends_of_query {r : Except Failure Reply} (hp : D.regime.Possible h)
    (hjob : h.jobs[j]? = some (.query body token)) (hcalm : .interrupt j ∉ h)
    (hfree : ¬ h.Cancelled token) (hfinish : .finish j r ∈ h) :
    ∃ lw, Exchange.dealings (h.of j) = Exchange.dealings lw ∧ lw ⊆ h.of j ∧
      Fiber.Ends (Work.meaning D.client body) lw r := by
  rcases hp.finish_cases_of_job hjob hfinish with hends | ⟨-, -, hint⟩
  · obtain ⟨o, lw, lz, hof, hw, hz, -⟩ := TaskM.ends_settle hends
    rw [hof, Exchange.dealings_append, Exchange.dealings_settling hz, List.append_nil]
    refine ⟨lw, rfl, List.subset_append_left .., ?_⟩
    -- the outcome of the work stands unless the token is found set, which it is not
    rcases hz.eq_or_cancelled with rfl | ⟨hset, -⟩
    · exact hw
    · have hset : Exchange.does (.isCancelled token) true ∈ h.of j := by
        rw [hof]
        exact List.mem_append_right _ hset
      exact absurd (hp.cancelled_of_found (History.mem_of_iff.mp hset)) hfree
  · exact absurd hint hcalm

/-- A query that is left alone runs its statement once, and what the connection answers is
reported. -/
theorem leads_of_executes {o : Except Failure Result} (hp : D.regime.Possible h)
    (hjob : h.jobs[j]? = some (.query body token)) (hruns : (Job.query body token).Runs token)
    (hfree : ¬ h.Cancelled token) (hl : l ⊆ h.of j)
    (hx : DatabaseM.Executes k statement token (some .here) l o) :
    Pool.Leads (Pool.executing k statement) (Exchange.dealings l) (Fiber.ofExcept o) := by
  have hmem : ∀ {e : Deed c}, e ∈ l → .deed j e ∈ h := fun he => History.mem_of_iff.mp (hl he)
  have hunseen := Exchange.unseen_of_executes hx
  rcases hx.cases with ⟨rfl, -⟩ | ⟨run, ans, after, rfl, hidle, -, hreplaces⟩
  · exact absurd (hp.cancelled_of_found (hmem (List.mem_singleton_self _))) hfree
  -- behind the answer, the pools see nothing any more
  have hafter : Exchange.dealings after = [] :=
    List.filterMap_eq_nil_iff.mpr fun e he => hunseen e (by simp [he]) (hidle e he)
  have hrun : .deed j (.enters .newRun run) ∈ h := hmem (by simp [DatabaseM.preparing])
  -- nothing replaces the answer, since the token is not set
  obtain rfl := hp.eq_of_replaces hjob hruns hfree
    (fun e he => hl (List.mem_append_right _ (List.mem_append_right _ he))) hreplaces hrun
  rw [Exchange.dealings_append, Exchange.dealings_append, hafter]
  exact Pool.leads_executing

/-- A query that is left alone waits for nothing but the connection to run its statement. -/
theorem awaits_of_execute (hp : D.regime.Possible h) (hjob : h.jobs[j]? = some (.query body token))
    (hruns : (Job.query body token).Runs token) (hfree : ¬ h.Cancelled token) (hl : l ⊆ h.of j)
    (hx : Fiber.Asks (DatabaseM.execute k statement token (some .here) : DatabaseM c Result) l
      (.call w)) :
    ∃ w', Exchange.dealing? (.call w) = some (.call w') ∧
      Pool.Awaits (Pool.executing k statement) (Exchange.dealings l) w' := by
  rcases DatabaseM.asks_execute_call hx with ⟨run, rfl, rfl⟩ | ⟨run, ans, lr, o, request, rfl, -, -⟩
  · exact ⟨_, rfl, _, .nil _⟩
  -- nobody has asked the server to stop the run
  have hrun : .deed j (.enters .newRun run) ∈ h :=
    History.mem_of_iff.mp (hl (by simp [DatabaseM.preparing]))
  have hrequest : .deed j (.enters (.request run) (some request)) ∈ h :=
    History.mem_of_iff.mp (hl (by simp))
  cases hp.request_eq_none hjob hruns hfree hrun hrequest

/-- What a query on a pool does with its connection if it is left alone. -/
theorem leads_of_onLease {o : Except Failure Result} (hp : D.regime.Possible h)
    (hjob : h.jobs[j]? = some (.query (.pooled pool source params token) token))
    (hfree : ¬ h.Cancelled token) (hl : l ⊆ h.of j)
    (hx : DatabaseM.OnLease source params token k l o) :
    Pool.Leads (Pool.working source params k) (Exchange.dealings l) (Fiber.ofExcept o) := by
  cases hx with
  | refused =>
    have hset := hp.cancelled_of_found (History.mem_of_iff.mp (hl (List.mem_singleton_self _)))
    exact absurd hset hfree
  | unbuilt hbuilt => exact Pool.leads_working_of_error hbuilt
  | run hbuilt hexecutes =>
    have hexecute :=
      hp.leads_of_executes hjob (.pooled ..) hfree (fun e he => hl (by simp [he])) hexecutes
    exact (Pool.leads_working_of_ok hbuilt).trans hexecute

/-- A query on a pool that is left alone runs its statement once, and that is all that the pool gets
to see of it. -/
theorem leads_of_pooled {r : Except Failure Reply} (hp : D.regime.Possible h)
    (hjob : h.jobs[j]? = some (.query (.pooled pool source params token) token))
    (hcalm : .interrupt j ∉ h) (hfree : ¬ h.Cancelled token) (hfinish : .finish j r ∈ h) :
    ∃ o, r = o.map .result ∧
      Pool.Leads (Pool.runOnce pool source params) (Exchange.dealings (h.of j))
        (Fiber.ofExcept o) := by
  obtain ⟨lw, hdealings, hsub, hw⟩ := hp.ends_of_query hjob hcalm hfree hfinish
  obtain ⟨o, hrun, rfl⟩ := Fiber.ends_map_iff.mp hw
  refine ⟨o, rfl, ?_⟩
  rw [hdealings]
  rw [DatabaseM.runPooled_eq] at hrun
  rcases DatabaseM.ends_withConnection hrun with ⟨f, rfl, rfl⟩ | ⟨k, pid, l, o', lr, rfl, hl, hback⟩
  · exact .await (.nil _)
  -- the statement is run between lending the connection and giving it back
  obtain ⟨ans, hreturn, rfl⟩ := Pool.leads_giveBack rfl hback
  have hwork :=
    hp.leads_of_onLease hjob hfree (fun e he => hsub (by simp [he])) (DatabaseM.ends_runOn hl)
  rw [Exchange.dealings_append, Exchange.dealings_append]
  exact Pool.leads_lending.trans (hwork.attempt.trans hreturn)

/-- A query on a pool that is left alone waits for nothing but what a statement waits for that is
run once. -/
theorem awaits_of_pooled (hp : D.regime.Possible h)
    (hjob : h.jobs[j]? = some (.query (.pooled pool source params token) token))
    (hfree : ¬ h.Cancelled token) (hof : h.of j = l ++ [.call w]) :
    ∃ w', Exchange.dealings (h.of j) = Exchange.dealings l ++ [.call w'] ∧
      Pool.Awaits (Pool.runOnce pool source params) (Exchange.dealings l) w' := by
  have hsub : l ⊆ h.of j := by
    rw [hof]
    exact List.subset_append_left ..
  obtain ⟨w', hseen, hw⟩ : ∃ w', Exchange.dealing? (.call w) = some (.call w') ∧
      Pool.Awaits (Pool.runOnce pool source params) (Exchange.dealings l) w' := by
    -- it waits for a connection, while the statement is run, or to give the connection back
    rcases DatabaseM.asks_pooled D.client (hp.asks_of_waiting hjob hof) with
      ⟨rfl, rfl⟩ | ⟨k, pid, pid', statement, le, hbuilt, rfl, hexecute⟩ |
        ⟨k, pid, lw, o, pid', rfl, hw, rfl⟩
    · exact ⟨_, rfl, _, .nil _⟩
    · obtain ⟨w', hseen, hw⟩ := hp.awaits_of_execute hjob (.pooled ..) hfree
        (fun e he => hsub (by simp [he])) hexecute
      rw [Exchange.dealings_append]
      exact ⟨w', hseen,
        (hw.after (Pool.leads_working_of_ok hbuilt)).attempt.after Pool.leads_lending⟩
    · have hwork := hp.leads_of_onLease hjob hfree (fun e he => hsub (by simp [he])) hw
      rw [Exchange.dealings_append, Exchange.dealings_append]
      exact ⟨_, rfl, (Pool.awaits_parting.after hwork.attempt).after Pool.leads_lending⟩
  exact ⟨w', by simp [hof, hseen], hw⟩

/-- A query of a scope that is left alone runs its statement once, and that is all that the pool
gets to see of it. -/
theorem leads_of_scoped {r : Except Failure Reply} (hp : D.regime.Possible h)
    (hjob : h.jobs[j]? = some (.query (.scoped k statement token) token))
    (hcalm : .interrupt j ∉ h) (hfree : ¬ h.Cancelled token) (hfinish : .finish j r ∈ h) :
    ∃ o, r = o.map .result ∧
      Pool.Leads (Pool.executing k statement) (Exchange.dealings (h.of j)) (Fiber.ofExcept o) := by
  obtain ⟨lw, hdealings, hsub, hw⟩ := hp.ends_of_query hjob hcalm hfree hfinish
  obtain ⟨o, hexecute, rfl⟩ := Fiber.ends_map_iff.mp hw
  rw [hdealings]
  exact ⟨o, rfl,
    hp.leads_of_executes hjob (.statement ..) hfree hsub (DatabaseM.ends_execute hexecute)⟩

/-- A query of a scope that is left alone waits for nothing but the connection to run its
statement. -/
theorem awaits_of_scoped (hp : D.regime.Possible h)
    (hjob : h.jobs[j]? = some (.query (.scoped k statement token) token))
    (hfree : ¬ h.Cancelled token) (hof : h.of j = l ++ [.call w]) :
    ∃ w', Exchange.dealings (h.of j) = Exchange.dealings l ++ [.call w'] ∧
      Pool.Awaits (Pool.executing k statement) (Exchange.dealings l) w' := by
  have hsub : l ⊆ h.of j := by
    rw [hof]
    exact List.subset_append_left ..
  have hwork := Fiber.asks_map_iff.mp (TaskM.asks_settle_call (hp.asks_of_waiting hjob hof))
  obtain ⟨w', hseen, hw⟩ := hp.awaits_of_execute hjob (.statement ..) hfree hsub hwork
  exact ⟨w', by simp [hof, hseen], hw⟩

end Regime.Possible

/-- What the pools get to see of a happening, as far as some tasks are concerned. -/
def Happening.dealing? (crew : List TaskId) :
    Happening c.setting c.requests → Option (Exchange Pool.interface)
  | .deed t x => if t ∈ crew then x.dealing? else none
  | _ => none

namespace History

/-- The tasks that share in what a task does: that task, and those that it starts. -/
def crew (g : History c.setting c.requests) (i : TaskId) : List TaskId :=
  i :: Exchange.starts (g.of i)

/-- The dealings of some tasks with the pools, in order. -/
def dealings (g : History c.setting c.requests) (crew : List TaskId) :
    List (Exchange Pool.interface) :=
  g.filterMap (Happening.dealing? crew)

variable {x : Deed c} {crew others : List TaskId}

@[simp]
theorem dealings_nil : dealings ([] : History c.setting c.requests) crew = [] := rfl

@[simp]
theorem dealings_append : dealings (g ++ g') crew = g.dealings crew ++ g'.dealings crew :=
  List.filterMap_append ..

@[simp]
theorem dealings_cons {e : Happening c.setting c.requests} :
    dealings (e :: g) crew = (e.dealing? crew).toList ++ g.dealings crew := by
  unfold dealings
  rw [List.filterMap_cons]
  cases e.dealing? crew <;> rfl

/-- While only one of some tasks deals with the pools, the dealings are those of that task. -/
theorem dealings_eq (ht : t ∈ crew)
    (hother : ∀ t' ∈ crew, t' ≠ t → Exchange.dealings (of g t') = []) :
    dealings g crew = Exchange.dealings (of g t) := by
  induction g with
  | nil => rfl
  | cons e g ih =>
    simp only [of_cons, Exchange.dealings_append, List.append_eq_nil_iff] at hother
    rw [dealings_cons, of_cons, Exchange.dealings_append,
      ih fun t' ht' hne => (hother t' ht' hne).2]
    congr 1
    cases e with
    | deed t' x =>
      -- a deed of the task counts in both; that of another one is of no matter to the pools
      by_cases heq : t' = t
      · simp [Happening.dealing?, Happening.deed?, heq, ht]
      by_cases ht' : t' ∈ crew
      · have hnone : x.dealing? = none := by simpa [Happening.deed?] using (hother t' ht' heq).1
        simp [Happening.dealing?, Happening.deed?, heq, ht', hnone]
      · simp [Happening.dealing?, Happening.deed?, heq, ht']
    | _ => rfl

/-- The dealings of one task while another one does nothing, and nobody else deals with the
pools. -/
theorem dealings_left (hunseen : ∀ t ∈ others, Exchange.dealings (g.of t) = []) (hj : g.of j = []) :
    g.dealings (i :: j :: others) = Exchange.dealings (g.of i) := by
  refine dealings_eq (List.mem_cons_self ..) fun t ht hne => ?_
  rcases List.mem_cons.mp ht with rfl | ht
  · exact absurd rfl hne
  rcases List.mem_cons.mp ht with rfl | ht
  · rw [hj, Exchange.dealings_nil]
  · exact hunseen t ht

/-- The dealings of the other one while the one does nothing, and nobody else deals with the
pools. -/
theorem dealings_right (hunseen : ∀ t ∈ others, Exchange.dealings (g.of t) = [])
    (hi : g.of i = []) :
    g.dealings (i :: j :: others) = Exchange.dealings (g.of j) := by
  refine dealings_eq (List.mem_cons_of_mem _ (List.mem_cons_self ..)) fun t ht hne => ?_
  rcases List.mem_cons.mp ht with rfl | ht
  · rw [hi, Exchange.dealings_nil]
  rcases List.mem_cons.mp ht with rfl | ht
  · exact absurd rfl hne
  · exact hunseen t ht

/-- What the pools do not get to see is none of the dealings. -/
theorem dealings_cons_of_unseen (hx : x.dealing? = none) :
    dealings (.deed i x :: g) crew = g.dealings crew := by
  simp [Happening.dealing?, hx]

/-- What the pools do not get to see is none of the dealings of a task. -/
theorem dealings_of_unseen (hx : x.dealing? = none) :
    Exchange.dealings (of (.deed i x :: g) j) = Exchange.dealings (g.of j) := by
  by_cases hij : i = j <;> simp [Happening.deed?, hij, hx]

/-- The dealings of a task that starts no others are its own. -/
theorem dealings_of_alone (h : Exchange.starts (g.of i) = []) :
    g.dealings (g.crew i) = Exchange.dealings (g.of i) := by
  rw [History.crew, h]
  exact dealings_eq (List.mem_singleton_self i) fun t' ht' hne =>
    absurd (List.mem_singleton.mp ht') hne

end History

end PooledSql
