import PooledSql.Proofs.Database.Request
import PooledSql.Proofs.Number.Numeral
import PooledSql.Proofs.Task.Tree

/-!
# Queries on a pool

A query on a pool holds one connection while its statement runs, and can be cancelled at any time.
Its token is looked at when the connection is there, before and after the statement, and once more
at the very end; whatever has been asked of it by then decides how the query ends
(`Regime.Run.settled_of_pooled`).

* `DatabaseM.OnLease`: what passes while the connection is held, and with which outcome.
* `DatabaseM.Pooled`: what passes in the whole query.
* `History.CalledOff`: somebody has cancelled a query before it was over.
-/

namespace PooledSql

variable {c : Client} {D : Surroundings c} {g g' h : History c.setting c.requests} {i j : TaskId}
  {k : LeaseId} {pool : PoolId} {source : Source} {params : Value} {token : TokenId}

namespace DatabaseM

variable {l : List (Deed c)}

/-- What passes while a query on a pool holds its connection, and the outcome. -/
inductive OnLease (source : Source) (params : Value) (token : TokenId) (k : LeaseId) :
    List (Deed c) → Except Failure Result → Prop
  /-- The token has been set before the connection was there. -/
  | refused : OnLease source params token k [.does (.isCancelled token) true]
      (.error (.cancelled token))
  /-- The statement cannot be put together. -/
  | unbuilt {pid : Option Nat} {f : Failure} :
      source.statement params (.connection pid) = .error f →
      OnLease source params token k [.does (.isCancelled token) false, .inquires (.pid k) pid]
        (.error f)
  | run {pid : Option Nat} {statement : Statement} {le : List (Deed c)}
      {o : Except Failure Result} : source.statement params (.connection pid) = .ok statement →
      Executes k statement token (some .here) le o →
      OnLease source params token k
        (.does (.isCancelled token) false :: .inquires (.pid k) pid :: le) o

/-- What passes in a query on a pool, and its outcome before its token is looked at for the last
time. -/
inductive Pooled (pool : PoolId) (source : Source) (params : Value) (token : TokenId) :
    List (Deed c) → Except Failure Result → Prop
  | unserved {f : Failure} : Pooled pool source params token
      [.requests (.acquire pool), .served (.acquire pool) (.error f)] (.error f)
  | served {k : LeaseId} {pid pid' : Option Nat} {lw after : List (Deed c)}
      {o : Except Failure Result} {ans : Except Failure Unit} :
      OnLease source params token k lw o → (∀ d ∈ after, d.IsIdle) →
      Pooled pool source params token (lending pool k pid ++ (lw ++ (parting k o pid' ++
        .requests (.release k (releaseCause o)) :: .served (.release k (releaseCause o)) ans ::
          after))) (ans.bind fun _ => o)

/-- How the work of a query on a pool ends. -/
theorem ends_runOn {r : Except Failure Result}
    (h : Fiber.Ends
      (unlessCancelled (some token) (runOn source params token k) : DatabaseM c Result)
      l r) : OnLease source params token k l r := by
  rcases TaskM.ends_raiseIfCancelled_bind h with ⟨rfl, rfl⟩ | ⟨_, rfl, hwork⟩
  · exact .refused
  obtain ⟨pid, _, rfl, hpid⟩ := Fiber.ends_act_bind_iff.mp hwork
  rcases Fiber.ends_bind_iff.mp hpid with ⟨f, hs, rfl⟩ | ⟨statement, l₃, l₄, rfl, hs, hexecute⟩
  · obtain ⟨rfl, hbuilt⟩ := Fiber.ends_ofExcept_iff.mp hs
    exact .unbuilt hbuilt.symm
  · obtain ⟨rfl, hbuilt⟩ := Fiber.ends_ofExcept_iff.mp hs
    exact .run hbuilt.symm (ends_execute hexecute)

/-- How a query on a pool ends. -/
theorem ends_runPooled {r : Except Failure Result}
    (h : Fiber.Ends (runPooled pool source params token : DatabaseM c Result) l r) :
    Pooled pool source params token l r := by
  rw [runPooled_eq] at h
  rcases ends_withConnection h with ⟨f, rfl, rfl⟩ | ⟨k, pid, lw, o, lr, rfl, hw, hr⟩
  · exact .unserved
  · obtain ⟨pid', ans, after, rfl, hafter, rfl⟩ := ends_giveBack hr
    exact .served (ends_runOn hw) hafter

/-- The work of a query on a pool waits for what the running of its statement waits for. -/
theorem asks_runOn_call {w : (c.setting.interface.sum c.requests).Wait}
    (h : Fiber.Asks
      (unlessCancelled (some token) (runOn source params token k) : DatabaseM c Result)
      l (.call w)) :
    ∃ pid statement le, source.statement params (.connection pid) = .ok statement ∧
      l = .does (.isCancelled token) false :: .inquires (.pid k) pid :: le ∧
      Fiber.Asks (execute k statement token (some .here) : DatabaseM c Result) le (.call w) := by
  rcases Fiber.asks_bind_iff.mp h with hr | ⟨⟨⟩, l₁, _, rfl, hraise, hwork⟩
  · exact absurd hr not_asks_raise_call
  obtain rfl := TaskM.unset_of_raiseIfCancelled hraise
  -- an inquiry takes no time, and neither does putting the statement together
  rcases Fiber.asks_act_bind_iff.mp hwork with ⟨-, _, he⟩ | ⟨pid, _, rfl, hpid⟩
  · cases he
  rcases Fiber.asks_bind_iff.mp hpid with hs | ⟨statement, _, le, rfl, hs, hexecute⟩
  · exact absurd hs Fiber.not_asks_ofExcept
  obtain ⟨rfl, hbuilt⟩ := Fiber.ends_ofExcept_iff.mp hs
  exact ⟨pid, statement, le, hbuilt.symm, rfl, hexecute⟩

/-- What a query on a pool waits for: a connection, what its work waits for, and the return of the
connection. -/
theorem asks_pooled (client : c.Task → DatabaseM c Reply)
    {w : (c.setting.interface.sum c.requests).Wait}
    (h : Fiber.Asks (TaskM.settle token (Work.meaning client (.pooled pool source params token))) l
      (.call w)) :
    (w = .inr (.inl (.acquire pool)) ∧ l = []) ∨
      (∃ k pid pid' statement le, source.statement params (.connection pid') = .ok statement ∧
        l = lending pool k pid ++
          (.does (.isCancelled token) false :: .inquires (.pid k) pid' :: le) ∧
        Fiber.Asks (execute k statement token (some .here) : DatabaseM c Result) le (.call w)) ∨
      ∃ k pid lw o pid', l = lending pool k pid ++ (lw ++ parting k o pid') ∧
        OnLease source params token k lw o ∧ w = .inr (.inl (.release k (releaseCause o))) := by
  replace h := Fiber.asks_map_iff.mp (TaskM.asks_settle_call h)
  rw [runPooled_eq] at h
  -- the loan, the work with it, or the return
  rcases asks_withConnection h with
    ⟨rfl, he⟩ | he | ⟨k, pid, l', rfl, hw | ⟨o, lw, lr, rfl, hw, hr⟩⟩
  · cases he
    exact .inl ⟨rfl, rfl⟩
  · exact he.elim
  · obtain ⟨pid', statement, le, hbuilt, rfl, hexecute⟩ := asks_runOn_call hw
    exact .inr (.inl ⟨k, pid, pid', statement, le, hbuilt, rfl, hexecute⟩)
  · rcases asks_giveBack hr with he | ⟨he, pid', rfl⟩
    · exact he.elim
    · cases he
      exact .inr (.inr ⟨k, pid, lw, o, pid', rfl, ends_runOn hw, rfl⟩)

/-- What passes before a query on a pool runs its statement. -/
theorem asks_pooled_execute (client : c.Task → DatabaseM c Reply) {run : RunId}
    {statement : Statement}
    (h : Fiber.Asks (TaskM.settle token (Work.meaning client (.pooled pool source params token))) l
      (.requests (.execute k run statement))) :
    ∃ pid pid', source.statement params (.connection pid') = .ok statement ∧
      l = lending pool k pid ++ (.does (.isCancelled token) false ::
        .inquires (.pid k) pid' :: preparing k run statement token) := by
  rcases asks_pooled client h with
    ⟨hw, -⟩ | ⟨k', pid, pid', statement', le, hbuilt, rfl, hexecute⟩ | ⟨_, _, _, _, _, -, -, hw⟩
  · cases hw
  · rcases asks_execute_call hexecute with ⟨run', rfl, hw⟩ | ⟨_, _, _, _, _, -, -, hw⟩
    · cases hw
      exact ⟨pid, pid', hbuilt, rfl⟩
    · cases hw
  · cases hw

end DatabaseM

/-- What passes when somebody calls for the cancellation of a query that is not over, until its
token is set. -/
def Query.cancelling (q : Query) (actions : List Interrupt) : List (Deed c) :=
  [.does (.isDone q.task) false, .does (.log .cancelling) (), .does (.trip q.token) actions]

namespace History

/-- Whether somebody has called for a cancellation under a token: for that of a query which was not
over then. -/
def CalledOff (h : History c.setting c.requests) (token : TokenId) : Prop :=
  ∃ (g : History c.setting c.requests) (i : TaskId) (q : Query) (actions : List Interrupt)
    (g' : History c.setting c.requests), h = g ++ ((q.cancelling actions).map (.deed i) ++ g') ∧
      q.token = token ∧ token < g.tokenCount

/-- The tasks whose outcomes derive from that of a task, and the task itself. -/
inductive DerivesFrom (h : History c.setting c.requests) (j : TaskId) : TaskId → Prop
  | refl : DerivesFrom h j j
  | step {base i : TaskId} {f : Reply → Except Failure Reply} {token : TokenId} :
      DerivesFrom h j base → h.jobs[i]? = some (.derived base f token) → DerivesFrom h j i

end History

namespace Regime.Possible

/-- A token has been set when somebody has called for a cancellation under it. -/
theorem cancelled_iff (hp : D.regime.Possible h) : h.Cancelled token ↔ h.CalledOff token := by
  constructor
  · rintro ⟨g, i, actions, g', rfl, hlt⟩
    obtain ⟨_, -, hlicensed⟩ := hp.licensed id
    -- only a call for a cancellation may set a token, and it leads up to that without a break
    cases hlicensed with
    | plain he => exact he.elim
    | @trip b q actions _ hl =>
      have hacts :
          ∀ y ∈ ([.does (.isDone q.task) false, .does (.log .cancelling) ()] : List (Deed c)),
          ¬ y.IsAnswer := by simp [Exchange.IsAnswer]
      obtain ⟨g₀, rfl, -⟩ := hp.stretch id hacts hl
      refine ⟨g₀, i, q, actions, g', by simp [Query.cancelling], rfl, ?_⟩
      simpa [Happening.makesToken] using hlt
  · rintro ⟨g, i, q, actions, g', rfl, rfl, hlt⟩
    refine ⟨g ++ [.deed i (.does (.isDone q.task) false), .deed i (.does (.log .cancelling) ())], i,
      actions, g', by simp [Query.cancelling], ?_⟩
    simpa [Happening.makesToken] using hlt

variable {pool' : PoolId} {body : Work c}

/-- What a task waits for is what its program asks for. -/
theorem asks_of_answer {w : (c.setting.interface.sum c.requests).Wait}
    {ans : Except Failure ((c.setting.interface.sum c.requests).Answer w)} {job : Job c.setting}
    (hp : D.regime.Possible (g ++ .deed j (.answer w ans) :: g')) (hjob : g.jobs[j]? = some job) :
    ∃ l, g.of j = l ++ [.call w] ∧ Fiber.Asks (D.regime.program job) l (.call w) := by
  cases hp.fits with
  | answer hj _ hl hx _ =>
    rw [hjob] at hj
    cases hj
    exact ⟨_, hl, .call hx⟩

/-- The first thing that a query on a pool does is to be lent a connection. -/
theorem lent_of_pooled
    (hp : D.regime.Possible (g ++ .deed j (.served (.acquire pool') (.ok k)) :: g'))
    (hjob : g.jobs[j]? = some (.query (.pooled pool source params token) token)) :
    pool' = pool ∧ g.of j = [.requests (.acquire pool)] := by
  obtain ⟨l, hl, hasks⟩ := hp.asks_of_answer hjob
  rcases DatabaseM.asks_pooled D.client hasks with
    ⟨hw, rfl⟩ | ⟨_, _, _, _, _, -, -, hexecute⟩ | ⟨_, _, _, _, _, -, -, hw⟩
  · cases hw
    exact ⟨rfl, hl⟩
  · rcases DatabaseM.asks_execute_call hexecute with ⟨_, -, hw⟩ | ⟨_, _, _, _, _, -, -, hw⟩ <;>
      cases hw
  · cases hw

/-- The first thing that passes in a query on a pool is the loan of its connection. -/
theorem of_eq_of_lent (hp : D.regime.Possible h)
    (hjob : h.jobs[j]? = some (.query (.pooled pool source params token) token))
    (hlent : .deed j (.served (.acquire pool) (.ok k)) ∈ h) :
    ∃ rest, h.of j = .requests (.acquire pool) :: .served (.acquire pool) (.ok k) :: rest := by
  obtain ⟨g, g', rfl⟩ := List.append_of_mem hlent
  obtain ⟨-, hof⟩ := hp.lent_of_pooled (hp.job_before hjob)
  exact ⟨History.of g' j, by simp [hof, Happening.deed?]⟩

/-- A query on a pool runs its statement after it has been lent a connection and has found its token
not set. -/
theorem executed_of_pooled {run : RunId} {statement : Statement}
    (hp : D.regime.Possible (g ++ .deed j (.requests (.execute k run statement)) :: g'))
    (hjob : g.jobs[j]? = some (.query (.pooled pool source params token) token)) :
    ∃ pid pid', source.statement params (.connection pid') = .ok statement ∧
      g.of j = DatabaseM.lending pool k pid ++ (.does (.isCancelled token) false ::
        .inquires (.pid k) pid' :: DatabaseM.preparing k run statement token) := by
  exact DatabaseM.asks_pooled_execute D.client (hp.asks_of_job (History.jobs_mono hjob) id)

/-- How a query on a pool has come to its end. -/
theorem pooled_of_finish {r : Except Failure Reply}
    (hp : D.regime.Possible (g ++ .finish j r :: g'))
    (hjob : (History.jobs (g ++ .finish j r :: g'))[j]? =
      some (.query (.pooled pool source params token) token))
    (hint : g.of j = [] → .interrupt j ∉ g) :
    ∃ o lw lz, g.of j = lw ++ lz ∧ DatabaseM.Pooled pool source params token lw o ∧
      TaskM.Settled token (o.map .result) (g.Cancelled token) r := by
  obtain ⟨o, lw, lz, hof, hw, hz⟩ := hp.finish_of_settle hjob rfl hint
  obtain ⟨o, hrun, rfl⟩ := Fiber.ends_map_iff.mp hw
  exact ⟨o, lw, lz, hof, DatabaseM.ends_runPooled hrun, hz⟩

/-- A query on a pool has given its connection back when it is over. -/
theorem returned_of_finish {r : Except Failure Reply}
    (hp : D.regime.Possible (g ++ .finish j r :: g'))
    (hjob : (History.jobs (g ++ .finish j r :: g'))[j]? =
      some (.query (.pooled pool source params token) token))
    (hlent : .deed j (.served (.acquire pool) (.ok k)) ∈ g ++ .finish j r :: g') :
    ∃ cause ans, .deed j (.served (.release k cause) ans) ∈ g := by
  -- nothing is done after the end, so all of it is done before
  have hrest : History.of g' j = [] := by
    rw [List.append_cons] at hp
    exact hp.of_eq_nil_of_finished ⟨r, by simp⟩
  obtain ⟨rest, hof⟩ := hp.of_eq_of_lent hjob hlent
  obtain ⟨o, lw, lz, hg, hw, -⟩ := hp.pooled_of_finish hjob fun hnil => by
    simp [hrest, hnil, Happening.deed?] at hof
  simp only [History.of_append, History.of_cons, Happening.deed?, hrest, hg, Option.toList_none,
    List.append_nil] at hof
  cases hw with
  | unserved => cases hof
  | @served k' pid pid' lw after o ans hw hafter =>
    cases hof
    refine ⟨DatabaseM.releaseCause o, ans, History.mem_of_iff.mp ?_⟩
    rw [hg]
    simp

/-- A task whose outcome derives from that of another one is over after that one, if no interruption
reaches it before. -/
theorem finished_of_derives {r : Except Failure Reply} (hp : D.regime.Possible h)
    (hint : ∀ i p p', h.DerivesFrom j i → i ≠ j → h = p ++ .interrupt i :: p' →
      History.Finished p j)
    (hi : h.DerivesFrom j i) (heq : h = g ++ .finish i r :: g') : i = j ∨ g.Finished j := by
  -- by induction on how many queries stand between the two
  induction hi generalizing g r g' with
  | refl => exact .inl rfl
  | @step base i f token hbase hjob ih =>
    rcases eq_or_ne i j with rfl | hne
    · exact .inl rfl
    refine .inr ?_
    -- an interruption that has reached the task before came when the other one was over
    have hspared : .interrupt i ∈ g → g.Finished j := by
      intro hmem
      obtain ⟨p, q, rfl⟩ := List.append_of_mem hmem
      rw [List.append_assoc, List.cons_append] at heq
      exact (hint i p _ (.step hbase hjob) hne heq).mono
    have hpg : D.regime.Possible (g ++ .finish i r :: g') := heq ▸ hp
    cases hpg.fits with
    | stillborn _ _ _ hstill => exact hspared hstill
    | finish hjob' _ _ hx =>
      rw [heq, History.jobs_mono hjob'] at hjob
      cases hjob
      have hends : Fiber.Ends (TaskM.settle token do Fiber.ofExcept (f (← TaskM.join base)))
          (g.of i) r := hx
      obtain ⟨o, lw, lz, hof, hw, -, -⟩ := TaskM.ends_settle hends
      -- it has been told of the outcome of its base, before it ended
      obtain ⟨ans, lr, rfl⟩ : ∃ ans lr, lw = .joins base :: .joined base ans :: lr := by
        rcases Fiber.ends_await_bind_iff.mp hw with ⟨e, rfl, -⟩ | ⟨v, l, rfl, -⟩
        · exact ⟨.error e, [], rfl⟩
        · exact ⟨.ok v, l, rfl⟩
      have hjoined : .deed i (.joined base ans) ∈ g := by
        rw [← History.mem_of_iff, hof]
        simp
      obtain ⟨p, q, rfl⟩ := List.append_of_mem hjoined
      have hpp :
          D.regime.Possible (p ++ .deed i (.joined base ans) :: (q ++ .finish i r :: g')) := by
        simpa using hpg
      -- the answer is the outcome of the base, or an interruption
      rcases hpp.resolves with hover | ⟨-, hi⟩
      · obtain ⟨p₁, p₂, rfl⟩ := List.append_of_mem hover
        rcases ih (g := p₁) (r := ans)
          (by rw [heq, List.append_assoc, List.append_assoc]; rfl) with rfl | hj
        · exact ⟨ans, by simp⟩
        · exact hj.mono.mono
      · exact hspared (List.mem_append_left _ hi)

end Regime.Possible

/-- A query on a pool has given its connection back when a task is over whose outcome derives from
its own. -/
theorem Regime.Possible.returned_of_derives {r : Except Failure Reply}
    (hp : D.regime.Possible (g ++ .finish i r :: g'))
    (hjob : (History.jobs (g ++ .finish i r :: g'))[j]? =
      some (.query (.pooled pool source params token) token))
    (hint : ∀ i' p p', History.DerivesFrom (g ++ .finish i r :: g') j i' → i' ≠ j →
      g ++ .finish i r :: g' = p ++ .interrupt i' :: p' → History.Finished p j)
    (hi : History.DerivesFrom (g ++ .finish i r :: g') j i)
    (hlent : .deed j (.served (.acquire pool) (.ok k)) ∈ g ++ .finish i r :: g') :
    ∃ cause ans, .deed j (.served (.release k cause) ans) ∈ g := by
  -- the query is over by then, and it has given back the connection before
  rcases hp.finished_of_derives hint hi rfl with rfl | ⟨r', hr'⟩
  · exact hp.returned_of_finish hjob hlent
  · obtain ⟨p, q, rfl⟩ := List.append_of_mem hr'
    rw [List.append_assoc] at hp hjob hlent
    obtain ⟨cause, ans, hback⟩ := hp.returned_of_finish hjob hlent
    exact ⟨cause, ans, List.mem_append_left _ hback⟩

/-- A report on an ordinary failure is an ordinary failure. -/
theorem DatabaseM.Reports.ordinary {statement : Statement} {site : Option CallSite}
    {ans : Except Failure Result} {f : Failure} (h : Reports statement site ans (.error f))
    (hans : ∀ f, ans = .error f → f.IsOrdinary) : f.IsOrdinary := by
  cases h with
  | passed => exact hans _ rfl
  | rejected | unspelled => exact ⟨rfl, rfl⟩

/-- What troubles a task does so later on. -/
theorem History.Untroubled.of_append (h : History.Untroubled (g ++ g') i) : g.Untroubled i where
  not_interrupted hi := h.not_interrupted (List.mem_append_left _ hi)
  ordinary hf := h.ordinary (List.mem_append_left _ hf)

section Return

variable {k : LeaseId} {cause : Option Failure} {ans : Except Failure Unit}
  {o : Except Failure Result} {f : Failure}

end Return

namespace Regime.Possible

end Regime.Possible

/-- The failure with which a task ends, if it fails. -/
def Happening.failure? {S : Setting} {O : Interface} (i : TaskId) :
    Happening S O → Option Failure
  | .finish j (.error f) => if i = j then some f else none
  | _ => none

/-- The failure of a request to a pool, if a happening is one. -/
def Happening.refusal? : Happening c.setting c.requests → Option Failure
  | .deed _ (.answer (.inr (.inl _)) (.error f)) => some f
  | _ => none

end PooledSql
