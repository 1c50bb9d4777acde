import PooledSql.Proofs.Database.Attention
import PooledSql.Proofs.Database.Eviction

/-!
# Isolation

Units of work may run at the same time, and one connection may be lent out again and again under
names of its own. If the pool hands out no connection that is checked out or has been evicted
(`History.Exclusive`), and if the work of each unit waits for its queries
(`Surroundings.Attentive`), then the statements on a connection are those of the units that it has
been lent to, one unit after the other (`Regime.Run.isolated`).

* `History.executions`: the statements that are run on some connections.
* `History.statements`: the statements that a task runs.
* `History.unit`: the tasks that act for the unit of work that a connection has been lent to.
-/

namespace PooledSql

variable {c : Client} {D : Surroundings c} {a a' g g' h : History c.setting c.requests}
  {i j t : TaskId} {k k' : LeaseId} {run : RunId} {statement : Statement} {token : TokenId}
  {x : Deed c} {e : Happening c.setting c.requests} {p : LeaseId → Bool}

/-- The connection that an exchange runs a statement on. -/
def Exchange.execution? : Deed c → Option LeaseId
  | .call (.inr (.inl (.execute k _ _))) => some k
  | _ => none

/-- An exchange runs a statement if it asks for that. -/
theorem Exchange.execution?_eq_some_iff :
    x.execution? = some k ↔ ∃ run statement, x = .requests (.execute k run statement) := by
  constructor
  · intro hx
    unfold execution? at hx
    split at hx <;> cases hx
    exact ⟨_, _, rfl⟩
  · rintro ⟨run, statement, rfl⟩
    rfl

/-- What runs a statement on a connection passes there. -/
theorem Exchange.lease?_of_execution? (hx : x.execution? = some k) : x.lease? = some k := by
  obtain ⟨run, statement, rfl⟩ := execution?_eq_some_iff.mp hx
  rfl

namespace History

/-- The statements that are run on some connections, in order. -/
def executions (h : History c.setting c.requests) (p : LeaseId → Bool) :
    History c.setting c.requests :=
  h.filter fun
    | .deed _ x => x.execution?.any p
    | _ => false

/-- The statements that a task runs, in order. -/
def statements (h : History c.setting c.requests) (t : TaskId) : History c.setting c.requests :=
  ((h.of t).filter (·.execution?.isSome)).map (.deed t)

/-- The loans, in order. -/
def loans (h : History c.setting c.requests) : List LeaseId := h.filterMap loan?

/-- The task that a connection has been lent to. -/
def borrowers (h : History c.setting c.requests) (k : LeaseId) : List TaskId :=
  h.filterMap fun
    | .deed i x => if loan? (.deed i x) = some k then some i else none
    | _ => none

/-- The tasks that act for the unit of work that a connection has been lent to: its borrower, and
the queries that are issued on the connection, in order. -/
def unit (h : History c.setting c.requests) (k : LeaseId) : List TaskId :=
  h.borrowers k ++ h.queries k

/-- Whether a scope has been opened on a connection. -/
def Scoped (h : History c.setting c.requests) (k : LeaseId) : Prop :=
  ∃ i state scope, .deed i (.enters (.openScope k state) scope) ∈ h

/-- Whether pools hand out no connection that is checked out or has been evicted; `conn` tells which
connection has been lent out under a name. -/
def Exclusive {Conn : Type} (h : History c.setting c.requests) (conn : LeaseId → Conn) : Prop :=
  ∀ (g g' : History c.setting c.requests) i pool k,
    h = g ++ .deed i (.served (.acquire pool) (.ok k)) :: g' →
    ∀ k', conn k' = conn k → g.Lent k' → g.Returned k' ∧ ¬ g.Evicted k'

@[simp]
theorem executions_append : executions (g ++ g') p = executions g p ++ executions g' p :=
  List.filter_append ..

@[simp]
theorem loans_append : loans (g ++ g') = loans g ++ loans g' := List.filterMap_append

@[simp]
theorem borrowers_append : borrowers (g ++ g') k = borrowers g k ++ borrowers g' k :=
  List.filterMap_append

/-- A statement on a connection is run by some task. -/
theorem mem_executions_iff :
    e ∈ executions h p ↔ e ∈ h ∧ ∃ t k run statement,
      e = .deed t (.requests (.execute k run statement)) ∧ p k = true := by
  rw [executions, List.mem_filter]
  refine and_congr_right fun _ => ?_
  constructor
  · intro he
    -- only the request for a run counts
    match e, he with
    | .deed t x, he =>
      cases hx : x.execution? with
      | none => simp [hx] at he
      | some k =>
        obtain ⟨run, statement, rfl⟩ := Exchange.execution?_eq_some_iff.mp hx
        exact ⟨t, k, run, statement, rfl, he⟩
  · rintro ⟨t, k, run, statement, rfl, hk⟩
    exact hk

/-- A statement is one of those that are run on its connection. -/
theorem executions_execution :
    executions [.deed t (.requests (.execute k run statement) : Deed c)] p =
      if p k then [.deed t (.requests (.execute k run statement))] else [] := by
  rw [executions, List.filter_cons]
  rfl

/-- The statements that are run on a connection are part of what passes there. -/
theorem executions_eq_filter :
    executions h (· == k) = (h.traffic k).filter fun
      | .deed _ x => x.execution?.isSome
      | _ => false := by
  rw [executions, traffic, List.filter_filter]
  refine List.filter_congr fun e _ => ?_
  cases e with
  | deed t x =>
    cases hx : x.execution? with
    | none => simp [hx]
    | some k' => simp [Happening.passesOn, Exchange.lease?_of_execution? hx, hx]
  | _ => rfl

/-- The statements that a task runs on one connection only are part of what it does there. -/
theorem filter_part (honly : ∀ x k', x ∈ h.of t → x.execution? = some k' → k' = k) :
    ((h.part k t).filter fun
      | .deed _ x => x.execution?.isSome
      | _ => false) = h.statements t := by
  rw [part, statements, List.filter_map, List.filter_filter]
  refine congrArg _ (List.filter_congr fun x hx => ?_)
  cases hk : x.execution? with
  | none => simp [hk]
  | some k' => simp [hk, Exchange.lease?_of_execution? hk, honly x k' hx hk]

/-- A connection has been lent to those that borrow it. -/
theorem mem_borrowers_iff :
    i ∈ borrowers h k ↔ ∃ pool, .deed i (.served (.acquire pool) (.ok k)) ∈ h := by
  rw [borrowers, List.mem_filterMap]
  constructor
  · rintro ⟨e, he, hi⟩
    cases e with
    | deed j x =>
      obtain ⟨hloan, rfl⟩ : loan? (.deed j x) = some k ∧ j = i := by simpa using hi
      obtain ⟨j', pool, hloan⟩ := loan?_eq_some_iff.mp hloan
      cases hloan
      exact ⟨pool, he⟩
    | _ => cases hi
  · rintro ⟨pool, he⟩
    exact ⟨_, he, if_pos rfl⟩

/-- Of two loans, one comes after the other. -/
theorem loan_order (hk : h.Lent k) (hk' : h.Lent k') (hne : k' ≠ k) :
    (∃ g i pool g', h = g ++ .deed i (.served (.acquire pool) (.ok k)) :: g' ∧ Lent g k') ∨
      ∃ g i pool g', h = g ++ .deed i (.served (.acquire pool) (.ok k')) :: g' ∧ Lent g k := by
  obtain ⟨i, pool, hmem⟩ := hk
  obtain ⟨i', pool', hmem'⟩ := hk'
  obtain ⟨g, g', rfl⟩ := List.append_of_mem hmem
  rcases List.mem_append.mp hmem' with hmem' | hmem'
  · exact .inl ⟨g, i, pool, g', rfl, i', pool', hmem'⟩
  · rcases List.mem_cons.mp hmem' with heq | hmem'
    · cases heq
      exact absurd rfl hne
    · obtain ⟨m, m', rfl⟩ := List.append_of_mem hmem'
      exact .inr ⟨g ++ .deed i (.served (.acquire pool) (.ok k)) :: m, i', pool', m', by simp,
        i, pool, by simp⟩

/-- What has been lent before is checked in when a connection is lent out again, and has not been
evicted. -/
theorem Exclusive.before_onLoan {Conn : Type} {conn : LeaseId → Conn} (hpool : h.Exclusive conn)
    (heq : h = g ++ g') (hk : g.OnLoan k)
    (hk' : g.Lent k') (hne : k' ≠ k) (hconn : conn k' = conn k) :
    ∃ p q : History c.setting c.requests, g = p ++ q ∧ Returned p k' ∧ ¬ Evicted p k' := by
  rcases loan_order hk.1 hk' hne with ⟨p, i, pool, q, rfl, hlent⟩ | ⟨p, i, pool, q, rfl, hlent⟩
  · obtain ⟨hreturned, hevicted⟩ := hpool p (q ++ g') i pool k (by simp [heq]) k' hconn hlent
    exact ⟨p, _, rfl, hreturned, hevicted⟩
  · obtain ⟨⟨j, cause, hreturned⟩, -⟩ :=
      hpool p (q ++ g') i pool k' (by simp [heq]) k hconn.symm hlent
    exact absurd ⟨j, cause, List.mem_append_left _ hreturned⟩ hk.2

end History

namespace Regime.Possible

/-- A statement is run by a query on its connection, or by a query on a pool that the connection has
been lent to. -/
theorem execution_cases
    (hp : D.regime.Possible (g ++ .deed t (.requests (.execute k run statement)) :: g')) :
    (∃ token, g.jobs[t]? = some (.query (.scoped k statement token) token)) ∨
      ∃ pool source params token pid pid',
        g.jobs[t]? = some (.query (.pooled pool source params token) token) ∧
        g.of t = DatabaseM.lending pool k pid ++ (.does (.isCancelled token) false ::
          .inquires (.pid k) pid' :: DatabaseM.preparing k run statement token) := by
  obtain ⟨job, hjob, hlicensed⟩ := hp.licensed id
  cases hlicensed with
  | plain he => exact he.elim
  | executeScoped he => exact .inl ⟨_, he ▸ hjob⟩
  | executePooled he hl =>
    subst he
    obtain ⟨pid, pid', -, hof⟩ := hp.executed_of_pooled hjob
    exact .inr ⟨_, _, _, _, pid, pid', hjob, hof⟩

/-- A scope has been opened on a connection with queries on it. -/
theorem scoped_of_job (hp : D.regime.Possible h)
    (ht : h.jobs[t]? = some (.query (.scoped k statement token) token)) : h.Scoped k := by
  obtain ⟨i, b, pool, pid, state, scope, u, hopen⟩ := hp.opened_of_scoped ht
  refine ⟨i, state, scope, History.mem_of_iff.mp ?_⟩
  rw [hopen]
  simp [Scope.opening]

/-- A task that is lent a connection runs statements on that connection alone, and only if it is a
query on a pool. -/
theorem execution_of_borrower {pool : PoolId} (hp : D.regime.Possible h)
    (hlent : .deed i (.served (.acquire pool) (.ok k)) ∈ h)
    (hexecution : .deed i (.requests (.execute k' run statement)) ∈ h) :
    k' = k ∧ ∃ source params token,
      h.jobs[i]? = some (.query (.pooled pool source params token) token) := by
  obtain ⟨a, a', ha⟩ := List.append_of_mem hlent
  obtain ⟨g, g', rfl⟩ := List.append_of_mem hexecution
  have hpa := ha ▸ hp
  obtain ⟨⟨job, hjob⟩, -⟩ := hpa.started_of_deed
  -- a task has one job
  have hsame : ∀ {job'}, (History.jobs g)[i]? = some job' → job' = job := by
    intro job' hg
    have hj : (History.jobs (a ++ .deed i (.served (.acquire pool) (.ok k)) :: a'))[i]? =
        some job :=
      History.jobs_mono hjob
    rw [← ha, History.jobs_mono hg] at hj
    exact Option.some.inj hj
  -- a query of a scope is lent nothing; a query on a pool runs its statement on what it is lent
  -- first
  rcases hp.execution_cases with ⟨token, hg⟩ | ⟨pool', source, params, token, pid, pid', hg, hof⟩
  · obtain rfl := hsame hg
    obtain ⟨l, -, hasks⟩ := hpa.asks_of_answer hjob
    have hasks := Fiber.asks_map_iff.mp (TaskM.asks_settle_call hasks)
    rcases DatabaseM.asks_execute_call hasks with
      ⟨_, -, hw⟩ | ⟨_, _, _, _, _, -, -, hw⟩ <;> cases hw
  · obtain rfl := hsame hg
    obtain ⟨rfl, -⟩ := hpa.lent_of_pooled hjob
    have hjob : (History.jobs (g ++ .deed i (.requests (.execute k' run statement)) :: g'))[i]? =
        some _ :=
      History.jobs_mono hg
    have hlent' : Exchange.served (.acquire pool) (.ok k') ∈
        History.of (g ++ .deed i (.requests (.execute k' run statement)) :: g') i := by
      rw [History.of_append, hof]
      simp [DatabaseM.lending]
    obtain ⟨rest, hfirst⟩ := hp.of_eq_of_lent hjob hlent
    obtain ⟨rest', hfirst'⟩ := hp.of_eq_of_lent hjob (History.mem_of_iff.mp hlent')
    obtain ⟨-, hserved⟩ := List.cons.inj (hfirst'.symm.trans hfirst)
    cases (List.cons.inj hserved).1
    exact ⟨rfl, source, params, token, hjob⟩

/-- Statements are run on connections that are on loan, where the queries of scopes are run one at a
time. -/
theorem onLoan_of_execution (hp : D.regime.Possible h) (hone : ∀ k, h.Scoped k → h.OneByOne k)
    (heq : h = g ++ .deed t (.requests (.execute k run statement)) :: g') : g.OnLoan k := by
  have hpg : D.regime.Possible g := (heq ▸ hp).of_append
  -- a query of a scope is issued on loan and over by the return; a query on a pool gives back its
  -- own connection, afterwards
  rcases (heq ▸ hp).execution_cases with
    ⟨token, hjob⟩ | ⟨pool, source, params, token, pid, pid', hjob, hof⟩
  · have hsame : h.jobs[t]? = some (.query (.scoped k statement token) token) :=
      heq ▸ History.jobs_mono hjob
    constructor
    · obtain ⟨p, j, q, rfl⟩ := hpg.issued hjob
      obtain ⟨i, pool, hlent⟩ := hpg.issued_on_loan.1
      exact ⟨i, pool, List.mem_append_left _ hlent⟩
    · intro hreturned
      exact (heq ▸ hp).started_of_deed.2
        (hp.over_of_returned (hone k (hp.scoped_of_job hsame)) heq hreturned hsame)
  · have hlent : .deed t (.served (.acquire pool) (.ok k)) ∈ g := by
      rw [← History.mem_of_iff, hof]
      simp [DatabaseM.lending]
    refine ⟨⟨t, pool, hlent⟩, ?_⟩
    rintro ⟨i, cause, hreturn⟩
    obtain rfl := hpg.eq_of_passing_pooled hjob hlent hreturn rfl
    rw [← History.mem_of_iff, hof] at hreturn
    simp [DatabaseM.lending, DatabaseM.preparing] at hreturn
    cases hreturn

/-- A connection is lent to one task. -/
theorem borrowers_eq {pool : PoolId} (hp : D.regime.Possible h)
    (hlent : .deed i (.served (.acquire pool) (.ok k)) ∈ h) : h.borrowers k = [i] := by
  obtain ⟨g, g', rfl⟩ := List.append_of_mem hlent
  -- it is not lent before, and not lent again
  have hbefore : History.borrowers g k = [] := by
    rw [List.eq_nil_iff_forall_not_mem]
    intro j hj
    obtain ⟨pool', hj⟩ := History.mem_borrowers_iff.mp hj
    exact hp.not_lent_before ⟨j, pool', hj⟩
  have hafter : History.borrowers g' k = [] := by
    rw [List.eq_nil_iff_forall_not_mem]
    intro j hj
    obtain ⟨pool', hj⟩ := History.mem_borrowers_iff.mp hj
    obtain ⟨m, m', rfl⟩ := List.append_of_mem hj
    have hp' : D.regime.Possible ((g ++ .deed i (.served (.acquire pool) (.ok k)) :: m) ++
        .deed j (.served (.acquire pool') (.ok k)) :: m') := by
      simpa using hp
    exact hp'.not_lent_before ⟨i, pool, by simp⟩
  have hself : History.borrowers (c := c) [.deed i (.served (.acquire pool) (.ok k))] k = [i] := by
    simp [History.borrowers, History.loan?]
  rw [List.append_cons, History.borrowers_append, History.borrowers_append, hbefore, hself, hafter]
  rfl

/-- A connection that is given back has been lent out. -/
theorem lent_of_returned (hp : D.regime.Possible h) (hk : h.Returned k) : h.Lent k := by
  obtain ⟨i, cause, hmem⟩ := hk
  obtain ⟨g, g', rfl⟩ := List.append_of_mem hmem
  obtain ⟨job, b, u, lr, pool, pid, v, -, hof, -, -, rfl⟩ := hp.spent_of_returned
  refine ⟨i, pool, List.mem_append_left _ (History.mem_of_iff.mp ?_)⟩
  rw [hof]
  simp [DatabaseM.lending]

/-- A query of a scope runs statements on its connection alone. -/
theorem execution_of_query (hp : D.regime.Possible h)
    (hjob : h.jobs[t]? = some (.query (.scoped k statement token) token)) {statement' : Statement}
    (hexecution : .deed t (.requests (.execute k' run statement')) ∈ h) : k' = k := by
  obtain ⟨g, g', rfl⟩ := List.append_of_mem hexecution
  rcases hp.execution_cases with ⟨token', hg⟩ | ⟨_, _, _, _, _, _, hg, -⟩
  · cases (History.jobs_mono hg).symm.trans hjob
    rfl
  · cases (History.jobs_mono hg).symm.trans hjob

/-- A task that is lent a connection runs no statements unless it is a query on a pool. -/
theorem statements_of_borrower {pool : PoolId} (hp : D.regime.Possible h)
    (hlent : .deed i (.served (.acquire pool) (.ok k)) ∈ h)
    (hnone : ∀ source params token,
      h.jobs[i]? ≠ some (.query (.pooled pool source params token) token)) :
    h.statements i = [] := by
  have hfilter : (h.of i).filter (·.execution?.isSome) = [] := by
    refine List.filter_eq_nil_iff.mpr fun x hx hexecution => ?_
    obtain ⟨k', hk'⟩ := Option.isSome_iff_exists.mp hexecution
    obtain ⟨run, statement, rfl⟩ := Exchange.execution?_eq_some_iff.mp hk'
    obtain ⟨-, source, params, token, hjob⟩ :=
      hp.execution_of_borrower hlent (History.mem_of_iff.mp hx)
    exact hnone source params token hjob
  rw [History.statements, hfilter, List.map_nil]

/-- The statements on a connection that has been lent to a query on a pool are those of the
query. -/
theorem executions_of_pooled {pool : PoolId} {source : Source} {params : Value}
    (hp : D.regime.Possible h)
    (hjob : h.jobs[i]? = some (.query (.pooled pool source params token) token))
    (hlent : .deed i (.served (.acquire pool) (.ok k)) ∈ h) :
    h.executions (· == k) = h.statements i := by
  have htraffic : h.traffic k = h.part k i :=
    History.traffic_eq_map fun t x hx hk => hp.eq_of_passing_pooled hjob hlent hx hk
  rw [History.executions_eq_filter, htraffic]
  refine History.filter_part fun x k' hx hk' => ?_
  obtain ⟨run, statement, rfl⟩ := Exchange.execution?_eq_some_iff.mp hk'
  exact (hp.execution_of_borrower hlent (History.mem_of_iff.mp hx)).1

/-- The statements on a connection with queries on it are those of the queries, one after the other,
where they are run one at a time. -/
theorem executions_of_scoped (hp : D.regime.Possible h) (hone : h.OneByOne k)
    (hjob : h.jobs[t]? = some (.query (.scoped k statement token) token)) :
    h.executions (· == k) = (h.queries k).flatMap h.statements := by
  obtain ⟨i, b, pool, pid, state, scope, u, hopen⟩ := hp.opened_of_scoped hjob
  -- what is on the connection besides queries is its return
  have hreturns : ((h.returns k).filter fun
      | .deed _ x => x.execution?.isSome
      | _ => false) = [] := by
    refine List.filter_eq_nil_iff.mpr fun e he => ?_
    obtain ⟨-, j, x, rfl, hx⟩ := History.mem_returns_iff.mp he
    obtain ⟨cause, rfl | ⟨ans, rfl⟩⟩ := Exchange.returns_iff.mp hx <;> exact nofun
  rw [History.executions_eq_filter, hp.traffic_eq hopen hone (List.append_nil h).symm,
    List.filter_append, hreturns, List.append_nil, List.filter_flatMap]
  refine List.flatMap_congr fun s hs => History.filter_part fun x k' hx hk' => ?_
  obtain ⟨statement', token', hs⟩ := hp.job_of_mem_queries hs
  obtain ⟨run, statement'', rfl⟩ := Exchange.execution?_eq_some_iff.mp hk'
  exact hp.execution_of_query hs (History.mem_of_iff.mp hx)

/-- The statements on a connection are those of the unit of work that it has been lent to, one task
after the other. -/
theorem executions_of_lease (hp : D.regime.Possible h) (hone : ∀ k, h.Scoped k → h.OneByOne k)
    (hlent : h.Lent k) : h.executions (· == k) = (h.unit k).flatMap h.statements := by
  obtain ⟨i, pool, hlent⟩ := hlent
  rw [History.unit, hp.borrowers_eq hlent, List.singleton_append, List.flatMap_cons]
  -- the connection is lent to a query on a pool, or to a task that issues queries on it
  by_cases hpooled : ∃ source params token,
      h.jobs[i]? = some (.query (.pooled pool source params token) token)
  · obtain ⟨source, params, token, hjob⟩ := hpooled
    have hqueries : h.queries k = [] := by
      refine List.eq_nil_iff_forall_not_mem.mpr fun t ht => ?_
      obtain ⟨statement, token', ht⟩ := hp.job_of_mem_queries ht
      exact hp.not_scoped_of_pooled hjob hlent ht
    rw [hp.executions_of_pooled hjob hlent, hqueries, List.flatMap_nil, List.append_nil]
  rw [hp.statements_of_borrower hlent fun source params token hjob =>
    hpooled ⟨source, params, token, hjob⟩, List.nil_append]
  -- queries are issued on the connection, or none is
  by_cases hscoped : ∃ (t : TaskId) (statement : Statement) (token : TokenId),
      h.jobs[t]? = some (.query (.scoped k statement token) token)
  · obtain ⟨t, statement, token, hjob⟩ := hscoped
    exact hp.executions_of_scoped (hone k (hp.scoped_of_job hjob)) hjob
  · -- nobody runs a statement on the connection
    have hqueries : h.queries k = [] := by
      refine List.eq_nil_iff_forall_not_mem.mpr fun t ht => ?_
      obtain ⟨statement, token, ht⟩ := hp.job_of_mem_queries ht
      exact hscoped ⟨t, statement, token, ht⟩
    rw [hqueries, List.flatMap_nil]
    refine List.eq_nil_iff_forall_not_mem.mpr fun e he => ?_
    obtain ⟨hmem, t, k', run, statement, rfl, hk'⟩ := History.mem_executions_iff.mp he
    obtain rfl := eq_of_beq hk'
    obtain ⟨g, g', rfl⟩ := List.append_of_mem hmem
    rcases hp.execution_cases with ⟨token, hg⟩ | ⟨pool', source, params, token, pid, pid', hg, hof⟩
    · exact hscoped ⟨t, statement, token, History.jobs_mono hg⟩
    · have hlent' : .deed t (.served (.acquire pool') (.ok k')) ∈ g := by
        rw [← History.mem_of_iff, hof]
        simp [DatabaseM.lending]
      have ht := hp.borrowers_eq (List.mem_append_left _ hlent')
      rw [hp.borrowers_eq hlent] at ht
      cases ht
      have hjob := (hp.execution_of_borrower hlent hmem).2
      exact hpooled hjob

/-- A statement is run for the unit of work that its connection has been lent to. -/
theorem mem_unit_of_execution (hp : D.regime.Possible h)
    (heq : h = g ++ .deed t (.requests (.execute k run statement)) :: g') : t ∈ h.unit k := by
  rcases (heq ▸ hp).execution_cases with
    ⟨token, hjob⟩ | ⟨pool, source, params, token, pid, pid', hjob, hof⟩
  · exact List.mem_append_right _ (hp.mem_queries_of_job (heq ▸ History.jobs_mono hjob))
  · refine List.mem_append_left _ (History.mem_borrowers_iff.mpr ⟨pool, ?_⟩)
    rw [heq]
    refine List.mem_append_left _ (History.mem_of_iff.mp ?_)
    rw [hof]
    simp [DatabaseM.lending]

section Exclusive

variable {Conn : Type} {conn : LeaseId → Conn}

variable [DecidableEq Conn] {y : Conn}

/-- A connection that is on loan is so under the name that it has last been lent out under. -/
theorem loans_of_onLoan (hp : D.regime.Possible h) (hpool : h.Exclusive conn) (heq : h = g ++ g')
    (hk : g.OnLoan k) :
    ∃ l, g.loans.filter (conn · == conn k) = l ++ [k] ∧ k ∉ l := by
  obtain ⟨i, pool, hlent⟩ := hk.1
  obtain ⟨p, q, rfl⟩ := List.append_of_mem hlent
  have hpl : D.regime.Possible (p ++ .deed i (.served (.acquire pool) (.ok k)) :: q) :=
    (heq ▸ hp).of_append
  refine ⟨(History.loans p).filter (conn · == conn k), ?_, fun hmem => ?_⟩
  · -- a later loan of the connection would have to wait until this one is given back
    have hafter : (History.loans q).filter (conn · == conn k) = [] := by
      refine List.filter_eq_nil_iff.mpr fun k' hk' hconn => ?_
      obtain ⟨j, pool', hmem⟩ := History.lent_iff.mpr hk'
      obtain ⟨m, m', rfl⟩ := List.append_of_mem hmem
      obtain ⟨⟨j', cause, hreturned⟩, -⟩ :=
        hpool (p ++ .deed i (.served (.acquire pool) (.ok k)) :: m)
          (m' ++ g') j pool' k' (by simp [heq]) k (eq_of_beq hconn).symm ⟨i, pool, by simp⟩
      refine hk.2 ⟨j', cause, ?_⟩
      rw [← List.cons_append, ← List.append_assoc]
      exact List.mem_append_left _ hreturned
    have hself : (History.loans (c := c) [.deed i (.served (.acquire pool) (.ok k))]) = [k] := rfl
    rw [List.append_cons, History.loans_append, History.loans_append, hself,
      List.filter_append, hafter, List.filter_append]
    simp
  · exact hpl.not_lent_before (History.lent_iff.mpr (List.mem_of_mem_filter hmem))

/-- Nothing has been run under a name that is given only now. -/
theorem no_execution_before_loan {i : TaskId} {pool : PoolId} {k : LeaseId}
    (hp : D.regime.Possible h) (hone : ∀ k, h.Scoped k → h.OneByOne k)
    (heq : h = g ++ .deed i (.served (.acquire pool) (.ok k)) :: g') :
    g.executions (· == k) = [] := by
  refine List.eq_nil_iff_forall_not_mem.mpr fun e' he' => ?_
  obtain ⟨hmem, t, k', run, statement, rfl, hk⟩ := History.mem_executions_iff.mp he'
  obtain rfl := eq_of_beq hk
  obtain ⟨m, m', rfl⟩ := List.append_of_mem hmem
  have hplace : h = m ++ .deed t (.requests (.execute k' run statement)) ::
      (m' ++ .deed i (.served (.acquire pool) (.ok k')) :: g') := by
    simpa using heq
  obtain ⟨j, pool', hlent⟩ := (hp.onLoan_of_execution hone hplace).1
  exact (heq ▸ hp).not_lent_before ⟨j, pool', List.mem_append_left _ hlent⟩

/-- The statements on a connection are those under the names that it has been lent out under, one
after the other. -/
theorem executions_of_conn (hp : D.regime.Possible h) (hpool : h.Exclusive conn)
    (hone : ∀ k, h.Scoped k → h.OneByOne k) (heq : h = g ++ g') :
    g.executions (conn · == y) =
      (g.loans.filter (conn · == y)).flatMap fun k => g.executions (· == k) := by
  -- along the history, happening by happening
  induction g using List.reverseRecOn generalizing g' with
  | nil => rfl
  | append_singleton g e ih =>
    rw [List.append_assoc] at heq
    have ih := ih heq
    -- what is run on a connection under a name does not change by what is not
    have hsame : ∀ {ks : List LeaseId}, (∀ k' ∈ ks, History.executions [e] (· == k') = []) →
        ks.flatMap (fun k' => History.executions (g ++ [e]) (· == k')) =
          ks.flatMap fun k' => History.executions g (· == k') := fun hks =>
      List.flatMap_congr fun k' hk' => by
        rw [History.executions_append, hks k' hk', List.append_nil]
    rw [History.executions_append, ih, History.loans_append, List.filter_append,
      List.flatMap_append]
    -- a statement belongs to the last loan of its connection; anything else adds none
    by_cases he : ∃ t k run statement, e = .deed t (.requests (.execute k run statement))
    · obtain ⟨t, k, run, statement, rfl⟩ := he
      have hloans : History.loans (c := c) [.deed t (.requests (.execute k run statement))] = [] :=
        rfl
      rw [hloans, List.filter_nil, List.flatMap_nil, List.append_nil]
      -- of all connections, only that of the statement gets longer
      by_cases hy : conn k = y
      · subst hy
        have hk := hp.onLoan_of_execution hone heq
        obtain ⟨l, hl, hnot⟩ := hp.loans_of_onLoan hpool heq hk
        rw [hl, List.flatMap_append, List.flatMap_append, hsame, List.flatMap_singleton,
          List.flatMap_singleton, History.executions_append, List.append_assoc]
        · simp [History.executions_execution]
        · intro k' hk'
          rw [History.executions_execution, if_neg]
          rintro hkk
          exact hnot (eq_of_beq hkk ▸ hk')
      · rw [hsame, History.executions_execution, if_neg (by simpa using hy), List.append_nil]
        intro k' hk'
        rw [History.executions_execution, if_neg]
        rintro hkk
        obtain rfl := eq_of_beq hkk
        exact hy (eq_of_beq (List.mem_filter.mp hk').2)
    · have hnone : ∀ p, History.executions [e] p = [] := fun p => by
        refine List.eq_nil_iff_forall_not_mem.mpr fun e' he' => ?_
        obtain ⟨hmem, t, k, run, statement, rfl, -⟩ := History.mem_executions_iff.mp he'
        exact he ⟨t, k, run, statement, (List.mem_singleton.mp hmem).symm⟩
      rw [hnone, List.append_nil, hsame fun k' _ => hnone _, hsame fun k' _ => hnone _]
      have hnew : ((History.loans [e]).filter (conn · == y)).flatMap
          (fun k' => History.executions g (· == k')) = [] := by
        refine List.flatMap_eq_nil_iff.mpr fun k' hk' => ?_
        obtain ⟨i, pool, hloan⟩ := History.lent_iff.mpr (List.mem_of_mem_filter hk')
        obtain rfl := List.mem_singleton.mp hloan
        exact hp.no_execution_before_loan hone heq
      rw [hnew, List.append_nil]

end Exclusive

end Regime.Possible

/-- Whether the work on a connection waits for each of its queries before it starts another one and
before it ends. A transaction waits for its own commands by itself. -/
inductive Surroundings.Attentive (D : Surroundings c) (h : History c.setting c.requests)
    (k : LeaseId) : Prop
  | queries : h.OneByOne k → Attentive D h k
  | transaction {α : Type} {i : TaskId} {b l : List (Deed c)} {pool : PoolId} {pid : Option Nat}
      {scope : ScopeId} {work : ScopeId → DatabaseM c α} :
      D.regime.Performs h i b (Scope.transaction pool work) → (∀ scope, Public (work scope)) →
      h.of i = b ++ (Scope.opening pool k pid (some .notStarted) scope ++ l) →
      h.Attends i (b ++ Scope.opening pool k pid (some .notStarted) scope) k scope (work scope) →
      Attentive D h k

/-- If the work on a connection waits for its queries, then these are run one at a time. -/
theorem Surroundings.Attentive.oneByOne (hk : D.Attentive h k) (hp : D.regime.Possible h)
    (hpatient : h.Patient) : h.OneByOne k := by
  cases hk with
  | queries hone => exact hone
  | transaction hy hwork hof ha => exact hp.oneByOne_of_attends hpatient hy hwork hof ha

/-- Where the work of each unit waits for its queries, and the pool hands out no connection that is
checked out or has been evicted, the statements on each connection are those of the units of work
that it has been lent to, one unit after the other in the order of the loans. So no statement of
another unit comes between two statements of one, such as the `BEGIN` of a transaction and its
`COMMIT` or `ROLLBACK`; and no statement is run on a connection that has been evicted. -/
theorem Regime.Run.isolated {m : Machine c.setting c.requests (Ledger × D.World)} {Conn : Type}
    [DecidableEq Conn] {conn : LeaseId → Conn} (hr : D.regime.Run h m) (hpool : h.Exclusive conn)
    (hattentive : ∀ k, h.Scoped k → D.Attentive h k) :
    (∀ y, h.executions (conn · == y) = (h.loans.filter (conn · == y)).flatMap fun k =>
      (h.unit k).flatMap h.statements) ∧
    (∀ {a a' a'' : History c.setting c.requests} {s t u k k' r r' r'' st st' st''},
      h = a ++ .deed s (.requests (.execute k r st)) ::
        (a' ++ .deed t (.requests (.execute k r' st')) :: a'') →
      .deed u (.requests (.execute k' r'' st'')) ∈ a' → conn k' = conn k → k' = k ∧ u ∈ h.unit k) ∧
    ∀ {a a' : History c.setting c.requests} {t k k' r st},
      h = a ++ .deed t (.requests (.execute k r st)) :: a' → conn k' = conn k → ¬ a.Evicted k' := by
  have hp := hr.possible
  have hone :
      ∀ k, h.Scoped k → h.OneByOne k := fun k hk => (hattentive k hk).oneByOne hp hr.patient.2
  refine ⟨fun y => ?_, ?_, ?_⟩
  · rw [hp.executions_of_conn hpool hone (List.append_nil h).symm]
    refine List.flatMap_congr fun k hk => hp.executions_of_lease hone ?_
    exact History.lent_iff.mpr (List.mem_of_mem_filter hk)
  · intro a a' a'' s t u k k' r r' r'' st st' st'' heq hmem hconn
    obtain ⟨m, m', rfl⟩ := List.append_of_mem hmem
    have hbetween : h = (a ++ .deed s (.requests (.execute k r st)) :: m) ++
        .deed u (.requests (.execute k' r'' st'')) ::
          (m' ++ .deed t (.requests (.execute k r' st')) :: a'') := by
      simp [heq]
    have hafter : h = (a ++ .deed s (.requests (.execute k r st)) ::
        (m ++ .deed u (.requests (.execute k' r'' st'')) :: m')) ++
          .deed t (.requests (.execute k r' st')) :: a'' := by
      simp [heq]
    have hk' := hp.onLoan_of_execution hone hbetween
    have hk := hp.onLoan_of_execution hone hafter
    -- if the connection had been lent anew in between, it would be no longer on loan under the
    -- first name
    have hsame : k' = k := by
      by_contra hne
      obtain ⟨j, pool, hlent⟩ := (hp.onLoan_of_execution hone heq).1
      have hlent : History.Lent (a ++ .deed s (.requests (.execute k r st)) :: m) k :=
        ⟨j, pool, List.mem_append_left _ hlent⟩
      obtain ⟨p, q, hpq, ⟨j', cause, hreturned⟩, -⟩ :=
        hpool.before_onLoan hbetween hk' hlent (Ne.symm hne) hconn.symm
      refine hk.2 ⟨j', cause, ?_⟩
      have hbefore : Happening.deed j' (.requests (.release k cause)) ∈
          a ++ .deed s (.requests (.execute k r st)) :: m := hpq ▸ List.mem_append_left _ hreturned
      rw [← List.cons_append, ← List.append_assoc]
      exact List.mem_append_left _ hbefore
    exact ⟨hsame, hsame ▸ hp.mem_unit_of_execution hbetween⟩
  · intro a a' t k k' r st heq hconn hevicted
    have hpa : D.regime.Possible a := (heq ▸ hp).of_append
    have hk := hp.onLoan_of_execution hone heq
    obtain ⟨i, f, hreturn⟩ := hevicted
    -- an evicted connection has been given back, so it is now on loan under another name
    have hne : k' ≠ k := by
      rintro rfl
      exact hk.2 ⟨i, some f, hreturn⟩
    obtain ⟨p, q, rfl, ⟨j, cause, hreturn'⟩, hnot⟩ :=
      hpool.before_onLoan heq hk (hpa.lent_of_returned ⟨i, some f, hreturn⟩) hne hconn
    -- but it is given back once, and a pool does not hand out what has been evicted
    obtain ⟨l, l', hl⟩ := List.append_of_mem (History.mem_of_iff.mpr hreturn)
    obtain ⟨n, n', hn⟩ :=
      List.append_of_mem (History.mem_of_iff.mpr (List.mem_append_left q hreturn'))
    obtain ⟨-, -, rfl, -⟩ := hpa.returned_once hl hn
    exact hnot ⟨j, f, hreturn'⟩

namespace History

/-- A connection has been given back if some task has asked for that. -/
theorem returned_iff : h.Returned k ↔ h.any (fun
    | .deed _ (.call (.inr (.inl (.release k' _)))) => k' == k
    | _ => false) = true := by
  rw [List.any_eq_true]
  constructor
  · rintro ⟨i, cause, hmem⟩
    exact ⟨_, hmem, beq_self_eq_true k⟩
  · rintro ⟨e, hmem, he⟩
    split at he
    next i k' cause =>
      obtain rfl := eq_of_beq he
      exact ⟨i, cause, hmem⟩
    next => cases he

instance : Decidable (h.Returned k) := decidable_of_iff _ returned_iff.symm

/-- Whether pools hand out no connection that is checked out or evicted can be told from the
loans. -/
theorem exclusive_iff {Conn : Type} {conn : LeaseId → Conn} :
    h.Exclusive conn ↔ Throughout (fun g e => ∀ k ∈ loan? e, ∀ k' ∈ g.loans, conn k' = conn k →
      g.Returned k' ∧ ¬ g.Evicted k') [] h := by
  rw [throughout_iff]
  constructor
  · intro hpool a e a' heq k hk k' hk' hconn
    obtain ⟨i, pool, rfl⟩ := loan?_eq_some_iff.mp hk
    exact hpool a a' i pool k heq k' hconn (lent_iff.mpr hk')
  · intro hall g g' i pool k heq k' hconn hlent
    exact hall g _ g' heq k rfl k' (lent_iff.mp hlent) hconn

instance {Conn : Type} [DecidableEq Conn] {conn : LeaseId → Conn} : Decidable (h.Exclusive conn) :=
  decidable_of_iff _ exclusive_iff.symm

end History

/-- A connection that a scope has been opened on has been lent out. -/
theorem Regime.Possible.lent_of_scoped (hp : D.regime.Possible h) (hk : h.Scoped k) : h.Lent k := by
  obtain ⟨i, state, scope, hmem⟩ := hk
  obtain ⟨g, g', rfl⟩ := List.append_of_mem hmem
  obtain ⟨l, pool, pid, hof⟩ := hp.lending_of_open
  refine ⟨i, pool, List.mem_append_left _ (History.mem_of_iff.mp ?_)⟩
  rw [hof]
  simp [DatabaseM.lending]

/-- A transaction with one query. -/
def Scope.reading : DatabaseM .silent Reply :=
  transaction 0 fun scope => do
    let q ← submit scope (.ofString "SELECT 1") (.tuple [])
    discard q.result
    return .value .null

/-- A transaction with one query uses a database by what it offers. -/
theorem Scope.reading_public : Public reading :=
  .transaction 0 fun scope => .bind (.submitIn scope _ _) fun q =>
    .bind (.bind (.await (.inl (.join q.task)) trivial) fun _ => .ofExcept (.ok ())) fun _ =>
      .ofExcept (.ok _)

/-- Two transactions that are under way at the same time have one connection in turn. -/
theorem isolated_reading :
    ∃ (h : History Client.silent.setting Client.silent.requests)
      (m : Machine Client.silent.setting Client.silent.requests (Ledger × Unit)),
      (Surroundings.solo _ Scope.reading_public).regime.Run h m ∧ h.loans = [0, 1] ∧
      (h.executions fun _ => true).length = 6 ∧
      h.executions (fun _ => true) = ([0, 1] : List LeaseId).flatMap fun k =>
        (h.unit k).flatMap h.statements := by
  have hstart : (Surroundings.solo _ Scope.reading_public).regime.Run [] { world := ({}, ()) } :=
    .start rfl
  have hlaunched := ((hstart.launch ⟨(), rfl⟩).launch ⟨(), rfl⟩).runTurns 2
  have hbegun := (((hlaunched.grant 0 0 (by decide)).runTurns 1).grant 2 1 (by decide)).runTurns 2
  have hread := ((hbegun.grant 3 1 (by decide)).runTurns 2)
  have hcommitted := (hread.grant 4 1 (by decide)).runTurns 1
  have hreturned := (hcommitted.grant 0 1 (by decide)).runTurns 1
  have hagain := (((hreturned.grant 1 1 (by decide)).runTurns 1).grant 5 2 (by decide)).runTurns 2
  have hreread := ((hagain.grant 6 2 (by decide)).runTurns 2)
  have hrecommitted := (hreread.grant 7 2 (by decide)).runTurns 1
  obtain ⟨h, m, hr, hpool, hloans, hone, hlength⟩ : ∃ h m,
      (Surroundings.solo _ Scope.reading_public).regime.Run h m ∧ h.Exclusive (fun _ => ()) ∧
      h.loans = [0, 1] ∧ (∀ k ∈ ([0, 1] : List LeaseId), h.OneByOne k) ∧
      (h.executions fun _ => true).length = 6 :=
    ⟨_, _, hrecommitted, by decide +kernel, by decide +kernel, by decide +kernel, by decide +kernel⟩
  refine ⟨h, m, hr, hloans, hlength, ?_⟩
  have hattentive : ∀ k, h.Scoped k → (Surroundings.solo _ Scope.reading_public).Attentive h k := by
    intro k hk
    refine .queries (hone k ?_)
    rw [← hloans]
    exact History.lent_iff.mp (hr.possible.lent_of_scoped hk)
  have hisolated := (hr.isolated hpool hattentive).1 ()
  rw [hloans] at hisolated
  exact hisolated

end PooledSql
