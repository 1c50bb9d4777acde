import PooledSql.Proofs.Database.Registration

/-!
# Possession

Some queries have their connection to themselves while they are not over: a query on a pool has the
one that it has been lent, and a query of a scope has that of the scope if the queries there are run
one at a time (`History.Holds`). Nobody else does anything on the connection then
(`Regime.Possible.alone_of_holds`).
-/

namespace PooledSql

variable {c : Client} {D : Surroundings c} {a a' g g' h : History c.setting c.requests}
  {i j t : TaskId} {k : LeaseId} {pool : PoolId} {source : Source} {params : Value} {run : RunId}
  {statement : Statement} {token : TokenId} {x : Deed c}

namespace History

/-- Whether the queries on a connection are run one at a time: those before are over when another
one is started, and all of them are when the connection is given back. -/
structure OneByOne (h : History c.setting c.requests) (k : LeaseId) : Prop where
  started : ∀ {g g' : History c.setting c.requests} {i statement token t},
    h = g ++ .issue i k statement token t :: g' → g.Rests k
  returned : ∀ {g g' : History c.setting c.requests} {i cause},
    h = g ++ .deed i (.requests (.release k cause)) :: g' → g.Rests k

/-- Whether a query has a connection to itself until it is over. -/
inductive Holds (h : History c.setting c.requests) (j : TaskId) (token : TokenId)
    (k : LeaseId) : Prop
  | pooled {pool : PoolId} {source : Source} {params : Value} :
      h.jobs[j]? = some (.query (.pooled pool source params token) token) →
      .deed j (.served (.acquire pool) (.ok k)) ∈ h → Holds h j token k
  | inScope {statement : Statement} :
      h.jobs[j]? = some (.query (.scoped k statement token) token) → h.OneByOne k →
      Holds h j token k

/-- A query that has a connection to itself runs a statement. -/
theorem Holds.runs (hk : h.Holds j token k) :
    ∃ job : Job c.setting, h.jobs[j]? = some job ∧ job.Runs token := by
  cases hk with
  | pooled hjob _ => exact ⟨_, hjob, .pooled ..⟩
  | inScope hjob _ => exact ⟨_, hjob, .statement ..⟩

end History

namespace Regime.Possible

/-- A connection with queries of a scope on it has been lent to the task that has opened the
scope. -/
theorem opened_of_scoped (hp : D.regime.Possible h)
    (ht : h.jobs[t]? = some (.query (.scoped k statement token) token)) :
    ∃ i b pool pid state scope u, h.of i = b ++ (Scope.opening pool k pid state scope ++ u) := by
  obtain ⟨g, i, g', rfl⟩ := hp.issued ht
  obtain ⟨g₀, scope, state, pid, rfl, hopen⟩ := hp.found_open
  obtain ⟨p, o, state', p', rfl⟩ := hp.of_append.of_append.opened_of_scope? hopen
  obtain ⟨l, pool, pid', hl⟩ := hp.of_append.of_append.lending_of_open
  refine ⟨o, l, pool, pid', state', scope, History.of (p' ++ ((Scope.consulting scope k state pid
    token).map (.deed i) ++ .deed i (.does (.spawn (.query (.scoped k statement token) token)) t) ::
      g')) o, ?_⟩
  simp [hl, Happening.deed?, Scope.opening]

/-- No scope is opened on a connection that has been lent to a query on a pool. -/
theorem not_scoped_of_pooled (hp : D.regime.Possible h)
    (hjob : h.jobs[j]? = some (.query (.pooled pool source params token) token))
    (hlent : .deed j (.served (.acquire pool) (.ok k)) ∈ h) {statement : Statement}
    {token' : TokenId} :
    h.jobs[t]? ≠ some (.query (.scoped k statement token') token') := by
  intro ht
  obtain ⟨i, b, pool', pid, state, scope, u, hi⟩ := hp.opened_of_scoped ht
  obtain ⟨rest, hj⟩ := hp.of_eq_of_lent hjob hlent
  have hj : h.of j = [.requests (.acquire pool)] ++ .served (.acquire pool) (.ok k) :: rest := hj
  have hi' : h.of i = (b ++ [.requests (.acquire pool')]) ++ .served (.acquire pool') (.ok k) ::
      (.inquires (.pid k) pid :: .does (.log (.acquired pid)) () ::
        .enters (.openScope k state) scope :: u) := by
    rw [hi]
    simp [Scope.opening, DatabaseM.lending]
  obtain ⟨rfl, -⟩ := hp.lent_unique hi' hj
  -- a query on a pool opens no scope
  have hopen : .deed i (.enters (.openScope k state) scope) ∈ h := by
    rw [← History.mem_of_iff, hi']
    simp
  obtain ⟨p, p', rfl⟩ := List.append_of_mem hopen
  have hasks := hp.asks_of_job hjob id
  rcases DatabaseM.asks_of_runs (.pooled ..) hasks with he | ⟨_, he⟩ | ⟨_, he⟩ |
    ⟨_, _, _, he⟩ | ⟨_, _, he⟩
  · exact he
  all_goals cases he

/-- Whatever passes on a connection that has been lent to a query on a pool passes with that
query. -/
theorem eq_of_passing_pooled (hp : D.regime.Possible h)
    (hjob : h.jobs[j]? = some (.query (.pooled pool source params token) token))
    (hlent : .deed j (.served (.acquire pool) (.ok k)) ∈ h) (hx : .deed t x ∈ h)
    (hlease : x.lease? = some k) : t = j := by
  obtain ⟨rest, hj⟩ := hp.of_eq_of_lent hjob hlent
  replace hj : h.of j = [.requests (.acquire pool)] ++ .served (.acquire pool) (.ok k) :: rest := hj
  -- a connection is lent once, so whoever has been lent this one is the query
  have hborrower : ∀ {b v : List (Deed c)} {pool' pid},
      h.of t = b ++ (DatabaseM.lending pool' k pid ++ v) → t = j := by
    intro b v pool' pid ht
    replace ht : h.of t = (b ++ [.requests (.acquire pool')]) ++ .served (.acquire pool') (.ok k) ::
        (.inquires (.pid k) pid :: .does (.log (.acquired pid)) () :: v) := by
      rw [ht]
      simp [DatabaseM.lending]
    exact (hp.lent_unique ht hj).1
  have hexecute :
      ∀ {run statement}, .deed t (.requests (.execute k run statement)) ∈ h → t = j := by
    intro run statement hcall
    obtain ⟨p, q, rfl⟩ := List.append_of_mem hcall
    obtain ⟨job, hjob', hlicensed⟩ := hp.licensed id
    cases hlicensed with
    | plain he => exact he.elim
    | executeScoped he =>
      subst he
      exact absurd (History.jobs_mono hjob') (hp.not_scoped_of_pooled hjob hlent)
    | @executePooled b l₁ _ _ _ pool' pid _ _ token' out _ hl =>
      have ht : History.of (p ++ .deed t (.requests (.execute k run statement)) :: q) t =
          b ++ (DatabaseM.lending pool' k pid ++ .does (.isCancelled token') out ::
            (l₁ ++ .requests (.execute k run statement) :: History.of q t)) := by
        rw [History.of_append, hl]
        simp [Happening.deed?]
      exact hborrower ht
  -- what is given back has been lent to whoever gives it back
  have hrelease : ∀ {cause}, .deed t (.requests (.release k cause)) ∈ h → t = j := by
    intro cause hcall
    obtain ⟨p, q, rfl⟩ := List.append_of_mem hcall
    obtain ⟨_, b, u, lr, pool', pid, v, -, hl, -, -, rfl⟩ := hp.spent_of_returned
    have ht : History.of (p ++ .deed t (.requests (.release k cause)) :: q) t =
        b ++ (DatabaseM.lending pool' k pid ++
          (v ++ (lr ++ .requests (.release k cause) :: History.of q t))) := by
      rw [History.of_append, hl]
      simp [Happening.deed?]
    exact hborrower ht
  -- what is answered has been asked for
  have hasked :
      ∀ {w : Pool.Wait} {ans}, .deed t (.served w ans) ∈ h → .deed t (.requests w) ∈ h := by
    intro w ans hans
    obtain ⟨p, q, rfl⟩ := List.append_of_mem hans
    exact List.mem_append_left _ hp.mem_call_of_answer
  rcases Exchange.lease?_cases hlease with
    ⟨run, statement, rfl | ⟨ans, rfl⟩⟩ | ⟨cause, rfl | ⟨ans, rfl⟩⟩
  · exact hexecute hx
  · exact hexecute (hasked hx)
  · exact hrelease hx
  · exact hrelease (hasked hx)

/-- Of two queries on a connection where queries are run one at a time, one is over when the other
one is started. -/
theorem over_of_oneByOne {statement statement' : Statement} {token' : TokenId} {i : TaskId}
    (hp : D.regime.Possible h) (hone : h.OneByOne k) (heq : h = a ++ a')
    (hi : a.jobs[i]? = some (.query (.scoped k statement token) token))
    (hj : a.jobs[j]? = some (.query (.scoped k statement' token') token')) (hij : i < j) :
    a.Finished i := by
  obtain ⟨p, e, q, rfl, he, rfl⟩ := History.exists_of_job hj
  replace heq : h = p ++ e :: (q ++ a') := by
    rw [heq]
    simp
  obtain ⟨o, statement'', token'', n, rfl⟩ := (heq ▸ hp).issues_of_starts ⟨_, _, he⟩
  rw [History.jobs_append, List.getElem?_append_left hij] at hi
  exact (hone.started heq i statement token hi).mono

/-- Queries of a scope have been started before the connection is given back. -/
theorem started_of_returned {i : TaskId} {cause : Option Failure} (hp : D.regime.Possible h)
    (heq : h = a ++ .deed i (.requests (.release k cause)) :: a')
    (hj : h.jobs[j]? = some (.query (.scoped k statement token) token)) :
    a.jobs[j]? = some (.query (.scoped k statement token) token) := by
  obtain ⟨g, o, g', hissue⟩ := hp.issued hj
  have hloan := (hissue ▸ hp).issued_on_loan
  rcases History.place_cases heq hissue with ⟨-, he, -⟩ | ⟨m, rfl, -⟩ | ⟨m, rfl, -⟩
  · cases he
  · exact absurd ⟨i, cause, by simp⟩ hloan.2
  · have hspawned := (heq ▸ hp).of_append.job_of_spawned
    exact hspawned

/-- Where queries are run one at a time, those of a connection are over that has been given back. -/
theorem over_of_returned (hp : D.regime.Possible h) (hone : h.OneByOne k) (heq : h = a ++ a')
    (hreturned : a.Returned k)
    (hj : h.jobs[j]? = some (.query (.scoped k statement token) token)) : a.Finished j := by
  obtain ⟨i, cause, hmem⟩ := hreturned
  obtain ⟨p, q, rfl⟩ := List.append_of_mem hmem
  rw [List.append_assoc, List.cons_append] at heq
  exact (hone.returned heq j statement token (hp.started_of_returned heq hj)).mono

/-- Where queries are run one at a time, those of a connection are over when the connection is being
given back. -/
theorem over_of_returning {i : TaskId} (hp : D.regime.Possible h) (hone : h.OneByOne k)
    (heq : h = a ++ .deed i x :: a')
    (hx : ∃ cause, x = .requests (.release k cause) ∨ ∃ ans, x = .served (.release k cause) ans)
    (hj : h.jobs[j]? = some (.query (.scoped k statement token) token)) : a.Finished j := by
  obtain ⟨cause, rfl | ⟨ans, rfl⟩⟩ := hx
  · exact hone.returned heq j statement token (hp.started_of_returned heq hj)
  · exact hp.over_of_returned hone heq ⟨i, cause, (heq ▸ hp).mem_call_of_answer⟩ hj

/-- While a query has a connection to itself, only that query does something on the connection. -/
theorem alone_of_holds {job : Job c.setting} (hp : D.regime.Possible h) (hk : h.Holds j token k)
    (heq : h = a ++ .deed t x :: a') (hstarted : a.jobs[j]? = some job) (hover : ¬ a.Finished j)
    (hx : x.lease? = some k) : t = j := by
  have hmem : .deed t x ∈ h := by
    rw [heq]
    exact List.mem_append_right _ (List.mem_cons_self ..)
  cases hk with
  | pooled hjob hlent => exact hp.eq_of_passing_pooled hjob hlent hmem hx
  | @inScope statement hjob hone =>
    obtain rfl : job = .query (.scoped k statement token) token := by
      rw [heq, History.jobs_mono hstarted] at hjob
      exact Option.some.inj hjob
    obtain ⟨i, b, pool, pid, state, scope, u, hopen⟩ := hp.opened_of_scoped hjob
    -- what passes there belongs to a query on the connection, or to its return
    rcases hp.passing_cases hopen heq hx with ⟨⟨statement', token', ht⟩, hrunning⟩ | hreturn
    · -- of two queries on a connection, the one issued first is over when the other one is issued
      rcases Nat.lt_trichotomy t j with hlt | rfl | hlt
      · exact absurd (hp.over_of_oneByOne hone heq ht hstarted hlt) hrunning
      · rfl
      · exact absurd (hp.over_of_oneByOne hone heq hstarted ht hlt) hover
    · exact absurd (hp.over_of_returning hone heq hreturn hjob) hover

end Regime.Possible

end PooledSql
