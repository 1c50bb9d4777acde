import PooledSql.Proofs.Database.Surroundings

/-!
# Tenure

How long a scope has its connection, and what runs on it. A scope is opened on a connection right
after this has been lent out, it is closed before the connection is given back, and queries are
issued only in scopes that are open. So every query of a scope is issued while its connection is on
loan (`Regime.Possible.issued_on_loan`).

A query is a task of its own, which may be slower than the work that has issued it. Only those
queries that are over when the connection is given back have run on it before.
-/

namespace PooledSql

variable {c : Client} {D : Surroundings c} {g g' a a' h : History c.setting c.requests}
  {i j : TaskId} {k : LeaseId} {scope : ScopeId} {statement : Statement} {token : TokenId}

/-- Whether a connection is on loan: it has been lent out, and no pool has been asked to take it
back. -/
def History.OnLoan (h : History c.setting c.requests) (k : LeaseId) : Prop :=
  h.Lent k ∧ ¬ h.Returned k

namespace Regime.Possible

/-- A scope is opened on a connection that has just been lent out. -/
theorem lending_of_open {state : Option TransactionState}
    (hp : D.regime.Possible (g ++ .deed i (.enters (.openScope k state) scope) :: g')) :
    ∃ l pool pid, g.of i = l ++ DatabaseM.lending pool k pid := by
  obtain ⟨job, -, hl⟩ := hp.licensed id
  cases hl with
  | plain he => exact he.elim
  | openScope hl => exact ⟨_, _, _, hl⟩

/-- A scope has been closed when its connection is given back. -/
theorem closed_of_returned {state : Option TransactionState} {cause : Option Failure}
    (hp : D.regime.Possible h)
    (hopen : h = a ++ .deed j (.enters (.openScope k state) scope) :: a')
    (hreturn : h = g ++ .deed i (.requests (.release k cause)) :: g') :
    ∃ entry, g.scope? scope = some entry ∧ entry.closed = true := by
  obtain ⟨l, pool, pid, hl⟩ := (hopen ▸ hp).lending_of_open
  have hj : h.of j = l ++ (DatabaseM.lending pool k pid ++
      .enters (.openScope k state) scope :: a'.of j) := by
    simp [hopen, hl, Happening.deed?]
  have hpg : D.regime.Possible g := (hreturn ▸ hp).of_append
  obtain ⟨job, -, hlicensed⟩ := (hreturn ▸ hp).licensed id
  -- whoever gives the connection back has had it on loan, for a unit of work
  cases hlicensed with
  | plain he => exact he.elim
  | @release b u lr _ _ hg hu _ =>
    -- the unit of work opens the only scope on the loan, and closes it before the return
    have hclosing : ∀ {pool' pid' state' scope' lw}, u = Scope.opening pool' k pid' state' scope' ++
        (lw ++ [.enters (.closeScope scope') ()]) →
        ∃ entry, g.scope? scope = some entry ∧ entry.closed = true := by
      rintro pool' pid' state' scope' lw rfl
      have hi : h.of i = b ++ (DatabaseM.lending pool' k pid' ++
          .enters (.openScope k state') scope' :: (lw ++ .enters (.closeScope scope') () ::
            (lr ++ .requests (.release k cause) :: g'.of i))) := by
        simp [hreturn, hg, Happening.deed?, Scope.opening]
      obtain ⟨rfl, -, -, -, hrest⟩ := hp.loan_unique hi hj
      obtain ⟨hscope, -⟩ := List.cons.inj hrest
      cases hscope
      have hg : g.of i = (b ++ DatabaseM.lending pool' k pid') ++
          .enters (.openScope k state) scope ::
            (lw ++ .enters (.closeScope scope) () :: lr) := by
        simp [hg, Scope.opening]
      obtain ⟨g₁, g₂, rfl, -, hg₂⟩ := History.exists_split_of hg
      have hclose : Happening.deed i (.enters (.closeScope scope) ()) ∈ g₂ :=
        History.mem_of_iff.mp (by simp [hg₂])
      exact ⟨_, hpg.scope?_of_opened, History.foldl_amend_closed (.inr hclose)⟩
    cases hu with
    | connection => exact hclosing rfl
    | transaction => exact hclosing rfl
    -- a query on a pool opens no scope on its loan
    | @pooled pool' pid' _ _ token lw o _ hw =>
      obtain ⟨out, lw, rfl⟩ := DatabaseM.ends_unlessCancelled hw
      have hi : h.of i = b ++ (DatabaseM.lending pool' k pid' ++
          .does (.isCancelled token) out :: (lw ++ (lr ++
            .requests (.release k (DatabaseM.releaseCause o)) :: g'.of i))) := by
        simp [hreturn, hg, Happening.deed?]
      obtain ⟨-, -, -, -, hrest⟩ := hp.loan_unique hi hj
      cases (List.cons.inj hrest).1

/-- A connection is given back by its borrower, in the course of its loan. -/
theorem spent_of_returned {cause : Option Failure}
    (hp : D.regime.Possible (g ++ .deed i (.requests (.release k cause)) :: g')) :
    ∃ job b u lr pool pid v, g.jobs[i]? = some job ∧ g.of i = b ++ (u ++ lr) ∧
      Spent (D.regime.program job) b k u cause ∧ (∀ d ∈ lr, d.IsIdle) ∧
      u = DatabaseM.lending pool k pid ++ v := by
  obtain ⟨job, hjob, hlicensed⟩ := hp.licensed id
  cases hlicensed with
  | plain he => exact he.elim
  | @release b u lr _ _ hg hu hr =>
    obtain ⟨pool, pid, v, hv⟩ := hu.lending
    exact ⟨job, b, u, lr, pool, pid, v, hjob, hg, hu, hr, hv⟩

/-- What has been given back is not given back again. -/
theorem not_returned {cause : Option Failure}
    (hp : D.regime.Possible (g ++ .deed i (.requests (.release k cause)) :: g')) :
    ¬ g.Returned k := by
  rintro ⟨j, cause', hmem⟩
  obtain ⟨a, m, rfl⟩ := List.append_of_mem hmem
  have hpg : D.regime.Possible (a ++ .deed j (.requests (.release k cause')) :: m) := hp.of_append
  obtain ⟨_, b, u, lr, pool, pid, v, -, hj, -, -, rfl⟩ := hpg.spent_of_returned
  obtain ⟨_, b', u', lr', pool', pid', v', -, hi, hu', hidle, rfl⟩ := hp.spent_of_returned
  have hj' : History.of (a ++ .deed j (.requests (.release k cause')) :: m) j =
      b ++ (DatabaseM.lending pool k pid ++
        (v ++ (lr ++ .requests (.release k cause') :: History.of m j))) := by
    simp [hj, Happening.deed?]
  rw [List.append_assoc] at hi
  obtain ⟨rfl, rfl, rfl, rfl, hrest⟩ := hpg.loan_unique hj' hi
  -- The first return is not among the idle exchanges at the end, so it lies within the unit.
  have hlr' : .requests (.release k cause') ∉ lr' := fun hmem => hidle _ hmem
  have hmid : [] ++ (v' ++ lr') =
      (v ++ lr) ++ .requests (.release k cause') :: History.of m j := by
    rw [List.append_assoc]
    exact hrest.symm
  obtain ⟨l₁, l₂, rfl, -⟩ := exists_middle List.not_mem_nil hlr' hmid
  obtain ⟨d, b', pool', pid', v', hv'⟩ := hu'.lending_of_release (List.append_assoc ..).symm
  have hagain : History.of (a ++ .deed j (.requests (.release k cause')) :: m) j =
      (b ++ d :: b') ++ (DatabaseM.lending pool' k pid' ++
        (v' ++ .requests (.release k cause') :: (l₂ ++ lr'))) := by
    calc History.of (a ++ .deed j (.requests (.release k cause')) :: m) j
        = b ++ ((DatabaseM.lending pool k pid ++ l₁) ++
          .requests (.release k cause') :: (l₂ ++ lr')) := by rw [hi]; simp
      _ = _ := by rw [hv']; simp
  have hb := (hpg.loan_unique hj' hagain).2.1
  simp at hb

/-- A connection is given back once. -/
theorem returned_once {cause cause' : Option Failure} {a a' : List (Deed c)}
    {b b' : List (Deed c)} (hp : D.regime.Possible h)
    (hi : h.of i = a ++ .requests (.release k cause) :: a')
    (hj : h.of j = b ++ .requests (.release k cause') :: b') :
    i = j ∧ a = b ∧ cause = cause' ∧ a' = b' := by
  obtain ⟨g, g', hg, rfl, rfl⟩ := History.exists_split_of hi
  obtain ⟨e, e', he, rfl, rfl⟩ := History.exists_split_of hj
  -- the later return would be a second one
  have hagain : ∀ {g m g' : History c.setting c.requests} {i j cause cause'},
      ¬ D.regime.Possible ((g ++ .deed i (.requests (.release k cause)) :: m) ++
        .deed j (.requests (.release k cause')) :: g') :=
    fun hp => hp.not_returned ⟨_, _, List.mem_append_right _ (List.mem_cons_self ..)⟩
  rcases History.place_cases hg he with ⟨rfl, heq, rfl⟩ | ⟨m, rfl, -⟩ | ⟨m, rfl, -⟩
  · cases heq
    exact ⟨rfl, rfl, rfl, rfl⟩
  · exact (hagain (he ▸ hp)).elim
  · exact (hagain (hg ▸ hp)).elim

/-- A connection with an open scope is on loan. -/
theorem onLoan_of_open {state : Option TransactionState} (hp : D.regime.Possible h)
    (hs : h.scope? scope = some { lease := k, state, closed := false }) : h.OnLoan k := by
  obtain ⟨a, j, state', a', hopen⟩ := hp.opened_of_scope? hs
  refine ⟨?_, ?_⟩
  · obtain ⟨l, pool, pid, hl⟩ := (hopen ▸ hp).lending_of_open
    have hlent : Exchange.served (.acquire pool) (.ok k) ∈ History.of a j := by
      simp [hl, DatabaseM.lending]
    exact ⟨j, pool, hopen ▸ List.mem_append_left _ (History.mem_of_iff.mp hlent)⟩
  · -- a connection that has been given back has its scope closed, and that stays so
    rintro ⟨i, cause, hreturn⟩
    obtain ⟨g, g', rfl⟩ := List.append_of_mem hreturn
    obtain ⟨entry, hentry, hclosed⟩ := hp.closed_of_returned hopen rfl
    have hlater := History.scope?_append (g := .deed i (.requests (.release k cause)) :: g') hentry
    have hstill : ((Happening.deed i (.requests (.release k cause)) :: g').foldl
        (History.amend scope) entry).closed = true :=
      History.foldl_amend_closed (i := i) (.inl hclosed)
    rw [hs] at hlater
    rw [← Option.some.inj hlater] at hstill
    cases hstill

/-- A query of a scope is issued right after the scope has been found open. -/
theorem found_open
    (hp : D.regime.Possible
      (g ++ .deed i (.does (.spawn (.query (.scoped k statement token) token)) j) :: g')) :
    ∃ (g₀ : History c.setting c.requests) (scope : ScopeId) (state : Option TransactionState)
      (pid : Option Nat), g = g₀ ++ (Scope.consulting scope k state pid token).map (.deed i) ∧
      g₀.scope? scope = some { lease := k, state, closed := false } := by
  obtain ⟨job, -, hlicensed⟩ := hp.licensed id
  cases hlicensed with
  | plain he => cases he
  | @spawnScoped l scope _ state pid _ _ _ hl =>
    -- the scope is consulted in the same turn in which the query is started
    have hacts : ∀ y ∈ (Scope.consulting scope k state pid token : List (Deed c)),
        ¬ y.IsAnswer := by
      simp [Scope.consulting, Exchange.IsAnswer]
    obtain ⟨g₀, rfl, -⟩ := hp.stretch id hacts hl
    refine ⟨g₀, scope, state, pid, rfl, ?_⟩
    have hp : D.regime.Possible (g₀ ++ .deed i (.enters (.scope scope)
        (some { lease := k, state, closed := false })) :: ([.deed i (.inquires (.pid k) pid),
        .deed i (.does .newToken token)] ++ .deed i (.does (.spawn
          (.query (.scoped k statement token) token)) j) :: g')) := by
      simpa [Scope.consulting] using hp
    exact hp.ledger_outcome.symm

/-- A query of a scope is issued while its connection is on loan. -/
theorem issued_on_loan
    (hp : D.regime.Possible
      (g ++ .deed i (.does (.spawn (.query (.scoped k statement token) token)) j) :: g')) :
    g.OnLoan k := by
  obtain ⟨g₀, scope, state, pid, rfl, hs⟩ := hp.found_open
  obtain ⟨⟨j, pool, hlent⟩, hreturned⟩ := hp.of_append.of_append.onLoan_of_open hs
  refine ⟨⟨j, pool, List.mem_append_left _ hlent⟩, ?_⟩
  rintro ⟨j, cause, hreturn⟩
  rcases List.mem_append.mp hreturn with hreturn | hreturn
  · exact hreturned ⟨j, cause, hreturn⟩
  · simp [Scope.consulting] at hreturn

/-- A query of a scope has been issued by some task. -/
theorem issued (hp : D.regime.Possible h)
    (hj : h.jobs[j]? = some (.query (.scoped k statement token) token)) :
    ∃ g i g', h = g ++
      .deed i (.does (.spawn (.query (.scoped k statement token) token)) j) :: g' := by
  obtain ⟨g, e, g', rfl, he, hlen⟩ := History.exists_of_job hj
  -- clients are launched from outside, queries of scopes are not
  rcases Happening.job?_eq_some_iff.mp he with rfl | ⟨i, n, rfl⟩
  · obtain ⟨task, hl⟩ := hp.launches
    cases hl
  · obtain rfl : n = j := hp.eq_length_of_spawn.trans hlen
    exact ⟨g, i, g', rfl⟩

/-- What a query of a scope has run by the time that it is over is over as well. -/
theorem over_of_finished {w : Pool.Wait} (hp : D.regime.Possible b) (hj : b.Finished j)
    (hb : b = a ++ .deed j (.requests w) :: a') :
    ∃ m ans a'', a' = m ++ .deed j (.served w ans) :: a'' := by
  have hof : b.of j = a.of j ++ .requests w :: a'.of j := by simp [hb, Happening.deed?]
  -- a task does not end while it waits, so what it has asked for has been answered
  cases hrest : History.of a' j with
  | nil =>
    rw [hrest] at hof
    exact absurd hof (hp.not_waiting_of_finished hj)
  | cons x l =>
    rw [hrest] at hof
    obtain ⟨ans, rfl⟩ := hp.answered hof
    have hfirst : History.of a' j = [] ++ .served w ans :: l := hrest
    obtain ⟨m, a'', rfl, -, -⟩ := History.exists_split_of hfirst
    exact ⟨m, ans, a'', rfl⟩

end Regime.Possible

section AtRest

variable {α : Type} {b lw rest : List (Deed c)} {pool : PoolId} {pid : Option Nat}
  {state : Option TransactionState} {o : Except Failure α}

/-- Between turns, a connection has been given back if the work with it has ended. -/
theorem Regime.Performs.gives_back {token : Option TokenId} {work : LeaseId → DatabaseM c α}
    (hy : D.regime.Performs h i b (DatabaseM.withConnection pool token work))
    (hp : D.regime.Possible h) (hrest : h.AtRest)
    (hof : h.of i = b ++ (DatabaseM.lending pool k pid ++ (lw ++ rest)))
    (hw : Fiber.Ends (DatabaseM.unlessCancelled token (work k)) lw o) :
    ∃ pid' rest', rest = DatabaseM.parting k o pid' ++
      .requests (.release k (DatabaseM.releaseCause o)) :: rest' := by
  have hback : D.regime.Performs h i (b ++ (DatabaseM.lending pool k pid ++ lw))
      (DatabaseM.giveBack k o) := hy.comes (DatabaseM.comes_giveBack hw)
  have hne : h.of i ≠ [] := by simp [hof, DatabaseM.lending]
  -- between turns, giving back has ended, or waits for the answer of the pool
  rcases hback.ends_or_waits hp hrest (l := rest) (by simp [hof]) hne with
    ⟨l₁, l₂, r, rfl, hends⟩ | ⟨l₁, w, rfl, hasks⟩
  · obtain ⟨pid', ans, after, rfl, -, -⟩ := DatabaseM.ends_giveBack hends
    exact ⟨pid', .served (.release k (DatabaseM.releaseCause o)) ans :: (after ++ l₂), by simp⟩
  · rcases DatabaseM.asks_giveBack hasks with he | ⟨he, pid', rfl⟩
    · exact he.elim
    · exact ⟨pid', [], by rw [he]⟩

/-- Between turns, a scope is closed and its connection has been given back if the work in it has
ended. -/
theorem Regime.Performs.closes {work : ScopeId → DatabaseM c α}
    (hy : D.regime.Performs h i b (Scope.withScope pool state work)) (hp : D.regime.Possible h)
    (hrest : h.AtRest)
    (hof : h.of i = b ++ (Scope.opening pool k pid state scope ++ (lw ++ rest)))
    (hw : Fiber.Ends (work scope) lw o) :
    ∃ pid' rest', rest = .enters (.closeScope scope) () :: (DatabaseM.parting k o pid' ++
      .requests (.release k (DatabaseM.releaseCause o)) :: rest') := by
  have hne : h.of i ≠ [] := by simp [hof, Scope.opening, DatabaseM.lending]
  have hclose : D.regime.Performs h i (b ++ (Scope.opening pool k pid state scope ++ lw))
      (DatabaseM.ledger (.closeScope scope)) := hy.comes (Scope.comes_closeScope hw)
  -- closing the scope does not take time, so it has been done
  obtain ⟨rest, rfl⟩ : ∃ rest', rest = .enters (.closeScope scope) () :: rest' := by
    rcases hclose.ends_or_waits hp hrest (l := rest) (by simp [hof]) hne with
      ⟨l₁, l₂, r, rfl, hends⟩ | ⟨l₁, w, rfl, hasks⟩
    · obtain ⟨out, rfl, -⟩ := Fiber.ends_act_iff.mp hends
      exact ⟨l₂, rfl⟩
    · obtain ⟨-, out, he⟩ := Fiber.asks_act_iff.mp hasks
      cases he
  rw [Scope.withScope_eq] at hy
  have hof : h.of i = b ++ (DatabaseM.lending pool k pid ++ ((.enters (.openScope k state) scope ::
      (lw ++ [.enters (.closeScope scope) ()])) ++ rest)) := by
    simp [hof, Scope.opening]
  obtain ⟨pid', rest', rfl⟩ := hy.gives_back hp hrest hof (Scope.ends_inScope hw)
  exact ⟨pid', rest', rfl⟩

end AtRest

/-- Every query of a scope is issued while its connection is on loan. What it runs is its statement,
on that connection, after this has been lent out; and if the query is over when the connection is
given back, then all that it runs has begun and ended on the loan. -/
theorem Regime.Run.scoped_on_loan {m : Machine c.setting c.requests (Ledger × D.World)}
    (hr : D.regime.Run h m)
    (hj : h.jobs[j]? = some (.query (.scoped k statement token) token)) :
    (∃ g i g', h = g ++
        .deed i (.does (.spawn (.query (.scoped k statement token) token)) j) :: g' ∧
      History.OnLoan g k) ∧
    ∀ {a a' : History c.setting c.requests} {k' : LeaseId} {run : RunId} {statement' : Statement},
      h = a ++ .deed j (.requests (.execute k' run statement')) :: a' →
      k' = k ∧ statement' = statement ∧ a.Lent k ∧
      ∀ {b b' : History c.setting c.requests} {i : TaskId} {cause : Option Failure},
        h = b ++ .deed i (.requests (.release k cause)) :: b' → b.Finished j →
        a.OnLoan k ∧ ∃ m ans m', b = a ++ .deed j (.requests (.execute k' run statement')) ::
          (m ++ .deed j (.served (.execute k' run statement') ans) :: m') := by
  have hp := hr.possible
  obtain ⟨g, i, g', hissued⟩ := hp.issued hj
  refine ⟨⟨g, i, g', hissued, (hissued ▸ hp).issued_on_loan⟩, ?_⟩
  intro a a' k' run statement' hcall
  have hpa : D.regime.Possible a := (hcall ▸ hp).of_append
  obtain ⟨job, hjob, hlicensed⟩ := (hcall ▸ hp).licensed id
  have hsame : h.jobs[j]? = some job := hcall ▸ History.jobs_mono hjob
  rw [hj] at hsame
  cases hsame
  -- the job of the task is the query, so it is not one on a pool, and runs its own statement
  cases hlicensed with
  | plain he => exact he.elim
  | executePooled he => cases he
  | executeScoped he =>
    cases he
    have hlent : a.Lent k := by
      obtain ⟨g, i, g', rfl⟩ := hpa.issued hjob
      obtain ⟨⟨i, pool, hlent⟩, -⟩ := hpa.issued_on_loan
      exact ⟨i, pool, List.mem_append_left _ hlent⟩
    refine ⟨rfl, rfl, hlent, ?_⟩
    intro b b' i cause hreturn hover
    have hpb : D.regime.Possible b := (hreturn ▸ hp).of_append
    -- a query that is over does nothing, so it has run its statement before the return
    have hcalled : ∃ m, b = a ++ .deed j (.requests (.execute k run statement)) :: m := by
      rcases History.place_cases hcall hreturn with ⟨-, he, -⟩ | ⟨m, rfl, -⟩ | ⟨m, rfl, -⟩
      · cases he
      · exact ⟨m, rfl⟩
      · exact ((hcall ▸ hp).started_of_deed.2 hover.mono).elim
    obtain ⟨m, hm⟩ := hcalled
    refine ⟨⟨hlent, ?_⟩, ?_⟩
    · -- a connection that has been given back is not given back again
      rintro ⟨i', cause', hreturned⟩
      exact (hreturn ▸ hp).not_returned ⟨i', cause', hm ▸ List.mem_append_left _ hreturned⟩
    · obtain ⟨m₁, ans, m₂, rfl⟩ := hpb.over_of_finished hover hm
      exact ⟨m₁, ans, m₂, hm⟩

/-- Work with one query, which it waits for or not. -/
def Scope.oneQuery (patient : Bool) : DatabaseM .silent Reply :=
  connection 0 fun scope => do
    let q ← submit scope (.ofString "SELECT 1") (.tuple [])
    if patient then discard q.result
    return Reply.value .null

/-- Work with one query uses a database by what it offers. -/
theorem Scope.oneQuery_public (patient : Bool) : Public (oneQuery patient) := by
  refine .connection 0 fun scope => .bind (.submitIn scope _ _) fun q => ?_
  have hend : Public (pure (Reply.value .null) : DatabaseM .silent Reply) := .ofExcept (.ok _)
  cases patient with
  | false => exact hend
  | true =>
    have hwait : Public (q.result : DatabaseM .silent Reply) := .await (.inl (.join q.task)) trivial
    exact .bind (.bind hwait fun _ => .ofExcept (.ok ())) fun _ => hend

/-- A query that its work waits for begins and ends on the loan. -/
theorem scoped_on_loan_patient :
    ∃ (h a a' b b' : History Client.silent.setting Client.silent.requests) (w : Pool.Wait)
      (cause : Option Failure),
      (∃ m, (Surroundings.solo _ (Scope.oneQuery_public true)).regime.Run h m) ∧
      h = a ++ .deed 1 (.requests w) :: a' ∧ h = b ++ .deed 0 (.requests (.release 0 cause)) :: b' ∧
      a.OnLoan 0 ∧
      ∃ m ans m', b = a ++ .deed 1 (.requests w) :: (m ++ .deed 1 (.served w ans) :: m') := by
  have hstart : (Surroundings.solo _ (Scope.oneQuery_public true)).regime.Run []
      { world := ({}, ()) } := .start rfl
  have hlent := ((hstart.launch ⟨(), rfl⟩).runTurns 1).grant 0 0 (by decide)
  have hserved := (hlent.runTurns 1).grant 1 1 (by decide)
  obtain ⟨h, m, a, a', b, b', hr, hjob, hcall, hreturn, hover⟩ : ∃ h m a a' b b',
      (Surroundings.solo _ (Scope.oneQuery_public true)).regime.Run h m ∧
      h.jobs[1]? = some (.query (.scoped 0 (Scope.commandStatement "SELECT 1") 0) 0) ∧
      h = a ++ .deed 1 (.requests (.execute 0 0 (Scope.commandStatement "SELECT 1"))) :: a' ∧
      h = b ++ .deed 0 (.requests (.release 0 none)) :: b' ∧ History.Finished b 1 :=
    ⟨_, _, _, _, _, _, hserved.runTurns 1, rfl, (List.take_append_drop 15 _).symm,
      (List.take_append_drop 24 _).symm, _, List.mem_of_getElem? (i := 21) rfl⟩
  exact ⟨h, a, a', b, b', _, none, ⟨m, hr⟩, hcall, hreturn,
    ((hr.scoped_on_loan hjob).2 hcall).2.2.2 hreturn hover⟩

/-- A query that its work does not wait for may run when the connection has been given back. -/
theorem not_scoped_on_loan :
    ¬ ∀ {c : Client} {D : Surroundings c} {h a a' : History c.setting c.requests}
      {m : Machine c.setting c.requests (Ledger × D.World)} {j : TaskId} {k : LeaseId}
      {run : RunId} {statement : Statement} {token : TokenId}, D.regime.Run h m →
      h.jobs[j]? = some (.query (.scoped k statement token) token) →
      h = a ++ .deed j (.requests (.execute k run statement)) :: a' → a.OnLoan k := by
  intro hall
  have hstart : (Surroundings.solo _ (Scope.oneQuery_public false)).regime.Run []
      { world := ({}, ()) } := .start rfl
  have hlent := ((hstart.launch ⟨(), rfl⟩).runTurns 1).grant 0 0 (by decide)
  obtain ⟨h, m, a, a', hr, hjob, hcall, hreturned⟩ : ∃ h m a a',
      (Surroundings.solo _ (Scope.oneQuery_public false)).regime.Run h m ∧
      h.jobs[1]? = some (.query (.scoped 0 (Scope.commandStatement "SELECT 1") 0) 0) ∧
      h = a ++ .deed 1 (.requests (.execute 0 0 (Scope.commandStatement "SELECT 1"))) :: a' ∧
      History.Returned a 0 :=
    ⟨_, _, _, _, hlent.runTurns 1, rfl, (List.take_append_drop 16 _).symm, 0, none,
      List.mem_of_getElem? (i := 11) rfl⟩
  exact (hall hr hjob hcall).2 hreturned

end PooledSql
