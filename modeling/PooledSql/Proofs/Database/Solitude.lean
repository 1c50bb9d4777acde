import PooledSql.Proofs.Database.Traffic

/-!
# Queries that are left alone

What comes of a query of a scope if nobody sets its token and no interruption reaches it: its
statement is run once, nobody asks the server to stop it, and the query ends as the answer of the
connection is reported (`Regime.Possible.life_of_query`).
-/

namespace PooledSql

variable {c : Client} {D : Surroundings c} {g g' h m : History c.setting c.requests}
  {i j : TaskId} {k : LeaseId} {scope : ScopeId} {token : TokenId} {statement : Statement}
  {run : RunId}

namespace History

/-- The runs that have been named keep their names. -/
theorem runs_length_le : g.ledger.runs.length ≤ (ledger (g ++ m)).runs.length := by
  induction m using List.reverseRecOn with
  | nil => simp
  | append_singleton m e ih =>
    rw [← List.append_assoc, ledger_snoc]
    refine Nat.le_trans ih ?_
    -- the ledger only ever gains runs
    match e with
    | .deed _ (.act (.inr (.inr (.inl r))) _) =>
      cases r <;> simp [record, Ledger.perform]
    | .deed _ (.act (.inr (.inr (.inr _))) _) | .deed _ (.act (.inr (.inl _)) _)
    | .deed _ (.act (.inl _) _) | .deed _ (.call _) | .deed _ (.answer ..) | .launch _
    | .finish .. | .interrupt _ => exact Nat.le_refl _

/-- A request to stop a run that is in the ledger has been noted there. -/
theorem noted_of_request {request : TaskId} (hr : h.ledger.runs[run]? = some (some request)) :
    ∃ i, .deed i (.enters (.noteRequest run request) ()) ∈ h := by
  induction h using List.reverseRecOn with
  | nil => simp at hr
  | append_singleton h e ih =>
    -- unless the last happening is the note itself, the entry was there before
    have hold : (ledger h).runs[run]? = some (some request) →
        ∃ i, .deed i (.enters (.noteRequest run request) ()) ∈ h ++ [e] := by
      intro hr
      obtain ⟨i, hi⟩ := ih hr
      exact ⟨i, List.mem_append_left _ hi⟩
    rw [ledger_snoc] at hr
    match e with
    | .deed _ (.act (.inr (.inr (.inl .newRun))) _) =>
      simp only [record, Ledger.perform, List.getElem?_append] at hr
      split at hr
      · exact hold hr
      · rw [List.getElem?_singleton] at hr
        split at hr <;> cases hr
    | .deed i (.act (.inr (.inr (.inl (.noteRequest run' request')))) ⟨⟩) =>
      simp only [record, Ledger.perform, List.getElem?_modify] at hr
      -- a note changes the entry of its own run
      by_cases hrun : run' = run
      · subst hrun
        cases hruns : (ledger h).runs[run']? with
        | none => simp [hruns] at hr
        | some _ =>
          simp only [hruns, if_true, Option.map_eq_map, Option.map_some, Option.some.injEq] at hr
          subst hr
          exact ⟨i, by simp⟩
      · simp only [hrun, if_false] at hr
        exact hold (by simpa using hr)
    | .deed _ (.act (.inr (.inr (.inl (.openScope ..)))) _)
    | .deed _ (.act (.inr (.inr (.inl (.closeScope _)))) _)
    | .deed _ (.act (.inr (.inr (.inl (.setState ..)))) _)
    | .deed _ (.act (.inr (.inr (.inl (.request _)))) _)
    | .deed _ (.act (.inr (.inr (.inl (.scope _)))) _)
    | .deed _ (.act (.inr (.inr (.inl .default))) _)
    | .deed _ (.act (.inr (.inr (.inl (.setDefault _)))) _)
    | .deed _ (.act (.inr (.inr (.inr _))) _) | .deed _ (.act (.inr (.inl _)) _)
    | .deed _ (.act (.inl _) _) | .deed _ (.call _) | .deed _ (.answer ..) | .launch _
    | .finish .. | .interrupt _ => exact hold hr

end History

namespace Regime.Possible

/-- A run that has been named is in the ledger. -/
theorem lt_of_named (hp : D.regime.Possible h) (hrun : .deed j (.enters .newRun run) ∈ h) :
    run < h.ledger.runs.length := by
  obtain ⟨g, g', rfl⟩ := List.append_of_mem hrun
  obtain rfl : run = (History.ledger g).runs.length := hp.ledger_outcome
  rw [List.append_cons]
  refine Nat.lt_of_lt_of_le ?_ History.runs_length_le
  simp [History.record, Ledger.perform]

/-- No two runs have the same name. -/
theorem run_unique (hp : D.regime.Possible h) (hi : .deed i (.enters .newRun run) ∈ h)
    (hj : .deed j (.enters .newRun run) ∈ h) : i = j := by
  -- a run that is named later gets another name
  have hfresh : ∀ {a m b : History c.setting c.requests} {i j},
      ¬ D.regime.Possible ((a ++ .deed i (.enters .newRun run) :: m) ++
        .deed j (.enters .newRun run) :: b) := by
    intro a m b i j hp
    have hsecond : run = (History.ledger (a ++ .deed i (.enters .newRun run) :: m)).runs.length :=
      hp.ledger_outcome
    have hnamed := hp.of_append.lt_of_named (List.mem_append_right _ (List.mem_cons_self ..))
    exact absurd hsecond (Nat.ne_of_lt hnamed)
  obtain ⟨a, a', ha⟩ := List.append_of_mem hi
  obtain ⟨b, b', hb⟩ := List.append_of_mem hj
  rcases History.place_cases ha hb with ⟨-, he, -⟩ | ⟨m, rfl, -⟩ | ⟨m, rfl, -⟩
  · cases he
    rfl
  · exact (hfresh (hb ▸ hp)).elim
  · exact (hfresh (ha ▸ hp)).elim

/-- The token of a query that runs a statement is made directly before the query is started. -/
theorem made_directly {job : Job c.setting} (hp : D.regime.Possible h)
    (hj : h.jobs[j]? = some job) (hruns : job.Runs token) :
    ∃ (g : History c.setting c.requests) (i : TaskId) (g' : History c.setting c.requests),
      h = g ++ .deed i (.does .newToken token) :: .deed i (.does (.spawn job) j) :: g' ∧
        token = g.tokenCount ∧ g.jobs.length = j := by
  -- a task that runs a statement is not launched from outside
  obtain ⟨g, e, g', rfl, he, hlength⟩ := History.exists_of_job hj
  rcases Happening.job?_eq_some_iff.mp he with rfl | ⟨i, n, rfl⟩
  · obtain ⟨task, rfl⟩ := hp.launches
    cases hruns
  obtain rfl : n = j := hp.eq_length_of_spawn.trans hlength
  obtain ⟨_, -, hlicensed⟩ := hp.licensed id
  -- whoever starts the query has made the token last
  have hlast : ∀ {b : List (Deed c)}, g.of i = b ++ [.does .newToken token] →
      ∃ g₀ g₁ : History c.setting c.requests, g ++ .deed i (.does (.spawn job) n) :: g' =
          g₀ ++ .deed i (.does .newToken token) :: .deed i (.does (.spawn job) n) :: g₁ ∧
        token = History.tokenCount g₀ ∧ (History.jobs g₀).length = n := by
    intro b hb
    obtain ⟨g₀, rfl, -⟩ := hp.directly id hb
    have hmade : D.regime.Possible (g₀ ++ .deed i (.does .newToken token) ::
        .deed i (.does (.spawn job) n) :: g') := by simpa using hp
    exact ⟨g₀, g', by simp, hmade.yields, by simpa [Happening.job?] using hlength⟩
  -- a query of a pool is started directly after its token has been made; for one of a scope, the
  -- scope has been consulted before
  cases hruns with
  | pooled =>
    cases hlicensed with
    | plain he => cases he
    | spawnPooled hl =>
      obtain ⟨g₀, g₁, hg⟩ := hlast hl
      exact ⟨g₀, i, g₁, hg⟩
  | statement k =>
    cases hlicensed with
    | plain he => cases he
    | @spawnScoped b scope _ state pid _ _ _ hl =>
      have hmade : g.of i =
          (b ++ [.enters (.scope scope) (some { lease := k, state, closed := false }),
          .inquires (.pid k) pid]) ++ [.does .newToken token] := by
        rw [hl]
        simp [Scope.consulting]
      obtain ⟨g₀, g₁, hg⟩ := hlast hmade
      exact ⟨g₀, i, g₁, hg⟩

/-- The token of a query that runs a statement has been made. -/
theorem made_of_started {job : Job c.setting} (hp : D.regime.Possible h)
    (hj : h.jobs[j]? = some job) (hruns : job.Runs token) : token < h.tokenCount := by
  obtain ⟨g, i, g', rfl, htoken, -⟩ := hp.made_directly hj hruns
  rw [htoken, History.tokenCount_append, History.tokenCount_cons]
  exact Nat.lt_add_of_pos_right (Nat.succ_pos _)

/-- No two queries run statements under the same token. -/
theorem runs_unique {job job' : Job c.setting} (hp : D.regime.Possible h)
    (hi : h.jobs[i]? = some job) (hruns : job.Runs token)
    (hj : h.jobs[j]? = some job') (hruns' : job'.Runs token) : i = j := by
  obtain ⟨a, i', a', ha, hcount, rfl⟩ := hp.made_directly hi hruns
  obtain ⟨b, j', b', hb, hcount', rfl⟩ := hp.made_directly hj hruns'
  -- a token that is made later has another name
  have hlate : ∀ {a m b : History c.setting c.requests} {i},
      b = a ++ .deed i (.does .newToken token) :: m → token = History.tokenCount a →
        token ≠ History.tokenCount b := by
    rintro a m b i rfl ha hb
    rw [History.tokenCount_append, History.tokenCount_cons, ← ha] at hb
    have hpos : 0 < History.tokenCount m +
        if (Happening.deed i (.does .newToken token) : Happening c.setting c.requests).makesToken
          then 1 else 0 := Nat.succ_pos _
    exact absurd hb (Nat.ne_of_lt (Nat.lt_add_of_pos_right hpos))
  rcases History.place_cases ha hb with ⟨rfl, -, -⟩ | ⟨m, heq, -⟩ | ⟨m, heq, -⟩
  · rfl
  · exact absurd hcount' (hlate heq hcount)
  · exact absurd hcount (hlate heq hcount')

/-- A run is registered by the task that has named it, under its own token. -/
theorem token_of_registered {body : Work c} {k' : LeaseId} {token' : TokenId}
    (hp : D.regime.Possible h) (hjob : h.jobs[j]? = some (.query body token))
    (hrun : .deed j (.enters .newRun run) ∈ h)
    (hregister : .deed i (.does (.register token' (Interrupt.mk k' run)) ()) ∈ h) :
    i = j ∧ token' = token := by
  obtain ⟨g, g', rfl⟩ := List.append_of_mem hregister
  obtain ⟨job, hjob', hlicensed⟩ := hp.licensed id
  -- whoever registers a run has named it, and runs are named once
  cases hlicensed with
  | plain he => exact he.elim
  | register hruns hnew =>
    obtain rfl : i = j :=
      hp.run_unique (List.mem_append_left _ (History.mem_of_iff.mp hnew)) hrun
    rw [History.jobs_mono hjob'] at hjob
    cases hjob
    cases hruns <;> exact ⟨rfl, rfl⟩

/-- Nobody asks the server to stop a run on behalf of a token that is not set. -/
theorem request_eq_none {body : Work c} {request : Option TaskId} (hp : D.regime.Possible h)
    (hjob : h.jobs[j]? = some (.query body token)) (hruns : (Job.query body token).Runs token)
    (hfree : ¬ h.Cancelled token) (hrun : .deed j (.enters .newRun run) ∈ h)
    (hrequest : .deed j (.enters (.request run) request) ∈ h) : request = none := by
  by_contra hsome
  obtain ⟨request, rfl⟩ := Option.ne_none_iff_exists'.mp hsome
  obtain ⟨g, g', heq⟩ := List.append_of_mem hrequest
  -- what is found in the ledger has been noted there
  have hledger : (History.ledger g).runs[run]? = some (some request) := by
    have hout : some request = ((History.ledger g).runs[run]?).join := (heq ▸ hp).ledger_outcome
    exact Option.join_eq_some_iff.mp hout.symm
  obtain ⟨i, hnote⟩ := History.noted_of_request hledger
  obtain ⟨p, q, rfl⟩ := List.append_of_mem hnote
  have hpp : D.regime.Possible (p ++ .deed i (.enters (.noteRequest run request) ()) :: q) :=
    (heq ▸ hp).of_append
  obtain ⟨_, -, hlicensed⟩ := hpp.licensed id
  cases hlicensed with
  | plain he => exact he.elim
  | @noteRequest b m token' before after k' _ _ _ hl =>
    -- whoever has noted the request has set the token under which the run was registered
    obtain ⟨p₁, p₂, rfl, -, -⟩ := History.exists_split_of hl
    have hp₁ : D.regime.Possible
        (p₁ ++ .deed i (.does (.trip token') (before ++ Interrupt.mk k' run :: after)) :: p₂) :=
      hpp.of_append
    have hregistered : History.Registered p₁ token' (before ++ Interrupt.mk k' run :: after) :=
      hp₁.yields.1
    obtain ⟨j', hregister⟩ := hregistered (Interrupt.mk k' run)
      (List.mem_append_right _ (List.mem_cons_self ..))
    have hh : h = p₁ ++ .deed i (.does (.trip token') (before ++ Interrupt.mk k' run :: after)) ::
        (p₂ ++ .deed i (.enters (.noteRequest run request) ()) :: (q ++
          .deed j (.enters (.request run) (some request)) :: g')) := by
      rw [heq]
      simp
    obtain ⟨rfl, rfl⟩ := hp.token_of_registered hjob hrun (hh ▸ List.mem_append_left _ hregister)
    -- the task that has registered the run was there when the token was set
    obtain ⟨job, hjob'⟩ :=
      hp₁.of_append.job_of_begun (List.ne_nil_of_mem (History.mem_of_iff.mpr hregister))
    have hsame : h.jobs[j']? = some job := by
      rw [hh]
      exact History.jobs_mono hjob'
    rw [hjob] at hsame
    cases hsame
    exact hfree ⟨p₁, i, _, _, hh, hp₁.of_append.made_of_started hjob' hruns⟩

/-- A token that is found set has been set. -/
theorem cancelled_of_found (hp : D.regime.Possible h)
    (hfound : .deed j (.does (.isCancelled token) true) ∈ h) : h.Cancelled token := by
  obtain ⟨g, g', rfl⟩ := List.append_of_mem hfound
  have hyields : true = true ↔ History.Cancelled g token := hp.yields
  exact (hyields.mp rfl).mono

/-- The outcome of a query on behalf of a token that is not set is not replaced. -/
theorem eq_of_replaces {α : Type} {body : Work c} {l : List (Deed c)} {o r : Except Failure α}
    (hp : D.regime.Possible h) (hjob : h.jobs[j]? = some (.query body token))
    (hruns : (Job.query body token).Runs token) (hfree : ¬ h.Cancelled token)
    (hl : l ⊆ h.of j) (hr : DatabaseM.Replaces token run l o r)
    (hrun : .deed j (.enters .newRun run) ∈ h) : r = o := by
  -- an outcome is replaced if the token is found set, or if the server has been asked to stop the
  -- run
  cases hr with
  | same => rfl
  | cancelled hset => exact absurd (hp.cancelled_of_found (History.mem_of_iff.mp (hl hset))) hfree
  | disturbed hrequest _ =>
    have hnone := hp.request_eq_none hjob hruns hfree hrun (History.mem_of_iff.mp (hl hrequest))
    cases hnone

end Regime.Possible

end PooledSql
