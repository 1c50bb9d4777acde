import PooledSql.Proofs.Database.Pooled
import PooledSql.Proofs.Task.Enrolment

/-!
# Registrations

A run is registered under the token of its query while its statement runs, and at no other time. So
whoever sets the token is to stop that run if the statement runs and the token has not been set
before, and has nothing to do otherwise (`Regime.Possible.trip_cases`).
-/

namespace PooledSql

variable {c : Client} {D : Surroundings c} {g g' h : History c.setting c.requests} {i j : TaskId}
  {k : LeaseId} {run : RunId} {statement : Statement} {token : TokenId} {site : Option CallSite}

/-- Whether a task waits for a statement to be run. -/
def History.Executing (h : History c.setting c.requests) (j : TaskId) (k : LeaseId) (run : RunId)
    (statement : Statement) : Prop :=
  ∃ l, h.of j = l ++ [.requests (.execute k run statement)]

namespace DatabaseM

variable {l : List (Deed c)} {runs : List Interrupt}

/-- The runs that are registered under a token after an exchange. -/
def enlist (token : TokenId) (runs : List Interrupt) : Deed c → List Interrupt
  | .act (.inl (.register t run)) _ => if t = token then runs ++ [show Interrupt from run] else runs
  | .act (.inl (.unregister t run)) _ =>
    if t = token then runs.erase (show Interrupt from run) else runs
  | _ => runs

/-- The runs that are registered under a token after some exchanges. -/
def enlisted (token : TokenId) (runs : List Interrupt) (l : List (Deed c)) : List Interrupt :=
  l.foldl (enlist token) runs

@[simp]
theorem enlisted_nil : enlisted token runs ([] : List (Deed c)) = runs := rfl

@[simp]
theorem enlisted_cons {x : Deed c} :
    enlisted token runs (x :: l) = enlisted token (enlist token runs x) l := rfl

@[simp]
theorem enlisted_append {l' : List (Deed c)} :
    enlisted token runs (l ++ l') = enlisted token (enlisted token runs l) l' := List.foldl_append

/-- Exchanges that register nothing leave registrations as they are. -/
theorem enlisted_of_forall (hl : ∀ e ∈ l, ∀ runs, enlist token runs e = runs) :
    enlisted token runs l = runs := by
  induction l with
  | nil => rfl
  | cons x l ih =>
    rw [enlisted_cons, hl x (List.mem_cons_self ..),
      ih fun e he => hl e (List.mem_cons_of_mem _ he)]

/-- An act of a task registers and takes back under a token that it does not set what it says. -/
theorem actions_onToken {t : Token c.setting.Action} {r : TaskAct c.setting} {out : r.Outcome}
    (hr : r ≠ .trip token) :
    (r.onToken token t).actions = enlist token t.actions (.does r out) := by
  cases r with
  | trip t' =>
    have hother : t' ≠ token := fun htoken => hr (congrArg TaskAct.trip htoken)
    exact congrArg Token.actions (if_neg hother)
  | register t' a | unregister t' a | blame t' f =>
    by_cases htoken : t' = token <;>
      simp [TaskAct.onToken, enlist, htoken, Token.register, Token.unregister, Token.blame] <;> rfl
  | _ => rfl

/-- Looking after a token leaves registrations as they are. -/
theorem enlisted_settling {α : Type} {o r : Except Failure α} (hl : TaskM.Settling token o l r) :
    enlisted token runs l = runs := by
  refine enlisted_of_forall fun e he runs => ?_
  rcases hl.settles e he with ⟨out, rfl⟩ | ⟨f, rfl⟩ <;> rfl

/-- Inquiries and entries in the log leave registrations as they are. -/
theorem enlisted_idle (hl : ∀ d ∈ l, d.IsIdle) : enlisted token runs l = runs := by
  refine enlisted_of_forall fun e he runs => ?_
  rcases (hl e he).cases with ⟨r, out, rfl⟩ | ⟨entry, rfl⟩ <;> rfl

/-- Waiting for a request to stop a run leaves registrations as they are. -/
theorem enlisted_awaits {u : Except Failure Unit} (hl : Awaits run l u) :
    enlisted token runs l = runs := by
  cases hl <;> rfl

/-- A run is registered before its statement is run. -/
theorem enlisted_preparing :
    enlisted token [] (preparing k run statement token : List (Deed c)) = [Interrupt.mk k run] := by
  simp [preparing, enlist]

/-- A run is registered no more when its statement is over. -/
theorem enlisted_executes {r : Except Failure Result} (hl : Executes k statement token site l r) :
    enlisted token [] l = [] := by
  cases hl with
  | refused => rfl
  | disturbed hr hw =>
    simp [enlisted_preparing, running, enlist, enlisted_settling hr, enlisted_awaits hw]
  | done hr hw hz =>
    simp [enlisted_preparing, running, enlist, enlisted_settling hr, enlisted_awaits hw,
      enlisted_settling hz]

/-- A run is registered no more when the connection is to be given back. -/
theorem enlisted_onLease {source : Source} {params : Value} {r : Except Failure Result}
    (hl : OnLease source params token k l r) : enlisted token [] l = [] := by
  cases hl with
  | refused | unbuilt => rfl
  | run _ he => simpa [enlist] using enlisted_executes he

/-- A run is registered no more when the query is over. -/
theorem enlisted_pooled {pool : PoolId} {source : Source} {params : Value}
    {r : Except Failure Result}
    (hl : Pooled pool source params token l r) : enlisted token [] l = [] := by
  cases hl with
  | unserved => rfl
  | served hw hafter =>
    simp [lending, enlist, enlisted_onLease hw, enlisted_idle parting_idle, enlisted_idle hafter]

/-- While a statement waits for something, its run is registered if it waits for the connection, and
only then. -/
theorem enlisted_of_asks_execute {w : (c.setting.interface.sum c.requests).Wait}
    (h : Fiber.Asks (execute k statement token site : DatabaseM c Result) l (.call w)) :
    (∃ run, w = .inr (.inl (.execute k run statement)) ∧
        enlisted token [] l = [Interrupt.mk k run]) ∨
      (∀ k run statement, w ≠ .inr (.inl (.execute k run statement))) ∧
        enlisted token [] l = [] := by
  rcases asks_execute_call h with ⟨run, rfl, rfl⟩ | ⟨run, ans, lr, o, request, rfl, hr, rfl⟩
  · exact .inl ⟨run, rfl, enlisted_preparing⟩
  · refine .inr ⟨by rintro _ _ _ ⟨⟩, ?_⟩
    simp [enlisted_preparing, running, enlist, enlisted_settling hr]

/-- While a query waits for something, its run is registered if it waits for its statement to be
run, and only then. -/
theorem enlisted_of_asks_call {job : Job c.setting} (hruns : job.Runs token)
    {w : (c.setting.interface.sum c.requests).Wait}
    (h : Fiber.Asks (job.program (Work.meaning D.client)) l (.call w)) :
    (∃ k run statement, w = .inr (.inl (.execute k run statement)) ∧
        enlisted token [] l = [Interrupt.mk k run]) ∨
      (∀ k run statement, w ≠ .inr (.inl (.execute k run statement))) ∧
        enlisted token [] l = [] := by
  -- by the kind of query: only while its statement runs is there a registration that has not been
  -- taken back
  cases hruns with
  | pooled pool source params =>
    rcases asks_pooled D.client h with
      ⟨rfl, rfl⟩ | ⟨k, pid, pid', statement, le, -, rfl, he⟩ | ⟨k, pid, lw, o, pid', rfl, hw, rfl⟩
    · exact .inr ⟨by rintro _ _ _ ⟨⟩, rfl⟩
    · have hbefore : enlisted token [] (lending pool k pid ++
          (.does (.isCancelled token) false :: .inquires (.pid k) pid' :: le) : List (Deed c)) =
          enlisted token [] le := by
        simp [lending, enlist]
      rw [hbefore]
      rcases enlisted_of_asks_execute he with ⟨run, hw, hruns⟩ | hnone
      · exact .inl ⟨k, run, statement, hw, hruns⟩
      · exact .inr hnone
    · refine .inr ⟨by rintro _ _ _ ⟨⟩, ?_⟩
      simp [lending, enlist, enlisted_onLease hw, enlisted_idle parting_idle]
  | statement k statement =>
    have h := Fiber.asks_map_iff.mp (TaskM.asks_settle_call h)
    rcases enlisted_of_asks_execute h with ⟨run, hw, hruns⟩ | hnone
    · exact .inl ⟨k, run, statement, hw, hruns⟩
    · exact .inr hnone

/-- No run is registered under the token of a query that is over. -/
theorem enlisted_of_ends {job : Job c.setting} (hruns : job.Runs token) {r : Except Failure Reply}
    (h : Fiber.Ends (job.program (Work.meaning D.client)) l r) : enlisted token [] l = [] := by
  cases hruns with
  | pooled pool source params =>
    obtain ⟨o, lw, lz, rfl, hw, hz, -⟩ := TaskM.ends_settle h
    obtain ⟨o, hrun, rfl⟩ := Fiber.ends_map_iff.mp hw
    simp [enlisted_pooled (ends_runPooled hrun), enlisted_settling hz]
  | statement k statement =>
    obtain ⟨o, lw, lz, rfl, hw, hz, -⟩ := TaskM.ends_settle h
    obtain ⟨o, hrun, rfl⟩ := Fiber.ends_map_iff.mp hw
    simp [enlisted_executes (ends_execute hrun), enlisted_settling hz]

/-- What a query asks for that runs a statement. -/
theorem asks_of_runs {job : Job c.setting} (hruns : job.Runs token) {e : Deed c}
    (h : Fiber.Asks (job.program (Work.meaning D.client)) l e) :
    e.IsPlain ∨ (∃ a, e = .does (.register token a) ()) ∨
    (∃ a, e = .does (.unregister token a) ()) ∨
      (∃ k run statement, e = .requests (.execute k run statement)) ∨
      ∃ k cause, e = .requests (.release k cause) := by
  cases hruns with
  | pooled pool source params =>
    rcases TaskM.asks_settle h with h | he
    · have h : Fiber.Asks (runPooled pool source params token : DatabaseM c Result) l e :=
        Fiber.asks_map_iff.mp h
      rw [runPooled_eq] at h
      rcases asks_withConnection h with
        ⟨-, rfl⟩ | he | ⟨k, pid, l', rfl, he | ⟨o, lw, lr, rfl, -, he⟩⟩
      · exact .inl trivial
      · exact .inl he.isPlain
      · rcases asks_runOn he with he | ⟨run, -, rfl⟩ | ⟨run, rfl⟩ | ⟨run, statement, _, -, -, rfl⟩
        · exact .inl he
        · exact .inr (.inl ⟨_, rfl⟩)
        · exact .inr (.inr (.inl ⟨_, rfl⟩))
        · exact .inr (.inr (.inr (.inl ⟨k, run, statement, rfl⟩)))
      · rcases asks_giveBack he with he | ⟨rfl, -⟩
        · exact .inl he.isPlain
        · exact .inr (.inr (.inr (.inr ⟨k, _, rfl⟩)))
    · exact .inl (Exchange.isPlain_of_settles he)
  | statement k statement =>
    rcases TaskM.asks_settle h with h | he
    · rcases asks_execute (Fiber.asks_map_iff.mp h) with he | ⟨run, -, rfl⟩ | ⟨run, rfl⟩ |
        ⟨run, -, rfl⟩
      · exact .inl he
      · exact .inr (.inl ⟨_, rfl⟩)
      · exact .inr (.inr (.inl ⟨_, rfl⟩))
      · exact .inr (.inr (.inr (.inl ⟨k, run, statement, rfl⟩)))
    · exact .inl (Exchange.isPlain_of_settles he)

end DatabaseM

namespace Regime.Possible

variable {job : Job c.setting} {actions : List Interrupt}

/-- While a query does not have its turn, its run is registered if its statement is being run, and
only then. -/
theorem enlisted_of_idle (hp : D.regime.Possible h) (hj : h.jobs[j]? = some job)
    (hruns : job.Runs token) (hidle : h.Idle j) :
    (∃ k run statement, h.Executing j k run statement ∧
        DatabaseM.enlisted token [] (h.of j) = [Interrupt.mk k run]) ∨
      (∀ k run statement, ¬ h.Executing j k run statement) ∧
        DatabaseM.enlisted token [] (h.of j) = [] := by
  -- it has not begun, it waits, or it is over
  rcases hidle with hnil | ⟨l, w, hl⟩ | ⟨r, hr⟩
  · refine .inr ⟨?_, by rw [hnil]; rfl⟩
    rintro k run statement ⟨l, hl⟩
    rw [hnil] at hl
    simp at hl
  · have hsame : ∀ {k run statement}, h.Executing j k run statement →
        w = .inr (.inl (.execute k run statement)) := by
      rintro k run statement ⟨l', hl'⟩
      rw [hl] at hl'
      cases (List.append_inj' hl' rfl).2
      rfl
    -- what it waits for is what its program waits for
    rcases hp.way hj with ⟨y, hy⟩ | ⟨l₁, w₁, next, hl₁, hy⟩
    · exact absurd (hl ▸ hy) Program.Leads.not_snoc_call
    rw [hl] at hl₁
    obtain ⟨rfl, hw⟩ := List.append_inj' hl₁ rfl
    cases hw
    have hcall : DatabaseM.enlisted token [] (h.of j) = DatabaseM.enlisted token [] l := by
      rw [hl]
      simp [DatabaseM.enlist]
    rw [hcall]
    rcases DatabaseM.enlisted_of_asks_call hruns (.call hy) with
      ⟨k, run, statement, rfl, hl'⟩ | ⟨hne, hl'⟩
    · exact .inl ⟨k, run, statement, ⟨l, hl⟩, hl'⟩
    · exact .inr ⟨fun k run statement hex => hne k run statement (hsame hex), hl'⟩
  · refine .inr ⟨fun k run statement ⟨l, hl⟩ => hp.not_waiting_of_finished ⟨r, hr⟩ hl, ?_⟩
    rcases hp.finish_cases_of_job hj hr with hends | ⟨hnil, -, -⟩
    · exact DatabaseM.enlisted_of_ends hruns hends
    · rw [hnil]
      rfl

/-- Whoever registers something under the token of a query, or takes that back, is the query. -/
theorem eq_of_enlisting {x : Deed c} {runs : List Interrupt}
    (hp : D.regime.Possible (g ++ .deed i x :: g'))
    (hj : (History.jobs (g ++ .deed i x :: g'))[j]? = some job) (hruns : job.Runs token)
    (hx : DatabaseM.enlist token runs x ≠ runs) : i = j := by
  obtain ⟨job', hi, hlicensed⟩ := hp.licensed (x := x) fun ha => by
    cases x with
    | answer => exact hx rfl
    | act | call => exact ha
  -- a query has a token of its own
  have hsame : ∀ {token'}, token' = token → job'.Runs token' → i = j := by
    rintro token' rfl hruns'
    exact hp.runs_unique (History.jobs_mono hi) hruns' hj hruns
  cases hlicensed with
  | @register k run token' hruns' _ =>
    refine hsame ?_ hruns'
    by_contra hne
    exact hx (if_neg hne)
  | @unregister k run token' hruns' =>
    refine hsame ?_ hruns'
    by_contra hne
    exact hx (if_neg hne)
  | plain he =>
    -- nothing plain registers anything
    unfold DatabaseM.enlist at hx
    split at hx
    · exact he.elim
    · exact he.elim
    · exact absurd rfl hx
  | _ => exact absurd rfl hx

/-- A query that is being started has done nothing yet, and its token has no actions. -/
theorem registered_at_start {e : Happening c.setting c.requests}
    (hp : D.regime.Possible (h ++ [e])) (hold : h.jobs[j]? = none)
    (hj : (History.jobs (h ++ [e]))[j]? = some job) (hruns : job.Runs token) :
    (History.tokens (h ++ [e]))[token]? = some {} ∧ History.of (h ++ [e]) j = [] := by
  obtain ⟨g, i, g', heq, rfl, rfl⟩ := hp.made_directly hj hruns
  rcases List.eq_nil_or_concat g' with rfl | ⟨g', d, rfl⟩
  · replace heq : h ++ [e] = (g ++ [.deed i (.does .newToken (History.tokenCount g))]) ++
        [.deed i (.does (.spawn job) (History.jobs g).length)] := by simpa using heq
    obtain ⟨rfl, he⟩ := List.append_inj' heq rfl
    cases he
    have hother : i ≠ (History.jobs g).length := by
      rintro rfl
      obtain ⟨⟨_, hstarted⟩, -⟩ := hp.started_of_deed
      rw [hold] at hstarted
      cases hstarted
    constructor
    · rw [History.tokens_snoc, History.tokens_snoc, ← History.length_tokens]
      exact List.getElem?_concat_length
    · rw [History.of_append, hp.of_append.of_eq_nil_of_not_started hold]
      simp only [History.of_cons, History.of_nil, Happening.deed?, if_neg hother,
        Option.toList_none, List.append_nil]
  · -- were anything to follow on its start, it would have been started before
    replace heq : h ++ [e] = (g ++ .deed i (.does .newToken (History.tokenCount g)) ::
        .deed i (.does (.spawn job) (History.jobs g).length) :: g') ++ [d] := by simpa using heq
    obtain ⟨rfl, -⟩ := List.append_inj' heq rfl
    simp [Happening.job?] at hold

/-- Under the token of a query that has not been set is registered what the query has registered. -/
theorem registered_of_query (hp : D.regime.Possible h) (hj : h.jobs[j]? = some job)
    (hruns : job.Runs token) (hfree : ¬ h.Cancelled token) :
    ∃ t, h.tokens[token]? = some t ∧ t.actions = DatabaseM.enlisted token [] (h.of j) := by
  -- along the history: the entry of the token changes as the query registers and takes back
  induction h using List.reverseRecOn with
  | nil => simp at hj
  | append_singleton h e ih =>
    have hbefore : D.regime.Possible h := hp.of_append
    cases hold : (History.jobs h)[j]? with
    | none =>
      obtain ⟨ht, hof⟩ := hp.registered_at_start hold hj hruns
      rw [hof]
      exact ⟨{}, ht, rfl⟩
    | some job₀ =>
      rw [History.jobs_mono hold] at hj
      cases hj
      obtain ⟨t, ht, hactions⟩ := ih hbefore hold fun hset => hfree hset.mono
      rw [History.tokens_snoc, History.of_append, DatabaseM.enlisted_append, ← hactions]
      rcases e with _ | ⟨i, ⟨r | r, out⟩ | w | ⟨w, ans⟩⟩ | _ | _
      · exact ⟨t, ht, rfl⟩
      · -- of all exchanges, only acts of tasks are about tokens
        have htrip : r ≠ .trip token := by
          rintro rfl
          exact hfree (History.cancelled_snoc_iff.mpr
            (.inr ⟨hbefore.made_of_started hold hruns, i, out, rfl⟩))
        have honToken : (r.onToken token t).actions =
            DatabaseM.enlist token t.actions (.act (.inl r) out) := DatabaseM.actions_onToken htrip
        refine ⟨_, TaskAct.getElem?_onTokens r ht, honToken.trans ?_⟩
        -- the query itself changes the entry as it is recorded; nobody else does
        by_cases hij : i = j
        · subst hij
          simp only [History.of_cons, History.of_nil, Happening.deed?, if_true, Option.toList_some,
            List.append_nil]
          rfl
        · have hsame : DatabaseM.enlist token t.actions (.act (.inl r) out) = t.actions := by
            by_contra hne
            exact hij (hp.eq_of_enlisting (History.jobs_mono hold) hruns hne)
          rw [hsame]
          simp only [History.of_cons, History.of_nil, Happening.deed?, if_neg hij,
            Option.toList_none, List.append_nil]
          rfl
      iterate 3
        · refine ⟨t, ht, ?_⟩
          simp only [History.of_cons, History.of_nil, Happening.deed?, List.append_nil]
          split <;> rfl
      all_goals exact ⟨t, ht, rfl⟩

/-- Whoever sets the token of a query is to stop the run of the query if its statement is being run
and the token has not been set before, and has nothing to do otherwise. -/
theorem trip_cases (hp : D.regime.Possible (g ++ .deed i (.does (.trip token) actions) :: g'))
    (hj : (History.jobs (g ++ .deed i (.does (.trip token) actions) :: g'))[j]? = some job)
    (hruns : job.Runs token) :
    (¬ g.Cancelled token ∧ ∃ k run statement, g.Executing j k run statement ∧
        actions = [Interrupt.mk k run]) ∨
      (g.Cancelled token ∨ ∀ k run statement, ¬ g.Executing j k run statement) ∧ actions = [] := by
  -- the actions of a trip are what is registered under the token at the time
  obtain ⟨hregistered, hactions⟩ : History.Registered g token actions ∧
      actions = ((History.tokens g)[token]?.map (·.trip.1)).getD [] := hp.yields
  cases hstarted : (History.jobs g)[j]? with
  | none =>
    -- nobody else registers anything under the token
    refine .inr ⟨.inr ?_, ?_⟩
    · rintro k run statement ⟨l, hl⟩
      rw [hp.of_append.of_eq_nil_of_not_started hstarted] at hl
      simp at hl
    · rw [List.eq_nil_iff_forall_not_mem]
      intro a ha
      obtain ⟨i', hregister⟩ := hregistered a ha
      obtain ⟨p, q, rfl⟩ := List.append_of_mem hregister
      obtain ⟨⟨job', hjob'⟩, -⟩ := hp.of_append.started_of_deed
      have hlisted : DatabaseM.enlist token [] (.does (.register token a) () : Deed c) ≠ [] := by
        simp [DatabaseM.enlist]
      have heq : (p ++ .deed i' (.does (.register token a) ()) :: q) ++
          .deed i (.does (.trip token) actions) :: g' =
          p ++ .deed i' (.does (.register token a) ()) ::
            (q ++ .deed i (.does (.trip token) actions) :: g') := by simp
      rw [heq] at hp hj
      obtain rfl := hp.eq_of_enlisting hj hruns hlisted
      rw [History.jobs_mono hjob'] at hstarted
      cases hstarted
  | some job₀ =>
    rw [History.jobs_mono hstarted] at hj
    cases hj
    -- a token that has been set before has nothing left to do
    by_cases hset : g.Cancelled token
    · refine .inr ⟨.inl hset, ?_⟩
      exact hactions.trans hset.due_eq
    obtain ⟨t, ht, hlisted⟩ := hp.of_append.registered_of_query hstarted hruns hset
    have hall : actions = DatabaseM.enlisted token [] (g.of j) :=
      hactions.trans ((History.due_eq_actions ht hset).trans hlisted)
    -- the query does not have its turn
    have hidle : g.Idle j := by
      refine (hp.inTurn id).2 j ?_
      rintro rfl
      have hasks := hp.asks_of_job (History.jobs_mono hstarted) id
      rcases DatabaseM.asks_of_runs hruns hasks with he | ⟨_, he⟩ | ⟨_, he⟩ |
        ⟨_, _, _, he⟩ | ⟨_, _, he⟩
      · exact he
      all_goals cases he
    rcases hp.of_append.enlisted_of_idle hstarted hruns hidle with
      ⟨k, run, statement, hexecuting, hl⟩ | ⟨hnone, hl⟩
    · exact .inl ⟨hset, k, run, statement, hexecuting, hall.trans hl⟩
    · exact .inr ⟨.inr hnone, hall.trans hl⟩

end Regime.Possible

end PooledSql
