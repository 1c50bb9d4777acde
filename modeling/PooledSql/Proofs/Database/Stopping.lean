import PooledSql.Proofs.Database.Isolation
import PooledSql.Proofs.Database.Pursuit

/-!
# Stopping statements

Whoever is the first to cancel a query while its statement is being run asks the server to stop what
runs on the connection. The request is a task of its own, which may begin when the statement is
over. Until it is over itself, the query keeps its connection: it is not given back, and no other
statement is run on it (`Regime.Possible.stopsOnce`).

* `History.Caught`: the first call for the cancellation of a query comes while its statement is
  being run.
* `History.Requests`: a request to stop a run is started on behalf of a token.
* `History.Tells`: inquiries about what runs on a connection are answered with the run of a query.
* `History.StopsOnce`: what is known of the requests on behalf of a query.
-/

namespace PooledSql

variable {c : Client} {D : Surroundings c} {a a' g g' h p p' : History c.setting c.requests}
  {i j r t : TaskId} {k k' : LeaseId} {run run' : RunId} {statement : Statement} {token : TokenId}
  {x y : Deed c}

namespace History

/-- Whether the first call for the cancellation of a query has come while a run of its statement was
under way on a connection. -/
def Caught (h : History c.setting c.requests) (j : TaskId) (token : TokenId) (k : LeaseId)
    (run : RunId) : Prop :=
  ∃ (g : History c.setting c.requests) (i : TaskId) (q : Query) (actions : List Interrupt)
    (g' : History c.setting c.requests) (statement : Statement),
    h = g ++ ((q.cancelling actions).map (.deed i) ++ g') ∧ q.token = token ∧ ¬ g.Cancelled token ∧
      g.Executing j k run statement

/-- Whether a request to stop a run on a connection has been started, by whoever has set a token. -/
def Requests (h : History c.setting c.requests) (token : TokenId) (k : LeaseId) (run : RunId)
    (r : TaskId) : Prop :=
  ∃ (g : History c.setting c.requests) (i : TaskId) (q : Query) (g' : History c.setting c.requests),
    h = g ++ ((q.stopping k run r).map (.deed i) ++ g') ∧ q.token = token

/-- Whether all who ask what runs on a connection are told the run of a query while that is under
way. -/
def Tells (h : History c.setting c.requests) (j : TaskId) (k : LeaseId) : Prop :=
  ∀ (g : History c.setting c.requests) i out g' run statement,
    h = g ++ .deed i (.inquires (.activeRun k) out) :: g' → g.Executing j k run statement →
    out = some run

/-- Whether a task has sent a request to stop what runs on a connection, and no other one. -/
def SendsOnce (h : History c.setting c.requests) (r : TaskId) (k : LeaseId) : Prop :=
  ∃ pid rest, h.of r = DatabaseM.sending k pid ++ rest ∧ ∀ k', .requests (.cancelRunning k') ∉ rest

/-- What is known of the requests to stop the statement that a query runs on a connection, under the
token of the query. -/
structure StopsOnce (h : History c.setting c.requests) (j : TaskId) (token : TokenId)
    (k : LeaseId) : Prop where
  /-- A request is started if the first call for the cancellation of the query comes while its
  statement is being run. -/
  requested : ∀ {run}, h.Caught j token k run → ∃ r, h.Requests token k run r
  /-- Otherwise none is. -/
  caught : ∀ {k' run r}, h.Requests token k' run r → k' = k ∧ h.Caught j token k run
  /-- No other request is started besides. -/
  unique : ∀ {k' run run' r r'}, h.Requests token k run r → h.Requests token k' run' r' → r' = r
  /-- Once the request has begun, it is sent, once. -/
  sent : ∀ {run r}, h.Requests token k run r → h.of r ≠ [] → h.SendsOnce r k
  /-- Nothing else is sent for the connection but what has been started in this way for some
  query. -/
  sender : ∀ {r}, .deed r (.requests (.cancelRunning k)) ∈ h →
    ∃ j' token' run, h.Caught j' token' k run ∧ h.Requests token' k run r
  /-- From the start of the request until it is over, the connection is not given back, and no
  statement is run on it. -/
  kept : ∀ {run r g g' t x},
    h.Requests token k run r → h = g ++ .deed t x :: g' → r < g.jobs.length →
    ((∃ cause, x = .requests (.release k cause)) ∨
      ∃ run' statement, x = .requests (.execute k run' statement)) → Finished g r
  /-- An error that the request comes to is ignored. -/
  ignored : ∀ {run r ans}, h.Requests token k run r → .finish r ans ∈ h →
    (∀ f, .deed r (.served (.cancelRunning k) (.error f)) ∈ h → f.isError) → ∃ v, ans = .ok v

/-- A task waits for one run at the most. -/
theorem Executing.unique {statement' : Statement} (h₁ : h.Executing j k run statement)
    (h₂ : h.Executing j k' run' statement') : k = k' ∧ run = run' ∧ statement = statement' := by
  obtain ⟨l, hl⟩ := h₁
  obtain ⟨l', hl'⟩ := h₂
  rw [hl] at hl'
  cases (List.append_inj' hl' rfl).2
  exact ⟨rfl, rfl, rfl⟩

/-- What other tasks do makes no difference to whether a task waits for a run. -/
theorem executing_append_iff (hg' : g'.of j = []) :
    Executing (g ++ g') j k run statement ↔ g.Executing j k run statement := by
  rw [Executing, Executing, of_append, hg', List.append_nil]

/-- A call for a cancellation is not the setting of a token. -/
theorem cancelled_append_calling {q : Query} :
    Cancelled (g ++ q.calling.map (.deed i)) token ↔ g.Cancelled token := by
  rw [Query.calling, List.map_cons, List.map_singleton, List.append_cons, cancelled_snoc_iff,
    cancelled_snoc_iff]
  constructor
  · rintro ((hset | ⟨-, _, _, he⟩) | ⟨-, _, _, he⟩)
    · exact hset
    · cases he
    · cases he
  · exact fun hset => .inl (.inl hset)

/-- A call for a cancellation starts no task. -/
@[simp]
theorem jobs_map_calling {q : Query} :
    History.jobs (q.calling.map (.deed i) : History c.setting c.requests) = [] := rfl

/-- A run that a request has been noted for keeps one, whatever happens. -/
theorem request_record {l : Ledger} {e : Happening c.setting c.requests}
    (hr : l.runs[run]? = some (some r)) : ∃ r', (record l e).runs[run]? = some (some r') := by
  unfold record
  split
  next act _ =>
    -- only a new run and a note change the runs of the ledger
    cases act with
    | newRun =>
      refine ⟨r, ?_⟩
      simp only [Ledger.perform]
      rw [List.getElem?_append_left (List.getElem?_eq_some_iff.mp hr).1]
      exact hr
    | noteRequest run' r' =>
      by_cases he : run' = run
      · exact ⟨r', by simp [Ledger.perform, he, hr]⟩
      · exact ⟨r, by simp [Ledger.perform, he, hr]⟩
    | _ => exact ⟨r, hr⟩
  next => exact ⟨r, hr⟩

/-- When a request has been noted for a run, there is one in the ledger from then on. -/
theorem request_of_noted (hrun : run < g.ledger.runs.length) :
    ∃ r', (ledger (g ++ .deed i (.enters (.noteRequest run r) ()) :: g')).runs[run]? =
      some (some r') := by
  induction g' using List.reverseRecOn with
  | nil =>
    refine ⟨r, ?_⟩
    rw [ledger_snoc]
    simp [record, Ledger.perform, hrun]
  | append_singleton g' e ih =>
    obtain ⟨r', hr'⟩ := ih
    rw [← List.cons_append, ← List.append_assoc, ledger_snoc]
    exact request_record hr'

end History

namespace Regime.Possible

variable {actions : List Interrupt} {job : Job c.setting}

/-- A task that waits for a run does nothing but go on with the answer. -/
theorem ne_of_executing (hp : D.regime.Possible (g ++ .deed i x :: g')) (hx : ¬ x.IsAnswer)
    (hj : g.Executing j k run statement) : i ≠ j := by
  rintro rfl
  obtain ⟨l, hl⟩ := hj
  have hof : History.of (g ++ .deed i x :: g') i =
      l ++ .requests (.execute k run statement) :: x :: g'.of i := by
    simp [hl, Happening.deed?]
  obtain ⟨ans, rfl⟩ := hp.answered hof
  exact hx trivial

/-- Whoever sets a token and is to stop a run does so for a query whose statement is being run, and
for nothing else. -/
theorem executing_of_trip
    (hp : D.regime.Possible (g ++ .deed i (.does (.trip token) actions) :: g'))
    (hrun : Interrupt.mk k run ∈ actions) :
    ∃ (j : TaskId) (job : Job c.setting) (statement : Statement), g.jobs[j]? = some job ∧
      job.Runs token ∧ ¬ g.Cancelled token ∧ g.Executing j k run statement ∧
      actions = [Interrupt.mk k run] := by
  have hregistered : History.Registered g token actions := hp.yields.1
  -- what is to be stopped has been registered under the token
  obtain ⟨j, hregister⟩ := hregistered _ hrun
  obtain ⟨p, q, rfl⟩ := List.append_of_mem hregister
  obtain ⟨job, hjob, hlicensed⟩ := hp.of_append.licensed id
  have hruns : job.Runs token := by
    cases hlicensed with
    | plain he => exact he.elim
    | register hruns _ => exact hruns
  have hj : (History.jobs
      (p ++ .deed j (.does (.register token (Interrupt.mk k run)) ()) :: q))[j]? = some job :=
    History.jobs_mono hjob
  -- runs are registered by queries, of which one has the token
  rcases hp.trip_cases (History.jobs_mono hj) hruns with
    ⟨hunset, k', run', statement, hexecuting, rfl⟩ | ⟨-, rfl⟩
  · cases List.mem_singleton.mp hrun
    exact ⟨j, job, statement, hj, hruns, hunset, hexecuting, rfl⟩
  · simp at hrun

/-- A token is set for the first time at one place. -/
theorem tripped_once {actions' : List Interrupt}
    (ha : h = g ++ .deed i (.does (.trip token) actions) :: g') (hga : ¬ g.Cancelled token)
    (hb : h = p ++ .deed j (.does (.trip token) actions') :: p') (hpb : ¬ p.Cancelled token)
    (hg : token < g.tokenCount) (hp' : token < p.tokenCount) :
    g = p ∧ i = j ∧ actions = actions' ∧ g' = p' := by
  rcases History.place_cases ha hb with ⟨rfl, he, rfl⟩ | ⟨m, rfl, -⟩ | ⟨m, rfl, -⟩
  · cases he
    exact ⟨rfl, rfl, rfl, rfl⟩
  · -- of two places, the later one finds the token set
    exact absurd ⟨g, i, actions, m, rfl, hg⟩ hpb
  · exact absurd ⟨p, j, actions', m, rfl, hp'⟩ hga

/-- Between turns, whoever is to stop a run has asked what runs on its connection; and if that was
the run, the request to stop it has been started and noted. -/
theorem stopping_of_trip (hp : D.regime.Possible h) (hrest : h.AtRest)
    (heq : h = g ++ .deed i (.does (.trip token) [Interrupt.mk k run]) :: g') :
    ∃ (q : Query) (g₀ : History c.setting c.requests) (out : Option RunId)
      (g₁ : History c.setting c.requests), q.token = token ∧ g = g₀ ++ q.calling.map (.deed i) ∧
      g' = .deed i (.inquires (.activeRun k) out) :: g₁ ∧
      (out = some run → ∃ r g₂, g' = (DatabaseM.pursuing k run r).map (.deed i) ++ g₂) := by
  obtain ⟨job, hjob, hlicensed⟩ := (heq ▸ hp).licensed id
  cases hlicensed with
  | plain he => exact he.elim
  | @trip b q _ hcomes hl =>
    obtain ⟨g₀, rfl, -⟩ := (heq ▸ hp).stretch id
      (show ∀ y ∈ (q.calling : List (Deed c)),
        ¬ y.IsAnswer by simp [Query.calling, Exchange.IsAnswer]) hl
    -- what the actions have come to since
    have hy : D.regime.Performs h i b (DatabaseM.cancel q : DatabaseM c Unit) :=
      ⟨job, heq ▸ History.jobs_mono hjob, hcomes⟩
    have hof : h.of i = b ++ (q.cancelling [Interrupt.mk k run] ++ g'.of i) := by
      rw [heq, History.of_append, hl]
      simp [Query.cancelling, Happening.deed?]
      rfl
    have hbegun : h.of i ≠ [] := by
      rw [hof]
      simp [Query.cancelling]
    obtain ⟨out, v, hv, hstarted⟩ : ∃ out v, g'.of i = .inquires (.activeRun k) out :: v ∧
        (out = some run → ∃ request v', g'.of i = DatabaseM.pursuing k run request ++ v') := by
      -- between turns, the cancellation has ended or waits; in both cases the actions have been run
      -- up to there
      rcases hy.ends_or_waits hp hrest hof hbegun with ⟨l₁, l₂, u, hl₁, hends⟩ | ⟨l₁, w, hl₁, hasks⟩
      · rcases DatabaseM.ends_cancel hends with rfl | ⟨actions, l', rfl, hactions⟩
        · cases hl₁
        rw [List.append_assoc] at hl₁
        obtain ⟨rfl, hg'⟩ := Query.cancelling_append_inj hl₁
        exact DatabaseM.pursued_of_runActions hg' (.inl ⟨u, hactions⟩)
      · obtain ⟨actions, l', rfl, hactions⟩ := DatabaseM.asks_cancel_call hasks
        rw [List.append_assoc] at hl₁
        obtain ⟨rfl, hg'⟩ := Query.cancelling_append_inj hl₁
        exact DatabaseM.pursued_of_runActions (hg'.trans (List.append_nil _).symm)
          (.inr ⟨w, l', rfl, hactions⟩)
    -- what follows in the same turn follows at once in the history
    obtain ⟨g₁, hg₁, -⟩ := (heq ▸ hp).follows (by simp [Exchange.IsAnswer]) hv
    refine ⟨q, g₀, out, g₁, rfl, rfl, hg₁, fun hout => ?_⟩
    obtain ⟨request, v', hv'⟩ := hstarted hout
    obtain ⟨g₂, hg₂, -⟩ := (heq ▸ hp).follows_all
      (show ∀ y ∈ DatabaseM.pursuing k run request, ¬ y.IsAnswer by
        simp [DatabaseM.pursuing, Exchange.IsAnswer]) hv'
    exact ⟨request, g₂, hg₂⟩

/-- A request to stop the run of a query is started if the first call for its cancellation comes
while the run is under way, and whoever has called is told so. -/
theorem requested_of_caught (hp : D.regime.Possible h) (hrest : h.AtRest)
    (hj : h.jobs[j]? = some job)
    (hruns : job.Runs token) (htells : h.Tells j k) (hcaught : h.Caught j token k run) :
    ∃ r, h.Requests token k run r := by
  obtain ⟨g, i, q, actions, g', statement, heq, rfl, hunset, hexecuting⟩ := hcaught
  have hne : i ≠ j := (heq ▸ hp).ne_of_executing id hexecuting
  -- the query waits for its statement as long as another task is at work
  have hstill : ∀ {xs : List (Deed c)},
      History.Executing (g ++ xs.map (.deed i)) j k run statement :=
    (History.executing_append_iff (History.of_map_deed_of_ne hne)).mpr hexecuting
  rw [Query.append_cancelling] at heq
  -- setting the token gives the run that is registered, unless the token has been set before
  obtain ⟨-, k', run', statement', hexecuting', rfl⟩ | ⟨hset | hnone, -⟩ :=
    (heq ▸ hp).trip_cases (heq ▸ hj) hruns
  · obtain ⟨rfl, rfl, -⟩ := hstill.unique hexecuting'
    obtain ⟨q', g₀, out, g₁, htoken, hg₀, rfl, hstarted⟩ := hp.stopping_of_trip hrest heq
    have hasked : h = (g ++ (q.cancelling [Interrupt.mk k run]).map (.deed i)) ++
        .deed i (.inquires (.activeRun k) out) :: g₁ := by
      rw [heq, List.append_assoc, List.append_assoc]
      rfl
    obtain ⟨r, g₂, hg₂⟩ := hstarted (htells _ _ _ _ _ _ hasked hstill)
    refine ⟨r, g₀, i, q', g₂, ?_, htoken⟩
    rw [Query.append_stopping, htoken, ← hg₀, ← hg₂]
    exact heq
  · exact absurd (History.cancelled_append_calling.mp hset) hunset
  · exact absurd hstill (hnone k run statement)

/-- A request to stop a run is started for a query whose statement is being run when its token is
set for the first time. -/
theorem executing_of_stopping {q : Query}
    (hp : D.regime.Possible (g ++ ((q.stopping k run r).map (.deed i) ++ g'))) :
    ∃ (j : TaskId) (job : Job c.setting) (statement : Statement), g.jobs[j]? = some job ∧
      job.Runs q.token ∧ ¬ g.Cancelled q.token ∧ g.Executing j k run statement ∧ i ≠ j := by
  rw [Query.append_stopping] at hp
  obtain ⟨j, job, statement, hjob, hruns, hunset, hexecuting, -⟩ :=
    hp.executing_of_trip (List.mem_singleton_self _)
  -- the query waits, so that whoever cancels it is another task
  have hne := hp.ne_of_executing id hexecuting
  refine ⟨j, job, statement, by simpa using hjob, hruns,
    fun hset => hunset (History.cancelled_append_calling.mpr hset),
    (History.executing_append_iff (History.of_map_deed_of_ne hne)).mp hexecuting, hne⟩

/-- A request to stop a run is started on behalf of a query that has been cancelled while the run
was under way. -/
theorem caught_of_requests (hp : D.regime.Possible h) (hr : h.Requests token k run r) :
    ∃ (j : TaskId) (job : Job c.setting), h.jobs[j]? = some job ∧ job.Runs token ∧
      h.Caught j token k run := by
  obtain ⟨g, i, q, g', rfl, rfl⟩ := hr
  obtain ⟨j, job, statement, hjob, hruns, hunset, hexecuting, -⟩ := hp.executing_of_stopping
  exact ⟨j, job, History.jobs_mono hjob, hruns, g, i, q, [Interrupt.mk k run],
    (DatabaseM.pursuing k run r).map (.deed i) ++ g', statement, by simp [Query.stopping],
    rfl, hunset, hexecuting⟩

/-- One request is started at the most on behalf of a token. -/
theorem requests_unique {r' : TaskId} (hp : D.regime.Possible h) (hr : h.Requests token k run r)
    (hr' : h.Requests token k' run' r') : k = k' ∧ run = run' ∧ r = r' := by
  obtain ⟨g, i, q, g', heq, rfl⟩ := hr
  obtain ⟨p, i', q', p', heq', htoken⟩ := hr'
  -- both have set the same token for the first time
  have hmade : ∀ {g i g' k run r} {q : Query}, h = g ++ ((q.stopping k run r).map (.deed i) ++ g') →
      ¬ History.Cancelled (g ++ q.calling.map (.deed i)) q.token ∧
        q.token < History.tokenCount (g ++ q.calling.map (.deed i)) := by
    rintro g i g' k run r q rfl
    obtain ⟨j, job, statement, hjob, hruns, hunset, -, -⟩ := hp.executing_of_stopping
    refine ⟨fun hset => hunset (History.cancelled_append_calling.mp hset), ?_⟩
    rw [History.tokenCount_append]
    exact Nat.lt_add_right _ (hp.of_append.made_of_started hjob hruns)
  obtain ⟨hga, hg⟩ := hmade heq
  obtain ⟨hpb, hp'⟩ := hmade heq'
  rw [Query.append_stopping] at heq heq'
  rw [htoken] at hpb hp' heq'
  obtain ⟨-, rfl, hactions, hrest⟩ := tripped_once heq hga heq' hpb hg hp'
  cases hactions
  cases hrest
  exact ⟨rfl, rfl, rfl⟩

/-- Whoever has set a token, has found a run under way that is to be stopped then, and has started a
request, has started the request to stop that run. -/
theorem requests_of_trip {before after : List Interrupt} {m : List (Deed c)}
    (hp : D.regime.Possible h) (hrest : h.AtRest)
    (heq : h = g ++ .deed i (.does (.trip token) (before ++ Interrupt.mk k run :: after)) :: g')
    (hm : Fiber.Ends (TaskM.runActions DatabaseM.interrupt before : DatabaseM c Unit) m (.ok ()))
    (hof : m ++ [.inquires (.activeRun k) (some run),
      .does (.spawn (.plain (.cancelRequest k))) r] <+:
      g'.of i) : h.Requests token k run r := by
  obtain ⟨-, -, -, -, -, -, -, hone⟩ := (heq ▸ hp).executing_of_trip
    (List.mem_append_right _ (List.mem_cons_self ..))
  -- nothing else has been registered under the token
  obtain ⟨rfl, rfl⟩ : before = [] ∧ after = [] := by
    cases before with
    | nil => exact ⟨rfl, (List.cons.inj hone).2⟩
    | cons => simp at hone
  obtain ⟨rfl, -⟩ := Fiber.ends_pure_iff.mp hm
  obtain ⟨q, g₀, out, g₁, rfl, rfl, rfl, hstarted⟩ := hp.stopping_of_trip hrest heq
  obtain ⟨v, hof⟩ := hof
  obtain rfl : out = some run := by
    simp only [History.of_cons, Happening.deed?, if_true, Option.toList_some, List.nil_append,
      List.cons_append, List.cons.injEq] at hof
    cases hof.1
    rfl
  obtain ⟨r', g₂, hg₂⟩ := hstarted rfl
  rw [hg₂, History.of_append, History.of_map_deed] at hof
  obtain rfl : r = r' := by
    cases (List.cons.inj (List.cons.inj hof).2).1
    rfl
  refine ⟨g₀, i, q, g₂, ?_, rfl⟩
  rw [Query.append_stopping, heq, ← hg₂]
  rfl

/-- The task of a request to stop what runs on a connection has been started to stop a run. -/
theorem requests_of_job (hp : D.regime.Possible h) (hrest : h.AtRest)
    (hr : h.jobs[r]? = some (.plain (.cancelRequest k))) :
    ∃ token run, h.Requests token k run r := by
  obtain ⟨g, e, g', heq, he, hlength⟩ := History.exists_of_job hr
  rcases Happening.job?_eq_some_iff.mp he with rfl | ⟨i, n, rfl⟩
  · -- clients are started from outside, requests are not
    obtain ⟨task, htask⟩ := (heq ▸ hp).launches
    cases htask
  obtain rfl : r = n := ((heq ▸ hp).eq_length_of_spawn.trans hlength).symm
  obtain ⟨job, hjob, hlicensed⟩ := (heq ▸ hp).licensed id
  cases hlicensed with
  | plain hfree => cases hfree
  | @spawnRequest b m token before after _ run _ hm hl =>
    obtain ⟨p, p', rfl, -, hp'⟩ := History.exists_split_of hl
    refine ⟨token, run, hp.requests_of_trip hrest (heq.trans (List.append_assoc ..)) hm
      ⟨History.of g' i, ?_⟩⟩
    simp [hp', Happening.deed?]

/-- A request that has been noted for a run has been started to stop that run. -/
theorem requests_of_note (hp : D.regime.Possible h) (hrest : h.AtRest)
    (hnote : .deed i (.enters (.noteRequest run r) ()) ∈ h) :
    ∃ token k, h.Requests token k run r := by
  obtain ⟨g, g', heq⟩ := List.append_of_mem hnote
  obtain ⟨job, hjob, hlicensed⟩ := (heq ▸ hp).licensed id
  cases hlicensed with
  | plain he => exact he.elim
  | @noteRequest b m token before after k _ _ hm hl =>
    obtain ⟨p, p', rfl, -, hp'⟩ := History.exists_split_of hl
    refine ⟨token, k, hp.requests_of_trip hrest (heq.trans (List.append_assoc ..)) hm ?_⟩
    exact ⟨_, by rw [List.append_eq, History.of_append, hp']⟩

/-- Between turns, a request to stop what runs on a connection has been sent, once, if its task has
begun. -/
theorem sendsOnce_of_begun (hp : D.regime.Possible h) (hrest : h.AtRest)
    (hr : h.jobs[r]? = some (.plain (.cancelRequest k))) (hbegun : h.of r ≠ []) :
    h.SendsOnce r k := by
  have hy : D.regime.Performs h r [] (DatabaseM.cancelRequest k : DatabaseM c Unit) :=
    ⟨_, hr, Fiber.comes_bind⟩
  -- it is sent in the first turn, before anything that takes time
  obtain ⟨pid, rest, hof⟩ : ∃ pid rest, h.of r = DatabaseM.sending k pid ++ rest := by
    rcases hy.ends_or_waits hp hrest (List.nil_append _).symm hbegun with
      ⟨l₁, l₂, u, hof, hends⟩ | ⟨l, w, hof, hasks⟩
    · obtain ⟨pid, ans, after, rfl, -, -⟩ := DatabaseM.ends_cancelRequest hends
      exact ⟨pid, _, hof.trans (List.append_assoc ..)⟩
    · obtain ⟨pid, hl⟩ := DatabaseM.asks_cancelRequest_call hasks
      exact ⟨pid, [], hof.trans (hl.trans (List.append_nil _).symm)⟩
  -- behind the request, the program asks for nothing more
  refine ⟨pid, rest, hof, fun k' hagain => ?_⟩
  obtain ⟨u, u', rfl⟩ := List.append_of_mem hagain
  rw [← List.append_assoc] at hof
  obtain ⟨g, g', rfl, hg, -⟩ := History.exists_split_of hof
  rcases Fiber.asks_bind_iff.mp (hp.asks_of_job hr id) with hasks | ⟨_, _, _, -, -, hnone⟩
  · obtain ⟨pid', hl⟩ := DatabaseM.asks_cancelRequest_call hasks
    rw [hg] at hl
    simpa [DatabaseM.sending] using congrArg List.length hl
  · exact absurd hnone Fiber.not_asks_pure

/-- A query that waits for a run has named it before, has run no statement before, and has not asked
for a request to stop it. -/
theorem of_executing (hp : D.regime.Possible h) (hj : h.jobs[j]? = some job)
    (hruns : job.Runs token) (hexecuting : h.Executing j k run statement) :
    ∃ l, h.of j = l ++ [.requests (.execute k run statement)] ∧ .enters .newRun run ∈ l ∧
      (∀ k' run' statement', .requests (.execute k' run' statement') ∉ l) ∧
      ∀ run' out, .enters (.request run') out ∉ l := by
  obtain ⟨l, hl⟩ := hexecuting
  obtain ⟨g, g', rfl, hg, -⟩ := History.exists_split_of hl
  exact ⟨l, hl, DatabaseM.before_of_asks_execute hruns (hg ▸ hp.asks_of_job hj id)⟩

/-- One request is noted at the most for a run. -/
theorem eq_of_note {r' : TaskId} (hp : D.regime.Possible h) (hrest : h.AtRest)
    (hr : h.Requests token k run r) (hnote : .deed i (.enters (.noteRequest run r') ()) ∈ h) :
    r' = r := by
  obtain ⟨token', k', hr'⟩ := hp.requests_of_note hrest hnote
  -- the query whose run is to be stopped has named the run
  have hnamed : ∀ {token k r}, h.Requests token k run r → ∃ j job, h.jobs[j]? = some job ∧
      job.Runs token ∧ .deed j (.enters .newRun run) ∈ h := by
    rintro _ k r ⟨g, i, q, g', rfl, rfl⟩
    obtain ⟨j, job, statement, hjob, hruns, -, hexecuting, -⟩ := hp.executing_of_stopping
    obtain ⟨l, hl, hrun, -⟩ := hp.of_append.of_executing hjob hruns hexecuting
    have hmem : Exchange.enters .newRun run ∈ g.of j := by
      rw [hl]
      exact List.mem_append_left _ hrun
    exact ⟨j, job, History.jobs_mono hjob, hruns,
      List.mem_append_left _ (History.mem_of_iff.mp hmem)⟩
  obtain ⟨j, job, hjob, hruns, hrun⟩ := hnamed hr
  obtain ⟨j', job', hjob', hruns', hrun'⟩ := hnamed hr'
  -- a run is named once, so that both are requests for one query
  obtain rfl := hp.run_unique hrun hrun'
  rw [hjob] at hjob'
  cases hjob'
  obtain rfl : token = token' := by
    cases hruns <;> cases hruns' <;> rfl
  exact (hp.requests_unique hr hr').2.2.symm

/-- Whoever asks for the request to stop a run is given the one that has been noted. -/
theorem found_of_note {out : Option TaskId} (hp : D.regime.Possible h) (hrest : h.AtRest)
    (hr : h.Requests token k run r)
    (heq : h = (p ++ .deed i (.enters (.noteRequest run r) ()) :: g) ++
      .deed j (.enters (.request run) out) :: g')
    (hnamed : .deed t (.enters .newRun run) ∈ p) : out = some r := by
  have hout : out =
      ((History.ledger (p ++ .deed i (.enters (.noteRequest run r) ()) :: g)).runs[run]?).join :=
    (heq ▸ hp).ledger_outcome
  have hbefore : D.regime.Possible p := (heq ▸ hp).of_append.of_append
  obtain ⟨r', hr'⟩ : ∃ r',
      (History.ledger (p ++ .deed i (.enters (.noteRequest run r) ()) :: g)).runs[run]? =
      some (some r') := History.request_of_noted (hbefore.lt_of_named hnamed)
  -- whatever is found in the ledger has been noted there
  obtain ⟨i', hnote⟩ := History.noted_of_request hr'
  obtain rfl := hp.eq_of_note hrest hr (heq ▸ List.mem_append_left _ hnote)
  rw [hout, hr']
  rfl

/-- A request to stop a run is over when it has been waited for. -/
theorem finished_of_awaited {q : Query} (hp : D.regime.Possible h) (hrest : h.AtRest)
    (hcalm : .interrupt j ∉ h) (heq : h = a ++ a')
    (hr : a = g ++ ((q.stopping k run r).map (.deed i) ++ g')) (hj : g.jobs[j]? = some job)
    (hruns : job.Runs q.token) (hexecuting : g.Executing j k run statement) (hij : i ≠ j)
    (hawaited : DatabaseM.Awaited run (a.of j)) : a.Finished r := by
  have hrequests : h.Requests q.token k run r := ⟨g, i, q, g' ++ a', by simp [heq, hr], rfl⟩
  have hpg : D.regime.Possible g := (hr ▸ (heq ▸ hp).of_append).of_append
  obtain ⟨l, hl, hrun, -, hunasked⟩ := hpg.of_executing hj hruns hexecuting
  -- the request has been noted before it is asked for
  have hfound : ∀ {out}, .enters (.request run) out ∈ a.of j → out = some r := by
    intro out hx
    obtain ⟨b, b', hb⟩ := List.append_of_mem (History.mem_of_iff.mp hx)
    have hnote := hr.trans Query.append_stopping_note
    have hnamed : ∀ {m}, .deed j (.enters .newRun run) ∈ g ++ m := fun {m} =>
      List.mem_append_left _ (History.mem_of_iff.mp (by rw [hl]; exact List.mem_append_left _ hrun))
    -- the query asks only when its run is over, and that is after the request has been noted
    rcases History.place_cases hnote hb with ⟨-, he, -⟩ | ⟨m, rfl, -⟩ | ⟨m, hm, -⟩
    · cases he
    · exact hp.found_of_note hrest hrequests
        ((heq.trans (congrArg (· ++ a') hb)).trans (List.append_assoc ..)) hnamed
    · have hearly : Exchange.enters (.request run) out ∈ g.of j := by
        have hof := congrArg (fun g => History.of g j) hm
        simp only [History.of_append, History.of_map_deed_of_ne hij, List.append_nil] at hof
        rw [hof]
        exact List.mem_append_right _ (by simp [Happening.deed?])
      rw [hl] at hearly
      rcases List.mem_append.mp hearly with hmem | hmem
      · exact absurd hmem (hunasked run out)
      · cases List.mem_singleton.mp hmem
  obtain ⟨lw, u, hw, hsub⟩ := hawaited
  -- the query has asked for the request, so it has been given it and has waited for it
  cases hw with
  | none => cases hfound (hsub (List.mem_cons_self ..))
  | some request ans =>
    cases hfound (hsub (List.mem_cons_self ..))
    have hanswer : .deed j (.answer (.inl (.joinShielded r)) ans) ∈ a :=
      History.mem_of_iff.mp (hsub (by simp [DatabaseM.waiting]))
    obtain ⟨b, b', rfl⟩ := List.append_of_mem hanswer
    -- an answer comes when the task is over, since nobody interrupts the query
    rcases (heq ▸ hp).of_append.resolves with hfinish | ⟨-, hint⟩
    · exact ⟨ans, List.mem_append_left _ hfinish⟩
    · exact absurd (heq ▸ List.mem_append_left _ (List.mem_append_left _ hint)) hcalm

/-- The task of a request to stop a run on a connection. -/
theorem job_of_requests (hp : D.regime.Possible h) (hr : h.Requests token k run r) :
    h.jobs[r]? = some (.plain (.cancelRequest k)) := by
  obtain ⟨g, i, q, g', rfl, -⟩ := hr
  rw [Query.append_stopping_spawn] at hp ⊢
  exact hp.job_of_spawned

/-- Whatever is asked of a pool after a request to stop a run has been started comes after all that
passes when the run is to be stopped. -/
theorem after_stopping {q : Query} {w : Pool.Wait} (hp : D.regime.Possible h)
    (hr : h = g ++ ((q.stopping k run r).map (.deed i) ++ g'))
    (heq : h = a ++ .deed t (.requests w) :: a') (hstarted : r < a.jobs.length) :
    ∃ m, a = g ++ ((q.stopping k run r).map (.deed i) ++ m) := by
  have hspawn := hr.trans Query.append_stopping_spawn
  rcases History.place_cases hspawn heq with ⟨-, he, -⟩ | ⟨m, rfl, hm⟩ | ⟨m, hm, -⟩
  · cases he
  · -- the request is noted and waited for in the same turn
    rcases m with _ | ⟨e, _ | ⟨e', m⟩⟩ <;> cases hm
    exact ⟨m, by rw [Query.append_stopping_spawn, List.append_assoc]⟩
  · -- the request has not been started before
    have hlength : r = (History.jobs (g ++ (q.finding k run).map (.deed i))).length :=
      (hspawn ▸ hp).eq_length_of_spawn
    rw [hm, History.jobs_append, List.length_append] at hlength
    exact absurd hstarted (Nat.not_lt.mpr (hlength ▸ Nat.le_add_right ..))

/-- A connection is not given back, and no statement is run on it, while a request to stop a run on
it is under way that has been started on behalf of a query that has the connection to itself. -/
theorem finished_of_passing (hp : D.regime.Possible h) (hrest : h.AtRest) (hk : h.Holds j token k)
    (hcalm : .interrupt j ∉ h) (hr : h.Requests token k run r) (heq : h = a ++ .deed t x :: a')
    (hstarted : r < a.jobs.length) (hx : (∃ cause, x = .requests (.release k cause)) ∨
      ∃ run' statement, x = .requests (.execute k run' statement)) : a.Finished r := by
  obtain ⟨g, i, q, g', hg, rfl⟩ := hr
  obtain ⟨job, hjob, hruns⟩ := hk.runs
  obtain ⟨j', job', statement, hjob', hruns', -, hexecuting, hne⟩ := (hg ▸ hp).executing_of_stopping
  -- it is the query with the connection to itself whose run is to be stopped, since tokens are not
  -- shared
  obtain rfl : j = j' := hp.runs_unique hjob hruns (hg ▸ History.jobs_mono hjob') hruns'
  obtain ⟨m, hm⟩ : ∃ m, a = g ++ ((q.stopping k run r).map (.deed i) ++ m) := by
    rcases hx with ⟨cause, rfl⟩ | ⟨run', statement', rfl⟩ <;>
      exact hp.after_stopping hg heq hstarted
  have hja : a.jobs[j]? = some job' := hm ▸ History.jobs_mono hjob'
  have hexecuted : Exchange.requests (.execute k run statement) ∈ a.of j := by
    obtain ⟨l, hl⟩ := hexecuting
    rw [hm, History.of_append, hl]
    simp
  refine hp.finished_of_awaited hrest hcalm heq hm hjob' hruns' hexecuting hne ?_
  -- the query is over and has waited for the request, or it is what acts on the connection
  by_cases hover : a.Finished j
  · obtain ⟨o, ho⟩ := hover
    rcases (heq ▸ hp).of_append.finish_cases_of_job hja ho with hends | ⟨hnil, -⟩
    · exact DatabaseM.awaited_of_ends hruns' hends hexecuted
    · rw [hnil] at hexecuted
      cases hexecuted
  · have hlease : x.lease? = some k := by
      rcases hx with ⟨cause, rfl⟩ | ⟨run', statement', rfl⟩ <;> rfl
    obtain rfl := hp.alone_of_holds hk heq hja hover hlease
    have hasks : ¬ x.IsAnswer → Fiber.Asks (D.regime.program job') (a.of t) x :=
      (heq ▸ hp).asks_of_job (History.jobs_mono hja)
    rcases hx with ⟨cause, rfl⟩ | ⟨run', statement', rfl⟩
    · exact DatabaseM.awaited_of_asks_release hruns' (hasks id) hexecuted
    · exact absurd hexecuted
        ((DatabaseM.before_of_asks_execute hruns' (hasks id)).2.1 k run statement)

/-- Of the queries that have been started and are not over, the one that has a connection to itself
is the only one with a statement to run on it. -/
theorem eq_of_unfinished {job' : Job c.setting} (hp : D.regime.Possible h) (hk : h.Holds j token k)
    (heq : h = a ++ a') (hj : a.jobs[j]? = some job) (hjover : ¬ a.Finished j)
    (ht : a.jobs[t]? = some job') (htover : ¬ a.Finished t)
    (hrun : .deed t (.requests (.execute k run statement)) ∈ h) : t = j := by
  -- a connection lent to a pooled query passes only what that query does
  cases hk with
  | pooled hjob hlent => exact hp.eq_of_passing_pooled hjob hlent hrun rfl
  | @inScope statement' hjob hone =>
    have hsame : ∀ {i : TaskId} {job job' : Job c.setting}, a.jobs[i]? = some job →
        h.jobs[i]? = some job' → job = job' := by
      intro i job job' hi hi'
      rw [heq, History.jobs_mono hi] at hi'
      exact Option.some.inj hi'
    obtain rfl := hsame hj hjob
    obtain ⟨token', rfl⟩ : ∃ token', job' = .query (.scoped k statement token') token' := by
      obtain ⟨p, p', rfl⟩ := List.append_of_mem hrun
      rcases hp.execution_cases with ⟨token', hp'⟩ | ⟨_, _, _, _, pid, pid', hp', hof⟩
      · exact ⟨token', hsame ht (History.jobs_mono hp')⟩
      · refine absurd hjob (hp.not_scoped_of_pooled (History.jobs_mono hp') ?_)
        rw [← History.mem_of_iff, History.of_append, hof]
        simp [DatabaseM.lending]
    -- of two queries of a scope, the later one is started when the other one is over
    rcases Nat.lt_trichotomy t j with hlt | rfl | hlt
    · exact absurd (hp.over_of_oneByOne hone heq ht hj hlt) htover
    · rfl
    · exact absurd (hp.over_of_oneByOne hone heq hj ht hlt) hjover

/-- The connection on which a query runs its statement is the one that it has to itself. -/
theorem eq_of_holds (hp : D.regime.Possible h) (hk : h.Holds j token k)
    (hrun : .deed j (.requests (.execute k' run statement)) ∈ h) : k' = k := by
  cases hk with
  | pooled _ hlent => exact (hp.execution_of_borrower hlent hrun).1
  | inScope hjob _ => exact hp.execution_of_query hjob hrun

/-- A query that has a connection to itself has the server stop its statement, once, if the first
call for its cancellation comes while the statement is being run and it is told then that this is
so; and it keeps the connection until the request for that is over. -/
theorem stopsOnce (hp : D.regime.Possible h) (hrest : h.AtRest) (hcalm : ∀ i, .interrupt i ∉ h)
    (hk : h.Holds j token k) (htells : h.Tells j k) : h.StopsOnce j token k where
  requested hcaught := by
    obtain ⟨job, hjob, hruns⟩ := hk.runs
    exact hp.requested_of_caught hrest hjob hruns htells hcaught
  caught {k' run r} hr := by
    obtain ⟨job, hjob, hruns⟩ := hk.runs
    obtain ⟨j', job', hjob', hruns', hcaught⟩ := hp.caught_of_requests hr
    obtain rfl := hp.runs_unique hjob hruns hjob' hruns'
    obtain rfl : k' = k := by
      obtain ⟨g, i, q, actions, g', statement, rfl, -, -, l, hl⟩ := hcaught
      have hrun : Exchange.requests (.execute k' run statement) ∈ g.of j := by
        rw [hl]
        simp
      exact hp.eq_of_holds hk (List.mem_append_left _ (History.mem_of_iff.mp hrun))
    exact ⟨rfl, hcaught⟩
  unique hr hr' := (hp.requests_unique hr hr').2.2.symm
  sent hr hbegun := hp.sendsOnce_of_begun hrest (hp.job_of_requests hr) hbegun
  sender {r} hsent := by
    obtain ⟨g, g', heq⟩ := List.append_of_mem hsent
    obtain ⟨job, hjob, hlicensed⟩ := (heq ▸ hp).licensed id
    cases hlicensed with
    | plain he => exact he.elim
    | cancelRunning he =>
      subst he
      obtain ⟨token', run, hr⟩ := hp.requests_of_job hrest (heq ▸ History.jobs_mono hjob)
      obtain ⟨j', -, -, -, hcaught⟩ := hp.caught_of_requests hr
      exact ⟨j', token', run, hcaught, hr⟩
  kept hr heq hstarted hx := hp.finished_of_passing hrest hk (hcalm j) hr heq hstarted hx
  ignored {_ r _} hr hfinish herrors :=
    hp.ok_of_request (hp.job_of_requests hr) (hcalm r) hfinish herrors

end Regime.Possible

end PooledSql
