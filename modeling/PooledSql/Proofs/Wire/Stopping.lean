import PooledSql.Proofs.Database.Stopping
import PooledSql.Proofs.Task.Tree
import PooledSql.Proofs.Wire.Custody

/-!
# Stopping statements over the wire

What runs on a connection is noted at its lease when a statement is to be run there, and struck out
when that is over. While a query has the connection to itself, nobody else notes anything there, so
whoever asks what runs on the connection is told the run of that query (`Account.tells`). That is
all that it takes for statements to be stopped as they should be (`Regime.Run.stops_once`).
-/

namespace PooledSql

variable {c : Client} {N : Network c} {D : Surroundings c} {h : History c.setting c.requests}
  {f f' g h' : History c.setting c.wired} {i j t : TaskId} {k : LeaseId} {lent : Lease}
  {run : RunId} {statement : Statement} {token : TokenId}

/-- What runs on a connection stays the same unless something else is noted. -/
theorem Holdings.running_perform {s : Holdings} {r : Act} (hk : s.leases[k]? = some lent)
    (hr : ∀ running, r ≠ .setRunning k running) :
    ∃ lent', (s.perform r).2.leases[k]? = some lent' ∧ lent'.running = lent.running := by
  -- by the entry: only a note for this lease changes what runs
  cases r with
  | addLease =>
    exact ⟨lent, (List.getElem?_append_left (List.getElem?_eq_some_iff.mp hk).1).trans hk, rfl⟩
  | markReleased k' =>
    simp only [perform, List.getElem?_modify, hk, Option.map_eq_map, Option.map_some]
    split <;> exact ⟨_, rfl, rfl⟩
  | setRunning k' running =>
    have hne : k' ≠ k := fun heq => hr running (heq ▸ rfl)
    simp only [perform, List.getElem?_modify, hk, Option.map_eq_map, Option.map_some, if_neg hne]
    exact ⟨_, rfl, rfl⟩
  | addPool | pool | lease => exact ⟨lent, hk, rfl⟩

/-- What runs on a connection stays the same until something else is noted. -/
theorem History.running_mono (hk : f.holdings.leases[k]? = some lent)
    (hg : ∀ t running, .deed t (.notes (.setRunning k running) ()) ∉ g) :
    ∃ lent', (holdings (f ++ g)).leases[k]? = some lent' ∧ lent'.running = lent.running := by
  -- entry by entry, since only one kind of entry changes what runs
  induction g using List.reverseRecOn with
  | nil => exact ⟨lent, by simpa using hk, rfl⟩
  | append_singleton g e ih =>
    obtain ⟨lent₁, hk₁, hrunning₁⟩ :=
      ih fun t running hmem => hg t running (List.mem_append_left _ hmem)
    rw [← List.append_assoc, holdings_snoc]
    rcases hold_cases e with hold | ⟨i, r, out, rfl, hold⟩
    · rw [hold]
      exact ⟨lent₁, hk₁, hrunning₁⟩
    · rw [hold]
      have hother : ∀ running, r ≠ .setRunning k running := by
        rintro running rfl
        exact hg i running (List.mem_append_right _ (List.mem_singleton_self _))
      obtain ⟨lent₂, hk₂, hrunning₂⟩ := Holdings.running_perform hk₁ hother
      exact ⟨lent₂, hk₂, hrunning₂.trans hrunning₁⟩

namespace Account

/-- What runs on a connection is noted for a statement that is run there. -/
theorem execute_of_noted {running : Option (RunId × Statement)} (ha : N.Account h h')
    (hp : N.regime.Possible h') (hnote : .deed t (.notes (.setRunning k running) ()) ∈ h') :
    ∃ run statement, .deed t (.requests (.execute k run statement)) ∈ h := by
  obtain ⟨a, w, a', b, hof, henter, -⟩ := ha.serves_of_noted hp id hnote
  -- of all requests, only that to run a statement makes such a note
  cases w with
  | execute k' run statement =>
    cases henter
    refine ⟨run, statement, History.mem_of_iff.mp ?_⟩
    rw [hof]
    simp
  | _ => exact henter.elim

/-- While a query has a connection to itself, nobody else notes what runs there. -/
theorem eq_of_noted {running : Option (RunId × Statement)} {job : Job c.setting}
    (ha : N.Account h h')
    (hp' : N.regime.Possible h') (hp : D.regime.Possible h) (hk : h.Holds j token k)
    (heq : h' = f ++ .deed t (.notes (.setRunning k running) ()) :: f') (hj : f.jobs[j]? = some job)
    (hover : ¬ f.Finished j) : t = j := by
  obtain ⟨run, statement, hrun⟩ := ha.execute_of_noted hp'
    (heq ▸ List.mem_append_right _ (List.mem_cons_self ..))
  obtain ⟨⟨job', hjob'⟩, htover⟩ := (heq ▸ hp').started_of_deed
  -- whoever makes a note is not over, and neither is the query
  obtain ⟨a, a', rfl, haa⟩ := (heq ▸ ha).of_append
  exact hp.eq_of_unfinished hk rfl (haa.jobs_eq ▸ hj) (hover ∘ haa.finished_iff.mp)
    (haa.jobs_eq ▸ hjob') (htover ∘ haa.finished_iff.mp) hrun

/-- Whoever waits for a statement in the account while others have their turn has noted it over the
wire, and has noted nothing else since then. -/
theorem noted_of_executing {g : History c.setting c.requests} (ha : N.Account g f)
    (hp : N.regime.Possible f) (hpg : D.regime.Possible g) (hidle : f.Idle j)
    (hexecuting : g.Executing j k run statement) :
    ∃ (p : History c.setting c.wired) (lent : Lease) (q : History c.setting c.wired),
      f = p ++ .deed j (.notes (.setRunning k (some (run, statement))) ()) :: q ∧
      .deed j (.notes (.lease k) (some lent)) ∈ p ∧
      ∀ running, .deed j (.notes (.setRunning k running) ()) ∉ q := by
  obtain ⟨l, hl⟩ := hexecuting
  obtain ⟨job, hjob⟩ := hpg.job_of_begun (i := j) (by simp [hl])
  have htracks := ha.tracks hp hjob
  rw [hl] at htracks
  obtain ⟨m, b, hof, hne, hunder⟩ := htracks.under_of_call
  -- whoever waits in the account waits over the wire
  obtain ⟨b₀, v, rfl⟩ : ∃ b₀ v, b = b₀ ++ [.call v] := by
    obtain ⟨b₀, e, rfl⟩ := (List.eq_nil_or_concat b).resolve_left hne
    rw [List.concat_eq_append, ← List.append_assoc] at hof
    rcases hidle with hnil | ⟨l₀, v, hv⟩ | hover
    · simp [hnil] at hof
    · rw [hv] at hof
      cases (List.append_inj' hof rfl).2
      exact ⟨b₀, v, List.concat_eq_append⟩
    · exact absurd hl (hpg.not_waiting_of_finished (ha.finished_iff.mpr hover))
  -- the wait stands behind the lookup of the lease and the note
  obtain ⟨lent, b₁, rfl, hnone⟩ := WireM.asks_execute_call (hunder.1.asks id)
  have hof : f.of j = (m ++ [.notes (.lease k) (some lent)]) ++
      .notes (.setRunning k (some (run, statement))) () :: (b₁ ++ [.call v]) := by
    simp [hof]
  obtain ⟨p, q, rfl, hpj, hqj⟩ := History.exists_split_of hof
  refine ⟨p, lent, q, rfl, ?_, fun running hmem => ?_⟩
  · rw [← History.mem_of_iff, hpj]
    simp
  · rw [← History.mem_of_iff, hqj] at hmem
    exact hnone running (by simpa using hmem)

/-- While a query that has a connection to itself waits for its statement, that is what runs on the
connection. -/
theorem running_of_executing {g g' : History c.setting c.requests} (ha : N.Account h h')
    (hp' : N.regime.Possible h') (hp : D.regime.Possible h) (hk : h.Holds j token k)
    (heq : h = g ++ g') (heq' : h' = f ++ f') (hag : N.Account g f) (hidle : f.Idle j)
    (hexecuting : g.Executing j k run statement) :
    ∃ lent, f.holdings.leases[k]? = some lent ∧ lent.running = some (run, statement) := by
  have hpf : N.regime.Possible f := (heq' ▸ hp').of_append
  have hpg : D.regime.Possible g := (heq ▸ hp).of_append
  have hover : ¬ f.Finished j := by
    intro hover
    obtain ⟨l, hl⟩ := hexecuting
    exact hpg.not_waiting_of_finished (hag.finished_iff.mpr hover) hl
  obtain ⟨p, lent, q, rfl, hlooked, hnone⟩ := hag.noted_of_executing hpf hpg hidle hexecuting
  -- a lease that has been looked up is known from then on
  obtain ⟨lent₀, hknown⟩ : ∃ lent₀, p.holdings.leases[k]? = some lent₀ := by
    obtain ⟨p₁, p₂, rfl⟩ := List.append_of_mem hlooked
    have hfound : (History.holdings p₁).leases[k]? = some lent := hpf.of_append.noted.symm
    obtain ⟨lent₀, hknown, -⟩ :=
      History.lease_mono (.deed j (.notes (.lease k) (some lent)) :: p₂) hfound
    exact ⟨lent₀, hknown⟩
  -- the note is in the holdings once it is made
  have hnoted : (History.holdings
      (p ++ [.deed j (.notes (.setRunning k (some (run, statement))) ())])).leases[k]? =
      some { lent₀ with running := some (run, statement) } := by
    simp [History.hold, Holdings.perform, hknown]
  -- nobody else makes a note for the connection meanwhile, since the query has it to itself
  have halone : ∀ t running, .deed t (.notes (.setRunning k running) ()) ∉ q := by
    intro t running hmem
    obtain ⟨q₁, q₂, rfl⟩ := List.append_of_mem hmem
    have hsplit : h' = (p ++ .deed j (.notes (.setRunning k (some (run, statement))) ()) :: q₁) ++
        .deed t (.notes (.setRunning k running) ()) :: (q₂ ++ f') := by
      simp [heq']
    obtain ⟨⟨job, hjob⟩, -⟩ := hpf.started_of_deed
    obtain rfl : t = j := by
      refine ha.eq_of_noted hp' hp hk hsplit (History.jobs_mono hjob) fun hjover => hover ?_
      rw [← List.cons_append, ← List.append_assoc]
      exact hjover.mono
    exact hnone running hmem
  obtain ⟨lent₁, hk₁, hrunning⟩ := History.running_mono hnoted halone
  exact ⟨lent₁, by simpa using hk₁, hrunning⟩

/-- Whoever asks what runs on a connection while a query that has it to itself waits for its
statement is told the run of that query. -/
theorem tells (ha : N.Account h h') (hp' : N.regime.Possible h') (hp : D.regime.Possible h)
    (hk : h.Holds j token k) : h.Tells j k := by
  intro g i out g' run statement heq hexecuting
  have hij : i ≠ j := (heq ▸ hp).ne_of_executing id hexecuting
  obtain ⟨f, e, f', l, b, heq', hag, -, hleads⟩ := ha.split_act heq
  obtain ⟨found, hb, rfl⟩ := WireM.ends_activeRun (S := c.setting)
    (X := Ledger.interface.sum c.Requests) hleads
  have hb : b ++ [e] = [] ++ [.notes (.lease k) found] := hb
  cases (List.append_inj' hb rfl).2
  have hpf : N.regime.Possible (f ++ .deed i (.notes (.lease k) found) :: f') := heq' ▸ hp'
  -- the answer is read off the lease
  have hfound : found = f.holdings.leases[k]? := hpf.noted
  obtain ⟨lent, hlent, hrunning⟩ := ha.running_of_executing hp' hp hk heq heq' hag
    ((hpf.inTurn id).2 j (Ne.symm hij)) hexecuting
  simp [hfound, hlent, hrunning]

/-- When there are no more turns, a task on the account has begun unless it has ended. -/
theorem begun {m : Machine c.setting c.wired (Holdings × Ledger × N.World)} {job : Job c.setting}
    (ha : N.Account h h') (hr : N.regime.Run h' m) (hturns : m.turns = [])
    (hj : h.jobs[i]? = some job) :
    h.of i ≠ [] ∨ h.Finished i := by
  rcases hr.begun hturns (ha.jobs_eq ▸ hj) with ⟨l, w, hl⟩ | hover
  · obtain ⟨l₀, w₀, hl₀⟩ := (ha.tracks hr.possible hj).call_of_call c.carriage.not_asks_call hl
    exact .inl (by simp [hl₀])
  · exact .inr (ha.finished_iff.mpr hover)

end Account

/-- Over the wire, a query that has a connection to itself has the server stop its statement, once,
if the first call for its cancellation comes while the statement is being run, and it keeps the
connection until the request for that is over. A query on a pool has the connection to itself that
it has been lent, and a query of a scope has that of the scope if the work there waits for its
queries. -/
theorem Regime.Run.stops_once {m : Machine c.setting c.wired (Holdings × Ledger × N.World)}
    (hr : N.regime.Run h' m) (hclient : ∀ task, Public (N.client task))
    (hcalm : ∀ i, .interrupt i ∉ h') :
    ∃ h, N.Account h h' ∧ ∀ {j : TaskId} {token : TokenId} {k : LeaseId},
      ((∃ pool source params, h.jobs[j]? = some (.query (.pooled pool source params token) token) ∧
          .deed j (.served (.acquire pool) (.ok k)) ∈ h) ∨
        ∃ statement, h.jobs[j]? = some (.query (.scoped k statement token) token) ∧
          (N.surroundings hclient).Attentive h k) →
      h.StopsOnce j token k ∧
        (m.turns = [] → ∀ {run r}, h.Requests token k run r → h.SendsOnce r k) := by
  obtain ⟨h, ha, hrest, hpossible⟩ := hr.account
  have hp := hpossible hclient
  have hcalm : ∀ i, .interrupt i ∉ h := fun i => hcalm i ∘ ha.mem_interrupt_iff.mp
  refine ⟨h, ha, fun {j token k} hquery => ?_⟩
  -- in both cases the query has the connection to itself
  have hk : h.Holds j token k := by
    rcases hquery with ⟨pool, source, params, hjob, hlent⟩ | ⟨statement, hjob, hattentive⟩
    · exact .pooled hjob hlent
    · exact .inScope hjob (hattentive.oneByOne hp (ha.patient_iff.mpr hr.patient.2))
  refine ⟨hp.stopsOnce hrest hcalm hk (ha.tells hr.possible hp hk),
    fun hturns {run r} hrequests => ?_⟩
  have hjob := hp.job_of_requests hrequests
  refine hp.sendsOnce_of_begun hrest hjob ?_
  -- a request that is over has been sent, unless it has been interrupted
  rcases ha.begun hr hturns hjob with hbegun | ⟨ans, hfinish⟩
  · exact hbegun
  · obtain ⟨job, hjob', hends | ⟨-, -, hint⟩⟩ := hp.finish_cases hfinish
    · rw [hjob] at hjob'
      cases hjob'
      obtain ⟨_, hsent, -⟩ := Fiber.ends_map_iff.mp hends
      obtain ⟨pid, _, after, hof, -⟩ := DatabaseM.ends_cancelRequest hsent
      rw [hof]
      exact nofun
    · exact absurd hint (hcalm r)

/-- One program that uses a database, over a network that tells which process serves a link. -/
def Network.identifying (pid : Nat) (program : DatabaseM .silent Reply) : Network .silent where
  World := Unit
  client _ := program
  perform := nofun
  tell
    | .pid _, w => (some pid, w)
    | .terminate _, w => ((), w)
    | .statusTag _, w => (.ok none, w)

/-- Issuing a query, which is cancelled when something else has been done. -/
def Query.cancelledMeanwhile : DatabaseM .silent Reply := do
  let settings ← Fiber.ofExcept (PoolSettings.ofFields [])
  let pool ← DatabaseM.poolWait (.openPool settings)
  let q ← DatabaseM.submit pool (.ofString "SELECT 1") (.tuple [])
  discard (DatabaseM.poolWait (.openPool settings))
  DatabaseM.cancel q
  return Reply.value .null

/-- Whoever cancels a query meanwhile uses a database by what it offers. -/
theorem Query.cancelledMeanwhile_public : Public cancelledMeanwhile :=
  .bind (.ofExcept _) fun settings =>
    .bind (.await (.inr (.inl (.openPool settings))) trivial) fun pool =>
    .bind (.submit pool _ _) fun q =>
    .bind (.bind (.await (.inr (.inl (.openPool settings))) trivial) fun _ => .ofExcept (.ok ()))
      fun _ => .bind (.cancel q) fun _ => .ofExcept (.ok _)

/-- A query that is cancelled while its statement is being run has the server stop it, and gives its
connection back when that is over. -/
theorem stops_once_cancelledMeanwhile :
    ∃ (h' : History Client.silent.setting Client.silent.wired)
      (m : Machine Client.silent.setting Client.silent.wired (Holdings × Ledger × Unit)),
      (Network.identifying 7 Query.cancelledMeanwhile).regime.Run h' m ∧
        .deed 2 (.sends (.request 0 WireM.cancelCommand 7)) ∈ h' ∧
        .deed 1 (.sends (.release 0 0)) ∈ h' ∧
        ∃ h, (Network.identifying 7 Query.cancelledMeanwhile).Account h h' ∧ h.StopsOnce 1 0 0 ∧
          ∃ run, h.Requests 0 0 run 2 ∧ h.SendsOnce 2 0 := by
  have hstart : (Network.identifying 7 Query.cancelledMeanwhile).regime.Run []
      { world := ({}, {}, ()) } :=
    .start ⟨rfl, rfl⟩
  have hanswers : ∀ {h : History Client.silent.setting Client.silent.wired}
      {m : Machine Client.silent.setting Client.silent.wired (Holdings × Ledger × Unit)}
      (i : TaskId),
      (Network.identifying 7 Query.cancelledMeanwhile).regime.Run h m →
      (Network.identifying 7 Query.cancelledMeanwhile).regime.Run
        (h ++ m.replyHappenings (Network.identifying 7 Query.cancelledMeanwhile).regime.engine i
          Wire.granting)
        (m.reply (Network.identifying 7 Query.cancelledMeanwhile).regime.engine i Wire.granting) :=
    fun i hr => hr.reply i _ fun _ _ _ _ _ => trivial
  -- the statement is being run when the query is cancelled
  have hrunning := hanswers 1 ((hanswers 0 ((hstart.launch ⟨(), rfl⟩).runTurns 1)).runTurns 1)
  have hcancelled := (hanswers 0 hrunning).runTurns 1
  -- it is over when the request to stop it is sent
  have hsent := hanswers 2 (hanswers 1 (hanswers 1 hcancelled))
  have hover := (hanswers 2 (hanswers 2 hsent)).runTurns 5
  obtain ⟨h', m, source, params, hr, hturns, hjobs, hall, hadded, hrequest, hrelease⟩ :
      ∃ h' m source params, (Network.identifying 7 Query.cancelledMeanwhile).regime.Run h' m ∧
        m.turns = [] ∧
        h'.jobs = [.plain (.client ()), .query (.pooled 0 source params 0) 0,
          .plain (.cancelRequest 0)] ∧
        (h'.all fun e => !e.isInterruption) = true ∧
        .deed 1 (.notes (.addLease 0 0) (0 : LeaseId)) ∈ h' ∧
        .deed 2 (.sends (.request 0 WireM.cancelCommand 7)) ∈ h' ∧
        .deed 1 (.sends (.release 0 0)) ∈ h' :=
    ⟨_, _, _, _, hover, rfl, rfl, rfl, List.mem_of_getElem? (i := 10) rfl,
      List.mem_of_getElem? (i := 49) rfl, List.mem_of_getElem? (i := 61) rfl⟩
  have hcalm : ∀ i, .interrupt i ∉ h' := fun i hmem =>
    Bool.noConfusion (List.all_eq_true.mp hall _ hmem)
  obtain ⟨h, ha, hstops⟩ := hr.stops_once (fun _ => Query.cancelledMeanwhile_public) hcalm
  have hjobs : h.jobs = _ := ha.jobs_eq.trans hjobs
  have hp := ha.possible (Network.serves _ fun _ => Query.cancelledMeanwhile_public) hr.possible
  obtain ⟨honce, hsends⟩ := hstops
    (.inl ⟨0, source, params, by rw [hjobs]; rfl, ha.lent_of_added hr.possible hadded⟩)
  -- the request has been started on behalf of the only query
  obtain ⟨token, run, hrequests⟩ := hp.requests_of_job (r := 2) (k := 0)
    (fun i => ha.idle hr.possible (hr.atRest i)) (by rw [hjobs]; rfl)
  obtain ⟨j, job, hjob, hruns, -⟩ := hp.caught_of_requests hrequests
  obtain rfl : token = 0 := by
    rw [hjobs] at hjob
    match j, hjob with
    | 1, rfl =>
      cases hruns
      rfl
    | 0, rfl | 2, rfl => cases hruns
  exact ⟨h', m, hr, hrequest, hrelease, h, ha, honce, run, hrequests, hsends hturns hrequests⟩

end PooledSql
