import PooledSql.Proofs.Database.Surroundings
import PooledSql.Proofs.Task.Account
import PooledSql.Proofs.Wire.Requests

/-!
# Networks

A database over the wire. The library over raw pools and raw connections runs on a network that may
answer what it likes; that every loan has a name of its own, is the doing of the holdings, in which
each new lease gets the next name (`Account.lease_lt`). So a history over the wire has an account in
which a database runs in its surroundings (`Network.serves`), and all that is known of databases in
their surroundings is known of it.

* `Network.regime`: what is run over the wire, and what may happen.
* `Network.surroundings`: the surroundings of a database that is run over the wire.
-/

namespace PooledSql

variable {c : Client}

/-- The requests of a database over the wire. -/
abbrev Client.wired (c : Client) : Interface := WireM.requests (Ledger.interface.sum c.Requests)

/-- How the requests of a database are carried over to the wire. -/
abbrev Client.carriage (c : Client) : Carriage c.setting c.requests c.wired :=
  WireM.carriage c.setting (Ledger.interface.sum c.Requests)

namespace History

variable {h : History c.setting c.wired}

/-- The effect of a happening on the holdings. -/
def hold (l : Holdings) : Happening c.setting c.wired → Holdings
  | .deed _ (.act (.inr (.inr (.inl r))) _) => (l.perform r).2
  | _ => l

/-- The holdings after a history over the wire. -/
def holdings (h : History c.setting c.wired) : Holdings := h.foldl hold {}

/-- The effect of a happening over the wire on the ledger. -/
def enter (l : Ledger) : Happening c.setting c.wired → Ledger
  | .deed _ (.act (.inr (.inr (.inr (.inl r)))) _) => (l.perform r).2
  | _ => l

/-- The ledger after a history over the wire. -/
def entered (h : History c.setting c.wired) : Ledger := h.foldl enter {}

@[simp]
theorem holdings_snoc {e : Happening c.setting c.wired} :
    holdings (h ++ [e]) = hold h.holdings e := by
  simp [holdings]

@[simp]
theorem entered_snoc {e : Happening c.setting c.wired} :
    entered (h ++ [e]) = enter h.entered e := by
  simp [entered]

end History

/-- The clients of a database over the wire, and the world around it. -/
structure Network (c : Client) where
  World : Type
  /-- The programs of the clients. -/
  client : c.Task → DatabaseM c Reply
  /-- What comes of the clients' own requests. -/
  perform : (r : c.Requests.Act) → World → c.Requests.Outcome r × World
  /-- What comes of acts of the wire. -/
  tell : (r : Wire.Act) → World → r.Outcome × World

namespace Network

variable (N : Network c)

/-- What is run over the wire: the programs of the database and of its clients, over the holdings,
the ledger and the world. -/
def engine : Engine c.setting c.wired (Holdings × Ledger × N.World) where
  meaning body := WireM.ofPooled (Work.meaning N.client body)
  perform
    | .inl r, w => ((N.tell r w.2.2).1, w.1, w.2.1, (N.tell r w.2.2).2)
    | .inr (.inl r), w => ((w.1.perform r).1, (w.1.perform r).2, w.2)
    | .inr (.inr (.inl r)), w => ((w.2.1.perform r).1, w.1, (w.2.1.perform r).2, w.2.2)
    | .inr (.inr (.inr r)), w => ((N.perform r w.2.2).1, w.1, w.2.1, (N.perform r w.2.2).2)

/-- A database over the wire. Whatever is started from outside is a computation of a client, and the
network may answer what it likes. -/
def regime : Regime c.setting c.wired (Holdings × Ledger × N.World) where
  engine := N.engine
  Agrees h w := w.1 = h.holdings ∧ w.2.1 = h.entered
  agrees_act {h w} i r hw := by
    rw [History.holdings_snoc, History.entered_snoc, ← hw.1, ← hw.2]
    match r with
    | .inl r => exact ⟨rfl, rfl⟩
    | .inr (.inl r) => exact ⟨rfl, rfl⟩
    | .inr (.inr (.inl r)) => exact ⟨rfl, rfl⟩
    | .inr (.inr (.inr r)) => exact ⟨rfl, rfl⟩
  agrees_other {h w e} he hw := by
    rw [History.holdings_snoc, History.entered_snoc, hw.1, hw.2]
    match e with
    | .deed i (.act (.inr r) out) => exact absurd rfl (he i r out)
    | .deed _ (.act (.inl _) _) | .deed _ (.call _) | .deed _ (.answer ..) | .launch _
    | .finish .. | .interrupt _ => exact ⟨rfl, rfl⟩
  Launches job := ∃ task, job = .plain (.client task)
  Answers _ _ _ := True

/-- The surroundings of a database that is run over the wire for clients that use it by what it
offers. Inquiries about connections may be answered with anything. -/
def surroundings (hclient : ∀ task, Public (N.client task)) : Surroundings c where
  World := N.World × Option Nat × Option RunId
  client := N.client
  client_public := hclient
  perform r w := ((N.perform r w.1).1, (N.perform r w.1).2, w.2)
  inquire
    | .pid _, w => w.2.1
    | .activeRun _, w => w.2.2

/-- The programs of jobs are carried over to the wire. -/
theorem program_eq (job : Job c.setting) :
    N.regime.program job = c.carriage.carried (job.program (Work.meaning N.client)) := by
  refine Eq.trans ?_ (c.carriage.carried_program (Work.meaning N.client) job).symm
  refine congrArg (fun meaning => Job.program (S := c.setting) meaning job) (funext fun body => ?_)
  exact WireM.ofPooled_eq (Work.meaning N.client body)

end Network

/-- What comes of an entry about pools and leases is what the holdings say. -/
theorem Regime.Possible.noted {N : Network c} {g g' : History c.setting c.wired} {i : TaskId}
    {r : Holdings.Act} {out : r.Outcome}
    (hp : N.regime.Possible (g ++ .deed i (.notes r out) :: g')) :
    out = (g.holdings.perform r).1 := by
  obtain ⟨w, ⟨hholdings, -⟩, hout⟩ := hp.yields
  rw [← hholdings]
  exact hout

namespace History

/-- What is done over the wire for a pool is not entered in the ledger. -/
theorem enter_of_wire {i : TaskId} {ledger : Ledger}
    {e : Exchange (c.setting.interface.sum c.wired)}
    {E : Holdings.Act → Prop} (he : WireM.IsWire E e) : enter ledger (.deed i e) = ledger := by
  match e, he with
  | .act (.inl _) _, _ | .act (.inr (.inl _)) _, _ | .act (.inr (.inr (.inl _))) _, _ | .call _, _
  | .answer .., _ => rfl

/-- Leases are not taken from the holdings. -/
theorem length_leases_mono {h : History c.setting c.wired} {e : Happening c.setting c.wired} :
    h.holdings.leases.length ≤ (holdings (h ++ [e])).leases.length := by
  rw [holdings_snoc]
  match e with
  | .deed _ (.act (.inr (.inr (.inl r))) _) => cases r <;> simp [hold, Holdings.perform]
  | .deed _ (.act (.inl _) _) | .deed _ (.act (.inr (.inl _)) _)
  | .deed _ (.act (.inr (.inr (.inr _))) _) | .deed _ (.call _) | .deed _ (.answer ..)
  | .launch _ | .finish .. | .interrupt _ => exact Nat.le_refl _

end History

/-- An exchange as it is over the wire, unless it is one with a pool. -/
def Exchange.wired? : Deed c → Option (Exchange (c.setting.interface.sum c.wired))
  | .act (.inl r) out => some (.act (.inl r) out)
  | .act (.inr (.inl _)) _ => none
  | .act (.inr (.inr r)) out => some (.act (.inr (.inr (.inr r))) out)
  | .call (.inl w) => some (.call (.inl w))
  | .call (.inr (.inl _)) => none
  | .call (.inr (.inr w)) => some (.call (.inr (.inr (.inr w))))
  | .answer (.inl w) ans => some (.answer (.inl w) ans)
  | .answer (.inr (.inl _)) _ => none
  | .answer (.inr (.inr w)) ans => some (.answer (.inr (.inr (.inr w))) ans)

/-- An exchange over the wire is made for an inquiry or for a request to a pool, or it is carried
over as it is. -/
theorem WireM.conveys_cases {α : Type} {x : Program (c.setting.interface.sum c.requests) α}
    {l xs : List (Deed c)} {l' : List (Exchange (c.setting.interface.sum c.wired))}
    {e : Exchange (c.setting.interface.sum c.wired)}
    (h : Program.Conveys c.carriage.acts c.carriage.waits x l l' e xs) :
    ((∀ y ∈ xs, y.wired? = none) ∧ ∃ l₁ b, l' = l₁ ++ b ∧
        ((∃ r, Program.Reaches (c.carriage.acts (.inr (.inl r))) (b ++ [e])) ∨
          ∃ w, Program.Reaches (c.carriage.waits (.inr (.inl w))) (b ++ [e]))) ∨
      ∃ y, xs = [y] ∧ y.wired? = some e := by
  -- an exchange that is carried over by itself is the only one made for it
  have hsolo : ∀ {b : List (Exchange (c.setting.interface.sum c.wired))} {d}, b ++ [e] = [d] →
      b = [] ∧ e = d := by
    intro b d heq
    have hsplit : b ++ [e] = [] ++ [d] := heq
    obtain ⟨rfl, he⟩ := List.append_inj' hsplit rfl
    exact ⟨rfl, by simpa using he⟩
  -- by how far the carrying over has got; each time an inquiry or a request is one of many
  -- exchanges, and anything else is one of its own
  cases h with
  | @act r _ out _ b _ hl' he =>
    rcases r with r | r | r
    · obtain ⟨-, rfl⟩ := hsolo (Program.leads_act_done_iff.mp he)
      exact .inr ⟨_, rfl, rfl⟩
    · exact .inl ⟨List.forall_mem_singleton.mpr rfl, _, b, hl', .inl ⟨r, he.reaches⟩⟩
    · obtain ⟨-, rfl⟩ := hsolo (Program.leads_act_done_iff.mp he)
      exact .inr ⟨_, rfl, rfl⟩
  | @acting r _ _ b _ hl' hu =>
    rcases r with r | r | r
    · simpa using Program.eq_nil_of_under_act hu
    · exact .inl ⟨List.forall_mem_nil _, _, b, hl', .inl ⟨r, hu.1⟩⟩
    · simpa using Program.eq_nil_of_under_act hu
  | @call w _ _ hu =>
    rcases w with w | w | w
    · cases Program.eq_of_under_await hu (by simp)
      exact .inr ⟨_, rfl, rfl⟩
    · exact .inl ⟨List.forall_mem_singleton.mpr rfl, l', [], (List.append_nil l').symm,
        .inr ⟨w, hu.1⟩⟩
    · cases Program.eq_of_under_await hu (by simp)
      exact .inr ⟨_, rfl, rfl⟩
  | @waiting _ w _ _ b _ _ hl' hne hu =>
    rcases w with w | w | w
    · exact absurd (hsolo (Program.eq_of_under_await hu (by simp))).1 hne
    · exact .inl ⟨List.forall_mem_nil _, _, b, hl', .inr ⟨w, hu.1⟩⟩
    · exact absurd (hsolo (Program.eq_of_under_await hu (by simp))).1 hne
  | @answer _ w _ ans _ b _ _ hl' _ he =>
    have hanswer : ∀ {d₁ d₂}, b ++ [e] = [d₁, d₂] → e = d₂ := by
      intro d₁ d₂ heq
      have hsplit : b ++ [e] = [d₁] ++ [d₂] := heq
      simpa using (List.append_inj' hsplit rfl).2
    rcases w with w | w | w
    · obtain rfl := hanswer (Program.leads_await_done_iff.mp he)
      exact .inr ⟨_, rfl, rfl⟩
    · exact .inl ⟨List.forall_mem_singleton.mpr rfl, _, b, hl', .inr ⟨w, he.reaches⟩⟩
    · obtain rfl := hanswer (Program.leads_await_done_iff.mp he)
      exact .inr ⟨_, rfl, rfl⟩
  | @both w _ ans _ he =>
    rcases w with w | w | w
    · simpa using Program.leads_await_done_iff.mp he
    · refine .inl ⟨?_, l', [], (List.append_nil l').symm, .inr ⟨w, he.reaches⟩⟩
      simp [Exchange.wired?]
    · simpa using Program.leads_await_done_iff.mp he

namespace History

/-- What is carried over as it is has the same effect on the ledger. -/
theorem enter_of_wired {i : TaskId} {ledger : Ledger} {y : Deed c}
    {e : Exchange (c.setting.interface.sum c.wired)} (hy : y.wired? = some e) :
    enter ledger (.deed i e) = record ledger (.deed i y) := by
  rcases y with ⟨r | r | r | r, out⟩ | ⟨w | w | w⟩ | ⟨w | w | w, ans⟩ <;> cases hy <;> rfl

/-- Exchanges with pools have no effect on the ledger. -/
theorem ledger_append_of_unwired {h : History c.setting c.requests} {i : TaskId}
    {xs : List (Deed c)}
    (hxs : ∀ y ∈ xs, y.wired? = none) : ledger (h ++ xs.map (.deed i)) = h.ledger := by
  induction xs using List.reverseRecOn with
  | nil => simp
  | append_singleton xs y ih =>
    rw [List.map_append, List.map_cons, List.map_nil, ← List.append_assoc, ledger_snoc,
      ih fun z hz => hxs z (List.mem_append_left _ hz)]
    have hy := hxs y (by simp)
    unfold Exchange.wired? at hy
    split at hy <;> cases hy <;> rfl

end History

/-- An account of what happens over the wire. -/
abbrev Network.Account (N : Network c) :
    History c.setting c.requests → History c.setting c.wired → Prop :=
  PooledSql.Account c.carriage (Work.meaning N.client)

namespace Account

variable {N : Network c} {h : History c.setting c.requests} {h' : History c.setting c.wired}
  {k : LeaseId}

/-- The account comes to the same ledger. -/
theorem entered_eq (ha : N.Account h h') : h'.entered = h.ledger := by
  induction ha with
  | nil => rfl
  | launch job _ ih | finish i r _ ih | interrupt i _ ih =>
    rw [History.entered_snoc, History.ledger_snoc, ih]
    rfl
  | @deed h h' i job e xs _ _ _ hc ih =>
    rw [History.entered_snoc, ih]
    -- what is added for an inquiry or a request does not enter the ledger, on either side
    rcases WireM.conveys_cases hc with ⟨hxs, _, b, -, hr⟩ | ⟨y, rfl, hy⟩
    · have he : ∃ E, WireM.IsWire E e := by
        have hmem : e ∈ b ++ [e] := List.mem_append_right _ (List.mem_singleton_self e)
        rcases hr with ⟨r, hr⟩ | ⟨w, hr⟩
        · exact ⟨_, WireM.isWire_of_poolAct hr hmem⟩
        · exact ⟨_, WireM.isWire_of_poolWait hr hmem⟩
      rw [History.enter_of_wire he.choose_spec, History.ledger_append_of_unwired hxs]
    · rw [List.map_cons, List.map_nil, History.ledger_snoc, History.enter_of_wired hy]

/-- The last exchange of a loan adds the lease to the holdings. -/
theorem lease_of_loan {i : TaskId} {e : Exchange (c.setting.interface.sum c.wired)}
    {b : List (Exchange (c.setting.interface.sum c.wired))} {pool : PoolId}
    (hp : N.regime.Possible (h' ++ [.deed i e]))
    (he : Program.Leads (c.carriage.waits (.inr (.inl (.acquire pool)))) (b ++ [e])
      (.done (.ok k))) :
    (∃ link, e = .notes (.addLease pool link) k) ∧ k = h'.holdings.leases.length := by
  obtain ⟨opened, link, hl⟩ := WireM.ends_acquire (S := c.setting)
    (X := Ledger.interface.sum c.Requests) he
  have hl : b ++ [e] = [_, _, _] ++ [.notes (.addLease pool link) k] := hl
  cases (List.append_inj' hl rfl).2
  exact ⟨⟨link, rfl⟩, hp.noted⟩

/-- The leases of the account are in the holdings. -/
theorem lease_lt (ha : N.Account h h') (hp : N.regime.Possible h') (hk : h.Lent k) :
    k < h'.holdings.leases.length := by
  induction ha with
  | nil =>
    obtain ⟨_, _, hmem⟩ := hk
    cases hmem
  | launch job _ ih | finish i r _ ih | interrupt i _ ih =>
    obtain ⟨j, pool, hmem⟩ := hk
    exact Nat.lt_of_lt_of_le (ih hp.of_append ⟨j, pool, by simpa using hmem⟩)
      History.length_leases_mono
  | @deed h h' i job e xs _ _ _ hc ih =>
    obtain ⟨j, pool, hmem⟩ := hk
    rcases List.mem_append.mp hmem with hmem | hmem
    · exact Nat.lt_of_lt_of_le (ih hp.of_append ⟨j, pool, hmem⟩) History.length_leases_mono
    obtain ⟨y, hy, heq⟩ := List.mem_map.mp hmem
    cases heq
    have hadded : ∀ {b}, Program.Leads (c.carriage.waits (.inr (.inl (.acquire pool)))) (b ++ [e])
        (.done (.ok k)) → k < (History.holdings (h' ++ [.deed i e])).leases.length := by
      intro b he
      obtain ⟨⟨link, rfl⟩, hname⟩ := lease_of_loan hp he
      rw [hname, History.holdings_snoc]
      simp [History.hold, Holdings.perform]
    cases hc with
    | answer _ _ _ _ he =>
      cases List.mem_singleton.mp hy
      exact hadded he
    | @both w _ _ _ he =>
      simp only [List.mem_cons, List.not_mem_nil, or_false, reduceCtorEq, false_or] at hy
      cases hy
      have he : Program.Leads _ ([] ++ [e]) _ := he
      exact hadded he
    | act | acting | call | waiting => simp at hy

end Account

/-- A database over the wire is one in its surroundings. -/
theorem Network.serves (N : Network c) (hclient : ∀ task, Public (N.client task)) :
    c.carriage.Serves (N.surroundings hclient).regime N.regime where
  program := N.program_eq
  launches := id
  act {h h' i e l b r out} ha hp hb he := by
    -- whatever comes of an act beyond tasks, there is a world in which it does
    have hworld : ∀ {b : List (Exchange (c.setting.interface.sum c.wired))} (l₁) {r' out'},
        b ++ [e] = l₁ ++ [.act (.inr r') out'] →
        ∃ w, N.regime.Agrees h' w ∧ out' = (N.regime.engine.perform r' w).1 := by
      intro b l₁ r' out' heq
      cases (List.append_inj' heq rfl).2
      exact hp.yields
    rcases r with r | r | r
    · -- an inquiry may come to anything in the account, since the world there can be chosen
      obtain ⟨l₁, r', out', hl⟩ := WireM.snoc_of_poolAct he
      obtain ⟨w, -, -⟩ := hworld l₁ hl
      cases r with
      | pid k => exact ⟨(h.ledger, w.2.2, out, none), rfl, rfl⟩
      | activeRun k => exact ⟨(h.ledger, w.2.2, none, out), rfl, rfl⟩
    · obtain ⟨w, ⟨-, hledger⟩, hout⟩ := hworld [] (Program.leads_act_done_iff.mp he)
      refine ⟨(h.ledger, w.2.2, none, none), rfl, ?_⟩
      rw [← ha.entered_eq, ← hledger]
      exact hout
    · obtain ⟨w, -, hout⟩ := hworld [] (Program.leads_act_done_iff.mp he)
      exact ⟨(h.ledger, w.2.2, none, none), rfl, hout⟩
  answer {h h' i e l b w ans} ha hp hb he := by
    match w, ans with
    | .inl (.acquire pool), ans =>
      rintro k rfl hk
      obtain ⟨-, hname⟩ := Account.lease_of_loan hp he
      exact absurd (ha.lease_lt hp.of_append hk) (by rw [hname]; exact Nat.lt_irrefl _)
    | .inl (.openPool _), _ | .inl (.release ..), _ | .inl (.execute ..), _
    | .inl (.cancelRunning _), _ | .inl (.close _), _ | .inr _, _ => trivial
  call {h i v w ans} hans := by
    match w, ans with
    | .inl (.acquire pool), ans =>
      rintro k rfl ⟨j, pool', hmem⟩
      exact hans k rfl ⟨j, pool', by simpa using hmem⟩
    | .inl (.openPool _), _ | .inl (.release ..), _ | .inl (.execute ..), _
    | .inl (.cancelRunning _), _ | .inl (.close _), _ | .inr _, _ => trivial

/-- What has happened over the wire between turns has an account in which everybody is waiting, and
in which a database has run in its surroundings if its clients use it by what it offers. -/
theorem Regime.Run.account {N : Network c} {h' : History c.setting c.wired}
    {m : Machine c.setting c.wired (Holdings × Ledger × N.World)} (hr : N.regime.Run h' m) :
    ∃ h, N.Account h h' ∧ h.AtRest ∧
      ∀ hclient : ∀ task, Public (N.client task), (N.surroundings hclient).regime.Possible h := by
  have hp := hr.possible
  obtain ⟨h, ha⟩ : ∃ h, N.Account h h' := hp.account N.program_eq
  exact ⟨h, ha, fun i => ha.idle hp (hr.atRest i), fun hclient => ha.possible (N.serves hclient) hp⟩

end PooledSql
