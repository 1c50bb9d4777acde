import PooledSql.Proofs.Wire.Network

/-!
# Leases over the wire

A lease is entered in the holdings when its connection is lent out, and it is marked once, by the
first request to take the connection back that finds it unmarked. That request hands the connection
back to the raw pool that it came from, and all others do nothing (`Network.taken_back_once`).

* `Network.Serves`: what passes over the wire for a request to a pool.
* `Network.HandsBack`, `Network.PassesBy`: what may come of a request to take a connection back.
* `Network.TakesBackOnce`: what comes of all such requests for one lease.
-/

namespace PooledSql

variable {c : Client} {N : Network c} {g g' h' : History c.setting c.wired} {i j : TaskId}
  {k : LeaseId}

namespace Holdings

variable {s : Holdings} {lent : Lease}

/-- A pool that is known stays known. -/
theorem pool_perform (r : Act) {pool : PoolId} {opened : OpenedPool}
    (hpool : s.pools[pool]? = some opened) : (s.perform r).2.pools[pool]? = some opened := by
  cases r with
  | addPool =>
    exact (List.getElem?_append_left (List.getElem?_eq_some_iff.mp hpool).1).trans hpool
  | pool | addLease | lease | markReleased | setRunning => exact hpool

/-- A lease that is known stays known, and marked if it has been. -/
theorem lease_perform (r : Act) (hk : s.leases[k]? = some lent) :
    ∃ lent', (s.perform r).2.leases[k]? = some lent' ∧ lent'.pool = lent.pool ∧
      lent'.link = lent.link ∧ (lent.released → lent'.released) := by
  -- by the entry: leases are added at the end, and a mark or a note keeps the pool and the link
  cases r with
  | addLease =>
    exact ⟨lent, (List.getElem?_append_left (List.getElem?_eq_some_iff.mp hk).1).trans hk,
      rfl, rfl, id⟩
  | markReleased k' =>
    simp only [perform, List.getElem?_modify, hk, Option.map_eq_map, Option.map_some]
    split <;> exact ⟨_, rfl, rfl, rfl, fun h => by first | exact h | rfl⟩
  | setRunning k' running =>
    simp only [perform, List.getElem?_modify, hk, Option.map_eq_map, Option.map_some]
    split <;> exact ⟨_, rfl, rfl, rfl, id⟩
  | addPool | pool | lease => exact ⟨lent, hk, rfl, rfl, id⟩

/-- A lease is marked by being so, or it has been before. -/
theorem released_perform {r : Act} (hk : (s.perform r).2.leases[k]? = some lent)
    (hreleased : lent.released) :
    r = .markReleased k ∨ ∃ lent', s.leases[k]? = some lent' ∧ lent'.released := by
  -- a mark is the only entry that marks
  cases r with
  | addLease pool link =>
    rcases Nat.lt_or_ge k s.leases.length with hlt | hge
    · exact .inr ⟨lent, (List.getElem?_append_left hlt).symm.trans hk, hreleased⟩
    · -- a new lease is not marked
      have hnew : [({ pool, link } : Lease)][k - s.leases.length]? = some lent :=
        (List.getElem?_append_right hge).symm.trans hk
      obtain rfl := List.mem_singleton.mp (List.mem_of_getElem? hnew)
      cases hreleased
  | markReleased k' =>
    by_cases heq : k' = k
    · exact .inl (by rw [heq])
    · refine .inr ⟨lent, ?_, hreleased⟩
      simpa [perform, List.getElem?_modify, heq] using hk
  | setRunning k' running =>
    refine .inr ?_
    simp only [perform, List.getElem?_modify, Option.map_eq_map, Option.map_eq_some_iff] at hk
    obtain ⟨lent', hk, rfl⟩ := hk
    refine ⟨lent', hk, ?_⟩
    split at hreleased <;> exact hreleased
  | addPool | pool | lease => exact .inr ⟨lent, hk, hreleased⟩

/-- A lease gets known by being added. -/
theorem added_perform {r : Act} (hold : s.leases[k]? = none)
    (hk : (s.perform r).2.leases[k]? = some lent) :
    ∃ link, r = .addLease lent.pool link := by
  -- no other entry adds to the leases
  cases r with
  | addLease pool link =>
    have hge : s.leases.length ≤ k := List.getElem?_eq_none_iff.mp hold
    have hnew : [({ pool, link } : Lease)][k - s.leases.length]? = some lent :=
      (List.getElem?_append_right hge).symm.trans hk
    obtain rfl := List.mem_singleton.mp (List.mem_of_getElem? hnew)
    exact ⟨link, rfl⟩
  | markReleased | setRunning =>
    simp [perform, List.getElem?_modify, hold] at hk
  | addPool | pool | lease =>
    have hk : s.leases[k]? = some lent := hk
    rw [hold] at hk
    cases hk

end Holdings

namespace History

/-- What has an effect on the holdings is an entry. -/
theorem hold_cases {l : Holdings} (e : Happening c.setting c.wired) :
    hold l e = l ∨ ∃ i r out, e = .deed i (.notes r out) ∧ hold l e = (l.perform r).2 := by
  match e with
  | .deed i (.act (.inr (.inr (.inl r))) out) => exact .inr ⟨i, r, out, rfl, rfl⟩
  | .deed _ (.act (.inl _) _) | .deed _ (.act (.inr (.inl _)) _)
  | .deed _ (.act (.inr (.inr (.inr _))) _) | .deed _ (.call _) | .deed _ (.answer ..)
  | .launch _ | .finish .. | .interrupt _ => exact .inl rfl

/-- A pool that is known stays known. -/
theorem pool_mono {pool : PoolId} {opened : OpenedPool}
    (hpool : g.holdings.pools[pool]? = some opened) :
    (holdings (g ++ g')).pools[pool]? = some opened := by
  induction g' using List.reverseRecOn with
  | nil => simpa using hpool
  | append_singleton g' e ih =>
    rw [← List.append_assoc, holdings_snoc]
    rcases hold_cases e with hold | ⟨i, r, out, -, hold⟩
    · rw [hold]
      exact ih
    · rw [hold]
      exact Holdings.pool_perform r ih

/-- A lease that is known stays known, and marked if it has been. -/
theorem lease_mono {lent : Lease} (g' : History c.setting c.wired)
    (hk : g.holdings.leases[k]? = some lent) :
    ∃ lent', (holdings (g ++ g')).leases[k]? = some lent' ∧ lent'.pool = lent.pool ∧
      lent'.link = lent.link ∧ (lent.released → lent'.released) := by
  induction g' using List.reverseRecOn with
  | nil => exact ⟨lent, by simpa using hk, rfl, rfl, id⟩
  | append_singleton g' e ih =>
    obtain ⟨lent₁, hk₁, hpool₁, hlink₁, hreleased₁⟩ := ih
    rw [← List.append_assoc, holdings_snoc]
    rcases hold_cases e with hold | ⟨i, r, out, -, hold⟩
    · rw [hold]
      exact ⟨lent₁, hk₁, hpool₁, hlink₁, hreleased₁⟩
    · rw [hold]
      obtain ⟨lent₂, hk₂, hpool₂, hlink₂, hreleased₂⟩ := Holdings.lease_perform r hk₁
      exact ⟨lent₂, hk₂, hpool₂.trans hpool₁, hlink₂.trans hlink₁, hreleased₂ ∘ hreleased₁⟩

/-- A lease that is marked has been. -/
theorem marked_of_released {lent : Lease} (hk : g.holdings.leases[k]? = some lent)
    (hreleased : lent.released) : ∃ i, .deed i (.notes (.markReleased k) ()) ∈ g := by
  induction g using List.reverseRecOn generalizing lent with
  | nil => simp [holdings] at hk
  | append_singleton g e ih =>
    -- a mark that was there before has been made before
    have hbefore : ∀ {lent : Lease}, (holdings g).leases[k]? = some lent → lent.released →
        ∃ i, .deed i (.notes (.markReleased k) ()) ∈ g ++ [e] := by
      intro lent hk hreleased
      obtain ⟨i, hi⟩ := ih hk hreleased
      exact ⟨i, List.mem_append_left _ hi⟩
    rw [holdings_snoc] at hk
    rcases hold_cases (l := holdings g) e with hold | ⟨i, r, out, rfl, hold⟩
    · exact hbefore (hold ▸ hk) hreleased
    · rw [hold] at hk
      rcases Holdings.released_perform hk hreleased with rfl | ⟨lent', hk', hreleased'⟩
      · exact ⟨i, List.mem_append_right _ (List.mem_singleton_self _)⟩
      · exact hbefore hk' hreleased'

end History

namespace Regime.Possible

/-- An entry that is no lookup is made for a request to a pool. -/
theorem entered_for {r : Holdings.Act} {out : r.Outcome}
    (hp : N.regime.Possible (g ++ .deed i (.notes r out) :: g')) (hr : ¬ WireM.LooksUp r) :
    ∃ w l b, WireM.Enters w r ∧ g.of i = l ++ b ∧
      Fiber.Asks (WireM.poolWait w : WireM c.setting (Ledger.interface.sum c.Requests) w.Answer) b
        (.notes r out) := by
  rw [List.append_cons] at hp
  obtain ⟨h, ha⟩ : ∃ h, N.Account h (g ++ [.deed i (.notes r out)]) :=
    hp.of_append.account N.program_eq
  generalize hg : g ++ [.deed i (.notes r out)] = f at ha
  -- the last entry belongs to what the account was last extended by
  cases ha with
  | nil => simp at hg
  | launch job _ | finish i r _ | interrupt i _ => cases (List.append_inj' hg rfl).2
  | deed _ _ _ hc =>
    obtain ⟨rfl, he⟩ := List.append_inj' hg rfl
    cases he
    rcases WireM.conveys_cases hc with ⟨-, l, b, hl, ⟨r', hreach⟩ | ⟨w, hreach⟩⟩ | ⟨y, -, hy⟩
    · exact (hr
        (WireM.isWire_of_poolAct hreach (List.mem_append_right _ (List.mem_singleton_self _)))).elim
    · exact ⟨w, l, b, WireM.isWire_of_poolWait hreach
        (List.mem_append_right _ (List.mem_singleton_self _)), hl, hreach.asks id⟩
    · unfold Exchange.wired? at hy
      split at hy <;> cases hy

/-- The pool of a lease is known. -/
theorem pool_known {lent : Lease} (hp : N.regime.Possible g)
    (hk : g.holdings.leases[k]? = some lent) :
    ∃ opened, g.holdings.pools[lent.pool]? = some opened := by
  induction g using List.reverseRecOn generalizing lent with
  | nil => simp [History.holdings] at hk
  | append_singleton g e ih =>
    -- for a lease that was known before, the pool was known as well
    have hbefore : ∀ {lent' : Lease}, (History.holdings g).leases[k]? = some lent' →
        lent'.pool = lent.pool →
        ∃ opened, (History.holdings (g ++ [e])).pools[lent.pool]? = some opened := by
      intro lent' hk' hpool
      obtain ⟨opened, hopened⟩ := ih hp.of_append hk'
      exact ⟨opened, History.pool_mono (hpool ▸ hopened)⟩
    cases hold : (History.holdings g).leases[k]? with
    | some lent' =>
      obtain ⟨lent₁, hk₁, hpool, -, -⟩ := History.lease_mono [e] hold
      rw [hk] at hk₁
      cases hk₁
      exact hbefore hold hpool.symm
    | none =>
      rw [History.holdings_snoc] at hk
      rcases History.hold_cases (l := History.holdings g) e with hsame | ⟨i, r, out, rfl, hentry⟩
      · rw [hsame, hold] at hk
        cases hk
      rw [hentry] at hk
      obtain ⟨link, rfl⟩ := Holdings.added_perform hold hk
      -- a lease is added to a pool that has been looked up
      obtain ⟨w, l, b, henter, hl, hasks⟩ := hp.entered_for id
      cases w with
      | acquire pool =>
        cases henter
        obtain ⟨opened, l', rfl⟩ := WireM.known_of_addLease hasks
        have hfound : .deed i (.notes (.pool lent.pool) (some opened)) ∈ g := by
          rw [← History.mem_of_iff, hl]
          simp
        obtain ⟨g₁, g₂, rfl⟩ := List.append_of_mem hfound
        rw [List.append_assoc] at hp
        have hopened : (History.holdings g₁).pools[lent.pool]? = some opened := hp.noted.symm
        exact ⟨opened, by rw [List.append_assoc]; exact History.pool_mono hopened⟩
      | _ => exact henter.elim

/-- A lease that is marked has not been before. -/
theorem unmarked (hp : N.regime.Possible (g ++ .deed i (.notes (.markReleased k) ()) :: g')) :
    ∃ lent, g.holdings.leases[k]? = some lent ∧ lent.released = false := by
  obtain ⟨w, l, b, henter, hl, hasks⟩ := hp.entered_for id
  cases w with
  | release k' cause =>
    cases henter
    rcases WireM.asks_release hasks with
      ⟨-, _, he⟩ | ⟨lent, hreleased, ⟨-, _, he⟩ | ⟨opened, pid, ht⟩⟩
    · cases he
    · cases he
    -- the lease has been looked up in the same turn
    obtain rfl := WireM.eq_of_markReleased ht
    obtain ⟨g₀, rfl, -⟩ := hp.stretch id (by simp [Exchange.IsAnswer]) hl
    have hp₀ : N.regime.Possible (g₀ ++ .deed i (.notes (.lease k) (some lent)) ::
        .deed i (.notes (.pool lent.pool) (some opened)) :: .deed i (.notes (.markReleased k) ()) ::
          g') := by simpa using hp
    have hfound : g₀.holdings.leases[k]? = some lent := hp₀.noted.symm
    refine ⟨lent, ?_, hreleased⟩
    simpa [History.holdings, History.hold, Holdings.perform] using hfound
  | _ => exact henter.elim

/-- A lease is marked once. -/
theorem marked_once {f f' : History c.setting c.wired} (hp : N.regime.Possible h')
    (hi : h' = g ++ .deed i (.notes (.markReleased k) ()) :: g')
    (hj : h' = f ++ .deed j (.notes (.markReleased k) ()) :: f') : g = f ∧ i = j := by
  -- a lease stays marked
  have hlater : ∀ {g g' m : History c.setting c.wired} {i j : TaskId}, N.regime.Possible
      (g ++ .deed i (.notes (.markReleased k) ()) ::
        (m ++ .deed j (.notes (.markReleased k) ()) :: g')) →
      False := by
    intro g g' m i j hp
    obtain ⟨lent, hk, -⟩ := hp.unmarked
    have hmarked : (History.holdings (g ++ [.deed i (.notes (.markReleased k) ())])).leases[k]? =
        some { lent with released := true } := by
      simp [History.hold, Holdings.perform, hk]
    obtain ⟨lent₁, hk₁, -, -, hreleased⟩ := History.lease_mono m hmarked
    rw [List.append_cons, ← List.append_assoc] at hp
    obtain ⟨lent₂, hk₂, hunmarked⟩ := hp.unmarked
    rw [hk₁] at hk₂
    cases hk₂
    rw [hreleased rfl] at hunmarked
    cases hunmarked
  rcases History.place_cases hi hj with ⟨rfl, he, -⟩ | ⟨m, -, rfl⟩ | ⟨m, -, rfl⟩
  · cases he
    exact ⟨rfl, rfl⟩
  · exact (hlater (hi ▸ hp)).elim
  · exact (hlater (hj ▸ hp)).elim

end Regime.Possible

/-- What passes over the wire for the request `w` that a task makes after the exchanges `a` of the
account. -/
def Network.Serves (N : Network c) (h' : History c.setting c.wired) (i : TaskId) (a : List (Deed c))
    (w : Pool.Wait) (b : List (Exchange (c.setting.interface.sum c.wired))) : Prop :=
  ∃ job, h'.jobs[i]? = some job ∧ Program.Serves c.carriage.acts c.carriage.waits
    (job.program (Work.meaning N.client)).run a (.inr (.inl w)) (h'.of i) b

/-- A request to take a connection back hands `link` back to the raw pool, after breaking it off if
the cause says so. -/
def Network.HandsBack (N : Network c) (h' : History c.setting c.wired) (i : TaskId)
    (a : List (Deed c))
    (k : LeaseId) (cause : Option Failure) (pool : PoolId) (opened : OpenedPool)
    (link : LinkId) : Prop :=
  ∃ lent pid rest, lent.pool = pool ∧ lent.link = link ∧
    (rest = [] ∨ ∃ ans, rest = [.receives (.release opened.raw link) ans]) ∧
    N.Serves h' i a (.release k cause) (WireM.takingBack k lent opened cause pid ++ rest)

/-- A request to take a connection back does nothing but look up its lease. -/
def Network.PassesBy (N : Network c) (h' : History c.setting c.wired) (i : TaskId)
    (a : List (Deed c)) (k : LeaseId) (cause : Option Failure) : Prop :=
  ∃ found : Option Lease, (∀ lent, found = some lent → lent.released) ∧
    N.Serves h' i a (.release k cause) [.notes (.lease k) found]

namespace Network.Serves

variable {a : List (Deed c)} {w : Pool.Wait} {b : List (Exchange (c.setting.interface.sum c.wired))}
  {cause : Option Failure} {pool : PoolId} {link : LinkId}

/-- What passes for a request passes. -/
theorem mem (hb : N.Serves h' i a w b) {e : Exchange (c.setting.interface.sum c.wired)}
    (he : e ∈ b) :
    .deed i e ∈ h' := by
  obtain ⟨job, -, m, m', hof, -⟩ := hb
  rw [← History.mem_of_iff, hof]
  simp [he]

/-- What passes for a request does so in one place. -/
theorem unique {b' : List (Exchange (c.setting.interface.sum c.wired))} (hb : N.Serves h' i a w b)
    (hb' : N.Serves h' i a w b') : b = b' := by
  obtain ⟨job, hjob, hserves⟩ := hb
  obtain ⟨job', hjob', hserves'⟩ := hb'
  rw [hjob] at hjob'
  cases hjob'
  exact hserves.unique hserves'

/-- A lease that has been looked up while a request is carried over is known. -/
theorem lease_known (hp : N.regime.Possible h') (hb : N.Serves h' i a w b) {lent : Lease}
    (he : .notes (.lease k) (some lent) ∈ b) :
    ∃ lent', h'.holdings.leases[k]? = some lent' ∧ lent'.pool = lent.pool ∧
      lent'.link = lent.link := by
  obtain ⟨g, g', rfl⟩ := List.append_of_mem (hb.mem he)
  have hfound : (History.holdings g).leases[k]? = some lent := hp.noted.symm
  obtain ⟨lent', hk, hpool, hlink, -⟩ := History.lease_mono _ hfound
  exact ⟨lent', hk, hpool, hlink⟩

/-- A pool that has been looked up while a request is carried over is known. -/
theorem pool_known (hp : N.regime.Possible h') (hb : N.Serves h' i a w b) {opened : OpenedPool}
    (he : .notes (.pool pool) (some opened) ∈ b) : h'.holdings.pools[pool]? = some opened := by
  obtain ⟨g, g', rfl⟩ := List.append_of_mem (hb.mem he)
  have hfound : (History.holdings g).pools[pool]? = some opened := hp.noted.symm
  exact History.pool_mono hfound

/-- A lease that has been added while a request is carried over is known. -/
theorem lease_added (hp : N.regime.Possible h') (hb : N.Serves h' i a w b)
    (he : .notes (.addLease pool link) k ∈ b) :
    ∃ lent, h'.holdings.leases[k]? = some lent ∧ lent.pool = pool ∧ lent.link = link := by
  obtain ⟨g, g', rfl⟩ := List.append_of_mem (hb.mem he)
  have hname : k = (History.holdings g).leases.length := hp.noted
  have hadded : (History.holdings (g ++ [.deed i (.notes (.addLease pool link) k)])).leases[k]? =
      some { pool, link } := by
    simp [hname, History.hold, Holdings.perform]
  obtain ⟨lent, hk, hpool, hlink, -⟩ := History.lease_mono g' hadded
  exact ⟨lent, by simpa using hk, hpool, hlink⟩

/-- Between turns, a request to take a connection back does nothing, or it hands the connection
back. -/
theorem release_cases {m : Machine c.setting c.wired (Holdings × Ledger × N.World)}
    (hr : N.regime.Run h' m) (hb : N.Serves h' i a (.release k cause) b) :
    N.PassesBy h' i a k cause ∨ ∃ lent opened pid rest, lent.released = false ∧
      (rest = [] ∨ ∃ ans, rest = [.receives (.release opened.raw lent.link) ans]) ∧
      b = WireM.takingBack k lent opened cause pid ++ rest := by
  have hp := hr.possible
  obtain ⟨job, hjob, hserves⟩ := id hb
  -- between turns, the request has been carried over, or a wait for it is under way
  rcases Account.serves_of_idle N.program_eq hp (hr.atRest i) hjob hserves with
    ⟨b₀, v, rfl, hasks⟩ | ⟨ans, hends⟩
  · rcases WireM.asks_release (S := c.setting) (X := Ledger.interface.sum c.Requests) hasks with
      ⟨-, _, he⟩ | ⟨lent, hreleased, ⟨-, _, he⟩ | ⟨opened, pid, ht⟩⟩
    · cases he
    · cases he
    · exact .inr ⟨lent, opened, pid, [], hreleased, .inl rfl, by
        rw [WireM.eq_of_call ht, List.append_nil]⟩
  · rcases WireM.ends_release (S := c.setting) (X := Ledger.interface.sum c.Requests) hends with
      ⟨found, rfl, hfound⟩ | ⟨lent, hreleased, rfl | ⟨opened, pid, rfl⟩⟩
    · exact .inl ⟨found, fun lent hlent => (hfound lent hlent).1, hb⟩
    · -- the pool of a lease is known
      obtain ⟨m₁, m₂, hof, -⟩ := hserves
      rw [List.cons_append, List.append_cons] at hof
      obtain ⟨g, g', rfl, hg, -⟩ := History.exists_split_of hof
      have hmem : .deed i (.notes (.lease k) (some lent)) ∈ g := by
        rw [← History.mem_of_iff, hg]
        simp
      obtain ⟨g₁, g₂, rfl⟩ := List.append_of_mem hmem
      have hp₁ := hp.of_append
      have hfound : (History.holdings g₁).leases[k]? = some lent := hp₁.noted.symm
      obtain ⟨opened, hopened⟩ := hp₁.of_append.pool_known hfound
      have hnone : (History.holdings
          (g₁ ++ .deed i (.notes (.lease k) (some lent)) :: g₂)).pools[lent.pool]? = none :=
        hp.noted.symm
      rw [History.pool_mono hopened] at hnone
      cases hnone
    · exact .inr ⟨lent, opened, pid, _, hreleased, .inr ⟨ans, rfl⟩, rfl⟩

end Network.Serves

variable {h : History c.setting c.requests}
  {m : Machine c.setting c.wired (Holdings × Ledger × N.World)}

namespace Account

/-- An entry that is no lookup is made for a request to a pool. -/
theorem serves_of_noted {r : Holdings.Act} {out : r.Outcome} (ha : N.Account h h')
    (hp : N.regime.Possible h') (hr : ¬ WireM.LooksUp r) (hnote : .deed i (.notes r out) ∈ h') :
    ∃ a w a' b, h.of i = a ++ .requests w :: a' ∧ WireM.Enters w r ∧ N.Serves h' i a w b ∧
      .notes r out ∈ b := by
  obtain ⟨job, hj⟩ := hp.job_of_begun (List.ne_nil_of_mem (History.mem_of_iff.mpr hnote))
  have htracks := ha.tracks hp (ha.jobs_eq ▸ hj)
  -- acts only look things up, so the entry is made for a request
  rcases htracks.serves_of_mem c.carriage.waits_ne_done (History.mem_of_iff.mpr hnote) with
    ⟨_, b, hreach, hmem⟩ | ⟨a, w, a', b, hof, hserves, hmem⟩
  · exact absurd (WireM.looksUp_of_acts hreach hmem) hr
  · have hreach : Program.Reaches (c.carriage.waits w) b := by
      obtain ⟨_, _, -, -, -, -, ⟨-, hu⟩ | ⟨_, hd⟩⟩ := hserves
      · exact hu.1
      · exact hd.reaches
    obtain ⟨w, rfl, henter⟩ := WireM.enters_of_waits hreach hmem
    exact ⟨a, w, a', b, hof, henter, ⟨job, hj, hserves⟩, hmem⟩

/-- A lease is marked for a request to take its connection back. -/
theorem serves_of_marked (ha : N.Account h h') (hp : N.regime.Possible h')
    (hmark : .deed i (.notes (.markReleased k) ()) ∈ h') :
    ∃ a cause a' b, h.of i = a ++ .requests (.release k cause) :: a' ∧
      N.Serves h' i a (.release k cause) b ∧ .notes (.markReleased k) () ∈ b := by
  obtain ⟨a, w, a', b, hof, henter, hserves, hmem⟩ := ha.serves_of_noted hp id hmark
  cases w with
  | release k' cause =>
    cases henter
    exact ⟨a, cause, a', b, hof, hserves, hmem⟩
  | _ => exact henter.elim

/-- A request to a pool is served by some exchanges, which come to its answer. -/
theorem serves (ha : N.Account h h') (hp : N.regime.Possible h') {a a' : List (Deed c)}
    {w : Pool.Wait} (hof : h.of i = a ++ .requests w :: a') :
    ∃ b, N.Serves h' i a w b ∧ ∀ ans a'', a' = .served w ans :: a'' →
      Program.Leads (c.carriage.waits (.inr (.inl w))) b (.done ans) := by
  obtain ⟨job, hj⟩ := hp.job_of_begun (i := i) fun hnil => by simp [ha.of_eq_nil hnil] at hof
  have htracks := ha.tracks hp (ha.jobs_eq ▸ hj)
  rw [hof] at htracks
  obtain ⟨b, hb, hans⟩ := htracks.serves c.carriage.waits_ne_done
  exact ⟨b, ⟨job, hj, hb⟩, hans⟩

/-- Over the wire, a connection is lent out by its raw pool. -/
theorem lendingOut (ha : N.Account h h') (hp : N.regime.Possible h') {pool : PoolId}
    (hloan : .deed i (.served (.acquire pool) (.ok k)) ∈ h) :
    ∃ a opened link, N.Serves h' i a (.acquire pool) (WireM.lendingOut pool opened link k) := by
  obtain ⟨l₁, l₂, hof⟩ := List.append_of_mem (History.mem_of_iff.mpr hloan)
  obtain ⟨job, hj⟩ := hp.job_of_begun (i := i) fun hnil => by simp [ha.of_eq_nil hnil] at hof
  -- the loan is the answer to a request
  obtain ⟨a, rfl⟩ : ∃ a, l₁ = a ++ [.requests (.acquire pool)] :=
    (ha.tracks hp (ha.jobs_eq ▸ hj)).reaches.call_of_answer hof
  rw [List.append_assoc] at hof
  obtain ⟨b, hb, hans⟩ := ha.serves hp hof
  obtain ⟨opened, link, rfl⟩ := WireM.ends_acquire (S := c.setting)
    (X := Ledger.interface.sum c.Requests) (hans _ _ rfl)
  exact ⟨a, opened, link, hb⟩

/-- A connection has been lent out if its lease has been added over the wire. -/
theorem lent_of_added (ha : N.Account h h') (hp : N.regime.Possible h') {pool : PoolId}
    {link : LinkId} (hadd : .deed i (.notes (.addLease pool link) k) ∈ h') :
    .deed i (.served (.acquire pool) (.ok k)) ∈ h := by
  obtain ⟨f, f', rfl⟩ := List.append_of_mem hadd
  rw [List.append_cons] at ha hp
  obtain ⟨g, g', rfl, hag⟩ := ha.of_append
  refine List.mem_append_left _ ?_
  -- whoever comes to add a lease has been asked for a connection, and has it then
  have hends : ∀ {b : List (Exchange (c.setting.interface.sum c.wired))} {w},
      Program.Reaches (c.carriage.waits w) (b ++ [.notes (.addLease pool link) k]) →
      w = .inr (.inl (.acquire pool)) ∧ b ≠ [] ∧
      Program.Leads (c.carriage.waits (.inr (.inl (.acquire pool))))
        (b ++ [.notes (.addLease pool link) k]) (.done (.ok k)) := by
    intro b w hreach
    obtain ⟨w, rfl, henter⟩ := WireM.enters_of_waits hreach
      (List.mem_append_right _ (List.mem_singleton_self _))
    cases w with
    | acquire pool' =>
      cases henter
      have hasks := hreach.asks id
      obtain ⟨opened, l', rfl⟩ := WireM.known_of_addLease (S := c.setting)
        (X := Ledger.interface.sum c.Requests) hasks
      exact ⟨rfl, nofun, WireM.ends_of_addLease (S := c.setting)
        (X := Ledger.interface.sum c.Requests) hasks⟩
    | _ => exact henter.elim
  have hacts : ∀ {b : List (Exchange (c.setting.interface.sum c.wired))} {r},
      ¬ Program.Reaches (c.carriage.acts r) (b ++ [.notes (.addLease pool link) k]) := fun hreach =>
    WireM.looksUp_of_acts hreach (List.mem_append_right _ (List.mem_singleton_self _))
  generalize hf : f ++ [.deed i (.notes (.addLease pool link) k)] = f₀ at hag
  cases hag with
  | nil => simp at hf
  | launch job _ | finish i r _ | interrupt i _ => cases (List.append_inj' hf rfl).2
  | deed _ _ _ hc =>
    cases (List.append_inj' hf rfl).2
    cases hc with
    | act _ _ hd => exact (hacts hd.reaches).elim
    | acting _ _ hu => exact (hacts hu.1).elim
    | call _ hu => exact ((hends (b := []) hu.1).2.1 rfl).elim
    | waiting _ _ _ _ hu =>
      obtain ⟨rfl, -, hdone⟩ := hends hu.1
      exact (hu.2 _ hdone).elim
    | answer _ _ _ _ hd =>
      obtain ⟨rfl, -, hdone⟩ := hends hd.reaches
      cases hd.det hdone
      exact List.mem_append_right _ (List.mem_singleton_self _)
    | both _ hd => exact ((hends (b := []) hd.reaches).2.1 rfl).elim

end Account

namespace Network

/-- Of all the requests to take a connection back, one at the most hands it back. -/
theorem HandsBack.unique {a a' b b' : List (Deed c)} {cause cause' : Option Failure}
    {pool pool' : PoolId}
    {opened opened' : OpenedPool} {link link' : LinkId} (hp : N.regime.Possible h')
    (hi : N.HandsBack h' i a k cause pool opened link)
    (hj : N.HandsBack h' j b k cause' pool' opened' link')
    (hab : i = j →
      a ++ .requests (.release k cause) :: a' = b ++ .requests (.release k cause') :: b') :
    i = j ∧ a = b := by
  -- where a connection is handed back, its lease is marked
  have hmark : ∀ {i : TaskId} {a : List (Deed c)} {cause pool opened link},
      N.HandsBack h' i a k cause pool opened link →
      ∃ (g g' : History c.setting c.wired) (m : List (Exchange (c.setting.interface.sum c.wired)))
        (d₁ d₂ : Exchange (c.setting.interface.sum c.wired)) (job : Job c.setting),
        h' = g ++ .deed i (.notes (.markReleased k) ()) :: g' ∧ g.of i = m ++ [d₁, d₂] ∧
        h'.jobs[i]? = some job ∧ Program.Tracks c.carriage.acts c.carriage.waits
          (job.program (Work.meaning N.client)).run a m ∧
        ∃ next, Program.Leads (job.program (Work.meaning N.client)).run a
          (.await (.inr (.inl (.release k cause))) next) := by
    rintro i a cause pool opened link ⟨lent, pid, rest, -, -, -, job, hjob, m, m', hof, ht, hx, -⟩
    have hof : h'.of i =
        (m ++ [.notes (.lease k) (some lent), .notes (.pool lent.pool) (some opened)]) ++
        .notes (.markReleased k) () :: (WireM.breakingOff lent.link cause pid ++
          .sends (.release opened.raw lent.link) :: (rest ++ m')) := by
      rw [hof]
      simp [WireM.takingBack]
    obtain ⟨g, g', hg, hgi, -⟩ := History.exists_split_of hof
    exact ⟨g, g', m, _, _, job, hg, hgi, hjob, ht, hx⟩
  obtain ⟨g₁, g₁', m₁, d₁, d₂, job₁, hg₁, hof₁, hjob₁, ht₁, next₁, hx₁⟩ := hmark hi
  obtain ⟨g₂, g₂', m₂, e₁, e₂, job₂, hg₂, hof₂, hjob₂, ht₂, next₂, hx₂⟩ := hmark hj
  obtain ⟨rfl, rfl⟩ := hp.marked_once hg₁ hg₂
  rw [hjob₁] at hjob₂
  cases hjob₂
  rw [hof₁] at hof₂
  obtain ⟨rfl, -⟩ := List.append_inj' hof₂ rfl
  refine ⟨rfl, ?_⟩
  rcases List.append_eq_append_iff.mp (hab rfl) with ⟨t, rfl, ht⟩ | ⟨t, rfl, ht⟩
  · cases t with
    | nil => simp
    | cons d t =>
      obtain ⟨rfl, -⟩ := List.cons.inj ht
      exact (ht₁.not_later c.carriage.waits_ne_done hx₁ ht₂).elim
  · cases t with
    | nil => simp
    | cons d t =>
      obtain ⟨rfl, -⟩ := List.cons.inj ht
      exact (ht₂.not_later c.carriage.waits_ne_done hx₂ ht₁).elim

/-- What passes over the wire for the lease `k` on a pool, in view of its account. -/
structure TakesBackOnce (N : Network c) (h : History c.setting c.requests)
    (h' : History c.setting c.wired)
    (i : TaskId) (pool : PoolId) (k : LeaseId) (opened : OpenedPool) (link : LinkId) : Prop where
  /-- A raw pool has lent out a link. -/
  lent : ∃ a, N.Serves h' i a (.acquire pool) (WireM.lendingOut pool opened link k)
  /-- Every request to take the connection back hands this link back to this raw pool, or does
  nothing. -/
  back : ∀ {j a cause a'}, h.of j = a ++ .requests (.release k cause) :: a' →
    N.HandsBack h' j a k cause pool opened link ∨ N.PassesBy h' j a k cause
  /-- At most one hands it back. -/
  once : ∀ {j₁ j₂ a₁ a₂ cause₁ cause₂ a₁' a₂'},
    h.of j₁ = a₁ ++ .requests (.release k cause₁) :: a₁' →
    h.of j₂ = a₂ ++ .requests (.release k cause₂) :: a₂' →
    N.HandsBack h' j₁ a₁ k cause₁ pool opened link →
    N.HandsBack h' j₂ a₂ k cause₂ pool opened link →
    j₁ = j₂ ∧ a₁ = a₂
  /-- One does if there is such a request after the loan. -/
  some_back : ∀ {g g' j cause}, h = g ++ .deed j (.requests (.release k cause)) :: g' →
    History.Lent g k →
    ∃ j₁ a₁ cause₁ a₁', h.of j₁ = a₁ ++ .requests (.release k cause₁) :: a₁' ∧
      N.HandsBack h' j₁ a₁ k cause₁ pool opened link

/-- Between turns, a request to take a connection back hands the link of the lease back to its raw
pool, or does nothing. -/
theorem Serves.handsBack_or_passesBy {j : TaskId} {a : List (Deed c)} {cause : Option Failure}
    {b : List (Exchange (c.setting.interface.sum c.wired))} {lent : Lease} {opened : OpenedPool}
    (hr : N.regime.Run h' m) (hb : N.Serves h' j a (.release k cause) b)
    (hk : h'.holdings.leases[k]? = some lent)
    (hopened : h'.holdings.pools[lent.pool]? = some opened) :
    N.HandsBack h' j a k cause lent.pool opened lent.link ∨ N.PassesBy h' j a k cause := by
  have hp := hr.possible
  rcases hb.release_cases hr with hpass | ⟨lent', opened', pid, rest, -, hrest, rfl⟩
  · exact .inr hpass
  -- what the request has looked up is the lease and its pool
  obtain ⟨lent₁, hk₁, hpool, hlink⟩ : ∃ lent₁, h'.holdings.leases[k]? = some lent₁ ∧
      lent₁.pool = lent'.pool ∧ lent₁.link = lent'.link :=
    hb.lease_known hp (by simp [WireM.takingBack])
  rw [hk] at hk₁
  cases hk₁
  have hopened' : h'.holdings.pools[lent'.pool]? = some opened' :=
    hb.pool_known hp (by simp [WireM.takingBack])
  rw [← hpool, hopened] at hopened'
  cases hopened'
  exact .inl ⟨lent', pid, rest, hpool.symm, hlink.symm, hlink ▸ hrest, hb⟩

/-- A request after the loan does nothing only if the lease has been marked before. -/
theorem marked_of_passesBy {g g' : History c.setting c.requests} {j : TaskId}
    {cause : Option Failure} (ha : N.Account h h') (hp : N.regime.Possible h')
    (hcall : h = g ++ .deed j (.requests (.release k cause)) :: g') (hlent : g.Lent k)
    (hpass : N.PassesBy h' j (g.of j) k cause) :
    ∃ i, .deed i (.notes (.markReleased k) ()) ∈ h' := by
  obtain ⟨f, e, f', hf, hag, hreach⟩ := ha.split_call hcall
  have hpf : N.regime.Possible (f ++ .deed j e :: f') := hf ▸ hp
  -- the lease is known when the request looks it up
  have hlt : k < f.holdings.leases.length := hag.lease_lt hpf.of_append hlent
  have hk : f.holdings.leases[k]? = some f.holdings.leases[k] := List.getElem?_eq_getElem hlt
  obtain ⟨found, rfl⟩ := WireM.lookup_of_release (S := c.setting)
    (X := Ledger.interface.sum c.Requests) hreach
  have hfound : found = f.holdings.leases[k]? := hpf.noted
  -- this lookup is the one that the request consists of
  obtain ⟨found', hpassed, job, hjob, n, n', hn, ht, ⟨next, hx⟩, -⟩ := hpass
  have hof : h'.of j = f.of j ++ .notes (.lease k) found :: History.of f' j := by
    rw [hf]
    simp [Happening.deed?]
  have hjob' : g.jobs[j]? = some job := by
    rw [hag.jobs_eq]
    exact hpf.job_before (hf ▸ hjob)
  rw [hn] at hof
  obtain rfl := ht.unique (hag.tracks hpf.of_append hjob') hx hof
  obtain ⟨he, -⟩ := List.cons.inj (List.append_cancel_left hof)
  cases he
  obtain ⟨i, hmark⟩ := History.marked_of_released hk (hpassed _ (hfound.trans hk))
  exact ⟨i, hf ▸ List.mem_append_left _ hmark⟩

/-- Between turns, the connection of a lease has been handed back once, or nobody has asked for
that. -/
theorem taken_back_once (hr : N.regime.Run h' m) (ha : N.Account h h') {pool : PoolId}
    (hloan : .deed i (.served (.acquire pool) (.ok k)) ∈ h) :
    ∃ opened link, N.TakesBackOnce h h' i pool k opened link := by
  have hp := hr.possible
  obtain ⟨a, opened, link, hlend⟩ := ha.lendingOut hp hloan
  have hopened : h'.holdings.pools[pool]? = some opened :=
    hlend.pool_known hp (by simp [WireM.lendingOut])
  obtain ⟨lent, hk, rfl, rfl⟩ : ∃ lent, h'.holdings.leases[k]? = some lent ∧ lent.pool = pool ∧
      lent.link = link := hlend.lease_added hp (by simp [WireM.lendingOut])
  refine ⟨opened, lent.link, ⟨a, hlend⟩, ?_, ?_, ?_⟩
  · intro j a cause a' hof
    obtain ⟨b, hb, -⟩ := ha.serves hp hof
    exact hb.handsBack_or_passesBy hr hk hopened
  · intro j₁ j₂ a₁ a₂ cause₁ cause₂ a₁' a₂' hof₁ hof₂ hhands₁ hhands₂
    exact hhands₁.unique hp hhands₂ fun hj => by rw [← hof₁, ← hof₂, hj]
  · intro g g' j cause hcall hlent
    have hof : h.of j = g.of j ++ .requests (.release k cause) :: History.of g' j := by
      rw [hcall]
      simp [Happening.deed?]
    obtain ⟨b, hb, -⟩ := ha.serves hp hof
    rcases hb.handsBack_or_passesBy hr hk hopened with hhands | hpass
    · exact ⟨j, _, cause, _, hof, hhands⟩
    · -- somebody else has marked the lease, who hands it back
      obtain ⟨j₁, hmark⟩ := marked_of_passesBy ha hp hcall hlent hpass
      obtain ⟨a₁, cause₁, a₁', b₁, hof₁, hb₁, hmem⟩ := ha.serves_of_marked hp hmark
      rcases hb₁.handsBack_or_passesBy hr hk hopened with hhands | ⟨found, -, hpassed⟩
      · exact ⟨j₁, a₁, cause₁, a₁', hof₁, hhands⟩
      · rw [hb₁.unique hpassed] at hmem
        cases List.mem_singleton.mp hmem

end Network

end PooledSql
