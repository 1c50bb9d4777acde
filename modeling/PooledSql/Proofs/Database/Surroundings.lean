import PooledSql.Proofs.Database.Licence
import PooledSql.Proofs.Task.Record

/-!
# Databases in their surroundings

A database runs among clients that use it by what it offers, on pools that may answer what they
like, save that they lend out no connection under a name that has been given to another loan before.

* `Surroundings`: the programs of the clients, and the world around.
* `Surroundings.regime`: what is run, and what may happen.
* `History.ledger`: the ledger after a history.

From here on `D` is a database in its surroundings, and what is said of its possible histories holds
of every run of the machine (`Regime.Run.possible`).
-/

namespace PooledSql

variable {c : Client}

/-- The entry of a scope after an exchange. -/
def Scope.amended (scope : ScopeId) (entry : Scope) : Deed c → Scope
  | .act (.inr (.inr (.inl (.closeScope s)))) _ =>
    if s = scope then { entry with closed := true } else entry
  | .act (.inr (.inr (.inl (.setState s state)))) _ =>
    if s = scope then { entry with state := some state } else entry
  | _ => entry

namespace History

variable {g g' h : History c.setting c.requests} {i j : TaskId} {k : LeaseId}

/-- The effect of a happening on the ledger. -/
def record (l : Ledger) : Happening c.setting c.requests → Ledger
  | .deed _ (.act (.inr (.inr (.inl r))) _) => (l.perform r).2
  | _ => l

/-- The ledger after a history. -/
def ledger (h : History c.setting c.requests) : Ledger := h.foldl record {}

/-- The entry of a scope after a history. -/
def scope? (h : History c.setting c.requests) (scope : ScopeId) : Option Scope :=
  h.ledger.scopes[scope]?

/-- Whether a connection has been lent out under some name. -/
def Lent (h : History c.setting c.requests) (k : LeaseId) : Prop :=
  ∃ i pool, .deed i (.served (.acquire pool) (.ok k)) ∈ h

/-- Whether a pool has been asked to take a connection back. -/
def Returned (h : History c.setting c.requests) (k : LeaseId) : Prop :=
  ∃ i cause, .deed i (.requests (.release k cause)) ∈ h

/-- The name of the loan that a happening makes. -/
def loan? : Happening c.setting c.requests → Option LeaseId
  | .deed _ (.answer (.inr (.inl (.acquire _))) (.ok k)) => some k
  | _ => none

/-- A loan is made by the answer to a request for a connection. -/
theorem loan?_eq_some_iff {e : Happening c.setting c.requests} :
    loan? e = some k ↔ ∃ i pool, e = .deed i (.served (.acquire pool) (.ok k)) := by
  constructor
  · intro he
    unfold loan? at he
    split at he <;> cases he
    exact ⟨_, _, rfl⟩
  · rintro ⟨i, pool, rfl⟩
    rfl

/-- The loans can be listed. -/
theorem lent_iff : h.Lent k ↔ k ∈ h.filterMap loan? := by
  rw [List.mem_filterMap]
  constructor
  · rintro ⟨i, pool, hmem⟩
    exact ⟨_, hmem, rfl⟩
  · rintro ⟨e, hmem, he⟩
    obtain ⟨i, pool, rfl⟩ := loan?_eq_some_iff.mp he
    exact ⟨i, pool, hmem⟩

instance : Decidable (h.Lent k) := decidable_of_iff _ lent_iff.symm

@[simp]
theorem ledger_nil : ledger ([] : History c.setting c.requests) = {} := rfl

@[simp]
theorem ledger_snoc {e : Happening c.setting c.requests} :
    ledger (h ++ [e]) = record h.ledger e := by
  simp [ledger]

/-- The entry of a scope after a happening. -/
def amend (scope : ScopeId) (entry : Scope) : Happening c.setting c.requests → Scope
  | .deed _ x => Scope.amended scope entry x
  | _ => entry

/-- A happening amends the entries of scopes that have been opened. -/
theorem scope?_snoc {scope : ScopeId} {entry : Scope} {e : Happening c.setting c.requests}
    (hs : h.scope? scope = some entry) :
    scope? (h ++ [e]) scope = some (amend scope entry e) := by
  unfold scope? at hs ⊢
  rw [ledger_snoc]
  -- only the opening of a scope, its close and a note of its state touch the scopes of the ledger
  match e with
  | .deed _ (.act (.inr (.inr (.inl (.openScope k state)))) _) =>
    simp only [record, Ledger.perform, amend, Scope.amended]
    rw [List.getElem?_append_left (List.getElem?_eq_some_iff.mp hs).1, hs]
  | .deed _ (.act (.inr (.inr (.inl (.closeScope s)))) _) =>
    simp only [record, Ledger.perform, amend, Scope.amended, List.getElem?_modify, hs]
    split <;> simp_all
  | .deed _ (.act (.inr (.inr (.inl (.setState s state)))) _) =>
    simp only [record, Ledger.perform, amend, Scope.amended, List.getElem?_modify, hs]
    split <;> simp_all
  | .deed _ (.act (.inr (.inr (.inl .newRun))) _)
  | .deed _ (.act (.inr (.inr (.inl (.noteRequest ..)))) _)
  | .deed _ (.act (.inr (.inr (.inl (.request _)))) _)
  | .deed _ (.act (.inr (.inr (.inl (.scope _)))) _)
  | .deed _ (.act (.inr (.inr (.inl .default))) _)
  | .deed _ (.act (.inr (.inr (.inl (.setDefault _)))) _)
  | .deed _ (.act (.inr (.inr (.inr _))) _) | .deed _ (.act (.inr (.inl _)) _)
  | .deed _ (.act (.inl _) _) | .deed _ (.call _) | .deed _ (.answer ..) | .launch _
  | .finish .. | .interrupt _ => exact hs

/-- What happens amends the entries of scopes that have been opened. -/
theorem scope?_append {scope : ScopeId} {entry : Scope} (hs : h.scope? scope = some entry) :
    scope? (h ++ g) scope = some (g.foldl (amend scope) entry) := by
  induction g using List.reverseRecOn with
  | nil => simpa using hs
  | append_singleton g e ih =>
    rw [← List.append_assoc, scope?_snoc ih, List.foldl_append, List.foldl_cons, List.foldl_nil]

/-- A scope is opened under the name that comes next. -/
theorem scope?_open {k : LeaseId} {state : Option TransactionState} {scope : ScopeId} :
    scope? (h ++ [.deed i (.enters (.openScope k state) scope)]) h.ledger.scopes.length =
      some { lease := k, state } := by
  simp [scope?, record, Ledger.perform]

/-- A scope comes into the ledger by being opened. -/
theorem scope?_snoc_of_none {scope : ScopeId} {entry : Scope}
    {e : Happening c.setting c.requests} (hnone : h.scope? scope = none)
    (hs : scope? (h ++ [e]) scope = some entry) :
    scope = h.ledger.scopes.length ∧ ∃ i state out,
      e = .deed i (.enters (.openScope entry.lease state) out) := by
  unfold scope? at hs hnone
  rw [ledger_snoc] at hs
  -- a scope that is not there cannot be amended, so it has been opened last
  have hsame : (record h.ledger e).scopes = h.ledger.scopes → False := by
    intro hsame
    rw [hsame, hnone] at hs
    cases hs
  match e with
  | .deed i (.act (.inr (.inr (.inl (.openScope k state)))) out) =>
    simp only [record, Ledger.perform, List.getElem?_append] at hs
    split at hs
    · rw [hnone] at hs
      cases hs
    next hge =>
      rw [List.getElem?_singleton] at hs
      split at hs
      next hzero =>
        cases hs
        exact ⟨Nat.le_antisymm (Nat.sub_eq_zero_iff_le.mp hzero) (Nat.le_of_not_lt hge), i, state,
          out, rfl⟩
      next => cases hs
  | .deed _ (.act (.inr (.inr (.inl (.closeScope s)))) _)
  | .deed _ (.act (.inr (.inr (.inl (.setState s _)))) _) =>
    simp [record, Ledger.perform, List.getElem?_modify, hnone] at hs
  | .deed _ (.act (.inr (.inr (.inl .newRun))) _)
  | .deed _ (.act (.inr (.inr (.inl (.noteRequest ..)))) _)
  | .deed _ (.act (.inr (.inr (.inl (.request _)))) _)
  | .deed _ (.act (.inr (.inr (.inl (.scope _)))) _)
  | .deed _ (.act (.inr (.inr (.inl .default))) _)
  | .deed _ (.act (.inr (.inr (.inl (.setDefault _)))) _)
  | .deed _ (.act (.inr (.inr (.inr _))) _) | .deed _ (.act (.inr (.inl _)) _)
  | .deed _ (.act (.inl _) _) | .deed _ (.call _) | .deed _ (.answer ..) | .launch _
  | .finish .. | .interrupt _ => exact (hsame rfl).elim

/-- What is amended is not the lease of a scope. -/
theorem amend_lease {scope : ScopeId} {entry : Scope} {e : Happening c.setting c.requests} :
    (amend scope entry e).lease = entry.lease := by
  cases e with
  | deed j x =>
    simp only [amend, Scope.amended]
    split
    · split <;> rfl
    · split <;> rfl
    · rfl
  | _ => rfl

/-- A scope that is closed stays so. -/
theorem amend_closed {scope : ScopeId} {entry : Scope} {e : Happening c.setting c.requests}
    (hc : entry.closed = true ∨ ∃ i, e = .deed i (.enters (.closeScope scope) ())) :
    (amend scope entry e).closed = true := by
  rcases hc with hc | ⟨i, rfl⟩
  · cases e with
    | deed j x =>
      simp only [amend, Scope.amended]
      split
      · split
        · rfl
        · exact hc
      · split <;> exact hc
      · exact hc
    | _ => exact hc
  · simp [amend, Scope.amended]

/-- A scope that is closed stays so. -/
theorem foldl_amend_closed {scope : ScopeId} {entry : Scope}
    (hc : entry.closed = true ∨ .deed i (.enters (.closeScope scope) ()) ∈ g) :
    (g.foldl (amend scope) entry).closed = true := by
  induction g using List.reverseRecOn with
  | nil => simpa using hc
  | append_singleton g e ih =>
    rw [List.foldl_append, List.foldl_cons, List.foldl_nil]
    refine amend_closed ?_
    rcases hc with hc | hc
    · exact .inl (ih (.inl hc))
    · rcases List.mem_append.mp hc with hc | hc
      · exact .inl (ih (.inr hc))
      · exact .inr ⟨i, (List.mem_singleton.mp hc).symm⟩

end History

/-- The clients of a database, and the world around it. -/
structure Surroundings (c : Client) where
  World : Type
  /-- The programs of the clients. -/
  client : c.Task → DatabaseM c Reply
  /-- Clients use the database by what it offers. -/
  client_public : ∀ task, Public (client task)
  /-- What comes of the clients' own requests. -/
  perform : (r : c.Requests.Act) → World → c.Requests.Outcome r × World
  /-- What inquiries about leases are answered with. -/
  inquire : (r : Pool.Act) → World → r.Outcome

namespace Surroundings

variable (D : Surroundings c)

/-- What is run: the programs of the database and of its clients, over the ledger and the world. -/
def engine : Engine c.setting c.requests (Ledger × D.World) where
  meaning := Work.meaning D.client
  perform
    | .inl r, w => (D.inquire r w.2, w)
    | .inr (.inl r), w => ((w.1.perform r).1, (w.1.perform r).2, w.2)
    | .inr (.inr r), w => ((D.perform r w.2).1, w.1, (D.perform r w.2).2)

/-- What may be answered to a request: every loan has a name of its own. -/
def Answers (h : History c.setting c.requests) :
    (w : c.requests.Wait) → Except Failure (c.requests.Answer w) → Prop
  | .inl (.acquire _), ans => ∀ k, ans = .ok k → ¬ h.Lent k
  | _, _ => True

/-- A database in its surroundings. Whatever is started from outside is a computation of a
client. -/
def regime : Regime c.setting c.requests (Ledger × D.World) where
  engine := D.engine
  Agrees h w := w.1 = h.ledger
  agrees_act {h w} i r hw := by
    rw [History.ledger_snoc, ← hw]
    match r with
    | .inl r => rfl
    | .inr (.inl r) => rfl
    | .inr (.inr r) => rfl
  agrees_other {h w e} he hw := by
    rw [History.ledger_snoc, hw]
    match e with
    | .deed i (.act (.inr r) out) => exact absurd rfl (he i r out)
    | .deed _ (.act (.inl _) _) | .deed _ (.call _) | .deed _ (.answer ..) | .launch _
    | .finish .. | .interrupt _ => rfl
  Launches job := ∃ task, job = .plain (.client task)
  Answers := Answers

end Surroundings

/-- Clients that make no requests of their own. -/
def Client.silent : Client := { Task := Unit, Requests := ⟨Empty, nofun, Empty, nofun⟩ }

/-- One program that uses a database, in a world that tells nothing about connections. -/
def Surroundings.solo (program : DatabaseM .silent Reply) (hprogram : Public program) :
    Surroundings .silent where
  World := Unit
  client _ := program
  client_public _ := hprogram
  perform := nofun
  inquire
    | .pid _, _ => none
    | .activeRun _, _ => none

/-- A pool that grants what it is asked for, and lends out a connection under a given name. -/
def Pool.granting (k : LeaseId) : (w : Client.silent.requests.Wait) →
    Except Failure (Client.silent.requests.Answer w)
  | .inl (.openPool _) => .ok (0 : PoolId)
  | .inl (.acquire _) => .ok k
  | .inl (.release ..) => .ok ()
  | .inl (.execute ..) => .ok ({ command := "", rowCount := 0, rows := [] } : Result)
  | .inl (.cancelRunning _) => .ok ()
  | .inl (.close _) => .ok ()
  | .inr (.inl w) => nomatch w
  | .inr (.inr w) => nomatch w

/-- A pool that refuses whatever it is asked for. -/
def Pool.refusing (f : Failure) (w : Client.silent.requests.Wait) :
    Except Failure (Client.silent.requests.Answer w) := .error f

namespace Surroundings

variable {h : History Client.silent.setting Client.silent.requests}
  {w : Client.silent.requests.Wait}

/-- A pool may grant a loan under a new name. -/
theorem answers_granting {k : LeaseId} (hk : ¬ h.Lent k) : Answers h w (Pool.granting k w) := by
  match w with
  | .inl (.acquire _) =>
    rintro _ ⟨⟩
    exact hk
  | .inl (.openPool _) | .inl (.release ..) | .inl (.execute ..) | .inl (.cancelRunning _)
  | .inl (.close _) => trivial
  | .inr (.inl w) => nomatch w
  | .inr (.inr w) => nomatch w

/-- A pool may refuse. -/
theorem answers_refusing {f : Failure} : Answers h w (Pool.refusing f w) := by
  match w with
  | .inl (.acquire _) => exact nofun
  | .inl (.openPool _) | .inl (.release ..) | .inl (.execute ..) | .inl (.cancelRunning _)
  | .inl (.close _) => trivial
  | .inr (.inl w) => nomatch w
  | .inr (.inr w) => nomatch w

end Surroundings

namespace Regime.Run

variable {D : Surroundings .silent} {h : History Client.silent.setting Client.silent.requests}
  {m : Machine Client.silent.setting Client.silent.requests (Ledger × D.World)}

/-- A run may go on with what a pool grants. -/
theorem grant (hr : D.regime.Run h m) (i : TaskId) (k : LeaseId) (hk : ¬ h.Lent k) :
    D.regime.Run (h ++ m.replyHappenings D.regime.engine i (Pool.granting k))
      (m.reply D.regime.engine i (Pool.granting k)) :=
  hr.reply i _ fun _ _ _ _ _ => Surroundings.answers_granting hk

/-- A run may go on with what a pool refuses. -/
theorem refuse (hr : D.regime.Run h m) (i : TaskId) (f : Failure) :
    D.regime.Run (h ++ m.replyHappenings D.regime.engine i (Pool.refusing f))
      (m.reply D.regime.engine i (Pool.refusing f)) :=
  hr.reply i _ fun _ _ _ _ _ => Surroundings.answers_refusing

end Regime.Run

namespace Regime.Possible

variable {D : Surroundings c} {g g' h : History c.setting c.requests} {i j : TaskId} {k : LeaseId}
  {scope : ScopeId}

/-- The ledger gives out what it gives out after the entries so far. -/
theorem ledger_outcome {r : Ledger.Act} {out : r.Outcome}
    (hp : D.regime.Possible (g ++ .deed i (.enters r out) :: g')) :
    out = (g.ledger.perform r).1 := by
  obtain ⟨w, hw, hout⟩ := hp.yields
  have hledger : w.1 = g.ledger := hw
  rw [← hledger]
  exact hout

/-- All jobs of a database are such as it has. -/
theorem lawful (hp : D.regime.Possible h) {job : Job c.setting} (hj : h.jobs[i]? = some job) :
    job.Lawful := by
  induction hp generalizing i job with
  | nil => cases hj
  | @snoc h e hp hf ih =>
    rw [History.jobs_append, List.getElem?_append] at hj
    split at hj
    · exact ih hj
    -- the job is that of the last happening
    have hjob : e.job? = some job := by
      rw [History.jobs_cons, History.jobs_nil, List.append_nil] at hj
      cases hjob : e.job? with
      | none => simp [hjob] at hj
      | some job' =>
        rw [hjob] at hj
        rw [List.mem_singleton.mp (List.mem_of_getElem? hj)]
    -- it is launched from outside, or started by a task, which has licence for it
    rcases Happening.job?_eq_some_iff.mp hjob with rfl | ⟨j, n, rfl⟩
    · cases hf with
      | launch hl =>
        obtain ⟨task, rfl⟩ := hl
        exact .free (.plain task)
    · cases hf with
      | act hj' _ _ hx _ =>
        exact ((ih hj').licensed D.client_public (.act n hx)).lawful_of_spawn

/-- What a task does is licensed. -/
theorem licensed {x : Deed c} (hp : D.regime.Possible (g ++ .deed i x :: g'))
    (hx : ¬ x.IsAnswer) :
    ∃ job, g.jobs[i]? = some job ∧ Licensed (D.regime.program job) job (g.of i) x := by
  obtain ⟨job, hj, hasks⟩ := hp.asks hx
  exact ⟨job, hj, (hp.of_append.lawful hj).licensed D.client_public hasks⟩

/-- A loan gets a name that has been given to none before. -/
theorem not_lent_before {pool : PoolId}
    (hp : D.regime.Possible (g ++ .deed i (.served (.acquire pool) (.ok k)) :: g')) :
    ¬ g.Lent k := by
  rcases hp.resolves with hans | ⟨hans, -⟩
  · exact hans k rfl
  · cases hans

/-- No loan gets a name that has been given to another one. -/
theorem lent_unique {pool pool' : PoolId} {a b a' b' : List (Deed c)} (hp : D.regime.Possible h)
    (hi : h.of i = a ++ .served (.acquire pool) (.ok k) :: b)
    (hj : h.of j = a' ++ .served (.acquire pool') (.ok k) :: b') :
    i = j ∧ a = a' ∧ pool = pool' ∧ b = b' := by
  obtain ⟨g₁, g₂, heq₁, rfl, rfl⟩ := History.exists_split_of hi
  obtain ⟨g₃, g₄, heq₃, rfl, rfl⟩ := History.exists_split_of hj
  rcases History.place_cases heq₁ heq₃ with ⟨rfl, he, rfl⟩ | ⟨m, rfl, -⟩ | ⟨m, rfl, -⟩
  · cases he
    exact ⟨rfl, rfl, rfl, rfl⟩
  · exact absurd ⟨i, pool, by simp⟩ (heq₃ ▸ hp).not_lent_before
  · exact absurd ⟨j, pool', by simp⟩ (heq₁ ▸ hp).not_lent_before

/-- What passes after a loan is known by its name. -/
theorem loan_unique {pool pool' : PoolId} {pid pid' : Option Nat} {a b a' b' : List (Deed c)}
    (hp : D.regime.Possible h) (hi : h.of i = a ++ (DatabaseM.lending pool k pid ++ b))
    (hj : h.of j = a' ++ (DatabaseM.lending pool' k pid' ++ b')) :
    i = j ∧ a = a' ∧ pool = pool' ∧ pid = pid' ∧ b = b' := by
  have hsplit : ∀ {pool pid} {a b : List (Deed c)}, a ++ (DatabaseM.lending pool k pid ++ b) =
      (a ++ [.requests (.acquire pool)]) ++ .served (.acquire pool) (.ok k) ::
        (.inquires (.pid k) pid :: .does (.log (.acquired pid)) () :: b) := by
    intros
    simp [DatabaseM.lending]
  rw [hsplit] at hi hj
  obtain ⟨rfl, ha, rfl, hb⟩ := hp.lent_unique hi hj
  cases hb
  exact ⟨rfl, (List.append_inj' ha rfl).1, rfl, rfl, rfl⟩

/-- The entry of a scope since it was opened. -/
theorem scope?_of_opened {state : Option TransactionState}
    (hp : D.regime.Possible (g ++ .deed i (.enters (.openScope k state) scope) :: g')) :
    History.scope? (g ++ .deed i (.enters (.openScope k state) scope) :: g') scope =
      some (g'.foldl (History.amend scope) { lease := k, state }) := by
  obtain rfl : scope = g.ledger.scopes.length := hp.ledger_outcome
  rw [List.append_cons]
  exact History.scope?_append History.scope?_open

/-- A scope that is in the ledger has been opened on its lease. -/
theorem opened_of_scope? {entry : Scope} (hp : D.regime.Possible h)
    (hs : h.scope? scope = some entry) :
    ∃ g i state g', h = g ++ .deed i (.enters (.openScope entry.lease state) scope) :: g' := by
  induction hp generalizing entry with
  | nil => cases hs
  | @snoc h e hp hf ih =>
    -- the last happening amends the entry of the scope, or opens the scope
    cases hold : h.scope? scope with
    | some entry' =>
      rw [History.scope?_snoc hold] at hs
      cases hs
      rw [History.amend_lease]
      obtain ⟨g, i, state, g', rfl⟩ := ih hold
      exact ⟨g, i, state, g' ++ [e], by simp⟩
    | none =>
      obtain ⟨rfl, i, state, out, rfl⟩ := History.scope?_snoc_of_none hold hs
      have hp : D.regime.Possible
          (h ++ .deed i (.enters (.openScope entry.lease state) out) :: []) :=
        hp.snoc hf
      obtain rfl : out = h.ledger.scopes.length := hp.ledger_outcome
      exact ⟨h, i, state, [], rfl⟩

/-- What a task is told that waits for another one is how that one has ended, or that the wait has
been interrupted. -/
theorem finished_of_joined {task : TaskId} {ans : Except Failure Reply}
    (hp : D.regime.Possible (g ++ .deed i (.joined task ans) :: g')) :
    .finish task ans ∈ g ∨ ans = .error .interrupted :=
  hp.resolves.imp_right And.left

/-- A job that has been started is that of its task. -/
theorem job_of_spawned {job : Job c.setting} {task : TaskId}
    (hp : D.regime.Possible (g ++ .deed i (.does (.spawn job) task) :: g')) :
    (History.jobs (g ++ .deed i (.does (.spawn job) task) :: g'))[task]? = some job := by
  obtain rfl : task = g.jobs.length := hp.eq_length_of_spawn
  simp [Happening.job?]

/-- No two scopes have the same name. -/
theorem open_unique {k' : LeaseId} {state state' : Option TransactionState}
    {a a' b b' : History c.setting c.requests} (hp : D.regime.Possible h)
    (ha : h = a ++ .deed i (.enters (.openScope k state) scope) :: a')
    (hb : h = b ++ .deed j (.enters (.openScope k' state') scope) :: b') :
    a = b ∧ i = j ∧ k = k' ∧ state = state' ∧ a' = b' := by
  -- a scope that is opened later has a name that is not in the ledger yet
  have hfresh : ∀ {a m b' : History c.setting c.requests} {i j k k' state state'},
      ¬ D.regime.Possible ((a ++ .deed i (.enters (.openScope k state) scope) :: m) ++
        .deed j (.enters (.openScope k' state') scope) :: b') := by
    intro a m b' i j k k' state state' hp
    have hfound := hp.of_append.scope?_of_opened
    have hname : scope = (History.ledger (a ++ .deed i (.enters (.openScope k state) scope) ::
        m)).scopes.length := hp.ledger_outcome
    have hlt : scope < (History.ledger (a ++ .deed i (.enters (.openScope k state) scope) ::
        m)).scopes.length := (List.getElem?_eq_some_iff.mp hfound).1
    exact absurd hname (Nat.ne_of_lt hlt)
  rcases History.place_cases ha hb with ⟨rfl, he, rfl⟩ | ⟨m, rfl, -⟩ | ⟨m, rfl, -⟩
  · cases he
    exact ⟨rfl, rfl, rfl, rfl, rfl⟩
  · exact (hfresh (hb ▸ hp)).elim
  · exact (hfresh (ha ▸ hp)).elim

/-- The lease of a scope that is found is the one that it was opened on. -/
theorem lease_of_found {state : Option TransactionState} {entry : Scope} (hp : D.regime.Possible h)
    (hopen : .deed i (.enters (.openScope k state) scope) ∈ h)
    (hfound : .deed j (.enters (.scope scope) (some entry)) ∈ h) : entry.lease = k := by
  obtain ⟨a, a', ha⟩ := List.append_of_mem hopen
  obtain ⟨b, b', hb⟩ := List.append_of_mem hfound
  have hentry : some entry = History.scope? b scope := (hb ▸ hp).ledger_outcome
  obtain ⟨d, j', state', d', hd⟩ := (hb ▸ hp).of_append.opened_of_scope? hentry.symm
  have hd : h = d ++ .deed j' (.enters (.openScope entry.lease state') scope) ::
      (d' ++ .deed j (.enters (.scope scope) (some entry)) :: b') := by
    rw [hb, hd, List.append_assoc, List.cons_append]
  exact (hp.open_unique ha hd).2.2.1.symm

end Regime.Possible

end PooledSql
