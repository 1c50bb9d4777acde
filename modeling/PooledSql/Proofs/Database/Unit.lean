import PooledSql.Proofs.Database.Deed

/-!
# Units of work

What passes while a connection is borrowed and given back, while a scope is open, and while a
transaction is under way, whatever the surroundings answer. Every function of a scope has a lemma
that says by which exchanges it ends, and one that says what it asks for on the way.
-/

namespace PooledSql

namespace Exchange

variable {c : Client}

/-- Whether an exchange is an inquiry or an entry in the log. -/
def IsIdle : Deed c → Prop
  | .act (.inr (.inl _)) _ => True
  | .act (.inl (.log _)) _ => True
  | _ => False

/-- What is idle is an inquiry or an entry in the log. -/
theorem IsIdle.cases {x : Deed c} (hx : x.IsIdle) :
    (∃ r out, x = .inquires r out) ∨ ∃ entry, x = .does (.log entry) () := by
  unfold IsIdle at hx
  split at hx
  · exact .inl ⟨_, _, rfl⟩
  · exact .inr ⟨_, rfl⟩
  · exact hx.elim

end Exchange

namespace DatabaseM

variable {c : Client} {α : Type}

/-- Being lent a connection. -/
def lending (pool : PoolId) (k : LeaseId) (pid : Option Nat) : List (Deed c) :=
  [.requests (.acquire pool), .served (.acquire pool) (.ok k), .inquires (.pid k) pid,
    .does (.log (.acquired pid)) ()]

/-- Work that is left undone once a token is set, if there is one. -/
def unlessCancelled (token : Option TokenId) (work : DatabaseM c α) : DatabaseM c α := do
  if let some token := token then TaskM.raiseIfCancelled token
  work

/-- Giving a connection back, in view of the outcome of the work with it. -/
def giveBack (k : LeaseId) (outcome : Except Failure α) : DatabaseM c α :=
  match outcome with
  | .ok a => do
    poolWait (.release k none)
    TaskM.log (.released (← pid k))
    return a
  | .error f => do
    if f.isAbort then
      TaskM.log (.evicting (← pid k))
      poolWait (.release k (some f))
    else
      poolWait (.release k none)
    throw f

/-- The word with which a connection is given back. -/
def releaseCause (outcome : Except Failure α) : Option Failure :=
  match outcome with
  | .ok _ => none
  | .error f => if f.isAbort then some f else none

/-- Work with a connection in its parts. -/
theorem withConnection_eq (pool : PoolId) (token : Option TokenId)
    (work : LeaseId → DatabaseM c α) :
    withConnection pool token work = (do
      let k ← poolWait (.acquire pool)
      TaskM.log (.acquired (← pid k))
      let outcome ← Fiber.attempt (unlessCancelled token (work k))
      giveBack k outcome) := rfl

/-- The work of a query on a pool. -/
def runOn (source : Source) (params : Value) (token : TokenId) (k : LeaseId) :
    DatabaseM c Result := do
  let statement ← Fiber.ofExcept (source.statement params (.connection (← pid k)))
  execute k statement token (some .here)

/-- A query on a pool is work with a connection. -/
theorem runPooled_eq (pool : PoolId) (source : Source) (params : Value) (token : TokenId) :
    (runPooled pool source params token : DatabaseM c Result) =
      withConnection pool (some token) (runOn source params token) := rfl

variable {pool : PoolId} {token : Option TokenId} {work : LeaseId → DatabaseM c α} {k : LeaseId}
  {l : List (Deed c)} {e : Deed c} {r o : Except Failure α}

/-- Work that is left undone once a token is set begins with a look at the token. -/
theorem ends_unlessCancelled {token : TokenId} {work : DatabaseM c α}
    (h : Fiber.Ends (unlessCancelled (some token) work) l r) :
    ∃ out l', l = .does (.isCancelled token) out :: l' := by
  rcases Fiber.ends_bind_iff.mp h with ⟨f, ht, -⟩ | ⟨⟨⟩, l₁, l₂, rfl, ht, -⟩
  · obtain ⟨out, l', rfl, -⟩ := Fiber.ends_act_bind_iff.mp ht
    exact ⟨out, l', rfl⟩
  · obtain ⟨out, l', rfl, -⟩ := Fiber.ends_act_bind_iff.mp ht
    exact ⟨out, l' ++ l₂, rfl⟩

/-- Work with a connection ends at once if none is lent out, and otherwise by giving it back. -/
theorem ends_withConnection (h : Fiber.Ends (withConnection pool token work) l r) :
    (∃ f, l = [.requests (.acquire pool), .served (.acquire pool) (.error f)] ∧ r = .error f) ∨
      ∃ k pid lw o lr, l = lending pool k pid ++ (lw ++ lr) ∧
        Fiber.Ends (unlessCancelled token (work k)) lw o ∧ Fiber.Ends (giveBack k o) lr r := by
  rw [withConnection_eq] at h
  rcases Fiber.ends_await_bind_iff.mp h with ⟨f, rfl, rfl⟩ | ⟨k, _, rfl, hk⟩
  · exact .inl ⟨f, rfl, rfl⟩
  obtain ⟨pid, _, rfl, hpid⟩ := Fiber.ends_act_bind_iff.mp hk
  obtain ⟨-, _, rfl, hlog⟩ := Fiber.ends_act_bind_iff.mp hpid
  obtain ⟨o, lw, lr, rfl, hw, hr⟩ := Fiber.ends_attempt_bind_iff.mp hlog
  exact .inr ⟨k, pid, lw, o, lr, rfl, hw, hr⟩

/-- Work with a connection asks for one, then for what the work asks for, and then gives it
back. -/
theorem asks_withConnection (h : Fiber.Asks (withConnection pool token work) l e) :
    (l = [] ∧ e = .requests (.acquire pool)) ∨ e.IsIdle ∨
      ∃ k pid l', l = lending pool k pid ++ l' ∧
        (Fiber.Asks (unlessCancelled token (work k)) l' e ∨
          ∃ o lw lr, l' = lw ++ lr ∧ Fiber.Ends (unlessCancelled token (work k)) lw o ∧
            Fiber.Asks (giveBack k o) lr e) := by
  rw [withConnection_eq] at h
  rcases Fiber.asks_await_bind_iff.mp h with ⟨rfl, rfl⟩ | ⟨k, _, rfl, hk⟩
  · exact .inl ⟨rfl, rfl⟩
  rcases Fiber.asks_act_bind_iff.mp hk with ⟨-, pid, rfl⟩ | ⟨pid, _, rfl, hpid⟩
  · exact .inr (.inl trivial)
  rcases Fiber.asks_act_bind_iff.mp hpid with ⟨-, out, rfl⟩ | ⟨-, _, rfl, hlog⟩
  · exact .inr (.inl trivial)
  exact .inr (.inr ⟨k, pid, _, rfl, Fiber.asks_attempt_bind_iff.mp hlog⟩)

/-- A connection is given back with the failure of the work if that says so. -/
theorem releaseCause_eq_some_iff {f : Failure} :
    releaseCause o = some f ↔ o = .error f ∧ f.isAbort := by
  cases o with
  | ok a => simp [releaseCause]
  | error g =>
    cases hg : g.isAbort with
    | true =>
      simp only [releaseCause, hg, if_true, Option.some.injEq, Except.error.injEq]
      exact ⟨fun heq => ⟨heq, heq ▸ hg⟩, And.left⟩
    | false =>
      simp only [releaseCause, hg, Bool.false_eq_true, if_false, Except.error.injEq]
      refine ⟨nofun, ?_⟩
      rintro ⟨rfl, hf⟩
      rw [hg] at hf
      cases hf

/-- What passes before a connection is given back. -/
def parting (k : LeaseId) (outcome : Except Failure α) (pid : Option Nat) : List (Deed c) :=
  match releaseCause outcome with
  | none => []
  | some _ => [.inquires (.pid k) pid, .does (.log (.evicting pid)) ()]

/-- What passes before a connection is given back is idle. -/
theorem parting_idle {pid : Option Nat} : ∀ d ∈ (parting k o pid : List (Deed c)), d.IsIdle := by
  intro d hd
  unfold parting at hd
  split at hd
  · cases hd
  · simp only [List.mem_cons, List.not_mem_nil, or_false] at hd
    rcases hd with rfl | rfl <;> trivial

/-- What passes before a connection is given back with a failure. -/
theorem parting_of_abort {f : Failure} (hf : f.isAbort) (pid : Option Nat) :
    parting k (.error f : Except Failure α) pid =
      ([.inquires (.pid k) pid, .does (.log (.evicting pid)) ()] : List (Deed c)) := by
  have hcause : releaseCause (.error f : Except Failure α) = some f := if_pos hf
  rw [parting, hcause]

/-- Nothing passes before a connection is given back without a failure. -/
theorem parting_of_none {pid : Option Nat} (ho : releaseCause o = none) :
    parting k o pid = ([] : List (Deed c)) := by
  unfold parting
  rw [ho]

/-- Giving a connection back ends as the work has, unless the pool fails. -/
theorem ends_giveBack (h : Fiber.Ends (giveBack k o) l r) :
    ∃ pid ans after, l = parting k o pid ++ .requests (.release k (releaseCause o)) ::
        .served (.release k (releaseCause o)) ans :: after ∧
      (∀ d ∈ after, d.IsIdle) ∧ r = ans.bind fun _ => o := by
  -- the connection is broken off first if the work has failed with an abort
  cases o with
  | ok a =>
    rcases Fiber.ends_await_bind_iff.mp h with ⟨f, rfl, rfl⟩ | ⟨u, _, rfl, hrelease⟩
    · exact ⟨none, .error f, [], rfl, List.forall_mem_nil _, rfl⟩
    obtain ⟨pid, _, rfl, hpid⟩ := Fiber.ends_act_bind_iff.mp hrelease
    obtain ⟨out, _, rfl, hlog⟩ := Fiber.ends_act_bind_iff.mp hpid
    obtain ⟨rfl, rfl⟩ := Fiber.ends_pure_iff.mp hlog
    refine ⟨none, .ok u, [.inquires (.pid k) pid, .does (.log (.released pid)) ()], rfl, ?_, rfl⟩
    intro d hd
    simp only [List.mem_cons, List.not_mem_nil, or_false] at hd
    rcases hd with rfl | rfl <;> trivial
  | error f =>
    cases hf : f.isAbort with
    | true =>
      have hcause : releaseCause (.error f : Except Failure α) = some f := if_pos hf
      simp only [giveBack, hf, if_true] at h
      rw [hcause]
      obtain ⟨pid, _, rfl, hpid⟩ := Fiber.ends_act_bind_iff.mp h
      obtain ⟨out, _, rfl, hlog⟩ := Fiber.ends_act_bind_iff.mp hpid
      rcases Fiber.ends_await_bind_iff.mp hlog with ⟨f', rfl, rfl⟩ | ⟨u, _, rfl, hrelease⟩
      · exact ⟨pid, .error f', [], congrArg (· ++ _) (parting_of_abort hf pid).symm,
          List.forall_mem_nil _, rfl⟩
      obtain ⟨rfl, rfl⟩ := Fiber.ends_throw_iff.mp hrelease
      exact ⟨pid, .ok u, [], congrArg (· ++ _) (parting_of_abort hf pid).symm,
        List.forall_mem_nil _, rfl⟩
    | false =>
      have hcause : releaseCause (.error f : Except Failure α) = none := by simp [releaseCause, hf]
      simp only [giveBack, hf, Bool.false_eq_true, if_false] at h
      rw [hcause]
      rcases Fiber.ends_await_bind_iff.mp h with ⟨f', rfl, rfl⟩ | ⟨u, _, rfl, hrelease⟩
      · exact ⟨none, .error f', [], congrArg (· ++ _) (parting_of_none hcause).symm,
          List.forall_mem_nil _, rfl⟩
      obtain ⟨rfl, rfl⟩ := Fiber.ends_throw_iff.mp hrelease
      exact ⟨none, .ok u, [], congrArg (· ++ _) (parting_of_none hcause).symm,
        List.forall_mem_nil _, rfl⟩

/-- Giving a connection back asks the pool for nothing but to take it. -/
theorem asks_giveBack (h : Fiber.Asks (giveBack k o) l e) :
    e.IsIdle ∨ e = .requests (.release k (releaseCause o)) ∧ ∃ pid, l = parting k o pid := by
  cases o with
  | ok a =>
    rcases Fiber.asks_await_bind_iff.mp h with ⟨rfl, rfl⟩ | ⟨u, _, rfl, hrelease⟩
    · exact .inr ⟨rfl, none, rfl⟩
    rcases Fiber.asks_act_bind_iff.mp hrelease with ⟨-, pid, rfl⟩ | ⟨pid, _, rfl, hpid⟩
    · exact .inl trivial
    rcases Fiber.asks_act_bind_iff.mp hpid with ⟨-, out, rfl⟩ | ⟨out, _, rfl, hlog⟩
    · exact .inl trivial
    · exact absurd hlog Fiber.not_asks_pure
  | error f =>
    cases hf : f.isAbort with
    | true =>
      have hcause : releaseCause (.error f : Except Failure α) = some f := if_pos hf
      simp only [giveBack, hf, if_true] at h
      rw [hcause]
      rcases Fiber.asks_act_bind_iff.mp h with ⟨-, pid, rfl⟩ | ⟨pid, _, rfl, hpid⟩
      · exact .inl trivial
      rcases Fiber.asks_act_bind_iff.mp hpid with ⟨-, out, rfl⟩ | ⟨out, _, rfl, hlog⟩
      · exact .inl trivial
      rcases Fiber.asks_await_bind_iff.mp hlog with ⟨rfl, rfl⟩ | ⟨u, _, rfl, hrelease⟩
      · exact .inr ⟨rfl, pid, (parting_of_abort hf pid).symm⟩
      · exact absurd hrelease Fiber.not_asks_throw
    | false =>
      have hcause : releaseCause (.error f : Except Failure α) = none := by simp [releaseCause, hf]
      simp only [giveBack, hf, Bool.false_eq_true, if_false] at h
      rw [hcause]
      rcases Fiber.asks_await_bind_iff.mp h with ⟨rfl, rfl⟩ | ⟨u, _, rfl, hrelease⟩
      · exact .inr ⟨rfl, none, (parting_of_none hcause).symm⟩
      · exact absurd hrelease Fiber.not_asks_throw

/-- A connection is lent out before anything is done with it. -/
theorem comes_lending {pid : Option Nat} {work : LeaseId → DatabaseM c α} :
    Fiber.Comes (do
      let k ← poolWait (.acquire pool)
      TaskM.log (.acquired (← DatabaseM.pid k))
      work k) (lending pool k pid) (work k) := by
  have hlent : Fiber.Ends (poolWait (.acquire pool) : DatabaseM c LeaseId)
      [.requests (.acquire pool), .served (.acquire pool) (.ok k)] (.ok k) :=
    Fiber.ends_await_iff.mpr rfl
  have hpid : Fiber.Ends (DatabaseM.pid k : DatabaseM c (Option Nat))
      [.inquires (.pid k) pid] (.ok pid) := Fiber.ends_act_iff.mpr ⟨pid, rfl, rfl⟩
  have hlog : Fiber.Ends (TaskM.log (.acquired pid) : DatabaseM c Unit)
      [.does (.log (.acquired pid)) ()] (.ok ()) := Fiber.ends_act_iff.mpr ⟨(), rfl, rfl⟩
  exact hlent.comes.trans <| hpid.comes.trans hlog.comes

/-- Work with a connection comes to giving it back when the work has ended. -/
theorem comes_giveBack {pid : Option Nat} (hw : Fiber.Ends (unlessCancelled token (work k)) l o) :
    Fiber.Comes (withConnection pool token work) (lending pool k pid ++ l) (giveBack k o) := by
  rw [withConnection_eq]
  exact comes_lending.trans hw.comes_attempt

end DatabaseM

namespace Query

variable {c : Client} {work : TokenId → Work c} {l : List (Deed c)} {e : Deed c}

/-- A query is issued under a new token, and as a task of its own. -/
theorem ends_issue {r : Except Failure Query}
    (h : Fiber.Ends (issue work : DatabaseM c Query) l r) :
    ∃ token task, l = [.does .newToken token, .does (.spawn (.query (work token) token)) task] ∧
      r = .ok { task, token } := by
  obtain ⟨token, _, rfl, htoken⟩ := Fiber.ends_act_bind_iff.mp h
  obtain ⟨task, _, rfl, htask⟩ := Fiber.ends_act_bind_iff.mp htoken
  obtain ⟨rfl, rfl⟩ := Fiber.ends_pure_iff.mp htask
  exact ⟨token, task, rfl, rfl⟩

/-- What is asked for to issue a query: its token, and then its task. -/
theorem asks_issue (h : Fiber.Asks (issue work : DatabaseM c Query) l e) :
    (l = [] ∧ ∃ token, e = .does .newToken token) ∨
      ∃ token task, l = [.does .newToken token] ∧
        e = .does (.spawn (.query (work token) token)) task := by
  rcases Fiber.asks_act_bind_iff.mp h with ⟨rfl, token, rfl⟩ | ⟨token, _, rfl, htoken⟩
  · exact .inl ⟨rfl, token, rfl⟩
  rcases Fiber.asks_act_bind_iff.mp htoken with ⟨rfl, task, rfl⟩ | ⟨task, _, rfl, htask⟩
  · exact .inr ⟨token, task, rfl, rfl⟩
  · exact absurd htask Fiber.not_asks_pure

end Query

namespace Scope

variable {c : Client} {α : Type} {pool : PoolId} {scope : ScopeId} {l : List (Deed c)} {e : Deed c}

/-- Finding a scope open, before a query is issued in it. -/
def consulting (scope : ScopeId) (k : LeaseId) (state : Option TransactionState)
    (pid : Option Nat) (token : TokenId) : List (Deed c) :=
  [.enters (.scope scope) (some { lease := k, state, closed := false }), .inquires (.pid k) pid,
    .does .newToken token]

/-- Issuing a query in a scope. -/
def issuing (scope : ScopeId) (k : LeaseId) (state : Option TransactionState) (pid : Option Nat)
    (statement : Statement) (token : TokenId) (task : TaskId) : List (Deed c) :=
  consulting scope k state pid token ++
    [.does (.spawn (.query (.scoped k statement token) token)) task]

/-- Finding a scope that is not open, or not there. -/
def Refuses (entry : Option Scope) : Prop :=
  ∀ k state, entry ≠ some { lease := k, state, closed := false }

/-- A query is issued in a scope that is open, for a statement that can be put together. -/
theorem ends_submit {source params : Value} {r : Except Failure Query}
    (h : Fiber.Ends (submit scope source params : DatabaseM c Query) l r) :
    (∃ entry, l = [.enters (.scope scope) entry] ∧ Refuses entry ∧
        r = .error Fault.scopeClosed.failure) ∨
      (∃ k state pid f, l = [.enters (.scope scope) (some { lease := k, state, closed := false }),
          .inquires (.pid k) pid] ∧
        Statement.build source params (.connection pid) = .error f ∧ r = .error f) ∨
      ∃ k state pid statement token task,
        Statement.build source params (.connection pid) = .ok statement ∧
        l = issuing scope k state pid statement token task ∧ r = .ok { task, token } := by
  obtain ⟨entry, _, rfl, hentry⟩ := Fiber.ends_act_bind_iff.mp h
  have hrefused : ∀ {l' : List (Deed c)}, Refuses entry →
      Fiber.Ends (throw Fault.scopeClosed.failure : DatabaseM c Query) l' r →
      ∃ entry', Exchange.enters (.scope scope) entry :: l' = [.enters (.scope scope) entry'] ∧
        Refuses entry' ∧ r = .error Fault.scopeClosed.failure := by
    intro l' hrefuses hl'
    obtain ⟨rfl, rfl⟩ := Fiber.ends_throw_iff.mp hl'
    exact ⟨entry, rfl, hrefuses, rfl⟩
  -- a scope that is unknown or closed refuses
  match entry, hentry with
  | none, hentry => exact .inl (hrefused nofun hentry)
  | some ⟨k, state, true⟩, hentry => exact .inl (hrefused (fun _ _ he => by cases he) hentry)
  | some ⟨k, state, false⟩, hentry =>
    obtain ⟨pid, _, rfl, hpid⟩ := Fiber.ends_act_bind_iff.mp hentry
    refine .inr ?_
    rcases Fiber.ends_bind_iff.mp hpid with ⟨f, hf, rfl⟩ | ⟨statement, l₁, l₂, rfl, hs, hissue⟩
    · obtain ⟨rfl, hbuild⟩ := Fiber.ends_ofExcept_iff.mp hf
      exact .inl ⟨k, state, pid, f, rfl, hbuild.symm, rfl⟩
    · obtain ⟨rfl, hbuild⟩ := Fiber.ends_ofExcept_iff.mp hs
      obtain ⟨token, task, rfl, rfl⟩ := Query.ends_issue hissue
      exact .inr ⟨k, state, pid, statement, token, task, hbuild.symm, rfl, rfl⟩

/-- A query that is issued is so in a scope that is open. -/
theorem ends_submit_ok {source params : Value} {q : Query}
    (h : Fiber.Ends (submit scope source params : DatabaseM c Query) l (.ok q)) :
    ∃ k state pid statement token task,
      Statement.build source params (.connection pid) = .ok statement ∧
      l = issuing scope k state pid statement token task ∧ q = { task, token } := by
  rcases ends_submit h with ⟨_, _, _, hq⟩ | ⟨_, _, _, _, _, _, hq⟩ |
    ⟨k, state, pid, statement, token, task, hbuild, hl, hq⟩
  · cases hq
  · cases hq
  · cases hq
    exact ⟨k, state, pid, statement, token, task, hbuild, hl, rfl⟩

/-- What a scope asks for that issues a query. -/
theorem asks_submit {source params : Value}
    (h : Fiber.Asks (submit scope source params : DatabaseM c Query) l e) :
    (∃ entry, e = .enters (.scope scope) entry) ∨ e.IsIdle ∨ (∃ token, e = .does .newToken token) ∨
      ∃ k state pid statement token task,
        Statement.build source params (.connection pid) = .ok statement ∧
        l = consulting scope k state pid token ∧
        e = .does (.spawn (.query (.scoped k statement token) token)) task := by
  rcases Fiber.asks_act_bind_iff.mp h with ⟨-, entry, rfl⟩ | ⟨entry, _, rfl, hentry⟩
  · exact .inl ⟨entry, rfl⟩
  -- a scope that is unknown or closed asks for nothing more
  match entry, hentry with
  | none, hentry => exact absurd hentry Fiber.not_asks_throw
  | some ⟨k, state, true⟩, hentry => exact absurd hentry Fiber.not_asks_throw
  | some ⟨k, state, false⟩, hentry =>
    rcases Fiber.asks_act_bind_iff.mp hentry with ⟨-, pid, rfl⟩ | ⟨pid, _, rfl, hpid⟩
    · exact .inr (.inl trivial)
    rcases Fiber.asks_bind_iff.mp hpid with hs | ⟨statement, l₁, l₂, rfl, hs, hissue⟩
    · exact absurd hs Fiber.not_asks_ofExcept
    obtain ⟨rfl, hbuild⟩ := Fiber.ends_ofExcept_iff.mp hs
    rcases Query.asks_issue hissue with ⟨-, token, rfl⟩ | ⟨token, task, rfl, rfl⟩
    · exact .inr (.inr (.inl ⟨token, rfl⟩))
    · exact .inr (.inr (.inr ⟨k, state, pid, statement, token, task, hbuild.symm, rfl, rfl⟩))

/-- The statement of a command. -/
def commandStatement (sql : String) : Statement := { sql }

/-- The text of a command is its statement. -/
theorem build_command (sql : String) (context : Context) :
    Statement.build (.ofString sql) (.tuple []) context = .ok (commandStatement sql) := rfl

/-- A command is refused by a scope that is not open, or ends as the query does that runs it. -/
theorem ends_command {sql : String} {r : Except Failure Unit}
    (h : Fiber.Ends (command scope sql : DatabaseM c Unit) l r) :
    (∃ entry, l = [.enters (.scope scope) entry] ∧ Refuses entry ∧
        r = .error Fault.scopeClosed.failure) ∨
      ∃ k state pid token task ans,
        l = issuing scope k state pid (commandStatement sql) token task ++
          [.joins task, .joined task ans] ∧
        r = ans.map fun _ => () := by
  -- a command without parameters can always be put together, so it is refused, or issued and waited
  -- for
  rcases Fiber.ends_bind_iff.mp h with ⟨f, hs, rfl⟩ | ⟨q, l₁, l₂, rfl, hs, hjoin⟩
  · rcases ends_submit hs with ⟨entry, hl, hrefuses, hf⟩ | ⟨_, _, _, _, _, hb, _⟩ |
      ⟨_, _, _, _, _, _, _, _, hr⟩
    · cases hf
      exact .inl ⟨entry, hl, hrefuses, rfl⟩
    · rw [build_command] at hb
      cases hb
    · cases hr
  · obtain ⟨k, state, pid, st, token, task, hb, rfl, rfl⟩ := ends_submit_ok hs
    rw [build_command] at hb
    cases hb
    obtain ⟨ans, hans, rfl⟩ := Fiber.ends_map_iff.mp hjoin
    obtain rfl := Fiber.ends_await_iff.mp hans
    refine .inr ⟨k, state, pid, token, task, ans, rfl, ?_⟩
    cases ans <;> rfl

/-- A command ends as the query does that runs it. -/
theorem ends_command_of_issuing {k : LeaseId} {state : Option TransactionState} {pid : Option Nat}
    {sql : String} {token : TokenId} {task : TaskId} {ans : Except Failure Reply} :
    Fiber.Ends (command scope sql : DatabaseM c Unit)
      (issuing scope k state pid (commandStatement sql) token task ++
        [.joins task, .joined task ans])
      (ans.map fun _ => ()) := by
  refine Fiber.ends_bind_iff.mpr (.inr ⟨{ task, token }, issuing scope k state pid
    (commandStatement sql) token task, _, rfl, .act (.act (.act (.act (.nil _)))), ?_⟩)
  refine Fiber.ends_map_iff.mpr ⟨ans, Fiber.ends_await_iff.mpr rfl, ?_⟩
  cases ans <;> rfl

/-- What a command asks for: a query, and then its outcome. -/
theorem asks_command {sql : String}
    (h : Fiber.Asks (command scope sql : DatabaseM c Unit) l e) :
    (∃ entry, e = .enters (.scope scope) entry) ∨ e.IsIdle ∨ (∃ token, e = .does .newToken token) ∨
      (∃ k state pid token task, l = consulting scope k state pid token ∧
        e = .does (.spawn (.query (.scoped k (commandStatement sql) token) token)) task) ∨
      ∃ task, e = .joins task := by
  rcases Fiber.asks_bind_iff.mp h with hs | ⟨q, l₁, l₂, rfl, hs, hjoin⟩
  · rcases asks_submit hs with he | he | he | ⟨k, state, pid, st, token, task, hb, he⟩
    · exact .inl he
    · exact .inr (.inl he)
    · exact .inr (.inr (.inl he))
    · rw [build_command] at hb
      cases hb
      exact .inr (.inr (.inr (.inl ⟨k, state, pid, token, task, he⟩)))
  · obtain ⟨-, rfl⟩ := Fiber.asks_await_iff.mp (Fiber.asks_map_iff.mp hjoin)
    exact .inr (.inr (.inr (.inr ⟨_, rfl⟩)))

/-- Noting where a transaction has got to. -/
def noting (scope : ScopeId) (entry : Option Scope) (state : TransactionState) : List (Deed c) :=
  [.enters (.scope scope) entry, .does (.log (.transition (entry.bind (·.state)) state)) (),
    .enters (.setState scope state) ()]

/-- Noting where a transaction has got to does not fail. -/
theorem ends_transition {state : TransactionState} {r : Except Failure Unit}
    (h : Fiber.Ends (transition scope state : DatabaseM c Unit) l r) :
    ∃ entry, l = noting scope entry state ∧ r = .ok () := by
  obtain ⟨entry, _, rfl, hentry⟩ := Fiber.ends_act_bind_iff.mp h
  obtain ⟨out, _, rfl, hlog⟩ := Fiber.ends_act_bind_iff.mp hentry
  obtain ⟨out', rfl, rfl⟩ := Fiber.ends_act_iff.mp hlog
  exact ⟨entry, rfl, rfl⟩

/-- Noting where a transaction has got to ends at once. -/
theorem ends_transition_of_noting {state : TransactionState} {entry : Option Scope} :
    Fiber.Ends (transition scope state : DatabaseM c Unit) (noting scope entry state) (.ok ()) :=
  .act (.act (.act (.nil _)))

/-- What is asked for in noting where a transaction has got to. -/
theorem asks_transition {state : TransactionState}
    (h : Fiber.Asks (transition scope state : DatabaseM c Unit) l e) :
    (∃ entry, e = .enters (.scope scope) entry) ∨ e.IsIdle ∨
    e = .enters (.setState scope state) () := by
  rcases Fiber.asks_act_bind_iff.mp h with ⟨-, entry, rfl⟩ | ⟨entry, _, rfl, hentry⟩
  · exact .inl ⟨entry, rfl⟩
  rcases Fiber.asks_act_bind_iff.mp hentry with ⟨-, out, rfl⟩ | ⟨out, _, rfl, hlog⟩
  · exact .inr (.inl trivial)
  obtain ⟨-, out', rfl⟩ := Fiber.asks_act_iff.mp hlog
  exact .inr (.inr rfl)

/-- Being lent a connection, and opening a scope on it. -/
def opening (pool : PoolId) (k : LeaseId) (pid : Option Nat) (state : Option TransactionState)
    (scope : ScopeId) : List (Deed c) :=
  DatabaseM.lending pool k pid ++ [.enters (.openScope k state) scope]

/-- Work in a scope on a connection that has been lent out. -/
def inScope (state : Option TransactionState) (work : ScopeId → DatabaseM c α) (k : LeaseId) :
    DatabaseM c α := do
  let scope ← DatabaseM.ledger (.openScope k state)
  let outcome ← Fiber.attempt (work scope)
  DatabaseM.ledger (.closeScope scope)
  Fiber.ofExcept outcome

/-- Work in a scope asks for the scope, then for what the work asks for, and then for the end of the
scope. -/
theorem asks_inScope {state : Option TransactionState} {work : ScopeId → DatabaseM c α}
    {k : LeaseId} (h : Fiber.Asks (inScope state work k) l e) :
    (l = [] ∧ ∃ scope, e = .enters (.openScope k state) scope) ∨
      ∃ scope l', l = .enters (.openScope k state) scope :: l' ∧ (Fiber.Asks (work scope) l' e ∨
        ∃ o, Fiber.Ends (work scope) l' o ∧ e = .enters (.closeScope scope) ()) := by
  rcases Fiber.asks_act_bind_iff.mp h with h | ⟨scope, l', rfl, hopen⟩
  · exact .inl h
  refine .inr ⟨scope, l', rfl, ?_⟩
  rcases Fiber.asks_attempt_bind_iff.mp hopen with hwork | ⟨o, lw, _, rfl, hwork, hclose⟩
  · exact .inl hwork
  rcases Fiber.asks_act_bind_iff.mp hclose with ⟨rfl, out, rfl⟩ | ⟨out, _, rfl, hclosed⟩
  · exact .inr ⟨o, by rwa [List.append_nil], rfl⟩
  · exact absurd hclosed Fiber.not_asks_ofExcept

/-- Work in a scope of its own is work with a connection. -/
theorem withScope_eq (pool : PoolId) (state : Option TransactionState)
    (work : ScopeId → DatabaseM c α) :
    withScope pool state work = DatabaseM.withConnection pool none (inScope state work) := rfl

/-- Work in a scope of its own ends at once if no connection is lent out, and otherwise by closing
the scope and giving the connection back. -/
theorem ends_withScope {state : Option TransactionState} {work : ScopeId → DatabaseM c α}
    {r : Except Failure α} (h : Fiber.Ends (withScope pool state work) l r) :
    (∃ f, l = [.requests (.acquire pool), .served (.acquire pool) (.error f)] ∧ r = .error f) ∨
      ∃ k pid scope lw o lr,
        l = opening pool k pid state scope ++ (lw ++ Exchange.enters (.closeScope scope) () :: lr) ∧
        Fiber.Ends (work scope) lw o ∧ Fiber.Ends (DatabaseM.giveBack k o) lr r := by
  rcases DatabaseM.ends_withConnection h with h | ⟨k, pid, lw, o, lr, rfl, hw, hr⟩
  · exact .inl h
  obtain ⟨scope, _, rfl, hopen⟩ := Fiber.ends_act_bind_iff.mp hw
  obtain ⟨o', lw, _, rfl, hwork, hclose⟩ := Fiber.ends_attempt_bind_iff.mp hopen
  obtain ⟨out, _, rfl, hclosed⟩ := Fiber.ends_act_bind_iff.mp hclose
  obtain ⟨rfl, rfl⟩ := Fiber.ends_ofExcept_iff.mp hclosed
  obtain rfl : out = () := rfl
  exact .inr ⟨k, pid, scope, lw, o, lr, by simp [opening], hwork, hr⟩

/-- The opening of a scope tells which connection and which scope it is about. -/
theorem opening_append_inj {pool' : PoolId} {k k' : LeaseId} {pid pid' : Option Nat}
    {state state' : Option TransactionState} {scope' : ScopeId} {l₁ l₂ : List (Deed c)}
    (h : opening pool k pid state scope ++ l₁ = opening pool' k' pid' state' scope' ++ l₂) :
    k' = k ∧ scope' = scope ∧ l₂ = l₁ := by
  simp only [opening, DatabaseM.lending, List.cons_append, List.nil_append] at h
  cases h
  exact ⟨rfl, rfl, rfl⟩

/-- Work in a scope of its own that has ended after the scope was opened has given its connection
back. -/
theorem released_of_ends {pool' : PoolId} {k : LeaseId} {pid : Option Nat}
    {state state' : Option TransactionState} {work : ScopeId → DatabaseM c α}
    {r : Except Failure α} {l₁ l₂ : List (Deed c)} (h : Fiber.Ends (withScope pool state work) l₁ r)
    (hl : opening pool' k pid state' scope ++ l = l₁ ++ l₂) :
    ∃ cause, .requests (.release k cause) ∈ l := by
  rcases ends_withScope h with ⟨f, rfl, -⟩ | ⟨k', pid', scope', lw, o, lr, rfl, -, hback⟩
  · cases hl
  · rw [List.append_assoc] at hl
    obtain ⟨rfl, rfl, rfl⟩ := opening_append_inj hl
    obtain ⟨pid'', ans, after, rfl, -, -⟩ := DatabaseM.ends_giveBack hback
    exact ⟨DatabaseM.releaseCause o, by simp⟩

/-- Work in a scope of its own asks for a connection, for a scope, then for what the work asks for,
then for the end of the scope, and then gives the connection back. -/
theorem asks_withScope {state : Option TransactionState} {work : ScopeId → DatabaseM c α}
    (h : Fiber.Asks (withScope pool state work) l e) :
    (l = [] ∧ e = .requests (.acquire pool)) ∨ e.IsIdle ∨
      (∃ k pid scope, l = DatabaseM.lending pool k pid ∧ e = .enters (.openScope k state) scope) ∨
      ∃ k pid scope l', l = opening pool k pid state scope ++ l' ∧
        (Fiber.Asks (work scope) l' e ∨
          ∃ o lw, Fiber.Ends (work scope) lw o ∧
            (l' = lw ∧ e = .enters (.closeScope scope) () ∨
              ∃ lr, l' = lw ++ Exchange.enters (.closeScope scope) () :: lr ∧
                Fiber.Asks (DatabaseM.giveBack k o) lr e)) := by
  rcases DatabaseM.asks_withConnection h with h | h | ⟨k, pid, l', rfl, hw⟩
  · exact .inl h
  · exact .inr (.inl h)
  refine .inr (.inr ?_)
  -- in the scope or behind it
  rcases hw with hw | ⟨o, lw, lr, rfl, hw, hr⟩
  · rcases asks_inScope hw with ⟨rfl, scope, rfl⟩ | ⟨scope, lw, rfl, hwork | ⟨o, hwork, rfl⟩⟩
    · exact .inl ⟨k, pid, scope, by simp, rfl⟩
    · exact .inr ⟨k, pid, scope, _, List.append_cons _ _ _, .inl hwork⟩
    · exact .inr ⟨k, pid, scope, _, List.append_cons _ _ _, .inr ⟨o, lw, hwork, .inl ⟨rfl, rfl⟩⟩⟩
  · obtain ⟨scope, _, rfl, hopen⟩ := Fiber.ends_act_bind_iff.mp hw
    obtain ⟨o', lw, _, rfl, hwork, hclose⟩ := Fiber.ends_attempt_bind_iff.mp hopen
    obtain ⟨out, _, rfl, hclosed⟩ := Fiber.ends_act_bind_iff.mp hclose
    obtain ⟨rfl, rfl⟩ := Fiber.ends_ofExcept_iff.mp hclosed
    obtain rfl : out = () := rfl
    exact .inr ⟨k, pid, scope,
      lw ++ Exchange.enters (.closeScope scope) () :: lr, by simp [opening],
      .inr ⟨o, lw, hwork, .inr ⟨lr, rfl, hr⟩⟩⟩

variable {k : LeaseId} {pid : Option Nat} {state : Option TransactionState}
  {work : ScopeId → DatabaseM c α}

/-- Work in a scope of its own comes to an attempt at the work when the scope is open. -/
theorem comes_attempt_withScope :
    Fiber.Comes (withScope pool state work) (opening pool k pid state scope) (do
      let outcome ← Fiber.attempt (work scope)
      DatabaseM.ledger (.closeScope scope)
      Fiber.ofExcept outcome) := by
  have hopen : Fiber.Ends (DatabaseM.ledger (.openScope k state) : DatabaseM c ScopeId)
      [.enters (.openScope k state) scope] (.ok scope) := Fiber.ends_act_iff.mpr ⟨scope, rfl, rfl⟩
  exact DatabaseM.comes_lending.trans <|
    Fiber.comes_bind.trans <| Fiber.comes_attempt.trans hopen.comes

/-- Work in a scope of its own comes to the work when the scope is open. -/
theorem comes_withScope :
    Fiber.Comes (withScope pool state work) (opening pool k pid state scope) (work scope) := by
  rw [← List.append_nil (opening pool k pid state scope)]
  exact comes_attempt_withScope.trans (Fiber.comes_bind.trans Fiber.comes_attempt)

variable {lw : List (Deed c)} {o : Except Failure α}

/-- Work in a scope of its own comes to the end of the scope when the work has ended. -/
theorem comes_closeScope (hw : Fiber.Ends (work scope) lw o) :
    Fiber.Comes (withScope pool state work) (opening pool k pid state scope ++ lw)
      (DatabaseM.ledger (.closeScope scope)) := by
  rw [← List.append_nil (opening pool k pid state scope ++ lw)]
  exact (comes_attempt_withScope.trans hw.comes_attempt).trans Fiber.comes_bind

/-- Work in a scope ends as the work does, with the opening and the end of the scope around it. -/
theorem ends_inScope (hw : Fiber.Ends (work scope) lw o) :
    Fiber.Ends (inScope state work k)
      (.enters (.openScope k state) scope :: (lw ++ [.enters (.closeScope scope) ()])) o :=
  Fiber.ends_act_bind_iff.mpr ⟨scope, _, rfl, Fiber.ends_attempt_bind_iff.mpr ⟨o, lw, _, rfl, hw,
    Fiber.ends_act_bind_iff.mpr ⟨(), [], rfl, Fiber.ends_ofExcept_iff.mpr ⟨rfl, rfl⟩⟩⟩⟩

end Scope

end PooledSql
