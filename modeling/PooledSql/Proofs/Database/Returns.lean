import PooledSql.Proofs.Database.Execution

/-!
# Returns

In what state connections come back. A connection that is given back without a word may be used
again; its transaction should be over by then: `COMMIT` or `ROLLBACK` should have succeeded on it,
if `BEGIN` has (`History.Settled`).

That is so unless the transaction has been cut short (`History.CutShort`): an interruption that
comes while the transaction waits for `BEGIN` or `ROLLBACK` leaves it at once, with nothing done
about the connection, which is given back as if nothing had happened.
-/

namespace PooledSql

variable {c : Client} {α : Type} {D : Surroundings c} {g g' h : History c.setting c.requests}
  {i j : TaskId} {k : LeaseId} {scope : ScopeId} {token : TokenId}

namespace History

/-- Whether a connection has accepted the statement of a command, in the course of which the
exchanges `l` have passed. -/
def Accepted (h : History c.setting c.requests) (k : LeaseId) (sql : String) (l : List (Deed c)) :
    Prop :=
  ∃ (token : TokenId) (task : TaskId) (run : RunId) (result : Result),
    .does (.spawn (.query (.scoped k (Scope.commandStatement sql) token) token)) task ∈ l ∧
      .deed task (.served (.execute k run (Scope.commandStatement sql)) (.ok result)) ∈ h

/-- Whether a connection has answered the statement of a command with a result. -/
def Answered (h : History c.setting c.requests) (k : LeaseId) (sql : String) (l : List (Deed c))
    (result : Result) : Prop :=
  ∃ (token : TokenId) (task : TaskId) (run : RunId),
    .does (.spawn (.query (.scoped k (Scope.commandStatement sql) token) token)) task ∈ l ∧
      .deed task (.served (.execute k run (Scope.commandStatement sql)) (.ok result)) ∈ h

/-- Whether `BEGIN` has succeeded in a transaction in which the exchanges `l` have passed. -/
def Begun (h : History c.setting c.requests) (k : LeaseId) (scope : ScopeId) (l : List (Deed c)) :
    Prop :=
  ∃ lb rest r, l = lb ++ rest ∧ Fiber.Ends (Scope.command scope "BEGIN" : DatabaseM c Unit) lb r ∧
    h.Accepted k "BEGIN" lb

/-- A transaction in which the exchanges `l` have passed is settled if its `COMMIT` or its
`ROLLBACK` has succeeded. -/
inductive Settled (h : History c.setting c.requests) (k : LeaseId) (scope : ScopeId)
    (work : DatabaseM c α) (l : List (Deed c)) : Prop
  | commit {lb lw lc rest : List (Deed c)} {a : α} {r : Except Failure Unit} :
      l = lb ++ (lw ++ (lc ++ rest)) → Fiber.Ends (Scope.begin scope) lb (.ok ()) →
      Fiber.Ends work lw (.ok a) → Fiber.Ends (Scope.command scope "COMMIT") lc r →
      h.Accepted k "COMMIT" lc → Settled h k scope work l
  | rollback {lb lf lr rest : List (Deed c)} {f : Failure} {r : Except Failure Unit} :
      l = lb ++ (lf ++ (lr ++ rest)) → Fiber.Ends (Scope.begin scope) lb (.ok ()) →
      Scope.Fails scope work lf f → Fiber.Ends (Scope.command scope "ROLLBACK") lr r →
      h.Accepted k "ROLLBACK" lr → Settled h k scope work l

/-- A transaction in which the exchanges `l` have passed has been cut short if it has been left in
the middle: `BEGIN` has succeeded, but was not seen to; or the work or `COMMIT` has failed, and then
the wait for `ROLLBACK` has ended with something else than an error, while neither has succeeded. -/
inductive CutShort (h : History c.setting c.requests) (k : LeaseId) (scope : ScopeId)
    (work : DatabaseM c α) (l : List (Deed c)) : Prop
  | begin {lb rest : List (Deed c)} {f : Failure} :
      l = lb ++ rest → Fiber.Ends (Scope.command scope "BEGIN" : DatabaseM c Unit) lb (.error f) →
      h.Accepted k "BEGIN" lb → CutShort h k scope work l
  | rollback {lb lf lr rest : List (Deed c)} {first f : Failure} :
      l = lb ++ (lf ++ (lr ++ rest)) → Fiber.Ends (Scope.begin scope) lb (.ok ()) →
      Scope.Fails scope work lf first →
      (∀ lw lc a r, lf = lw ++ lc → Fiber.Ends work lw (.ok a) →
        Fiber.Ends (Scope.command scope "COMMIT") lc r → ¬ h.Accepted k "COMMIT" lc) →
      Fiber.Ends (Scope.command scope "ROLLBACK") lr (.error f) → f.isError = false →
      ¬ h.Accepted k "ROLLBACK" lr → CutShort h k scope work l

/-- A query of a scope that tells of a reply has been answered by its connection, once. -/
theorem served_iff_of_ends {statement : Statement} {token : TokenId} {task : TaskId} {v : Reply}
    (hends : Fiber.Ends (TaskM.settle token (Work.meaning D.client (.scoped k statement token)))
      (h.of task) (.ok v)) :
    ∃ run result, ∀ run' ans, .deed task (.served (.execute k run' statement) ans) ∈ h ↔
      run' = run ∧ ans = .ok result := by
  rcases DatabaseM.ends_scoped hends with
    ⟨-, -, hv⟩ | ⟨run, ans, after, hlife, hafter, hreported⟩
  · exact absurd rfl (hv v)
  obtain ⟨result, rfl⟩ := DatabaseM.ok_of_reported hreported.eq_of_ok
  refine ⟨run, result, fun run' ans => ?_⟩
  rw [← History.mem_of_iff, hlife]
  constructor
  · -- it is answered neither before it has asked nor after it has been answered
    intro hserved
    rcases List.mem_append.mp hserved with hserved | hserved
    · simp [DatabaseM.preparing] at hserved
    rcases List.mem_append.mp hserved with hserved | hserved
    · simp only [DatabaseM.running, List.mem_cons, List.not_mem_nil, or_false] at hserved
      rcases hserved with hserved | hserved
      · cases hserved
      · cases hserved
        exact ⟨rfl, rfl⟩
    · cases hafter _ hserved
  · rintro ⟨rfl, rfl⟩
    exact List.mem_append_right _ (List.mem_append_left _ (List.mem_cons_of_mem _
      (List.mem_cons_self ..)))

end History

namespace Regime.Possible

/-- A command that is seen to succeed has been answered by the connection of its scope, once. -/
theorem answered_of_ok {state : Option TransactionState} {sql : String} {u l rest : List (Deed c)}
    (hp : D.regime.Possible h) (hof : h.of i = u ++ (l ++ rest))
    (hopen : .enters (.openScope k state) scope ∈ u)
    (hl : Fiber.Ends (Scope.command scope sql) l (.ok ())) :
    ∃ result, ∀ r, h.Answered k sql l r ↔ r = result := by
  have hmem : ∀ {x : Deed c}, x ∈ u ∨ x ∈ l → .deed i x ∈ h := by
    intro x hx
    rw [← History.mem_of_iff, hof, List.mem_append, List.mem_append]
    exact hx.imp_right .inl
  rcases Scope.ends_command hl with ⟨_, _, _, hr⟩ | ⟨k', state', pid, token, task, ans, rfl, hans⟩
  · cases hr
  -- a command succeeds only if its query has been waited for, and has told of a reply
  obtain ⟨v, rfl⟩ : ∃ v, ans = .ok v := by
    cases ans with
    | ok v => exact ⟨v, rfl⟩
    | error f => cases hans
  have hfound := hmem (.inr (List.mem_append_left _ (List.mem_cons_self ..)))
  obtain rfl : k' = k := hp.lease_of_found (hmem (.inl hopen)) hfound
  have hspawn := hmem (x := .does (.spawn (.query (.scoped k' (Scope.commandStatement sql) token)
    token)) task) (.inr (by simp [Scope.issuing]))
  obtain ⟨a, a', ha⟩ := List.append_of_mem hspawn
  obtain ⟨b, b', hb⟩ := List.append_of_mem (hmem (x := .joined task (.ok v)) (.inr (by simp)))
  have hjob := ha ▸ (ha ▸ hp).job_of_spawned
  have hfinish : .finish task (.ok v) ∈ b := (hb ▸ hp).finished_of_joined.resolve_right (by simp)
  -- the query has run its statement, as a query that is interrupted before its first turn tells of
  -- no reply
  rcases hp.finish_cases_of_job hjob (hb ▸ List.mem_append_left _ hfinish) with hends | ⟨-, hr, -⟩
  · have hends : Fiber.Ends (TaskM.settle token (Work.meaning D.client (.scoped k'
      (Scope.commandStatement sql) token))) (h.of task) (.ok v) := hends
    obtain ⟨run, result, hserved⟩ := History.served_iff_of_ends hends
    refine ⟨result, fun r => ⟨?_, ?_⟩⟩
    · rintro ⟨token', task', run', hspawn', hserved'⟩
      -- the exchanges of a command start one query
      obtain ⟨rfl, rfl⟩ : token' = token ∧ task' = task := by
        simp only [Scope.issuing, Scope.consulting, List.cons_append, List.nil_append,
          List.mem_cons, List.not_mem_nil, or_false] at hspawn'
        rcases hspawn' with hx | hx | hx | hx | hx | hx <;> cases hx
        exact ⟨rfl, rfl⟩
      cases ((hserved run' _).mp hserved').2
      rfl
    · rintro rfl
      exact ⟨token, task, run, by simp [Scope.issuing], (hserved run _).mpr ⟨rfl, rfl⟩⟩
  · cases hr

/-- A command that is seen to succeed has been accepted by the connection of its scope. -/
theorem accepted_of_ok {state : Option TransactionState} {sql : String} {u l rest : List (Deed c)}
    (hp : D.regime.Possible h) (hof : h.of i = u ++ (l ++ rest))
    (hopen : .enters (.openScope k state) scope ∈ u)
    (hl : Fiber.Ends (Scope.command scope sql) l (.ok ())) : h.Accepted k sql l := by
  obtain ⟨result, hresult⟩ := hp.answered_of_ok hof hopen hl
  obtain ⟨token, task, run, hspawn, hserved⟩ := (hresult result).mpr rfl
  exact ⟨token, task, run, result, hspawn, hserved⟩

/-- A connection is given back by a transaction on it when the bracket of that has ended, with the
word that follows from how it has. -/
theorem bracket_of_returned {b l : List (Deed c)} {pool : PoolId} {pid : Option Nat}
    {work : ScopeId → DatabaseM c α} {cause : Option Failure}
    (hp : D.regime.Possible (g ++ .deed j (.requests (.release k cause)) :: g'))
    (hy : D.regime.Performs (g ++ .deed j (.requests (.release k cause)) :: g') i b
      (Scope.transaction pool work))
    (hwork : ∀ scope, Public (work scope))
    (hof : g.of i = b ++ (Scope.opening pool k pid (some .notStarted) scope ++ l)) :
    j = i ∧ ∃ lw rest o, l = lw ++ rest ∧ Fiber.Ends (Scope.bracket scope (work scope)) lw o ∧
      cause = DatabaseM.releaseCause o := by
  have hpg : D.regime.Possible g := hp.of_append
  have hlent : g.of i = b ++ (DatabaseM.lending pool k pid ++
      .enters (.openScope k (some .notStarted)) scope :: l) := by
    rw [hof, Scope.opening, List.append_assoc]
    rfl
  -- whoever gives the connection back has borrowed it, and it is lent out once
  obtain ⟨_, b', u, lr, pool', pid', v, -, hj, -, -, rfl⟩ := hp.spent_of_returned
  rw [List.append_assoc] at hj
  obtain ⟨rfl, -⟩ := hpg.loan_unique hlent hj
  refine ⟨rfl, ?_⟩
  rw [Scope.transaction_eq] at hy
  -- the request is made in the course of the transaction, or after it has ended
  rcases hy.asks_cases hp rfl id hof with hasks | ⟨l₁, l₂, r, hl, hends⟩
  · rcases Scope.asks_withScope hasks with ⟨-, he⟩ | he | ⟨_, _, _, -, he⟩ |
      ⟨k', pid', scope', l', hl, hrest⟩
    · cases he
    · exact he.elim
    · cases he
    obtain ⟨rfl, rfl, rfl⟩ := Scope.opening_append_inj hl
    rcases hrest with hasks | ⟨o, lw, hw, ⟨-, he⟩ | ⟨lr', rfl, hback⟩⟩
    · -- a connection that is given back by the work has been lent to the work
      exfalso
      rcases Scope.asks_bracket hasks with he | ⟨lb, lw, rfl, -, hasks⟩
      · exact he.not_requests rfl
      have hl : Licensed (work scope') (.plain (.cancelRequest k')) lw
          (.requests (.release k' cause)) := (hwork scope').licensed hasks
      cases hl with
      | plain he => exact he.elim
      | @release b' u lr _ _ hl hu _ =>
        obtain ⟨pool'', pid'', v', rfl⟩ := hu.lending
        have hagain : g.of i = (b ++ (Scope.opening pool k' pid (some .notStarted) scope' ++
            (lb ++ b'))) ++ (DatabaseM.lending pool'' k' pid'' ++ (v' ++ lr)) := by
          simp [hof, hl]
        have hb := (hpg.loan_unique hlent hagain).2.1
        simp [Scope.opening, DatabaseM.lending] at hb
    · cases he
    · rcases DatabaseM.asks_giveBack hback with he | ⟨he, -⟩
      · exact he.elim
      · cases he
        exact ⟨lw, _, o, rfl, hw, rfl⟩
  · -- a transaction that has ended has given the connection back already
    obtain ⟨cause', hmem⟩ := Scope.released_of_ends hends hl
    refine absurd ⟨i, cause', History.mem_of_iff.mp ?_⟩ hp.not_returned
    rw [hof]
    exact List.mem_append_right _ (List.mem_append_right _ hmem)

end Regime.Possible

namespace History

variable {work : DatabaseM c α} {l lb lf lr rest : List (Deed c)} {f : Failure}

/-- A transaction that has not begun is not settled. -/
theorem not_settled_of_unbegun (hl : l = lb ++ rest)
    (hb : Fiber.Ends (Scope.command scope "BEGIN" : DatabaseM c Unit) lb (.error f)) :
    ¬ h.Settled k scope work l := by
  have hfails : Fiber.Ends (Scope.begin scope : DatabaseM c Unit) lb (.error f) :=
    Fiber.ends_bind_iff.mpr (.inl ⟨f, hb, rfl⟩)
  rintro (⟨hl', hb', -⟩ | ⟨hl', hb', -⟩)
  · cases (hfails.unique hb' (hl.symm.trans hl')).2.1
  · cases (hfails.unique hb' (hl.symm.trans hl')).2.1

/-- A transaction that has not begun has been cut short if and only if `BEGIN` has succeeded all the
same. -/
theorem cutShort_iff_of_unbegun (hl : l = lb ++ rest)
    (hb : Fiber.Ends (Scope.command scope "BEGIN" : DatabaseM c Unit) lb (.error f)) :
    h.CutShort k scope work l ↔ h.Begun k scope l := by
  constructor
  · rintro (⟨hl', hb', haccepted⟩ | ⟨hl', hb', -⟩)
    · exact ⟨_, _, _, hl', hb', haccepted⟩
    · have hfails : Fiber.Ends (Scope.begin scope : DatabaseM c Unit) lb (.error f) :=
        Fiber.ends_bind_iff.mpr (.inl ⟨f, hb, rfl⟩)
      cases (hfails.unique hb' (hl.symm.trans hl')).2.1
  · rintro ⟨lb', rest', r, hl', hb', haccepted⟩
    obtain ⟨rfl, -, -⟩ := hb.unique hb' (hl.symm.trans hl')
    exact .begin hl hb haccepted

/-- A transaction that has been cut short after it has begun has failed, and its `ROLLBACK` has
ended with something else than an error. -/
theorem CutShort.failed (hcut : h.CutShort k scope work l) (hl : l = lb ++ rest)
    (hb : Fiber.Ends (Scope.begin scope) lb (.ok ())) :
    ∃ lf lr rest' first f, rest = lf ++ (lr ++ rest') ∧ Scope.Fails scope work lf first ∧
      (∀ lw lc a r, lf = lw ++ lc → Fiber.Ends work lw (.ok a) →
        Fiber.Ends (Scope.command scope "COMMIT") lc r → ¬ h.Accepted k "COMMIT" lc) ∧
      Fiber.Ends (Scope.command scope "ROLLBACK" : DatabaseM c Unit) lr (.error f) ∧
      f.isError = false ∧ ¬ h.Accepted k "ROLLBACK" lr := by
  -- the ways of being cut short differ in whether `BEGIN` has been seen to succeed
  cases hcut with
  | @begin lb' rest' f hl' hb' _ =>
    have hfails : Fiber.Ends (Scope.begin scope : DatabaseM c Unit) lb' (.error f) :=
      Fiber.ends_bind_iff.mpr (.inl ⟨f, hb', rfl⟩)
    cases (hfails.unique hb (hl'.symm.trans hl)).2.1
  | @rollback lb' lf lr rest' first f hl' hb' hfails hcommit hrollback hf haccepted =>
    obtain ⟨-, -, hrest⟩ := hb'.unique hb (hl'.symm.trans hl)
    exact ⟨lf, lr, rest', first, f, hrest.symm, hfails, hcommit, hrollback, hf, haccepted⟩

/-- A transaction whose work and `COMMIT` have succeeded has not been cut short. -/
theorem not_cutShort_of_committed {lw lc : List (Deed c)} {a : α}
    (hl : l = lb ++ ((lw ++ lc) ++ rest)) (hb : Fiber.Ends (Scope.begin scope) lb (.ok ()))
    (hw : Fiber.Ends work lw (.ok a)) (hc : Fiber.Ends (Scope.command scope "COMMIT") lc (.ok ())) :
    ¬ h.CutShort k scope work l := by
  intro hcut
  obtain ⟨lf, lr, rest', first, f, hrest, hfails, -⟩ := hcut.failed hl hb
  -- the same exchanges cannot be a success of the work with `COMMIT`, and a failure of them
  have hdone : Fiber.Ends (Scope.committing scope work) (lw ++ lc) (.ok a) := by
    refine Fiber.ends_bind_iff.mpr (.inr ⟨a, lw, lc, rfl, hw, ?_⟩)
    exact Fiber.ends_bind_iff.mpr
      (.inr ⟨(), lc, [], by simp, hc, Fiber.ends_pure_iff.mpr ⟨rfl, rfl⟩⟩)
  cases (hdone.unique hfails.ends hrest).2.1

/-- A transaction that has failed and been undone has not been cut short. -/
theorem not_cutShort_of_rolledBack (hl : l = lb ++ (lf ++ (lr ++ rest)))
    (hb : Fiber.Ends (Scope.begin scope) lb (.ok ())) (hfails : Scope.Fails scope work lf f)
    (hr : Fiber.Ends (Scope.command scope "ROLLBACK") lr (.ok ())) :
    ¬ h.CutShort k scope work l := by
  intro hcut
  obtain ⟨lf', lr', rest', first, g, hrest, hfails', -, hr', -⟩ := hcut.failed hl hb
  obtain ⟨-, -, hrest⟩ := hfails.ends.unique hfails'.ends hrest
  cases (hr.unique hr' hrest).2.1

/-- A transaction that has failed and whose `ROLLBACK` has ended with something else than an error
is settled if and only if it has not been cut short. -/
theorem settled_iff_of_interrupted {g : Failure} (hl : l = lb ++ (lf ++ (lr ++ rest)))
    (hb : Fiber.Ends (Scope.begin scope) lb (.ok ())) (hfails : Scope.Fails scope work lf f)
    (hr : Fiber.Ends (Scope.command scope "ROLLBACK") lr (.error g)) (hg : g.isError = false) :
    h.Settled k scope work l ↔ ¬ h.CutShort k scope work l := by
  constructor
  · intro hsettled hcut
    obtain ⟨lf', lr', rest', first, g', hrest, hfails', hcommit, hr', -, hrollback⟩ :=
      hcut.failed hl hb
    obtain ⟨rfl, -, hrest⟩ := hfails.ends.unique hfails'.ends hrest
    obtain ⟨rfl, -, -⟩ := hr.unique hr' hrest
    -- the exchanges determine how the transaction has gone, so what has settled it is what
    -- `hcommit` and `hrollback` deny
    cases hsettled with
    | @commit lb' lw lc rest'' a r hl' hb' hw hc haccepted =>
      obtain ⟨-, -, hrest⟩ := hb.unique hb' (hl.symm.trans hl')
      cases hfails with
      | work hw' => cases (hw'.unique hw hrest).2.1
      | commit hw' hc' =>
        rw [List.append_assoc] at hrest
        obtain ⟨rfl, -, hrest⟩ := hw'.unique hw hrest
        obtain ⟨rfl, -, -⟩ := hc'.unique hc hrest
        exact hcommit _ _ _ _ rfl hw hc haccepted
    | @rollback lb' lf' lr' rest'' first' r hl' hb' hfails'' hr'' haccepted =>
      obtain ⟨-, -, hrest⟩ := hb.unique hb' (hl.symm.trans hl')
      obtain ⟨-, -, hrest⟩ := hfails.ends.unique hfails''.ends hrest
      obtain ⟨rfl, -, -⟩ := hr.unique hr'' hrest
      exact hrollback haccepted
  · intro hcut
    by_contra hsettled
    refine hcut (.rollback hl hb hfails ?_ hr hg ?_)
    · rintro lw lc a r rfl hw hc haccepted
      exact hsettled (.commit (by rw [hl, List.append_assoc]) hb hw hc haccepted)
    · exact fun haccepted => hsettled (.rollback hl hb hfails hr haccepted)

end History

/-- When the connection of a transaction is given back as one that may be used again, the
transaction is settled if it has begun, if and only if it has not been cut short. -/
theorem Regime.Run.settled_of_released {m : Machine c.setting c.requests (Ledger × D.World)}
    {b l : List (Deed c)} {pool : PoolId} {pid : Option Nat} {work : ScopeId → DatabaseM c α}
    (hr : D.regime.Run h m) (hy : D.regime.Performs h i b (Scope.transaction pool work))
    (hwork : ∀ scope, Public (work scope))
    (hreturn : h = g ++ .deed j (.requests (.release k none)) :: g')
    (hof : g.of i = b ++ (Scope.opening pool k pid (some .notStarted) scope ++ l)) :
    (g.Begun k scope l → g.Settled k scope (work scope) l) ↔
      ¬ g.CutShort k scope (work scope) l := by
  subst hreturn
  have hp := hr.possible
  obtain ⟨rfl, lw, rest, o, hl, hw, hcause⟩ := hp.bracket_of_returned hy hwork hof
  have hpg : D.regime.Possible g := hp.of_append
  have hopen : .enters (.openScope k (some .notStarted)) scope ∈
      (b ++ Scope.opening pool k pid (some .notStarted) scope : List (Deed c)) := by
    simp [Scope.opening]
  -- what has been seen to succeed has succeeded on the connection
  have haccepted : ∀ {sql : String} {u lc rest : List (Deed c)}, l = u ++ (lc ++ rest) →
      Fiber.Ends (Scope.command scope sql) lc (.ok ()) → History.Accepted g k sql lc := by
    intro sql u lc rest hl hc
    have hof : g.of j = ((b ++ Scope.opening pool k pid (some .notStarted) scope) ++ u) ++
        (lc ++ rest) := by
      rw [hof, hl]
      simp
    exact hpg.accepted_of_ok hof (List.mem_append_left _ hopen) hc
  have hbegun : ∀ {lb rest : List (Deed c)}, l = lb ++ rest →
      Fiber.Ends (Scope.begin scope) lb (.ok ()) → History.Begun g k scope l := by
    intro lb rest hl hb
    rcases Scope.ends_begin hb with ⟨_, hr, -⟩ | ⟨-, lb, entry, rfl, hcommand⟩
    · cases hr
    · rw [List.append_assoc] at hl
      exact ⟨lb, _, _, hl, hcommand, haccepted (u := []) hl hcommand⟩
  -- by the course that the bracket takes; one that is abandoned gives the connection back with a
  -- word
  cases Scope.ends_bracket hw with
  | unbegun hb =>
    rw [History.cutShort_iff_of_unbegun hl hb]
    exact ⟨fun hsettled hbegun => History.not_settled_of_unbegun hl hb (hsettled hbegun),
      fun hcut hbegun => absurd hbegun hcut⟩
  | @committed lb lw lc a entry hb hwork hc =>
    have hl : l = lb ++ ((lw ++ lc) ++ (Scope.noting scope entry .committed ++ rest)) := by
      rw [hl]
      simp
    refine iff_of_true (fun _ => ?_) (History.not_cutShort_of_committed hl hb hwork hc)
    have hl : l = (lb ++ lw) ++ (lc ++ (Scope.noting scope entry .committed ++ rest)) := by
      rw [hl]
      simp
    exact .commit (by rw [hl, List.append_assoc]) hb hwork hc (haccepted hl hc)
  | @rolledBack lb lf lr f entry hb hfails hrollback =>
    have hl : l = lb ++ (lf ++ (lr ++ (Scope.noting scope entry .rolledBack ++ rest))) := by
      rw [hl]
      simp
    refine iff_of_true (fun _ => ?_) (History.not_cutShort_of_rolledBack hl hb hfails hrollback)
    have hl' : l = (lb ++ lf) ++ (lr ++ (Scope.noting scope entry .rolledBack ++ rest)) := by
      rw [hl, List.append_assoc]
    exact .rollback hl hb hfails hrollback (haccepted hl' hrollback)
  | abandoned => cases hcause
  | @interrupted lb lf lr f f' hb hfails hrollback hf =>
    have hl : l = lb ++ (lf ++ (lr ++ rest)) := by
      rw [hl]
      simp
    rw [← History.settled_iff_of_interrupted hl hb hfails hrollback hf]
    exact ⟨fun hsettled => hsettled (hbegun hl hb), fun hsettled _ => hsettled⟩

/-- A transaction whose work fails at once. -/
def Scope.failing : DatabaseM .silent Reply :=
  transaction 0 fun _ => throw (Fault.raised .value none).failure

/-- Work that fails at once uses a database by what it offers. -/
theorem Scope.failing_public : Public failing := .transaction 0 fun _ => .ofExcept (.error _)

/-- Whether a happening is the success of a statement with some text. -/
def History.accepts (sql : String) : Happening c.setting c.requests → Bool
  | .deed _ (.answer (.inr (.inl (.execute _ _ statement))) (.ok _)) => statement.sql == sql
  | _ => false

/-- There is a run in which an interruption comes while a transaction waits for `ROLLBACK`, and the
connection is given back in the middle of the transaction. -/
theorem Scope.failing_run :
    ∃ (h g g' : History Client.silent.setting Client.silent.requests)
      (m : Machine Client.silent.setting Client.silent.requests (Ledger × Unit))
      (l : List (Deed .silent)),
      (Surroundings.solo _ failing_public).regime.Run h m ∧
      h.jobs[0]? = some (.plain (.client ())) ∧
      h = g ++ .deed 0 (.requests (.release 0 none)) :: g' ∧
      g.of 0 = opening 0 0 none (some .notStarted) 0 ++ l ∧ g.Begun 0 0 l ∧
      ¬ g.Settled 0 0 (throw (Fault.raised .value none).failure : DatabaseM .silent Reply) l := by
  have hstart : (Surroundings.solo _ failing_public).regime.Run [] { world := ({}, ()) } :=
    .start rfl
  have hlent := ((hstart.launch ⟨(), rfl⟩).runTurns 1).grant 0 0 (by decide)
  have hbegun := (hlent.runTurns 1).grant 1 1 (by decide)
  have hfailed := ((hbegun.runTurns 1).runTurns 1).interrupt 0
  -- `BEGIN` has succeeded, and the interruption has come while the task waits for `ROLLBACK`
  obtain ⟨h, g, g', m, v, entry, state, state', rest, hr, hjob, hreturn, hof, ⟨result, haccepted⟩,
      hnone⟩ :
      ∃ h g g' m v entry state state' rest, (Surroundings.solo _ failing_public).regime.Run h m ∧
      h.jobs[0]? = some (.plain (.client ())) ∧
      h = g ++ .deed 0 (.requests (.release 0 none)) :: g' ∧
      History.of g 0 = opening 0 0 none (some .notStarted) 0 ++
        (((issuing 0 0 state none (commandStatement "BEGIN") 0 1 ++
            [.joins 1, .joined 1 (.ok v)]) ++ noting 0 entry .inTransaction) ++
          ([] ++ ((issuing 0 0 state' none (commandStatement "ROLLBACK") 1 2 ++
            [.joins 2, .joined 2 (.error .interrupted)]) ++ rest))) ∧
      (∃ result, .deed 1 (.served (.execute 0 0 (commandStatement "BEGIN")) (.ok result)) ∈ g) ∧
      g.any (History.accepts "ROLLBACK") = false :=
    ⟨_, _, _, _, _, _, _, _, _, (hfailed.runTurns 1).runTurns 1, rfl,
      (List.take_append_drop 43 _).symm, rfl,
        ⟨_, List.mem_of_getElem? (i := 16) rfl⟩, by decide +kernel⟩
  have hb : Fiber.Ends (command 0 "BEGIN" : DatabaseM .silent Unit)
      (issuing 0 0 state none (commandStatement "BEGIN") 0 1 ++ [.joins 1, .joined 1 (.ok v)])
      (.ok ()) := ends_command_of_issuing
  have hrollback : Fiber.Ends (command 0 "ROLLBACK" : DatabaseM .silent Unit)
      (issuing 0 0 state' none (commandStatement "ROLLBACK") 1 2 ++
        [.joins 2, .joined 2 (.error .interrupted)]) (.error .interrupted) :=
    ends_command_of_issuing
  have hbegin : Fiber.Ends (begin 0 : DatabaseM .silent Unit) _ (.ok ()) := Fiber.ends_bind_iff.mpr
    (.inr ⟨(), _, noting 0 entry .inTransaction, rfl, hb, ends_transition_of_noting⟩)
  have hfails : Fails 0 (throw (Fault.raised .value none).failure : DatabaseM .silent Reply) [] _ :=
    .work (Fiber.ends_throw_iff.mpr ⟨rfl, rfl⟩)
  -- the work has failed before `COMMIT`, and nothing has answered `ROLLBACK`
  refine ⟨h, g, g', m, _, hr, hjob, hreturn, hof,
    ⟨_, _, _, List.append_assoc .., hb, 0, 1, 0, result,
    ?_, haccepted⟩, ?_⟩
  · simp [issuing]
  · rw [History.settled_iff_of_interrupted rfl hbegin hfails hrollback rfl, not_not]
    refine .rollback rfl hbegin hfails ?_ hrollback rfl ?_
    · intro lw lc a r _ hw
      cases (Fiber.ends_throw_iff.mp hw).2
    · rintro ⟨token, task, run, result, -, hmem⟩
      exact List.any_eq_false.mp hnone _ hmem rfl

/-- A transaction whose `ROLLBACK` has been interrupted has been cut short. -/
theorem settled_of_released_failing :
    ∃ (h g g' : History Client.silent.setting Client.silent.requests)
      (m : Machine Client.silent.setting Client.silent.requests (Ledger × Unit))
      (l : List (Deed .silent)),
      (Surroundings.solo _ Scope.failing_public).regime.Run h m ∧
      h = g ++ .deed 0 (.requests (.release 0 none)) :: g' ∧
      g.CutShort 0 0 (throw (Fault.raised .value none).failure : DatabaseM .silent Reply) l := by
  obtain ⟨h, g, g', m, l, hr, hjob, hreturn, hof, hbegun, hsettled⟩ := Scope.failing_run
  refine ⟨h, g, g', m, l, hr, hreturn, ?_⟩
  by_contra hcut
  exact hsettled ((hr.settled_of_released (b := []) ⟨_, hjob, .refl _⟩
    (fun _ => .ofExcept (.error _)) hreturn hof).mpr hcut hbegun)

/-- It is not so that no connection is given back in the middle of a transaction. -/
theorem not_settled_of_released :
    ¬ ∀ {c : Client} {α : Type} {D : Surroundings c} {h g g' : History c.setting c.requests}
      {m : Machine c.setting c.requests (Ledger × D.World)} {i j : TaskId} {k : LeaseId}
      {scope : ScopeId} {b l : List (Deed c)} {pool : PoolId} {pid : Option Nat}
      {work : ScopeId → DatabaseM c α}, D.regime.Run h m →
      D.regime.Performs h i b (Scope.transaction pool work) → (∀ scope, Public (work scope)) →
      h = g ++ .deed j (.requests (.release k none)) :: g' →
      g.of i = b ++ (Scope.opening pool k pid (some .notStarted) scope ++ l) →
      g.Begun k scope l → g.Settled k scope (work scope) l := by
  intro hall
  obtain ⟨h, g, g', m, l, hr, hjob, hreturn, hof, hbegun, hsettled⟩ := Scope.failing_run
  exact hsettled (hall hr ⟨_, hjob, .refl _⟩ (fun _ => .ofExcept (.error _))
    hreturn hof hbegun)

end PooledSql
