import PooledSql.Proofs.Database.Sequence
import PooledSql.Proofs.Database.Returns
import PooledSql.Proofs.Task.Waiting

/-!
# Attention

A transaction waits for each of its own commands, `BEGIN`, `COMMIT` and `ROLLBACK`, before it goes
on. So if its work waits for each of its queries (`History.Attends`), then all queries on the
connection are run one at a time (`Regime.Possible.oneByOne_of_attends`). That is so even if tasks
are interrupted: an interruption of a task that waits for a query is passed on to the query, so that
no wait is over while the query goes on (`Regime.Possible.finished_of_joined_query`).
-/

namespace PooledSql

variable {c : Client} {α : Type} {D : Surroundings c} {a a' g g' h : History c.setting c.requests}
  {i j s t : TaskId} {k : LeaseId} {scope : ScopeId}

/-- A program that has ended asks for nothing. -/
theorem Fiber.Ends.not_asks {I : Interface} {x : Fiber I α} {l m : List (Exchange I)}
    {r : Except Failure α} {e : Exchange I} (h : Ends x l r) : ¬ Asks x (l ++ m) e := by
  intro hasks
  cases hasks with
  | act _ hl => cases (Program.leads_done_iff.mp (h.cancel_left hl)).2
  | call hl => cases (Program.leads_done_iff.mp (h.cancel_left hl)).2

namespace Scope

/-- Whether the work of a transaction is under way after some exchanges in its scope: the
transaction has begun, and the work has not ended. -/
def UnderWay (scope : ScopeId) (work : DatabaseM c α) (l : List (Deed c)) : Prop :=
  ∃ lb lw, l = lb ++ lw ∧ Fiber.Ends (begin scope) lb (.ok ()) ∧
    ∀ l₁ l₂ o, lw = l₁ ++ l₂ → ¬ Fiber.Ends work l₁ o

section UnderWay

variable {work : DatabaseM c α} {l m lb lw lz : List (Deed c)} {o : Except Failure α}

/-- The work is under way only when the transaction has begun. -/
theorem UnderWay.le (hl : UnderWay scope work l) (hb : Fiber.Ends (begin scope) lb (.ok ()))
    (heq : l ++ m = lb ++ lz) : lb.length ≤ l.length := by
  obtain ⟨lb', lw', rfl, hb', -⟩ := hl
  rw [List.append_assoc] at heq
  obtain ⟨rfl, -⟩ := hb'.unique hb heq
  simp

/-- The work is no longer under way when it has ended. -/
theorem UnderWay.lt (hl : UnderWay scope work l) (hb : Fiber.Ends (begin scope) lb (.ok ()))
    (hw : Fiber.Ends work lw o) (heq : l ++ m = lb ++ (lw ++ lz)) :
    l.length < lb.length + lw.length := by
  obtain ⟨lb', lw', rfl, hb', hlw⟩ := hl
  rw [List.append_assoc] at heq
  -- the beginning is the same, so that only the work is to be compared
  obtain ⟨rfl, -, heq⟩ := hb'.unique hb heq
  by_contra hge
  rw [List.length_append, Nat.not_lt, Nat.add_le_add_iff_left] at hge
  -- otherwise the outcome of the work is part of what has passed
  rcases List.append_eq_append_iff.mp heq with ⟨l', rfl, -⟩ | ⟨l', rfl, -⟩
  · have hnil : l'.length = 0 := by
      rw [List.length_append] at hge
      omega
    obtain rfl := List.eq_nil_of_length_eq_zero hnil
    exact hlw lw' [] o (List.append_nil _).symm (by simpa using hw)
  · exact hlw lw l' o rfl hw

/-- If the work is no longer under way, it has ended. -/
theorem UnderWay.ended (hl : UnderWay scope work l) (hm : ¬ UnderWay scope work (l ++ m)) :
    ∃ lb lw lz o, l ++ m = lb ++ (lw ++ lz) ∧ Fiber.Ends (begin scope) lb (.ok ()) ∧
      Fiber.Ends work lw o := by
  obtain ⟨lb, lw, rfl, hb, -⟩ := hl
  by_contra hnone
  refine hm ⟨lb, lw ++ m, List.append_assoc .., hb, fun l₁ l₂ o heq hw => hnone ?_⟩
  exact ⟨lb, l₁, l₂, o, by rw [List.append_assoc, heq], hb, hw⟩

/-- The work is not under way when its transaction has ended. -/
theorem not_underWay_of_bracket (h : Fiber.Ends (bracket scope work) l o) :
    ¬ UnderWay scope work (l ++ m) := by
  rintro ⟨lb, lw, heq, hb, hlw⟩
  rcases Fiber.ends_bind_iff.mp h with ⟨f, hf, -⟩ | ⟨⟨⟩, l₁, l₂, rfl, hb', hl₂⟩
  · cases (hf.unique hb heq).2.1
  · rw [List.append_assoc] at heq
    obtain ⟨rfl, -, rfl⟩ := hb'.unique hb heq
    obtain ⟨m₁, m₂, r, rfl, hw⟩ := (comes_bracket hb).ends_cases h
    exact hlw m₁ (m₂ ++ m) r (List.append_assoc ..) hw

end UnderWay

/-- A transaction asks for a query on behalf of its work, or in the course of a command of its
own. -/
theorem asks_bracket_spawn {work : DatabaseM c α} {l : List (Deed c)} {job : Job c.setting}
    (h : Fiber.Asks (bracket scope work) l (.does (.spawn job) s)) :
    (∃ lb lw, l = lb ++ lw ∧ Fiber.Ends (begin scope) lb (.ok ()) ∧
        Fiber.Asks work lw (.does (.spawn job) s)) ∨
      ∃ sql b l₁,
        l = b ++ l₁ ∧ Fiber.Comes (bracket scope work) b (command scope sql : DatabaseM c Unit) ∧
        Fiber.Asks (command scope sql : DatabaseM c Unit) l₁ (.does (.spawn job) s) := by
  -- a transition is noted without a query
  have htransition : ∀ {state : TransactionState} {l : List (Deed c)},
      ¬ Fiber.Asks (transition scope state : DatabaseM c Unit) l (.does (.spawn job) s) := by
    intro state l ht
    rcases asks_transition ht with ⟨_, he⟩ | he | he
    · cases he
    · exact he
    · cases he
  -- the queries are those of `BEGIN`, of the work, of `COMMIT` and of `ROLLBACK`, in this order
  rcases Fiber.asks_bind_iff.mp h with hb | ⟨⟨⟩, lb, lt, rfl, hb, ht⟩
  · rcases Fiber.asks_bind_iff.mp hb with hb | ⟨⟨⟩, _, _, -, -, ht⟩
    · exact .inr ⟨"BEGIN", [], l, rfl, Fiber.comes_bind.trans Fiber.comes_bind, hb⟩
    · exact absurd ht htransition
  rcases Fiber.asks_attempt_bind_iff.mp ht with hf | ⟨o, lf, lz, rfl, hf, hz⟩
  · rcases Fiber.asks_bind_iff.mp hf with hw | ⟨a, lw, lc, rfl, hw, hc⟩
    · exact .inl ⟨lb, lt, rfl, hb, hw⟩
    rcases Fiber.asks_bind_iff.mp hc with hc | ⟨⟨⟩, _, _, -, -, hr⟩
    · refine .inr ⟨"COMMIT", lb ++ lw, lc, by simp, ?_, hc⟩
      have hcommitting : Fiber.Comes (bracket scope work) lb (committing scope work) := by
        rw [← List.append_nil lb]
        exact hb.comes.trans (Fiber.comes_bind.trans Fiber.comes_attempt)
      rw [← List.append_nil (lb ++ lw), List.append_assoc]
      exact hcommitting.trans (hw.comes.trans Fiber.comes_bind)
    · exact absurd hr Fiber.not_asks_pure
  cases o with
  | ok a =>
    rcases Fiber.asks_bind_iff.mp hz with hn | ⟨⟨⟩, _, _, -, -, hr⟩
    · exact absurd hn htransition
    · exact absurd hr Fiber.not_asks_pure
  | error f =>
    rcases ends_committing hf with ⟨f', hf', hfails⟩ | ⟨_, _, _, hf', -⟩
    · cases hf'
      rcases Fiber.asks_bind_iff.mp hz with hr | ⟨⟨⟩, _, _, -, -, hr⟩
      · rcases Fiber.asks_attempt_bind_iff.mp hr with hr | ⟨o, lr, lt, rfl, hr, ht⟩
        · refine .inr ⟨"ROLLBACK", lb ++ lf, lz, by simp, ?_, hr⟩
          rw [← List.append_nil (lb ++ lf)]
          exact (hfails.comes hb).trans (Fiber.comes_bind.trans Fiber.comes_attempt)
        · cases o with
          | ok u => exact absurd ht htransition
          | error g =>
            dsimp only at ht
            split at ht
            · exact absurd ht Fiber.not_asks_throw
            · rcases Fiber.asks_bind_iff.mp ht with hn | ⟨⟨⟩, _, _, -, -, hl⟩
              · exact absurd hn htransition
              · rcases Fiber.asks_act_bind_iff.mp hl with ⟨-, _, he⟩ | ⟨_, _, -, hthrow⟩
                · cases he
                · exact absurd hthrow Fiber.not_asks_throw
      · exact absurd hr Fiber.not_asks_throw
    · cases hf'

/-- A command that has issued its query waits for it. -/
theorem asks_command_of_issuing {state : Option TransactionState} {pid : Option Nat} {sql : String}
    {token : TokenId} {x : Deed c}
    (h : Fiber.Asks (command scope sql : DatabaseM c Unit)
      (issuing scope k state pid (commandStatement sql) token s) x) : x = .joins s := by
  have hsubmit : Fiber.Ends (submit scope (.ofString sql) (.tuple []) : DatabaseM c Query)
      (issuing scope k state pid (commandStatement sql) token s) (.ok { task := s, token }) :=
    .act (.act (.act (.act (.nil _))))
  rcases Fiber.asks_bind_iff.mp h with hs | ⟨q, l₁, l₂, heq, hs, hjoin⟩
  · exact absurd hs (by simpa using hsubmit.not_asks (m := []))
  · obtain ⟨rfl, hq, rfl⟩ := hs.unique hsubmit (heq.symm.trans (List.append_nil _).symm)
    cases hq
    exact (Fiber.asks_await_iff.mp (Fiber.asks_map_iff.mp hjoin)).2

end Scope

namespace History

/-- The history up to where a task has just done something. -/
theorem exists_checkpoint {S : Setting} {O : Interface} {h : History S O} {i : TaskId}
    {v w : List (Exchange (S.interface.sum O))} (hof : h.of i = v ++ w) :
    ∃ p q, h = p ++ q ∧ p.of i = v ∧ q.of i = w ∧
      ∀ a e a', p = a ++ e :: a' → History.of (e :: a') i ≠ [] := by
  rcases v.eq_nil_or_concat with rfl | ⟨v', x, rfl⟩
  · exact ⟨[], h, rfl, rfl, hof, by simp⟩
  · rw [List.concat_eq_append, List.append_assoc, List.singleton_append] at hof
    obtain ⟨g, g', rfl, rfl, rfl⟩ := exists_split_of hof
    -- right behind the last of these exchanges
    refine ⟨g ++ [.deed i x], g', by simp, by simp [Happening.deed?], rfl, ?_⟩
    intro a e a' heq hnil
    obtain ⟨a₀, d, ha⟩ := (List.eq_nil_or_concat (e :: a')).resolve_left (List.cons_ne_nil _ _)
    rw [ha, List.concat_eq_append, ← List.append_assoc] at heq
    obtain ⟨-, hd⟩ := List.append_inj' heq rfl
    cases hd
    simp [ha, Happening.deed?] at hnil

/-- Whether the work of a transaction is under way, whose scope a task has opened by the exchanges
`u`. -/
def Working (h : History c.setting c.requests) (i : TaskId) (u : List (Deed c)) (scope : ScopeId)
    (work : DatabaseM c α) : Prop :=
  ∃ l, h.of i = u ++ l ∧ Scope.UnderWay scope work l

/-- Whether a task is a query on a connection that has been issued while the work of a transaction
was under way. -/
def OfWork (h : History c.setting c.requests) (i : TaskId) (u : List (Deed c)) (k : LeaseId)
    (scope : ScopeId) (work : DatabaseM c α) (statement : Statement) (token : TokenId)
    (t : TaskId) : Prop :=
  ∃ g j g', h = g ++ .issue j k statement token t :: g' ∧
    Working g i u scope work

/-- Whether the work of a transaction waits for its queries on a connection, and nobody else uses
the connection; the scope of the transaction has been opened by the exchanges `u`. -/
structure Attends (h : History c.setting c.requests) (i : TaskId) (u : List (Deed c)) (k : LeaseId)
    (scope : ScopeId) (work : DatabaseM c α) : Prop where
  /-- Other tasks issue queries only on behalf of the work. -/
  others : ∀ {g g' : History c.setting c.requests} {j statement token t},
    h = g ++ .issue j k statement token t :: g' → j ≠ i → g.Working i u scope work
  /-- The queries of the work are over when it starts another one. -/
  started : ∀ {g g' : History c.setting c.requests} {j statement token t},
    h = g ++ .issue j k statement token t :: g' → g.Working i u scope work →
      ∀ statement' token' s, g.OfWork i u k scope work statement' token' s → g.Finished s
  /-- The queries of the work are over when the work has ended. -/
  ended : ∀ {g g' : History c.setting c.requests} {lb lw : List (Deed c)} {o},
    h = g ++ g' → g.of i = u ++ (lb ++ lw) → Fiber.Ends (Scope.begin scope) lb (.ok ()) →
      Fiber.Ends work lw o →
      ∀ statement token s, g.OfWork i u k scope work statement token s → g.Finished s

end History

namespace Regime.Possible

variable {work : DatabaseM c α} {u l lb lw lz v w : List (Deed c)} {o : Except Failure α}
  {statement statement' : Statement} {token token' : TokenId}

/-- A query on a connection does not wait for other queries. -/
theorem not_joins_of_query (hp : D.regime.Possible (g ++ .deed s (.joins t) :: g'))
    (hjob : (History.jobs (g ++ .deed s (.joins t) :: g'))[s]? =
      some (.query (.scoped k statement token) token)) : False := by
  have hasks := Fiber.asks_map_iff.mp (TaskM.asks_settle_call (hp.asks_of_job hjob id))
  rcases DatabaseM.asks_execute_call hasks with ⟨_, -, hw⟩ | ⟨_, _, _, _, _, -, -, hw⟩ <;> cases hw

/-- The queries of work that has ended are over. -/
theorem finished_of_ended (ha : h.Attends i u k scope work) (heq : h = g ++ g')
    (hg : g.of i = u ++ (lb ++ (lw ++ lz))) (hb : Fiber.Ends (Scope.begin scope) lb (.ok ()))
    (hw : Fiber.Ends work lw o) (hs : g.OfWork i u k scope work statement token s) :
    g.Finished s := by
  obtain ⟨p, j, q, rfl, l, hl, hunder⟩ := hs
  have hsplit :
      History.of (p ++ .issue j k statement token s :: q) i = (u ++ (lb ++ lw)) ++ lz := by
    simp [hg]
  obtain ⟨p₁, q₁, heq₁, hp₁, hq₁, -⟩ := History.exists_checkpoint hsplit
  -- the work was still under way when the query was issued
  have hlate : ∀ {m : History c.setting c.requests}, p ≠ p₁ ++ m := by
    rintro m rfl
    rw [History.of_append, hp₁, List.append_assoc, List.append_cancel_left_eq] at hl
    have hplace := hunder.lt (m := []) hb hw (by rw [List.append_nil, ← hl, List.append_assoc])
    have hlen := congrArg List.length hl
    simp only [List.length_append] at hlen
    omega
  -- so the query was issued before the end of the work, which waits for it
  rcases List.append_eq_append_iff.mp heq₁ with ⟨m, rfl, hm⟩ | ⟨m, hp, -⟩
  · cases m with
    | nil => exact absurd (by simp) (hlate (m := []))
    | cons e m =>
      obtain ⟨rfl, rfl⟩ := List.cons.inj hm
      have hplace : h = (p ++ (.issue j k statement token s :: m)) ++ (q₁ ++ g') := by simp [heq]
      rw [heq₁]
      refine History.Finished.mono (ha.ended hplace hp₁ hb hw statement token s ?_)
      exact ⟨p, j, m, rfl, l, hl, hunder⟩
  · exact absurd hp hlate

/-- A query that has been issued in the beginning of a transaction is over when the transaction has
begun. -/
theorem finished_of_begun {job : Job c.setting} (hp : D.regime.Possible g)
    (hg : g.of i = u ++ (lb ++ lz)) (hb : Fiber.Ends (Scope.begin scope) lb (.ok ()))
    (hs : .does (.spawn job) s ∈ lb) : g.Finished s := by
  rcases Scope.ends_begin hb with ⟨f, hf, -⟩ | ⟨-, lc, entry, rfl, hc⟩
  · cases hf
  -- the only query of the beginning is that of `BEGIN`, whose answer has been waited for
  rcases Scope.ends_command hc with ⟨_, rfl, -⟩ | ⟨k', state', pid, token, t, ans, rfl, hans⟩
  · simp only [Scope.noting, List.cons_append, List.nil_append, List.mem_cons, List.not_mem_nil,
      or_false] at hs
    rcases hs with hs | hs | hs | hs <;> cases hs
  obtain rfl : s = t := by
    simp only [Scope.noting, Scope.issuing, Scope.consulting, List.cons_append, List.nil_append,
      List.mem_cons, List.not_mem_nil, or_false] at hs
    rcases hs with hs | hs | hs | hs | hs | hs | hs | hs | hs <;> cases hs
    rfl
  obtain ⟨v, rfl⟩ : ∃ v, ans = .ok v := by
    cases ans with
    | ok v => exact ⟨v, rfl⟩
    | error f => cases hans
  have hjoined : Happening.deed i (.joined s (.ok v)) ∈ g := by
    rw [← History.mem_of_iff, hg]
    simp
  obtain ⟨a, a', rfl⟩ := List.append_of_mem hjoined
  exact History.Finished.mono ⟨_, hp.finished_of_joined.resolve_right (by simp)⟩

variable {b : List (Deed c)} {pool : PoolId} {pid : Option Nat} {x : Deed c}

/-- A query that a transaction issues while its work is not under way is issued by a command. -/
theorem command_of_issue {work : ScopeId → DatabaseM c α} (hp : D.regime.Possible h)
    (hy : D.regime.Performs h i b (Scope.transaction pool work))
    (heq : h = g ++ .issue i k statement token s :: g')
    (hg : g.of i = b ++ (Scope.opening pool k pid (some .notStarted) scope ++ l))
    (hcontrol : ¬ Scope.UnderWay scope (work scope) l) :
    ∃ sql b' l₁, l = b' ++ l₁ ∧
      D.regime.Performs h i (b ++ (Scope.opening pool k pid (some .notStarted) scope ++ b'))
        (Scope.command scope sql : DatabaseM c Unit) ∧
      Fiber.Asks (Scope.command scope sql : DatabaseM c Unit) l₁
        (.does (.spawn (.query (.scoped k statement token) token)) s) := by
  -- the connection has not been given back, as a query is still issued on it
  have hloan := (heq ▸ hp).issued_on_loan.2
  rw [Scope.transaction_eq] at hy
  rcases hy.asks_cases hp heq id hg with hasks | ⟨l₁, l₂, r, hl, hends⟩
  · -- of what a transaction asks for, queries are part of what stands between lending and return
    rcases Scope.asks_withScope hasks with ⟨-, he⟩ | he | ⟨_, _, _, -, he⟩ |
      ⟨k', pid', scope', l', hl, hbody⟩
    · cases he
    · exact he.elim
    · cases he
    obtain ⟨rfl, rfl, rfl⟩ := Scope.opening_append_inj hl
    rcases hbody with hbody | ⟨o, lw, -, ⟨-, he⟩ | ⟨lr, -, he⟩⟩
    · rcases Scope.asks_bracket_spawn hbody with ⟨lb, lw, rfl, hb, hw⟩ |
        ⟨sql, b', l₁, rfl, hcomes, hc⟩
      · refine absurd ⟨lb, lw, rfl, hb, ?_⟩ hcontrol
        rintro m₁ m₂ o rfl hends
        exact hends.not_asks hw
      · exact ⟨sql, b', l₁, rfl, hy.comes (Scope.comes_withScope.trans hcomes), hc⟩
    · cases he
    · rcases DatabaseM.asks_giveBack he with he | ⟨he, -⟩
      · exact he.elim
      · cases he
  · -- a transaction that has ended has given its connection back
    obtain ⟨cause, hmem⟩ := Scope.released_of_ends hends hl
    refine absurd ⟨i, cause, History.mem_of_iff.mp ?_⟩ hloan
    rw [hg]
    exact List.mem_append_right _ (List.mem_append_right _ hmem)

/-- After a command has issued its query, its task waits for the query. -/
theorem joins_of_command {sql : String} (hp : D.regime.Possible h)
    (hy : D.regime.Performs h i b (Scope.command scope sql : DatabaseM c Unit))
    (hasks : Fiber.Asks (Scope.command scope sql : DatabaseM c Unit) l
      (.does (.spawn (.query (.scoped k statement token) token)) s))
    (hof : h.of i = (b ++ l) ++
      .does (.spawn (.query (.scoped k statement token) token)) s :: x :: w) : x = .joins s := by
  -- the query is the one of the command
  obtain ⟨k', state, pid, token', t, rfl, he⟩ : ∃ k' state pid token' t,
      l = Scope.consulting scope k' state pid token' ∧
      (.does (.spawn (.query (.scoped k statement token) token)) s : Deed c) =
        .does (.spawn (.query (.scoped k' (Scope.commandStatement sql) token') token')) t := by
    rcases Scope.asks_command hasks with ⟨_, he⟩ | he | ⟨_, he⟩ |
      ⟨k', state, pid, token', t, hl, he⟩ | ⟨_, he⟩
    · cases he
    · exact he.elim
    · cases he
    · exact ⟨k', state, pid, token', t, hl, he⟩
    · cases he
  cases he
  have hnext : h.of i =
      (b ++ Scope.issuing scope k state pid (Scope.commandStatement sql) token s) ++
      x :: w := by
    rw [hof]
    simp [Scope.issuing]
  obtain ⟨g, g', heq, hg, -⟩ := History.exists_split_of hnext
  -- nothing has been waited for yet that could be answered
  have hx : ¬ x.IsAnswer := by
    intro hx
    cases x with
    | answer wait ans =>
      obtain ⟨l', hl'⟩ := (heq ▸ hp).call_of_answer
      rw [hg, Scope.issuing, ← List.append_assoc] at hl'
      cases (List.append_inj' hl' rfl).2
    | _ => exact hx
  rcases hy.asks_cases hp heq hx hg with hasks | ⟨l₁, l₂, r, hl, hends⟩
  · exact Scope.asks_command_of_issuing hasks
  · exfalso
    rcases Scope.ends_command hends with ⟨entry, rfl, hrefuses, -⟩ |
      ⟨k', state', pid', token', t, ans, rfl, -⟩
    · cases hl
      exact hrefuses _ _ rfl
    · have hlen := congrArg List.length hl
      simp [Scope.issuing, Scope.consulting] at hlen

/-- A query that a task has issued by a command is over when the task goes on. -/
theorem finished_of_command {sql : String} (hp : D.regime.Possible h)
    (hy : D.regime.Performs h i b (Scope.command scope sql : DatabaseM c Unit))
    (hasks : Fiber.Asks (Scope.command scope sql : DatabaseM c Unit) l
      (.does (.spawn (.query (.scoped k statement token) token)) s))
    (heq : h = g ++ .deed i x :: g') (hx : ¬ x.IsAnswer) (hne : x ≠ .joins s)
    (hg : g.of i = (b ++ l) ++ .does (.spawn (.query (.scoped k statement token) token)) s :: v)
    (hover : ∀ a a' ans, h = a ++ .deed i (.joined s ans) :: a' → History.Finished a s) :
    g.Finished s := by
  have hof : h.of i = ((b ++ l) ++
      .does (.spawn (.query (.scoped k statement token) token)) s :: v) ++ x ::
        History.of g' i := by
    rw [heq, History.of_append, hg]
    simp [Happening.deed?]
  -- how far has the task got behind the query: it is there, it waits, or it has been answered
  rcases v with _ | ⟨y, _ | ⟨z, v⟩⟩
  · exact absurd (hp.joins_of_command hy hasks (by simpa using hof)) hne
  · -- the task waits for the query
    obtain rfl := hp.joins_of_command hy hasks (w := [x] ++ History.of g' i) (by simpa using hof)
    have hwaits : h.of i =
        ((b ++ l) ++ [.does (.spawn (.query (.scoped k statement token) token)) s]) ++
        .joins s :: x :: History.of g' i := by
      simpa using hof
    obtain ⟨ans, rfl⟩ := hp.answered hwaits
    exact absurd trivial hx
  · -- the wait of the task for the query is over
    obtain rfl := hp.joins_of_command hy hasks (w := z :: (v ++ x :: History.of g' i))
      (by simpa using hof)
    have hwaits : h.of i =
        ((b ++ l) ++ [.does (.spawn (.query (.scoped k statement token) token)) s]) ++
        .joins s :: z :: (v ++ x :: History.of g' i) := by
      simpa using hof
    obtain ⟨ans, rfl⟩ := hp.answered hwaits
    have hjoined : Happening.deed i (.joined s ans) ∈ g := by
      rw [← History.mem_of_iff, hg]
      simp
    obtain ⟨a, a', ha⟩ := List.append_of_mem hjoined
    rw [ha]
    exact (hover a (a' ++ .deed i x :: g') ans (by simp [heq, ha])).mono

section Transaction

variable {work : ScopeId → DatabaseM c α} {e : Happening c.setting c.requests}

/-- A transaction issues queries on its connection after its scope has been opened. -/
theorem opened_of_issue (hp : D.regime.Possible h)
    (hof : h.of i = b ++ (Scope.opening pool k pid (some .notStarted) scope ++ l))
    (heq : h = g ++ .issue i k statement token s :: g') :
    ∃ l', g.of i = b ++ (Scope.opening pool k pid (some .notStarted) scope ++ l') := by
  have hnone := hp.no_query_before_work hof
  have hsplit : g.of i ++ .does (.spawn (.query (.scoped k statement token) token)) s ::
      History.of g' i = (b ++ Scope.opening pool k pid (some .notStarted) scope) ++ l := by
    rw [List.append_assoc, ← hof, heq]
    simp [Happening.deed?]
  rcases List.append_eq_append_iff.mp hsplit with ⟨m, hm, hrest⟩ | ⟨m, hm, -⟩
  · cases m with
    | nil => exact ⟨[], by simpa using hm.symm⟩
    | cons y m =>
      obtain ⟨rfl, -⟩ := List.cons.inj hrest
      rw [hm, List.filterMap_append] at hnone
      simp [Exchange.query?] at hnone
  · exact ⟨m, by rw [hm, List.append_assoc]⟩

/-- A transaction gives its connection back after its scope has been opened. -/
theorem opened_of_return {cause : Option Failure} (hp : D.regime.Possible h)
    (hof : h.of i = b ++ (Scope.opening pool k pid (some .notStarted) scope ++ l))
    (heq : h = g ++ .deed j (.requests (.release k cause)) :: g') :
    j = i ∧ ∃ l', g.of i = b ++ (Scope.opening pool k pid (some .notStarted) scope ++ l') := by
  obtain ⟨_, b', u, lr, pool', pid', v, -, hj, -, -, rfl⟩ := (heq ▸ hp).spent_of_returned
  have hlent : h.of i = b ++ (DatabaseM.lending pool k pid ++
      .enters (.openScope k (some .notStarted)) scope :: l) := by
    simp [hof, Scope.opening]
  have hreturn : h.of j = b' ++ (DatabaseM.lending pool' k pid' ++
      (v ++ (lr ++ .requests (.release k cause) :: History.of g' j))) := by
    rw [heq, History.of_append, hj]
    simp [Happening.deed?]
  -- whoever gives back a connection has been lent it, and that is this transaction
  obtain ⟨rfl, rfl, rfl, rfl, hrest⟩ := hp.loan_unique hlent hreturn
  refine ⟨rfl, ?_⟩
  rw [← List.append_assoc] at hrest
  cases hv : v ++ lr with
  | nil =>
    rw [hv] at hrest
    cases (List.cons.inj hrest).1
  | cons y l' =>
    rw [hv] at hrest
    obtain ⟨rfl, -⟩ := List.cons.inj hrest
    exact ⟨l', by rw [hj, List.append_assoc, hv]; simp [Scope.opening]⟩

/-- When a query is started while the work of a transaction is under way, all queries on the
connection are over. -/
theorem rests_of_working (hp : D.regime.Possible h)
    (hof : h.of i = b ++ (Scope.opening pool k pid (some .notStarted) scope ++ l))
    (ha : h.Attends i (b ++ Scope.opening pool k pid (some .notStarted) scope) k scope (work scope))
    (heq : h = g ++ .issue j k statement token t :: g')
    (hworking : g.Working i (b ++ Scope.opening pool k pid (some .notStarted) scope) scope
      (work scope)) : g.Rests k := by
  intro s statement' token' hs
  have hpg : D.regime.Possible g := (heq ▸ hp).of_append
  obtain ⟨p, j', q, rfl⟩ := hpg.issued hs
  have hissue :
      h = p ++ .issue j' k statement' token' s :: (q ++ .issue j k statement token t :: g') := by
    simp [heq]
  -- a query of the work is over by the discipline of the work
  by_cases hquery :
    History.Working p i (b ++ Scope.opening pool k pid (some .notStarted) scope) scope
      (work scope)
  · exact ha.started heq hworking statement' token' s ⟨p, j', q, rfl, hquery⟩
  · obtain rfl : j' = i := by
      by_contra hj
      exact hquery (ha.others hissue hj)
    -- it has been issued in the beginning of the transaction
    obtain ⟨l', hl'⟩ := hp.opened_of_issue hof hissue
    obtain ⟨l'', hl'', lb, lw, rfl, hb, hlw⟩ := hworking
    have hsplit : l' ++ .does (.spawn (.query (.scoped k statement' token') token')) s ::
        History.of q j' = lb ++ lw := by
      rw [History.of_append, hl', List.append_assoc, List.append_assoc, List.append_assoc,
        List.append_cancel_left_eq, List.append_cancel_left_eq] at hl''
      simpa [Happening.deed?] using hl''
    suffices hmem : .does (.spawn (.query (.scoped k statement' token') token')) s ∈ lb from
      hpg.finished_of_begun hl'' hb hmem
    -- it cannot have been issued behind the beginning, where the work is under way
    have hbefore : ∀ m, l' ≠ lb ++ m := by
      rintro m rfl
      refine hquery ⟨lb ++ m, by rw [hl', List.append_assoc], lb, m, rfl, hb, ?_⟩
      rintro l₁ l₂ o rfl hw
      rw [List.append_assoc, List.append_cancel_left_eq] at hsplit
      exact hlw l₁ _ o (hsplit.symm.trans (List.append_assoc ..)) hw
    rcases List.append_eq_append_iff.mp hsplit with ⟨m, rfl, hm⟩ | ⟨m, hm, -⟩
    · cases m with
      | nil => exact absurd (by simp) (hbefore [])
      | cons y m =>
        obtain ⟨rfl, -⟩ := List.cons.inj hm
        simp
    · exact absurd hm (hbefore m)

end Transaction

section Patience

variable {work : ScopeId → DatabaseM c α}

/-- The wait for a query on a connection is over only when the query is. -/
theorem finished_of_joined_query {ans : Except Failure Reply} (hp : D.regime.Possible h)
    (hpatient : h.Patient) (heq : h = g ++ .deed i (.joined s ans) :: g')
    (hjob : h.jobs[s]? = some (.query (.scoped k statement token) token)) : g.Finished s := by
  by_contra hrunning
  refine hpatient g g' i s ans heq ⟨hrunning, ?_⟩
  rintro ⟨t, ht⟩
  obtain ⟨p, q, hpq⟩ :=
    List.append_of_mem (heq ▸ List.mem_append_left _ ht : .deed s (.joins t) ∈ h)
  exact (hpq ▸ hp).not_joins_of_query (hpq ▸ hjob)

/-- A query that a transaction has issued by itself is over when its task goes on. -/
theorem finished_of_control (hp : D.regime.Possible h) (hpatient : h.Patient)
    (hy : D.regime.Performs h i b (Scope.transaction pool work))
    (hs : g = a ++ .issue i k statement token s :: a')
    (hcontrol : ¬ a.Working i (b ++ Scope.opening pool k pid (some .notStarted) scope) scope
      (work scope))
    (hof : a.of i = b ++ (Scope.opening pool k pid (some .notStarted) scope ++ l))
    (heq : h = g ++ .deed i x :: g') (hx : ¬ x.IsAnswer) (hne : x ≠ .joins s) : g.Finished s := by
  have hissue : h = a ++ .issue i k statement token s :: (a' ++ .deed i x :: g') := by
    simp [heq, hs]
  -- it has been issued by a command, which waits for it before the task goes on
  have hunder : ¬ Scope.UnderWay scope (work scope) l := fun hunder =>
    hcontrol ⟨l, by rw [hof, List.append_assoc], hunder⟩
  obtain ⟨sql, b', l₁, rfl, hcommand, hasks⟩ := hp.command_of_issue hy hissue hof hunder
  have hjob : h.jobs[s]? = some (.query (.scoped k statement token) token) :=
    hissue ▸ (hissue ▸ hp).job_of_spawned
  refine hp.finished_of_command (v := History.of a' i) hcommand hasks heq hx hne ?_
    fun p p' ans hjoined => hp.finished_of_joined_query hpatient hjoined hjob
  simp [hs, hof, Happening.deed?]

/-- When a transaction goes on by itself, all queries on its connection are over. -/
theorem rests_of_control (hp : D.regime.Possible h) (hpatient : h.Patient)
    (hy : D.regime.Performs h i b (Scope.transaction pool work))
    (hof : h.of i = b ++ (Scope.opening pool k pid (some .notStarted) scope ++ l))
    (ha : h.Attends i (b ++ Scope.opening pool k pid (some .notStarted) scope) k scope (work scope))
    (heq : h = g ++ .deed i x :: g') (hx : ¬ x.IsAnswer) (hne : ∀ s, x ≠ .joins s)
    (hcontrol : ¬ g.Working i (b ++ Scope.opening pool k pid (some .notStarted) scope) scope
      (work scope)) : g.Rests k := by
  intro s statement token hs
  obtain ⟨p, j, q, rfl⟩ := (heq ▸ hp).of_append.issued hs
  have hissue : h = p ++ .issue j k statement token s :: (q ++ .deed i x :: g') := by
    simp [heq]
  -- a query has been issued by the work or by a command
  by_cases hquery :
    History.Working p i (b ++ Scope.opening pool k pid (some .notStarted) scope) scope
      (work scope)
  · -- the work has ended since
    obtain ⟨l', hl', hunder⟩ := hquery
    have hg : History.of (p ++ .issue j k statement token s :: q) i =
        (b ++ Scope.opening pool k pid (some .notStarted) scope) ++
          (l' ++ History.of (.issue j k statement token s :: q) i) := by
      rw [History.of_append, hl', List.append_assoc]
    obtain ⟨lb, lw, lz, o, hl, hb, hw⟩ := hunder.ended fun hlater => hcontrol ⟨_, hg, hlater⟩
    exact Regime.Possible.finished_of_ended ha heq (hl ▸ hg) hb hw ⟨p, j, q, rfl, l', hl', hunder⟩
  · obtain rfl : j = i := by
      by_contra hj
      exact hquery (ha.others hissue hj)
    obtain ⟨l', hl'⟩ := hp.opened_of_issue hof hissue
    exact hp.finished_of_control hpatient hy rfl hquery hl' heq hx (hne s)

/-- If the work of a transaction waits for its queries, then the queries on the connection are run
one at a time. -/
theorem oneByOne_of_attends (hp : D.regime.Possible h) (hpatient : h.Patient)
    (hy : D.regime.Performs h i b (Scope.transaction pool work))
    (hwork : ∀ scope, Public (work scope))
    (hof : h.of i = b ++ (Scope.opening pool k pid (some .notStarted) scope ++ l))
    (ha : h.Attends i (b ++ Scope.opening pool k pid (some .notStarted) scope) k scope
      (work scope)) :
    h.OneByOne k := by
  constructor
  · intro g g' j statement token t heq
    -- a query is started by the work or by the transaction itself
    by_cases hworking : g.Working i (b ++ Scope.opening pool k pid (some .notStarted) scope) scope
        (work scope)
    · exact hp.rests_of_working hof ha heq hworking
    · obtain rfl : j = i := by
        by_contra hj
        exact hworking (ha.others heq hj)
      exact hp.rests_of_control hpatient hy hof ha heq id nofun hworking
  · intro g g' j cause heq
    -- the connection is given back when the work is over
    obtain ⟨rfl, l', hl'⟩ := hp.opened_of_return hof heq
    obtain ⟨-, lx, rest, o, rfl, hbracket, -⟩ :=
      (heq ▸ hp).bracket_of_returned (heq ▸ hy) hwork hl'
    refine hp.rests_of_control hpatient hy hof ha heq id nofun ?_
    rintro ⟨l'', hl'', hunder⟩
    rw [hl', List.append_assoc, List.append_cancel_left_eq, List.append_cancel_left_eq] at hl''
    exact Scope.not_underWay_of_bracket hbracket (hl'' ▸ hunder)

end Patience

end Regime.Possible

end PooledSql
