import PooledSql.Proofs.Database.Shaping
import PooledSql.Proofs.Database.Standing
import PooledSql.Proofs.Result.Shapes

/-!
# Agreement of databases and scopes

A part of a query's result can be had from a database (`DatabaseM.fetch`), or from a scope that is
opened for it (`Scope.fetch`). A database puts the text of the statement together in the task that
runs it, a scope before it starts that task, and the connection goes back before the part is named
in the one case, and afterwards in the other.

* `Regime.Possible.leads_of_fetch`, `Regime.Possible.leads_of_connection`: either way, a statement
  is run once, and nothing besides.
* `Regime.Run.awaits_of_fetch`, `Regime.Run.awaits_of_connection`: whoever waits for ever waits for
  a request of that statement.
* `Surroundings.Errand.agree`: it makes no difference to the pools, or to the outcome, which way is
  taken.
-/

namespace PooledSql

variable {c : Client} {D : Surroundings c} {g₀ g h : History c.setting c.requests} {i j t : TaskId}
  {k k' : LeaseId} {pool : PoolId} {source : Source} {v params : Value} {token : TokenId}
  {shape : Shape} {statement : Statement} {l ls lw lr rest : List (Deed c)}
  {o r : Except Failure Reply} {scope : ScopeId} {w : (c.setting.interface.sum c.requests).Wait}

namespace DatabaseM

/-- Asking a database for a part of a query's result, and waiting for it. -/
def fetch (shape : Shape) (pool : PoolId) (source params : Value) : DatabaseM c Reply := do
  (← shaped shape (← submit pool source params)).result

/-- A part of a query's result is waited for after the query has been issued. -/
theorem ends_fetch (hsource : Source.ofValue v params = .ok source)
    (h : Fiber.Ends (fetch shape pool v params : DatabaseM c Reply) l r) :
    ∃ token j ls t, Shaping shape { task := j, token } ls t ∧
      l = .does .newToken token ::
        .does (.spawn (.query (.pooled pool source params token) token)) j ::
        (ls ++ [.joins t, .joined t r]) := by
  unfold fetch submit at h
  rw [hsource] at h
  rcases Fiber.ends_bind_iff.mp h with ⟨f, hf, -⟩ | ⟨q, _, _, rfl, hq, hshaped⟩
  · obtain ⟨token, task, -, he⟩ := Query.ends_issue hf
    cases he
  · obtain ⟨token, task, rfl, he⟩ := Query.ends_issue hq
    cases he
    obtain ⟨ls, t, hs, rfl⟩ := ends_shaped hshaped
    exact ⟨token, task, ls, t, hs, rfl⟩

/-- Whoever waits for a part of a query's result has issued the query. -/
theorem asks_fetch (hsource : Source.ofValue v params = .ok source)
    (h : Fiber.Asks (fetch shape pool v params : DatabaseM c Reply) l (.call w)) :
    ∃ token j ls t, Shaping shape { task := j, token } ls t ∧
      l = .does .newToken token ::
        .does (.spawn (.query (.pooled pool source params token) token)) j :: ls ∧
        w = .inl (.join t) := by
  unfold fetch submit at h
  rw [hsource] at h
  rcases Fiber.asks_bind_iff.mp h with hq | ⟨q, _, _, rfl, hq, hshaped⟩
  · rcases Query.asks_issue hq with ⟨-, _, he⟩ | ⟨_, _, -, he⟩ <;> cases he
  · obtain ⟨token, task, rfl, he⟩ := Query.ends_issue hq
    cases he
    obtain ⟨t, hs, rfl⟩ := asks_shaped hshaped
    exact ⟨token, task, _, t, hs, rfl, rfl⟩

end DatabaseM

namespace Scope

/-- Asking for a part of a query's result in a scope, and waiting for it. -/
def fetch (shape : Shape) (scope : ScopeId) (source params : Value) : DatabaseM c Reply := do
  (← DatabaseM.shaped shape (← submit scope source params)).result

/-- A part of a query's result is not had from a scope that is not open, nor for a statement that
cannot be put together; otherwise it is waited for after the query has been issued. -/
theorem ends_fetch (h : Fiber.Ends (fetch shape scope v params : DatabaseM c Reply) l r) :
    (∃ entry, l = [.enters (.scope scope) entry] ∧ Refuses entry) ∨
      (∃ k state pid f, l = [.enters (.scope scope) (some { lease := k, state, closed := false }),
          .inquires (.pid k) pid] ∧ Statement.build v params (.connection pid) = .error f ∧
            r = .error f) ∨
      ∃ k state pid statement token j ls t,
        Statement.build v params (.connection pid) = .ok statement ∧
        DatabaseM.Shaping shape { task := j, token } ls t ∧
        l = issuing scope k state pid statement token j ++ (ls ++ [.joins t, .joined t r]) := by
  rcases Fiber.ends_bind_iff.mp h with ⟨f, hs, rfl⟩ | ⟨q, _, _, rfl, hs, hshaped⟩
  · rcases ends_submit hs with ⟨entry, rfl, hrefuses, -⟩ | ⟨k, state, pid, f', rfl, hbuild, hf⟩ |
      ⟨_, _, _, _, _, _, _, _, hq⟩
    · exact .inl ⟨entry, rfl, hrefuses⟩
    · cases hf
      exact .inr (.inl ⟨k, state, pid, f, rfl, hbuild, rfl⟩)
    · cases hq
  · obtain ⟨k, state, pid, statement, token, task, hbuild, rfl, rfl⟩ := ends_submit_ok hs
    obtain ⟨ls, t, hshaping, rfl⟩ := DatabaseM.ends_shaped hshaped
    exact .inr (.inr ⟨k, state, pid, statement, token, task, ls, t, hbuild, hshaping, rfl⟩)

/-- Whoever waits in a scope for a part of a query's result has issued the query. -/
theorem asks_fetch (h : Fiber.Asks (fetch shape scope v params : DatabaseM c Reply) l (.call w)) :
    ∃ k state pid statement token j ls t,
      Statement.build v params (.connection pid) = .ok statement ∧
      DatabaseM.Shaping shape { task := j, token } ls t ∧
      l = issuing scope k state pid statement token j ++ ls ∧ w = .inl (.join t) := by
  rcases Fiber.asks_bind_iff.mp h with hs | ⟨q, _, _, rfl, hs, hshaped⟩
  · rcases asks_submit hs with ⟨_, he⟩ | he | ⟨_, he⟩ | ⟨_, _, _, _, _, _, -, -, he⟩
    · cases he
    · exact he.elim
    · cases he
    · cases he
  · obtain ⟨k, state, pid, statement, token, task, hbuild, rfl, rfl⟩ := ends_submit_ok hs
    obtain ⟨t, hshaping, rfl⟩ := DatabaseM.asks_shaped hshaped
    exact ⟨k, state, pid, statement, token, task, _, t, hbuild, hshaping, rfl, rfl⟩

end Scope

/-- No interruption reaches a task, or any that it starts, and none of the queries that it issues is
cancelled. -/
structure History.Undisturbed (h g : History c.setting c.requests) (i : TaskId) : Prop where
  not_interrupted : ∀ t ∈ g.crew i, .interrupt t ∉ h
  not_cancelled : ∀ token, .does .newToken token ∈ g.of i → ¬ h.Cancelled token

namespace Regime.Possible

/-- Whoever asks a database for a part of a query's result has a statement run once, and is given
the part that the shape names. -/
theorem leads_of_fetch (hp : D.regime.Possible (g₀ ++ g))
    (hsource : Source.ofValue v params = .ok source) (hu : History.Undisturbed (g₀ ++ g) g i)
    (hends : Fiber.Ends (DatabaseM.fetch shape pool v params : DatabaseM c Reply) (g.of i) r) :
    ∃ o, Pool.Leads (Pool.runOnce pool source params) (g.dealings (g.crew i)) (Fiber.ofExcept o) ∧
      r = o.bind shape.ofResult := by
  obtain ⟨token, j, ls, t, hs, hof⟩ := DatabaseM.ends_fetch hsource hends
  have hcrew : g.crew i = i :: j :: Exchange.starts ls := by
    simp [History.crew, hof, Exchange.started?]
  have hcalm := hcrew ▸ hu.not_interrupted
  have hfree := hu.not_cancelled token (by simp [hof])
  -- the query ends as a statement run once does, and whoever has issued it is given the part of
  -- that
  obtain ⟨hjob, -⟩ := hp.issued_shaping (u := [.does .newToken token]) hs hof
  obtain ⟨r', hfinish, hz⟩ := hp.finish_of_issued (u := [.does .newToken token]) hs hof
    (hcalm i (by simp)) (hcalm t hs.mem_crew) hfree
  obtain ⟨o, rfl, hleads⟩ := hp.leads_of_pooled hjob (hcalm j (by simp)) hfree hfinish
  refine ⟨o, ?_, hz o rfl⟩
  rw [hp.dealings_of_issued (u := [.does .newToken token]) hs hof rfl rfl hu.not_interrupted hfree]
  simpa [Exchange.dealing?] using hleads

end Regime.Possible

/-- Whoever asks a database for a part of a query's result, and waits for ever, has a request of
that statement waited for. -/
theorem Regime.Run.awaits_of_fetch {m : Machine c.setting c.requests (Ledger × D.World)}
    (hr : D.regime.Run (g₀ ++ g) m) (hturns : m.turns = [])
    (hsource : Source.ofValue v params = .ok source)
    (hu : History.Undisturbed (g₀ ++ g) g i) (hof : g.of i = l ++ [.call w])
    (hasks : Fiber.Asks (DatabaseM.fetch shape pool v params : DatabaseM c Reply) l (.call w)) :
    ∃ l' w', g.dealings (g.crew i) = l' ++ [.call w'] ∧
      Pool.Awaits (Pool.runOnce pool source params) l' w' := by
  obtain ⟨token, j, ls, t, hs, rfl, rfl⟩ := DatabaseM.asks_fetch hsource hasks
  have hfree := hu.not_cancelled token (by simp [hof])
  have hp := hr.possible
  obtain ⟨hjob, -⟩ := hp.issued_shaping (u := [.does .newToken token]) hs hof
  -- when all is quiet, it is the query that waits
  obtain ⟨l', w', hj⟩ := hr.waits_of_issued (u := [.does .newToken token]) hturns hs hof
    (hu.not_interrupted i (List.mem_cons_self ..))
  obtain ⟨w'', hdealings, hawaits⟩ := hp.awaits_of_pooled hjob hfree hj
  refine ⟨_, w'', ?_, hawaits⟩
  rw [hp.dealings_of_issued (u := [.does .newToken token]) hs hof rfl rfl hu.not_interrupted hfree,
    hdealings]
  simp [Exchange.dealing?]

/-- Giving a connection back starts nothing. -/
theorem DatabaseM.starts_giveBack {o : Except Failure Reply}
    (h : Fiber.Ends (giveBack k o : DatabaseM c Reply) l r) : Exchange.starts l = [] := by
  obtain ⟨pid, ans, after, rfl, hafter, -⟩ := ends_giveBack h
  simp [Exchange.starts_of_idle parting_idle, Exchange.starts_of_idle hafter, Exchange.started?]

/-- Naming a part of a result is no reason to give a connection back with a failure. -/
theorem DatabaseM.releaseCause_bind_ofResult {o : Except Failure Result} :
    releaseCause (o.bind shape.ofResult) = releaseCause o := by
  -- only the first column can fail, for want of a name, which is no abort
  cases o with
  | error f => rfl
  | ok result =>
    cases shape with
    | column =>
      have hcolumn : ∀ {f}, result.firstColumn = .error f → f.isAbort = false := by
        intro f hf
        obtain ⟨name, -, -, rfl⟩ := Result.firstColumn_eq_error_iff.mp hf
        rfl
      change releaseCause (do return Reply.column (← result.firstColumn)) = none
      cases hf : result.firstColumn with
      | ok vs => rfl
      | error f => exact if_neg (by simp [hcolumn hf])
    | _ => rfl

namespace Regime.Possible

/-- A scope that has just been opened is found open. -/
theorem entry_of_opened {state : Option TransactionState} {u : List (Deed c)} {entry : Option Scope}
    (hp : D.regime.Possible h)
    (hof : h.of i = u ++ .enters (.openScope k state) scope ::
      .enters (.scope scope) entry :: rest) :
    entry = some { lease := k, state, closed := false } := by
  rw [List.append_cons] at hof
  obtain ⟨a, b, rfl, ha, -⟩ := History.exists_split_of hof
  have hentry : entry = History.scope? a scope := hp.ledger_outcome
  exact hentry.trans (hp.of_append.scope?_of_performed ha)

/-- A query that is issued in a scope that has been opened for it runs on the connection that has
been lent for the scope, and the pools get to see of it what it does there. -/
theorem issued_inScope {pid pid' : Option Nat} {state : Option TransactionState}
    (hp : D.regime.Possible (g₀ ++ g)) (hsource : Source.ofValue v params = .ok source)
    (hu : History.Undisturbed (g₀ ++ g) g i)
    (hbuild : Statement.build v params (.connection pid') = .ok statement)
    (hs : DatabaseM.Shaping shape { task := j, token } ls t)
    (hof : g.of i = Scope.opening pool k pid none scope ++
      (Scope.issuing scope k' state pid' statement token j ++ (ls ++ .joins t :: rest)))
    (hrest : Exchange.starts rest = []) :
    ∃ u : List (Deed c),
      g.of i = u ++ .does (.spawn (.query (.scoped k statement token) token)) j ::
        (ls ++ .joins t :: rest) ∧
      (History.jobs (g₀ ++ g))[j]? = some (.query (.scoped k statement token) token) ∧
      (∀ t' ∈ i :: j :: Exchange.starts ls, .interrupt t' ∉ g₀ ++ g) ∧
      ¬ History.Cancelled (g₀ ++ g) token ∧
      Pool.Leads (Pool.working source params k) [.act (I := Pool.interface) (Pool.Act.pid k) pid']
        (Pool.executing k statement) ∧
      g.dealings (g.crew i) = Exchange.dealings (DatabaseM.lending pool k pid : List (Deed c)) ++
        (.act (I := Pool.interface) (Pool.Act.pid k) pid' :: Exchange.dealings ((g₀ ++ g).of j) ++
          Exchange.dealings rest) := by
  have hfirst : History.of (g₀ ++ g) i = (g₀.of i ++ DatabaseM.lending pool k pid) ++
      .enters (.openScope k none) scope ::
      .enters (.scope scope) (some { lease := k', state, closed := false }) ::
        ([.inquires (.pid k') pid', .does .newToken token] ++
          .does (.spawn (.query (.scoped k' statement token) token)) j ::
            (ls ++ .joins t :: rest)) := by
    rw [History.of_append, hof]
    simp [Scope.opening, Scope.issuing, Scope.consulting]
  -- the scope is found as it was opened, since nothing has happened to it in between
  have hentry := hp.entry_of_opened hfirst
  cases hentry
  have hof : g.of i =
      (Scope.opening pool k pid none scope ++ Scope.consulting scope k none pid' token) ++
      .does (.spawn (.query (.scoped k statement token) token)) j :: (ls ++ .joins t :: rest) := by
    rw [hof]
    simp [Scope.issuing]
  have hopening : Exchange.starts (Scope.opening pool k pid none scope ++
      Scope.consulting scope k none pid' token : List (Deed c)) = [] := by
    simp [Scope.opening, DatabaseM.lending, Scope.consulting, Exchange.started?]
  -- apart from the query and what derives from it, nobody has been started
  have hcrew : g.crew i = i :: j :: Exchange.starts ls := by
    rw [History.crew, hof, Exchange.starts_append, hopening]
    simp [hrest, Exchange.started?]
  have hfree := hu.not_cancelled token (by simp [hof, Scope.consulting])
  obtain ⟨hjob, -⟩ := hp.issued_shaping hs hof
  have hbuild : source.statement params (.connection pid') = .ok statement := by
    rw [Statement.build, hsource] at hbuild
    exact hbuild
  refine ⟨_, hof, hjob, hcrew ▸ hu.not_interrupted, hfree, Pool.leads_working_of_ok hbuild, ?_⟩
  rw [hp.dealings_of_issued hs hof hopening hrest hu.not_interrupted hfree]
  simp [Scope.opening, Scope.consulting, Exchange.dealing?]

/-- What a scope is opened for that a part of a query's result is asked for in: the statement is put
together and run once, and the part is the one that the shape names. -/
theorem leads_of_scopedFetch {pid : Option Nat} (hp : D.regime.Possible (g₀ ++ g))
    (hsource : Source.ofValue v params = .ok source) (hu : History.Undisturbed (g₀ ++ g) g i)
    (hof : g.of i = Scope.opening pool k pid none scope ++ (lw ++ rest))
    (hrest : Exchange.starts rest = [])
    (hends : Fiber.Ends (Scope.fetch shape scope v params : DatabaseM c Reply) lw r) :
    ∃ (l : List (Exchange Pool.interface)) (o : Except Failure Result),
      g.dealings (g.crew i) = Exchange.dealings (DatabaseM.lending pool k pid : List (Deed c)) ++
        (l ++ Exchange.dealings rest) ∧
      Pool.Leads (Pool.working source params k) l (Fiber.ofExcept o) ∧
      r = o.bind shape.ofResult := by
  -- the scope is found as it was opened
  have hfound : ∀ {entry : Option Scope} {l : List (Deed c)},
      lw = .enters (.scope scope) entry :: l →
      entry = some { lease := k, state := none, closed := false } := by
    rintro entry l rfl
    have hfirst : History.of (g₀ ++ g) i = (g₀.of i ++ DatabaseM.lending pool k pid) ++
        .enters (.openScope k none) scope :: .enters (.scope scope) entry :: (l ++ rest) := by
      rw [History.of_append, hof]
      simp [Scope.opening]
    exact hp.entry_of_opened hfirst
  rcases Scope.ends_fetch hends with
    ⟨entry, hlw, hrefuses⟩ | ⟨k', state, pid', f, hlw, hbuild, rfl⟩ |
    ⟨k', state, pid', statement, token, j, ls, t, hbuild, hs, hlw⟩
  · -- the scope is open
    exact absurd (hfound hlw) (hrefuses k none)
  · -- the statement cannot be put together, and so nobody is started for it
    cases hfound hlw
    have halone : Exchange.starts (g.of i) = [] := by
      simp [hof, hlw, hrest, Scope.opening, DatabaseM.lending, Exchange.started?]
    have hbuild : source.statement params (.connection pid') = .error f := by
      rw [Statement.build, hsource] at hbuild
      exact hbuild
    refine ⟨_, .error f, ?_, Pool.leads_working_of_error hbuild, rfl⟩
    rw [History.dealings_of_alone halone, hof, hlw]
    simp [Scope.opening, Exchange.dealing?]
  · -- the query is issued, and runs the statement
    have hall : g.of i = Scope.opening pool k pid none scope ++
        (Scope.issuing scope k' state pid' statement token j ++
        (ls ++ .joins t :: .joined t r :: rest)) := by
      rw [hof, hlw]
      simp
    obtain ⟨u, hof', hjob, hcalm, hfree, hworking, hdealings⟩ :=
      hp.issued_inScope hsource hu hbuild hs hall (by simpa [Exchange.started?] using hrest)
    obtain ⟨r', hfinish, hz⟩ :=
      hp.finish_of_issued hs hof' (hcalm i (by simp)) (hcalm t hs.mem_crew) hfree
    obtain ⟨o, rfl, hleads⟩ := hp.leads_of_scoped hjob (hcalm j (by simp)) hfree hfinish
    refine ⟨_, o, ?_, hworking.trans hleads, hz o rfl⟩
    simpa [Exchange.dealing?] using hdealings

/-- Whoever opens a scope to ask for a part of a query's result has a statement run once, and is
given the part that the shape names. -/
theorem leads_of_connection (hp : D.regime.Possible (g₀ ++ g))
    (hsource : Source.ofValue v params = .ok source) (hu : History.Undisturbed (g₀ ++ g) g i)
    (hends : Fiber.Ends (Scope.connection pool fun scope => Scope.fetch shape scope v params :
      DatabaseM c Reply) (g.of i) r) :
    ∃ o, Pool.Leads (Pool.runOnce pool source params) (g.dealings (g.crew i)) (Fiber.ofExcept o) ∧
      r = o.bind shape.ofResult := by
  rcases Scope.ends_withScope hends with ⟨f, hof, rfl⟩ | ⟨k, pid, scope, lw, o, lr, hof, hw, hback⟩
  · -- the pool refuses, which is all that happens
    rw [History.dealings_of_alone (by simp [hof, Exchange.started?]), hof]
    exact ⟨.error f, .await (.nil _), rfl⟩
  · have hrest : Exchange.starts (Exchange.enters (.closeScope scope) () :: lr) = [] := by
      simp [DatabaseM.starts_giveBack hback, Exchange.started?]
    obtain ⟨l, o, hdealings, hleads, rfl⟩ := hp.leads_of_scopedFetch hsource hu hof hrest hw
    obtain ⟨ans, hreturn, rfl⟩ := Pool.leads_giveBack DatabaseM.releaseCause_bind_ofResult hback
    -- a failure of giving back takes the place of the outcome, in both orders
    refine ⟨ans.bind fun _ => o, ?_, by cases ans <;> rfl⟩
    rw [hdealings]
    exact Pool.leads_lending.trans (hleads.attempt.trans hreturn)

end Regime.Possible

/-- Whoever opens a scope to ask for a part of a query's result, and waits for ever, has a request
of that statement waited for. -/
theorem Regime.Run.awaits_of_connection {m : Machine c.setting c.requests (Ledger × D.World)}
    (hr : D.regime.Run (g₀ ++ g) m) (hturns : m.turns = [])
    (hsource : Source.ofValue v params = .ok source)
    (hu : History.Undisturbed (g₀ ++ g) g i) (hof : g.of i = l ++ [.call w])
    (hasks : Fiber.Asks (Scope.connection pool fun scope => Scope.fetch shape scope v params :
      DatabaseM c Reply) l (.call w)) :
    ∃ l' w', g.dealings (g.crew i) = l' ++ [.call w'] ∧
      Pool.Awaits (Pool.runOnce pool source params) l' w' := by
  have hp := hr.possible
  rcases Scope.asks_withScope hasks with ⟨rfl, he⟩ | hidle | ⟨_, _, _, _, he⟩ |
    ⟨k, pid, scope, l, rfl, hw | ⟨o, lw, hw, ⟨_, he⟩ | ⟨lr, rfl, hback⟩⟩⟩
  · -- a connection is being waited for
    cases he
    rw [History.dealings_of_alone (by simp [hof, Exchange.started?]), hof]
    exact ⟨[], _, rfl, _, .nil _⟩
  · exact hidle.elim
  · cases he
  · -- the query is being waited for, and waits itself
    obtain ⟨k', state, pid', statement, token, j, ls, t, hbuild, hs, rfl, rfl⟩ :=
      Scope.asks_fetch hw
    obtain ⟨u, hof', hjob, hcalm, hfree, hworking, hdealings⟩ := hp.issued_inScope hsource hu hbuild
      hs (by simpa using hof) rfl
    obtain ⟨l', w', hj⟩ := hr.waits_of_issued hturns hs hof' (hcalm i (List.mem_cons_self ..))
    obtain ⟨w'', hquery, hawaits⟩ := hp.awaits_of_scoped hjob hfree hj
    have hquery : g.dealings (g.crew i) =
        (Exchange.dealings (DatabaseM.lending pool k pid : List (Deed c)) ++
        ([.act (I := Pool.interface) (Pool.Act.pid k) pid'] ++ Exchange.dealings l')) ++
          [.call w''] := by
      rw [hdealings, hquery]
      simp
    exact ⟨_, w'', hquery, (hawaits.after hworking).attempt.after Pool.leads_lending⟩
  · cases he
  · -- the connection is being given back
    have hrest :
        Exchange.starts (Exchange.enters (.closeScope scope) () :: (lr ++ [.call w])) = [] := by
      rcases DatabaseM.asks_giveBack hback with hidle | ⟨-, pid', rfl⟩
      · exact hidle.elim
      · simp [Exchange.starts_of_idle DatabaseM.parting_idle, Exchange.started?]
    obtain ⟨l, o, hdealings, hleads, rfl⟩ :=
      hp.leads_of_scopedFetch hsource hu (by simpa using hof) hrest hw
    obtain ⟨w', hw', hawaits⟩ := Pool.awaits_giveBack DatabaseM.releaseCause_bind_ofResult hback
    have hall : g.dealings (g.crew i) =
        (Exchange.dealings (DatabaseM.lending pool k pid : List (Deed c)) ++
        (l ++ Exchange.dealings lr)) ++ [.call w'] := by
      have hclose : (.enters (.closeScope scope) () : Deed c).dealing? = none := rfl
      rw [hdealings]
      simp [hclose, hw']
    exact ⟨_, w', hall, (hawaits.after hleads.attempt).after Pool.leads_lending⟩

/-- As soon as a task that derives from a query on a pool has ended, or the query itself has, the
pools get to see no more of it. -/
theorem Regime.Possible.quiet_of_finish {a d : History c.setting c.requests}
    {x : Except Failure Reply}
    (hp : D.regime.Possible (g₀ ++ g)) (hsource : Source.ofValue v params = .ok source)
    (hu : History.Undisturbed (g₀ ++ g) g i)
    (hends : Fiber.Ends (DatabaseM.fetch shape pool v params : DatabaseM c Reply) (g.of i) r)
    (heq : g = a ++ .finish t x :: d) (ht : t ∈ g.crew i) (hne : t ≠ i) :
    d.dealings (g.crew i) = [] := by
  obtain ⟨token, j, ls, t', hs, hof⟩ := DatabaseM.ends_fetch hsource hends
  have hcrew : g.crew i = i :: j :: Exchange.starts ls := by
    simp [History.crew, hof, Exchange.started?]
  have hcalm := hcrew ▸ hu.not_interrupted
  obtain ⟨-, -, hderived, -⟩ := hp.issued_shaping (u := [.does .newToken token]) hs hof
  have hself : Exchange.dealings (g.of i) = [] := by
    rw [hof]
    simp [hs.unseen, Exchange.dealing?]
  rw [hcrew] at ht ⊢
  have hsplit : g₀ ++ g = (g₀ ++ a) ++ .finish t x :: d := by
    rw [heq, List.append_assoc]
  -- what derives from the query ends after the query has
  have hquery : History.Finished ((g₀ ++ a) ++ [.finish t x]) j := by
    simp only [List.mem_cons, hne, false_or] at ht
    rcases ht with rfl | ht
    · exact ⟨x, by simp⟩
    cases hs with
    | whole => cases ht
    | part =>
      obtain rfl := List.mem_singleton.mp ht
      have hspawned : .deed i (.does (.spawn (.derived j shape.ofReply token)) t) ∈ g₀ ++ g :=
        List.mem_append_right _ (History.mem_of_iff.mp (by simp [hof]))
      obtain ⟨p, p', hpeq⟩ := List.append_of_mem hspawned
      have hjob := hpeq ▸ (hpeq ▸ hp).job_of_spawned
      have hcalmt := hcalm t (by simp [Exchange.started?])
      rw [hsplit] at hp hjob hcalmt
      obtain ⟨r', hr', -⟩ :=
        hp.finish_of_derived hjob fun hint => hcalmt (List.mem_append_left _ hint)
      exact History.Finished.mono ⟨r', hr'⟩
  have hover : History.of d j = [] := by
    rw [hsplit, List.append_cons] at hp
    exact hp.of_eq_nil_of_finished hquery
  rw [heq] at hderived hself
  -- of the others, none deals with the pools at all
  have hlate : ∀ t' ∈ Exchange.starts ls, Exchange.dealings (History.of d t') = [] := fun t' ht' =>
    (by simpa [Happening.deed?] using hderived t' ht' : _ ∧ _ ∧
      Exchange.dealings (History.of d t') = []).2.2
  rw [History.dealings_left hlate hover]
  exact (by simpa [Happening.deed?] using hself : _ ∧ Exchange.dealings (History.of d i) = []).2

namespace Surroundings

/-- In the course of `g`, which comes after `g₀`, a task does some work, undisturbed, while the
pools behave in some way. Either the work is over with `g`, or the history ends before the work
does. -/
structure Errand (D : Surroundings c) (b : Pool.interface.Behaviour)
    (m : Machine c.setting c.requests (Ledger × D.World)) (g₀ g g₁ : History c.setting c.requests)
    (i : TaskId)
    (y : DatabaseM c Reply) : Prop where
  run : D.regime.Run (g₀ ++ g ++ g₁) m
  performs : D.regime.Performs (g₀ ++ g ++ g₁) i (g₀.of i) y
  extent : (∃ r, Fiber.Ends y (g.of i) r) ∨
    g₁ = [] ∧ ∀ l l' r, g.of i = l ++ l' → ¬ Fiber.Ends y l r
  undisturbed : History.Undisturbed (g₀ ++ g) g i
  governed : b.Governs [] (g.dealings (g.crew i))

namespace Errand

variable {b : Pool.interface.Behaviour} {m : Machine c.setting c.requests (Ledger × D.World)}
  {g₁ : History c.setting c.requests} {y : DatabaseM c Reply}

/-- When there are no more turns, some work is over or waits for something. -/
theorem over_or_waits (h : D.Errand b m g₀ g g₁ i y) (hturns : m.turns = []) :
    (∃ r, Fiber.Ends y (g.of i) r) ∨
      g₁ = [] ∧ ∃ l w, g.of i = l ++ [.call w] ∧ Fiber.Asks y l (.call w) := by
  refine h.extent.imp_right fun ⟨hnil, hnone⟩ => ⟨hnil, ?_⟩
  subst hnil
  have hr := h.run
  have hy := h.performs
  rw [List.append_nil] at hr hy
  have hp := hr.possible
  by_cases hidle : (g₀ ++ g).of i = []
  · -- whoever has begun with the work has done something, or it is over at once
    obtain ⟨job, hjob, hcomes⟩ := hy
    rcases hr.begun hturns hjob with ⟨l, w, hl⟩ | ⟨r, hr⟩
    · simp [hidle] at hl
    rcases hp.finish_cases_of_job hjob hr with hends | ⟨-, -, hint⟩
    · rw [History.of_append] at hends
      obtain ⟨l₁, l₂, r, hl, hends⟩ := hcomes.ends_cases hends
      exact absurd hends (hnone l₁ l₂ r hl)
    · exact absurd hint (h.undisturbed.not_interrupted i (List.mem_cons_self ..))
  · -- whoever has done something is over or waits, as it has no turn
    rcases hy.ends_or_waits hp hr.atRest History.of_append hidle with
      ⟨l₁, l₂, r, hl, hends⟩ | hwaits
    · exact absurd hends (hnone l₁ l₂ r hl)
    · exact hwaits

/-- What passes between a statement that is run once and the pools is what has passed in the course
of some work, if it has got as far as that work. -/
theorem meets (h : D.Errand b m g₀ g g₁ i y)
    (hends : ∀ r, D.regime.Possible (g₀ ++ g) → Fiber.Ends y (g.of i) r →
      ∃ o, Pool.Leads (Pool.runOnce pool source params) (g.dealings (g.crew i)) (Fiber.ofExcept o) ∧
        r = o.bind shape.ofResult)
    (hwaits : ∀ l w, D.regime.Run (g₀ ++ g) m → m.turns = [] → g.of i = l ++ [.call w] →
      Fiber.Asks y l (.call w) →
      ∃ l' w', g.dealings (g.crew i) = l' ++ [.call w'] ∧
        Pool.Awaits (Pool.runOnce pool source params) l' w') :
    (∀ r, Fiber.Ends y (g.of i) r → ∃ o, (Pool.runOnce pool source params).run.against b [] =
        (Exchange.events (g.dealings (g.crew i)), some o) ∧ r = o.bind shape.ofResult) ∧
      (m.turns = [] → b.Ignores (g.dealings (g.crew i)) → (∃ r, Fiber.Ends y (g.of i) r) ∨
        (Pool.runOnce pool source params).run.against b [] =
          (Exchange.events (g.dealings (g.crew i)), none)) := by
  constructor
  · intro r hr
    -- what the pools do is governed by their behaviour, and so it is what a statement meets
    obtain ⟨o, hleads, hz⟩ := hends r h.run.possible.of_append hr
    exact ⟨o, Program.against_of_done hleads h.governed, hz⟩
  · intro hturns hignores
    refine (h.over_or_waits hturns).imp_right fun ⟨hnil, l, w, hof, hasks⟩ => ?_
    have hr := h.run
    rw [hnil, List.append_nil] at hr
    obtain ⟨l', w', hdealings, next, hleads⟩ := hwaits l w hr hturns hof hasks
    have hgoverned := h.governed
    rw [hdealings] at hgoverned hignores ⊢
    exact Program.against_of_await hleads hgoverned hignores

variable {c' : Client} {D' : Surroundings c'} {g₀' g' g₁' : History c'.setting c'.requests}
  {i' : TaskId} {m' : Machine c'.setting c'.requests (Ledger × D'.World)}

/-- Whether a part of a query's result is asked of a database or of a scope that is opened for it
makes no difference, neither to the pools nor to the outcome.

When both are over, the pools have got to see the same requests, at most one of them to run a
statement, and have given the same answers. These are what passes between the pools and a statement
that is run once. The outcome of both is what the shape names of what has come of the statement. By
the time that the part is there which is asked of a database, there are no more dealings with the
pools.

When neither has any more turns, and the pools have no answer to what has been asked of them last,
they have been asked the same, and both are over or neither is. -/
theorem agree (hsource : Source.ofValue v params = .ok source)
    (hdirect : D.Errand b m g₀ g g₁ i (DatabaseM.fetch shape pool v params))
    (hscoped : D'.Errand b m' g₀' g' g₁' i'
      (Scope.connection pool fun scope => Scope.fetch shape scope v params)) :
    (∀ r r', Fiber.Ends (DatabaseM.fetch shape pool v params : DatabaseM c Reply) (g.of i) r →
        Fiber.Ends (Scope.connection pool fun scope =>
          Scope.fetch shape scope v params : DatabaseM c' Reply) (g'.of i') r' →
        r = r' ∧ Exchange.events (g.dealings (g.crew i)) = Exchange.events
          (g'.dealings (g'.crew i')) ∧
          (Exchange.events (g.dealings (g.crew i))).countP
            (Exchange.calls Pool.Wait.isExecute) ≤ 1 ∧
          (∃ o, (Pool.runOnce pool source params).run.against b [] =
              (Exchange.events (g.dealings (g.crew i)), some o) ∧ r = o.bind shape.ofResult) ∧
          ∀ (a d : History c.setting c.requests) (t : TaskId) (x : Except Failure Reply),
            g = a ++ .finish t x :: d → t ∈ g.crew i → t ≠ i → d.dealings (g.crew i) = []) ∧
      (m.turns = [] → m'.turns = [] → b.Ignores (g.dealings (g.crew i)) →
        b.Ignores (g'.dealings (g'.crew i')) →
        Exchange.events (g.dealings (g.crew i)) = Exchange.events (g'.dealings (g'.crew i')) ∧
          ((∃ r, Fiber.Ends (DatabaseM.fetch shape pool v params : DatabaseM c Reply) (g.of i) r) ↔
            ∃ r', Fiber.Ends (Scope.connection pool fun scope => Scope.fetch shape scope v params :
              DatabaseM c' Reply) (g'.of i') r')) := by
  -- both meet the same statement, run once against the same behaviour
  obtain ⟨hends, hwaits⟩ := hdirect.meets
    (fun _ hp hr => hp.leads_of_fetch hsource hdirect.undisturbed hr)
    fun _ _ hr hturns hof hasks => hr.awaits_of_fetch hturns hsource hdirect.undisturbed hof hasks
  obtain ⟨hends', hwaits'⟩ := hscoped.meets
    (fun _ hp hr => hp.leads_of_connection hsource hscoped.undisturbed hr)
    fun _ _ hr hturns hof hasks =>
      hr.awaits_of_connection hturns hsource hscoped.undisturbed hof hasks
  have hsame : ∀ {r r'}, Fiber.Ends (DatabaseM.fetch shape pool v params) (g.of i) r →
      Fiber.Ends (Scope.connection pool fun scope => Scope.fetch shape scope v params)
        (g'.of i') r' →
      r = r' ∧ Exchange.events (g.dealings (g.crew i)) = Exchange.events
        (g'.dealings (g'.crew i')) := by
    intro r r' hr hr'
    obtain ⟨o, hmeets, rfl⟩ := hends r hr
    obtain ⟨o', hmeets', rfl⟩ := hends' r' hr'
    have hboth := hmeets.symm.trans hmeets'
    simp only [Prod.mk.injEq, Option.some.injEq] at hboth
    obtain ⟨hevents, rfl⟩ := hboth
    exact ⟨rfl, hevents⟩
  refine ⟨fun r r' hr hr' => ?_, fun hturns hturns' hignores hignores' => ?_⟩
  · obtain ⟨o, hmeets, hz⟩ := hends r hr
    refine ⟨(hsame hr hr').1, (hsame hr hr').2, ?_, ⟨o, hmeets, hz⟩, fun a d t x heq ht hne => ?_⟩
    · have honce : (((Pool.runOnce pool source params).run.against b []).1.countP
          (Exchange.calls Pool.Wait.isExecute)) ≤ 0 + 1 := Pool.atMost_runOnce.countP_against_le
      rwa [hmeets] at honce
    · exact hdirect.run.possible.of_append.quiet_of_finish hsource hdirect.undisturbed hr heq ht hne
  · -- a statement that is run once does not both end and wait for ever
    have hclash : ∀ {e e' o}, (Pool.runOnce pool source params).run.against b [] = (e, some o) →
        (Pool.runOnce pool source params).run.against b [] ≠ (e', none) :=
      fun hended hwaiting => nomatch congrArg Prod.snd (hended.symm.trans hwaiting)
    rcases hwaits hturns hignores with ⟨r, hr⟩ | hmeets <;>
      rcases hwaits' hturns' hignores' with ⟨r', hr'⟩ | hmeets'
    · exact ⟨(hsame hr hr').2, iff_of_true ⟨r, hr⟩ ⟨r', hr'⟩⟩
    · obtain ⟨o, hended, -⟩ := hends r hr
      exact (hclash hended hmeets').elim
    · obtain ⟨o, hended, -⟩ := hends' r' hr'
      exact (hclash hended hmeets).elim
    · refine ⟨congrArg Prod.fst (hmeets.symm.trans hmeets'), iff_of_false ?_ ?_⟩
      · rintro ⟨r, hr⟩
        obtain ⟨o, hended, -⟩ := hends r hr
        exact hclash hended hmeets
      · rintro ⟨r', hr'⟩
        obtain ⟨o, hended, -⟩ := hends' r' hr'
        exact hclash hended hmeets'

end Errand

end Surroundings

/-- Whether a happening is an interruption, or sets a token. -/
def Happening.disturbs : Happening c.setting c.requests → Bool
  | .interrupt _ => true
  | .deed _ (.act (.inl (.trip _)) _) => true
  | _ => false

/-- Nobody is disturbed where there are no disturbances. -/
theorem History.Undisturbed.of_all (hall : h.all fun e => !e.disturbs) : h.Undisturbed g i := by
  rw [List.all_eq_true] at hall
  refine ⟨fun t _ hint => Bool.noConfusion (hall _ hint), fun token _ hset => ?_⟩
  obtain ⟨a, t, out, d, rfl, -⟩ := hset
  exact Bool.noConfusion (hall (.deed t (.act (.inl (.trip token)) out)) (by simp))

/-- A part of a query's result is named by what a database offers. -/
theorem DatabaseM.shaped_public (shape : Shape) (q : Query) :
    Public (shaped shape q : DatabaseM c Query) := by
  have hderived : ∀ f : Reply → Except Failure Reply,
      Public (q.derive (S := c.setting) f : DatabaseM c Query) :=
    fun f => .bind (.act (.inl (.spawn (.derived q.task f q.token))) (.derived ..)) fun _ =>
      .ofExcept (.ok _)
  cases shape with
  | result => exact .ofExcept (.ok q)
  | rows | row | value | column => exact hderived _

/-- Whoever asks a database for a part of a query's result uses it by what it offers. -/
theorem DatabaseM.fetch_public (shape : Shape) (pool : PoolId) (v params : Value) :
    Public (fetch shape pool v params : DatabaseM c Reply) :=
  .bind (.submit pool v params) fun q =>
    .bind (shaped_public shape q) fun q => .await (.inl (.join q.task)) trivial

/-- Whoever asks a scope for a part of a query's result uses the database by what it offers. -/
theorem Scope.fetch_public (shape : Shape) (scope : ScopeId) (v params : Value) :
    Public (fetch shape scope v params : DatabaseM c Reply) :=
  .bind (.submitIn scope v params) fun q =>
    .bind (DatabaseM.shaped_public shape q) fun q => .await (.inl (.join q.task)) trivial

/-- Asking a database for a value. -/
def DatabaseM.selecting : DatabaseM .silent Reply :=
  fetch .value 0 (.ofString "SELECT 1") (.tuple [])

/-- Opening a scope to ask for a value. -/
def Scope.selecting : DatabaseM .silent Reply :=
  connection 0 fun scope => fetch .value scope (.ofString "SELECT 1") (.tuple [])

/-- Pools that grant whatever they are asked for, and tell nothing about connections. -/
def Pool.generous : Pool.interface.Behaviour where
  outcome
    | _, .pid _ => none
    | _, .activeRun _ => none
  answer? _ w := some (granting 0 (.inl w))

/-- A program that runs on its own, and has ended, has done what it is. -/
theorem Surroundings.Errand.of_solo {program : DatabaseM .silent Reply} {hprogram : Public program}
    {h : History Client.silent.setting Client.silent.requests}
    {m : Machine Client.silent.setting Client.silent.requests (Ledger × Unit)}
    {b : Pool.interface.Behaviour} {a : Reply} (hr : (solo program hprogram).regime.Run h m)
    (hjob : h.jobs[0]? = some (.plain (.client ()))) (hfinish : .finish 0 (.ok a) ∈ h)
    (hcalm : h.all fun e => !e.disturbs) (hb : b.Governs [] (h.dealings (h.crew 0))) :
    (solo program hprogram).Errand b m [] h [] 0 program ∧ Fiber.Ends program (h.of 0) (.ok a) := by
  have hends : Fiber.Ends program (h.of 0) (.ok a) := by
    rcases hr.possible.finish_cases_of_job hjob hfinish with hends | ⟨-, hf, -⟩
    · exact hends
    · cases hf
  refine ⟨?_, hends⟩
  -- nothing has happened before, and nothing happens beside it
  constructor
  · rwa [List.nil_append, List.append_nil]
  · rw [List.nil_append, List.append_nil]
    exact ⟨_, hjob, .refl _⟩
  · exact .inl ⟨_, hends⟩
  · exact .of_all hcalm
  · exact hb

/-- A value that a database is asked for, and one that a scope is opened for, are the same. -/
theorem Surroundings.Errand.agree_selecting :
    ∃ (g g' : History Client.silent.setting Client.silent.requests)
      (m m' : Machine Client.silent.setting Client.silent.requests (Ledger × Unit))
      (r r' : Except Failure Reply),
      (solo DatabaseM.selecting (DatabaseM.fetch_public ..)).Errand Pool.generous m [] g [] 0
        DatabaseM.selecting ∧
      (solo Scope.selecting (.connection 0 fun _ => Scope.fetch_public ..)).Errand Pool.generous
        m' [] g' [] 0 Scope.selecting ∧
      Fiber.Ends DatabaseM.selecting (g.of 0) r ∧ Fiber.Ends Scope.selecting (g'.of 0) r' ∧ r = r' ∧
      Exchange.events (g.dealings (g.crew 0)) = Exchange.events (g'.dealings (g'.crew 0)) := by
  have hstart : (solo DatabaseM.selecting (DatabaseM.fetch_public ..)).regime.Run []
      { world := ({}, ()) } := .start rfl
  have hlent := ((hstart.launch ⟨(), rfl⟩).runTurns 3).grant 1 0 (by decide)
  have hback := ((hlent.grant 1 1 (by decide)).grant 1 1 (by decide)).runTurns 2
  have hstart' : (solo Scope.selecting (.connection 0 fun _ => Scope.fetch_public ..)).regime.Run []
      { world := ({}, ()) } := .start rfl
  have hlent' := (((hstart'.launch ⟨(), rfl⟩).runTurns 1).grant 0 0 (by decide)).runTurns 2
  have hback' := ((hlent'.grant 1 1 (by decide)).runTurns 2).grant 0 1 (by decide)
  obtain ⟨g, m, hdirect, hends, hturns, hignores⟩ : ∃ g m,
      (solo DatabaseM.selecting (DatabaseM.fetch_public ..)).Errand Pool.generous m [] g [] 0
        DatabaseM.selecting ∧ Fiber.Ends DatabaseM.selecting (g.of 0) (.ok (.value .null)) ∧
        m.turns = [] ∧
      Pool.generous.Ignores (g.dealings (g.crew 0)) := by
    obtain ⟨hdirect, hends⟩ :=
      of_solo (b := Pool.generous) hback rfl (List.mem_of_getElem? (i := 31) rfl) rfl
        ⟨trivial, rfl, rfl, rfl, trivial, rfl, trivial, rfl, rfl, trivial⟩
    exact ⟨_, _, hdirect, hends, rfl, nofun⟩
  obtain ⟨g', m', hscoped, hends', hturns', hignores'⟩ : ∃ g' m',
      (solo Scope.selecting (.connection 0 fun _ => Scope.fetch_public ..)).Errand Pool.generous
        m' [] g' [] 0 Scope.selecting ∧ Fiber.Ends Scope.selecting (g'.of 0) (.ok (.value .null)) ∧
        m'.turns = [] ∧
      Pool.generous.Ignores (g'.dealings (g'.crew 0)) := by
    obtain ⟨hscoped, hends⟩ :=
      of_solo (b := Pool.generous) hback' rfl (List.mem_of_getElem? (i := 33) rfl) rfl
        ⟨trivial, rfl, rfl, rfl, trivial, rfl, trivial, rfl, rfl, trivial⟩
    exact ⟨_, _, hscoped, hends, rfl, nofun⟩
  have hsource :
      Source.ofValue (.ofString "SELECT 1") (.tuple []) = .ok (.text .plain "SELECT 1") := rfl
  obtain ⟨hover, hquiet⟩ := agree hsource hdirect hscoped
  exact ⟨g, g', m, m', _, _, hdirect, hscoped, hends, hends', (hover _ _ hends hends').1,
    (hquiet hturns hturns' hignores hignores').1⟩

end PooledSql
