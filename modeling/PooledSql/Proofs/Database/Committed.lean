import PooledSql.Proofs.Database.Returns
import PooledSql.Proofs.Database.Standing

/-!
# Transactions that are committed

What is behind it when a transaction returns a value: its connection has answered `COMMIT`, once,
and its scope is noted as committed (`Regime.Run.confirmed_of_returned`). What the answer says is
not looked at, so that a server which undoes a transaction at its `COMMIT`, and says so by answering
with another command, is taken to have committed it.
-/

namespace PooledSql

variable {c : Client} {α : Type} {D : Surroundings c} {g g' h : History c.setting c.requests}
  {i : TaskId} {k : LeaseId} {scope : ScopeId}

namespace History

/-- Whether a connection has answered `COMMIT` with that command. -/
def Confirmed (h : History c.setting c.requests) (k : LeaseId) (l : List (Deed c)) : Prop :=
  ∃ result, h.Answered k "COMMIT" l result ∧ result.command = "COMMIT"

/-- Whether a connection has answered `COMMIT` with another command, as a server does that has
undone the transaction. -/
def Denied (h : History c.setting c.requests) (k : LeaseId) (l : List (Deed c)) : Prop :=
  ∃ result, h.Answered k "COMMIT" l result ∧ result.command ≠ "COMMIT"

/-- A connection that has answered once has either confirmed or denied. -/
theorem confirmed_iff_of_answered {l : List (Deed c)} {result : Result}
    (hresult : ∀ r, h.Answered k "COMMIT" l r ↔ r = result) :
    h.Confirmed k l ↔ ¬ h.Denied k l := by
  have hconfirmed : h.Confirmed k l ↔ result.command = "COMMIT" := by
    simp [Confirmed, hresult]
  have hdenied : h.Denied k l ↔ result.command ≠ "COMMIT" := by
    simp [Denied, hresult]
  rw [hconfirmed, hdenied, not_not]

end History

namespace Scope

/-- A transaction that returns a value has begun, its work has returned the value, and `COMMIT` has
succeeded. -/
theorem ends_transaction_ok {pool : PoolId} {work : ScopeId → DatabaseM c α}
    {l : List (Deed c)} {a : α} (h : Fiber.Ends (transaction pool work) l (.ok a)) :
    ∃ k pid scope lb lw lc entry lr,
      l = opening pool k pid (some .notStarted) scope ++ (lb ++ (lw ++ (lc ++
        (noting scope entry .committed ++ Exchange.enters (.closeScope scope) () :: lr)))) ∧
      Fiber.Ends (begin scope) lb (.ok ()) ∧ Fiber.Ends (work scope) lw (.ok a) ∧
      Fiber.Ends (command scope "COMMIT") lc (.ok ()) ∧
      Fiber.Ends (DatabaseM.giveBack k (.ok a)) lr (.ok a) := by
  rw [transaction_eq] at h
  rcases ends_withScope h with ⟨f, -, hf⟩ | ⟨k, pid, scope, lw, o, lr, rfl, hbracket, hgive⟩
  · cases hf
  -- a value is left only if giving back the connection has succeeded
  obtain ⟨-, ans, -, -, -, hr⟩ := DatabaseM.ends_giveBack hgive
  obtain rfl : o = .ok a := by
    cases ans with
    | ok u => exact hr.symm
    | error f => cases hr
  cases ends_bracket hbracket with
  | @committed lb lw lc _ entry hb hw hc =>
    exact ⟨k, pid, scope, lb, lw, lc, entry, lr, by simp, hb, hw, hc, hgive⟩

end Scope

/-- When a transaction has returned a value, its work has, its scope is closed and noted as
committed, and its connection has confirmed `COMMIT`, if and only if the connection has not answered
with another command. -/
theorem Regime.Run.confirmed_of_returned {m : Machine c.setting c.requests (Ledger × D.World)}
    {b l : List (Deed c)} {pool : PoolId} {work : ScopeId → DatabaseM c α} {a : α}
    (hr : D.regime.Run h m) (hwork : ∀ scope, Public (work scope)) (heq : h = g ++ g')
    (hof : g.of i = b ++ l) (hl : Fiber.Ends (Scope.transaction pool work) l (.ok a)) :
    ∃ k pid scope lb lw lc lz,
      l = Scope.opening pool k pid (some .notStarted) scope ++ (lb ++ (lw ++ (lc ++ lz))) ∧
      Fiber.Ends (Scope.begin scope) lb (.ok ()) ∧ Fiber.Ends (work scope) lw (.ok a) ∧
      Fiber.Ends (Scope.command scope "COMMIT") lc (.ok ()) ∧
      g.scope? scope = some { lease := k, state := some .committed, closed := true } ∧
      (g.Confirmed k lc ↔ ¬ g.Denied k lc) := by
  subst heq
  have hp : D.regime.Possible g := hr.possible.of_append
  obtain ⟨k, pid, scope, lb, lw, lc, entry, lr, rfl, hb, hw, hc, hgive⟩ :=
    Scope.ends_transaction_ok hl
  refine ⟨k, pid, scope, lb, lw, lc, _, rfl, hb, hw, hc, ?_, ?_⟩
  · -- the entry of the scope is what its own task has done to it
    have hopen : g.of i = (b ++ DatabaseM.lending pool k pid) ++
        .enters (.openScope k (some .notStarted)) scope :: (lb ++ (lw ++ (lc ++
          (Scope.noting scope entry .committed ++
            Exchange.enters (.closeScope scope) () :: lr)))) := by
      simp [hof, Scope.opening]
    rw [hp.scope?_of_performed hopen]
    have hstands := hp.stands_of_public hopen (hwork scope) hw
    simp only [Scope.after_append, Scope.after_begin hb, hstands.after,
      (Scope.stands_command hc).after, Scope.after_noting, Scope.after_closing hgive]
  · -- the command has been answered, since it has succeeded
    have hcommit : g.of i =
        (b ++ (Scope.opening pool k pid (some .notStarted) scope ++ (lb ++ lw))) ++
        (lc ++ (Scope.noting scope entry .committed ++
          Exchange.enters (.closeScope scope) () :: lr)) := by
      simp [hof]
    have hopened : .enters (.openScope k (some .notStarted)) scope ∈
        b ++ (Scope.opening pool k pid (some .notStarted) scope ++ (lb ++ lw)) := by
      simp [Scope.opening]
    obtain ⟨result, hresult⟩ := hp.answered_of_ok hcommit hopened hc
    exact History.confirmed_iff_of_answered hresult

/-- A pool that grants what it is asked for, but undoes transactions at their `COMMIT`, as a server
does when a statement in them has failed. -/
def Pool.undoing (k : LeaseId) :
    (w : Client.silent.requests.Wait) → Except Failure (Client.silent.requests.Answer w)
  | .inl (.execute ..) => .ok ({ command := "ROLLBACK" } : Result)
  | w => Pool.granting k w

/-- A pool may undo a transaction. -/
theorem Surroundings.answers_undoing
    {h : History Client.silent.setting Client.silent.requests} {w : Client.silent.requests.Wait}
    (hk : ¬ h.Lent k) : Answers h w (Pool.undoing k w) := by
  match w with
  | .inl (.execute ..) => trivial
  | .inl (.acquire pool) => exact answers_granting (w := .inl (.acquire pool)) hk
  | .inl (.openPool _) | .inl (.release ..) | .inl (.cancelRunning _) | .inl (.close _) => trivial
  | .inr (.inl w) => nomatch w
  | .inr (.inr w) => nomatch w

/-- A transaction whose work takes no notice of the failure of its only statement. -/
def Scope.swallowing : DatabaseM .silent Reply :=
  transaction 0 fun scope => do
    let q ← submit scope (.ofString "BAD") (.tuple [])
    discard (Fiber.attempt q.result)
    return .value .null

/-- Work that swallows a failure uses a database by what it offers. -/
theorem Scope.swallowing_work_public (scope : ScopeId) : Public (do
    let q ← submit scope (.ofString "BAD") (.tuple [])
    discard (Fiber.attempt q.result)
    return .value .null : DatabaseM .silent Reply) := by
  refine .bind (.submitIn scope _ _) fun q => ?_
  have hwait : Public (q.result : DatabaseM .silent Reply) := .await (.inl (.join q.task)) trivial
  exact .bind (.bind hwait.attempt fun _ => .ofExcept (.ok ())) fun _ => .ofExcept (.ok _)

/-- Such a transaction uses a database by what it offers. -/
theorem Scope.swallowing_public : Public swallowing := .transaction 0 swallowing_work_public

/-- Whether a happening is the answer to a statement with some text by the command of some name. -/
def History.answersWith (sql command : String) : Happening c.setting c.requests → Bool
  | .deed _ (.answer (.inr (.inl (.execute _ _ statement))) (.ok result)) =>
    statement.sql == sql && (show Result from result).command == command
  | _ => false

/-- There is a run in which a transaction returns a value although its server has undone it, and has
said so. -/
theorem Scope.swallowing_run :
    ∃ (h : History Client.silent.setting Client.silent.requests)
      (m : Machine Client.silent.setting Client.silent.requests (Ledger × Unit)),
      (Surroundings.solo _ swallowing_public).regime.Run h m ∧
      Fiber.Ends swallowing (h.of 0) (.ok (.value .null)) ∧
      ∀ k l, ¬ h.Confirmed k l := by
  have hstart : (Surroundings.solo _ swallowing_public).regime.Run [] { world := ({}, ()) } :=
    .start rfl
  have hbegun := (((hstart.launch ⟨(), rfl⟩).runTurns 1).grant 0 0 (by decide)).runTurns 1
  have hbad := (hbegun.grant 1 1 (by decide)).runTurns 2
  have hrefused := (hbad.refuse 2 (Fault.driver "bad").failure).runTurns 2
  have hundone := (hrefused.reply 3 (Pool.undoing 1) fun _ _ _ _ _ =>
    Surroundings.answers_undoing (by decide)).runTurns 1
  obtain ⟨h, m, hr, hjob, hfinish, hnone⟩ : ∃ h m,
      (Surroundings.solo _ swallowing_public).regime.Run h m ∧
      h.jobs[0]? = some (.plain (.client ())) ∧ .finish 0 (.ok (.value .null)) ∈ h ∧
      h.any (History.answersWith "COMMIT" "COMMIT") = false :=
    ⟨_, _, hundone.grant 0 1 (by decide), rfl,
      List.mem_of_getElem? (i := 68) rfl, by decide +kernel⟩
  refine ⟨h, m, hr, ?_, ?_⟩
  · rcases hr.possible.finish_cases_of_job hjob hfinish with hends | ⟨-, hf, -⟩
    · exact hends
    · cases hf
  · rintro k l ⟨result, ⟨token, task, run, -, hserved⟩, hcommand⟩
    have hanswer := List.any_eq_false.mp hnone _ hserved
    simp [History.answersWith, commandStatement, hcommand] at hanswer

/-- A transaction that its server has undone is noted as committed, and its connection has denied
that it is. -/
theorem confirmed_of_returned_swallowing :
    ∃ (h : History Client.silent.setting Client.silent.requests)
      (m : Machine Client.silent.setting Client.silent.requests (Ledger × Unit)) (k : LeaseId)
      (scope : ScopeId) (l : List (Deed .silent)),
      (Surroundings.solo _ Scope.swallowing_public).regime.Run h m ∧
      Fiber.Ends Scope.swallowing (h.of 0) (.ok (.value .null)) ∧
      h.scope? scope = some { lease := k, state := some .committed, closed := true } ∧
      h.Denied k l := by
  obtain ⟨h, m, hr, hends, hnone⟩ := Scope.swallowing_run
  obtain ⟨k, pid, scope, lb, lw, lc, lz, -, -, -, -, hscope, hiff⟩ :=
    hr.confirmed_of_returned (b := []) Scope.swallowing_work_public
      (List.append_nil h).symm rfl hends
  exact ⟨h, m, k, scope, lc, hr, hends, hscope,
    not_not.mp fun hdenied => hnone k lc (hiff.mpr hdenied)⟩

/-- It is not so that a transaction returns a value only when its connection has confirmed
`COMMIT`. -/
theorem not_confirmed_of_returned :
    ¬ ∀ {c : Client} {α : Type} {D : Surroundings c} {h g g' : History c.setting c.requests}
      {m : Machine c.setting c.requests (Ledger × D.World)} {i : TaskId} {b l : List (Deed c)}
      {pool : PoolId} {work : ScopeId → DatabaseM c α} {a : α}, D.regime.Run h m →
      (∀ scope, Public (work scope)) → h = g ++ g' → g.of i = b ++ l →
      Fiber.Ends (Scope.transaction pool work) l (.ok a) → ∃ k l', g.Confirmed k l' := by
  intro hall
  obtain ⟨h, m, hr, hends, hnone⟩ := Scope.swallowing_run
  obtain ⟨k, l, hconfirmed⟩ :=
    hall (b := []) hr Scope.swallowing_work_public (List.append_nil h).symm rfl hends
  exact hnone k l hconfirmed

end PooledSql
