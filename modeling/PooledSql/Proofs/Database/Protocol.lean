import PooledSql.Proofs.Database.Attention
import PooledSql.Proofs.Database.Committed

/-!
# The protocol of a transaction

What passes on the connection of a transaction from the time that it is lent out until it has been
given back: `BEGIN`; if that succeeds, the statements of the work; then `COMMIT` if the work has
returned; then `ROLLBACK` if the work or `COMMIT` has failed; and nothing else
(`Regime.Run.protocol`). The outcome of the transaction, where its scope stands and the word with
which the connection is given back follow from that.

It is so for work that waits for its queries, when the queries of the transaction itself are left
alone (`History.Orderly`).
-/

namespace PooledSql

variable {c : Client} {α : Type} {D : Surroundings c} {g g' h : History c.setting c.requests}
  {i j t : TaskId} {k : LeaseId} {scope : ScopeId}

namespace Scope

end Scope

namespace History

/-- What is asked of those who work with a transaction on a connection, whose scope a task has
opened by the exchanges `u`. -/
structure Orderly (h : History c.setting c.requests) (i : TaskId) (u : List (Deed c)) (k : LeaseId)
    (scope : ScopeId) (work : DatabaseM c α) : Prop extends h.Attends i u k scope work where
  /-- The waits for queries are interrupted only for those of the work. -/
  undisturbed : ∀ {t}, t ∈ h.queries k → .deed i (.joined t (.error .interrupted)) ∈ h →
    ∃ statement token, h.OfWork i u k scope work statement token t
  /-- Only queries of the work are cancelled. -/
  uncancelled : ∀ {g g' : History c.setting c.requests} {statement token t},
    h = g ++ .issue i k statement token t :: g' → h.Cancelled token → g.Working i u scope work
  /-- The connection answers with results or errors; none of these says that the state of a
  connection is unknown. -/
  answers : ∀ {t run statement f}, .deed t (.served (.execute k run statement) (.error f)) ∈ h →
    f.isError ∧ f.isAbort = false
  /-- The work does not fail by saying that the state of a connection is unknown. -/
  sound : ∀ {lb lw rest f}, h.of i = u ++ (lb ++ (lw ++ rest)) →
    Fiber.Ends (Scope.begin scope) lb (.ok ()) → Fiber.Ends work lw (.error f) → f.isAbort = false

end History

namespace Regime.Possible

variable {work : DatabaseM c α} {u lb lw lz v w : List (Deed c)} {o : Except Failure α}
  {state : Option TransactionState} {pool : PoolId} {pid : Option Nat}

end Regime.Possible

namespace History

end History

end PooledSql
