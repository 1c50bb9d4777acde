import PooledSql.Database.Scope
import PooledSql.Proofs.Task.Exchange

/-!
# Deeds of a database

The exchanges of programs that use a database, by kind. A program is opened by `Fiber.ends_bind_iff`
and `Fiber.asks_bind_iff` down to the acts and waits that come to these exchanges.
-/

namespace PooledSql

/-- What passes between a program that uses a database and its surroundings. -/
abbrev Deed (c : Client) : Type := Exchange (c.setting.interface.sum c.requests)

namespace Exchange

variable {c : Client}

/-- An act of a task. -/
abbrev does (r : TaskAct c.setting) (out : r.Outcome) : Deed c := .act (.inl r) out

/-- An inquiry about a lease. -/
abbrev inquires (r : Pool.Act) (out : r.Outcome) : Deed c := .act (.inr (.inl r)) out

/-- An entry in the ledger. -/
abbrev enters (r : Ledger.Act) (out : r.Outcome) : Deed c := .act (.inr (.inr (.inl r))) out

/-- A request to a pool. -/
abbrev requests (w : Pool.Wait) : Deed c := .call (.inr (.inl w))

/-- The answer of a pool to a request. -/
abbrev served (w : Pool.Wait) (ans : Except Failure w.Answer) : Deed c :=
  .answer (.inr (.inl w)) ans

/-- The beginning of a wait for a task. -/
abbrev joins (i : TaskId) : Deed c := .call (.inl (.join i))

/-- The end of a wait for a task. -/
abbrev joined (i : TaskId) (ans : Except Failure Reply) : Deed c := .answer (.inl (.join i)) ans

/-- The connection that an exchange is about: one on which a statement is run, or that is given
back. -/
def lease? : Deed c → Option LeaseId
  | .call (.inr (.inl (.execute k _ _))) | .call (.inr (.inl (.release k _)))
  | .answer (.inr (.inl (.execute k _ _))) _ | .answer (.inr (.inl (.release k _))) _ => some k
  | _ => none

/-- What passes on a connection is a statement that is run there or the return of it. -/
theorem lease?_cases {k : LeaseId} {x : Deed c} (h : x.lease? = some k) :
    (∃ run statement, x = .requests (.execute k run statement) ∨
      ∃ ans, x = .served (.execute k run statement) ans) ∨
    ∃ cause, x = .requests (.release k cause) ∨ ∃ ans, x = .served (.release k cause) ans := by
  unfold lease? at h
  split at h <;> cases h
  · exact .inl ⟨_, _, .inl rfl⟩
  · exact .inr ⟨_, .inl rfl⟩
  · exact .inl ⟨_, _, .inr ⟨_, rfl⟩⟩
  · exact .inr ⟨_, .inr ⟨_, rfl⟩⟩

end Exchange

end PooledSql
