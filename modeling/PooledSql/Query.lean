import PooledSql.Task.Settlement

/-!
# Queries

A query is a task together with the token under which it settles. It may be awaited any number of
times, it may be cancelled, and further queries may be derived from it, which share its token.
-/

namespace PooledSql

/-- A query that has been issued. -/
structure Query where
  task : TaskId
  token : TokenId
  deriving DecidableEq, Inhabited

namespace Query

variable {S : Setting} {O : Interface}

/-- Issue a query under a token. -/
def issueUnder (token : TokenId) (work : S.Body) : TaskM S O Query :=
  return { task := ← TaskM.spawn (.query work token), token }

/-- Issue a query under a new token. -/
def issue (work : TokenId → S.Body) : TaskM S O Query := do
  let token ← TaskM.newToken
  issueUnder token (work token)

/-- Issue a query whose result is a function of another one's. -/
def derive (q : Query) (f : S.Value → Except Failure S.Value) : TaskM S O Query :=
  return { task := ← TaskM.spawn (.derived q.task f q.token), token := q.token }

/-- The result of a query. -/
def result (q : Query) : TaskM S O S.Value := TaskM.join q.task

/-- Cancel a query and wait until its cancel actions have run; a query that has settled is left
alone. -/
def cancel (perform : S.Action → TaskM S O Unit) (q : Query) : TaskM S O Unit := do
  if ← TaskM.isDone q.task then return ()
  TaskM.log .cancelling
  TaskM.cancelToken perform q.token

end Query

end PooledSql
