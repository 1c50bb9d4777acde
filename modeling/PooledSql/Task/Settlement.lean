import PooledSql.Task.Request

/-!
# Settlement

How a cancellation token decides the outcome of the work done on its behalf. Once the token is set,
whatever result or error is still to come is replaced by the token's own failure, and an error that
was replaced is remembered as what brought that failure about. Cancellations and interruptions are
left as they are.
-/

namespace PooledSql

namespace TaskM

variable {S : Setting} {O : Interface} {α : Type}

/-- Raise the failure of a token that has been set. -/
def raiseIfCancelled (token : TokenId) : TaskM S O Unit := do
  if ← isCancelled token then throw (.cancelled token)

/-- Raise the failure of a token on account of another one. -/
def raiseCancelledFor (token : TokenId) (cause : Failure) : TaskM S O α := do
  blame token cause
  throw (.cancelled token)

/-- The outcome of work on behalf of a token. -/
def settle (token : TokenId) (work : TaskM S O α) : TaskM S O α := do
  match ← Fiber.attempt work with
  | .ok a =>
    raiseIfCancelled token
    return a
  | .error f =>
    if f.isError && !f.isCancel then
      if ← isCancelled token then raiseCancelledFor token f
    throw f

/-- Run actions one after the other, up to the first one that fails. -/
def runActions (perform : S.Action → TaskM S O Unit) : List S.Action → TaskM S O Unit
  | [] => pure ()
  | a :: rest => do
    perform a
    runActions perform rest

/-- Set a token and run its actions; nothing happens to a token that has been set before. -/
def cancelToken (perform : S.Action → TaskM S O Unit) (token : TokenId) : TaskM S O Unit := do
  runActions perform (← trip token)

end TaskM

/-- The program of a job, for a meaning of the names of computations. -/
def Job.program {S : Setting} {O : Interface} (meaning : S.Body → TaskM S O S.Value) :
    Job S → TaskM S O S.Value
  | .query body token => TaskM.settle token (meaning body)
  | .derived base f token => TaskM.settle token do Fiber.ofExcept (f (← TaskM.join base))
  | .plain body => meaning body

end PooledSql
