import PooledSql.Failure.Message

/-!
# The log

What is recorded while queries run, as data; the wording and the place of each entry are in
functions of their own.
-/

namespace PooledSql

/-- Where a transaction has got to. -/
inductive TransactionState
  | notStarted
  | inTransaction
  | committed
  | rolledBack
  | abortedConnection
  deriving DecidableEq, Inhabited

/-- The name of a state. -/
def TransactionState.name : TransactionState → String
  | notStarted => "not_started"
  | inTransaction => "in_transaction"
  | committed => "committed"
  | rolledBack => "rolled_back"
  | abortedConnection => "aborted_connection"

/-- How much an entry matters. -/
inductive LogLevel
  | debug
  | info
  | warning
  deriving DecidableEq

/-- The name of a level. -/
def LogLevel.name : LogLevel → String
  | debug => "DEBUG"
  | info => "INFO"
  | warning => "WARNING"

/-- An entry of the log. -/
inductive LogEntry
  | acquired (pid : Option Nat)
  | released (pid : Option Nat)
  | evicting (pid : Option Nat)
  | transition (old new : Option TransactionState)
  | rollbackFailed (first rollback : Failure)
  | executing (sql : String) (params : Nat)
  | cancelling
  | sendingCancel (pid : Option Nat)
  | cancelFailed (pid : Option Nat)
  | terminating (pid : Option Nat)
  | openingPool (maxSize : Int)
  | defaultReady

namespace LogEntry

/-- How much an entry matters. -/
def level : LogEntry → LogLevel
  | acquired _ | released _ | transition .. | executing .. => .debug
  | cancelling | sendingCancel _ | openingPool _ | defaultReady => .info
  | evicting _ | rollbackFailed .. | cancelFailed _ | terminating _ => .warning

/-- The part of the program that an entry comes from. -/
def place : LogEntry → String
  | acquired _ | released _ | evicting _ | transition .. | rollbackFailed .. =>
    "pgquery.database"
  | executing .. | cancelling | sendingCancel _ | cancelFailed _ => "pgquery.executor"
  | terminating _ => "pgquery.db.postgres_backend"
  | openingPool _ => "pgquery.db.connection"
  | defaultReady => "pgquery.defaults"

/-- A process number in the log. -/
def pidText : Option Nat → String
  | some pid => toString pid
  | none => "None"

/-- A state in the log. -/
def stateText : Option TransactionState → String
  | some state => state.name
  | none => "None"

/-- The wording of an entry. -/
def message : LogEntry → String
  | acquired pid => "Acquired connection (backend " ++ pidText pid ++ ")"
  | released pid => "Released connection (backend " ++ pidText pid ++ ")"
  | evicting pid => "Evicting connection (backend " ++ pidText pid ++ ") after failed rollback"
  | transition old new => "Transaction " ++ stateText old ++ " -> " ++ stateText new
  | rollbackFailed first rollback =>
    "Rollback failed after " ++ first.spell ++ ": " ++ rollback.spell
  | executing sql params =>
    "Executing " ++ Text.quoted sql ++ " with " ++ toString params ++ " params"
  | cancelling => "Cancelling query"
  | sendingCancel pid => "Sending cancel request for backend " ++ pidText pid
  | cancelFailed pid => "Cancel request for backend " ++ pidText pid ++ " failed"
  | terminating pid => "Terminating connection (backend " ++ pidText pid ++ ")"
  | openingPool maxSize => "Opening connection pool (max_size=" ++ toString maxSize ++ ")"
  | defaultReady => "Default database initialized"

end LogEntry

end PooledSql
