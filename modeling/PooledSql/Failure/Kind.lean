/-!
# Kinds of failure

Every failure is reported under a kind. Kinds decide which failures a handler takes: those that a
connection raises when the server or the network refuses something, cancellations, and the one
kind that is not an error of the program at all but an interruption of the task it happens to.
-/

namespace PooledSql

/-- The kind under which a failure is reported. -/
inductive Kind
  /-- A failure of no particular kind. -/
  | generic
  /-- An argument of the right type has a wrong value. -/
  | value
  /-- A key is not in a dictionary. -/
  | key
  /-- An index is not in a sequence. -/
  | index
  /-- An argument has a wrong type. -/
  | type
  /-- An object lacks a field. -/
  | field
  | runtime
  /-- The operating system refuses a request. -/
  | system
  /-- The other side has closed a network connection. -/
  | connectionReset
  /-- The task was interrupted from outside. -/
  | interrupted
  /-- A failure of this library of no particular kind. -/
  | library
  /-- A connection or pool rejects a request. -/
  | driver
  /-- A template is not put together correctly. -/
  | malformedTemplate
  /-- A value has no form as a literal or identifier. -/
  | unsupportedLiteral
  /-- A scope is used after its end. -/
  | scopeClosed
  /-- The default database is used before there is one. -/
  | notInitialized
  /-- The caller cancelled the operation. -/
  | cancel
  /-- The server rejects a statement. -/
  | sql
  /-- A rollback failed, so that the connection must not be used again. -/
  | abortConnection
  /-- A connection is not in a state to take a request. -/
  | interfaceMisuse
  /-- The server reports an error. -/
  | server
  | serverSyntax
  | uniqueViolation
  | serialization
  /-- The server has stopped a statement on request. -/
  | queryCanceled
  /-- Fields of a record do not have the form they should have. -/
  | validation
  deriving DecidableEq, Inhabited

namespace Kind

/-- The name of a kind in reports. -/
def name : Kind → String
  | generic => "Exception"
  | value => "ValueError"
  | key => "KeyError"
  | index => "IndexError"
  | type => "TypeError"
  | field => "AttributeError"
  | runtime => "RuntimeError"
  | system => "OSError"
  | connectionReset => "ConnectionResetError"
  | interrupted => "CancelledError"
  | library => "PgQueryError"
  | driver => "DriverError"
  | malformedTemplate => "MalformedTemplate"
  | unsupportedLiteral => "UnsupportedLiteralType"
  | scopeClosed => "ScopeClosedError"
  | notInitialized => "NotInitializedError"
  | cancel => "Cancel"
  | sql => "SqlError"
  | abortConnection => "AbortConnectionError"
  | interfaceMisuse => "InterfaceError"
  | server => "PostgresError"
  | serverSyntax => "PostgresSyntaxError"
  | uniqueViolation => "UniqueViolationError"
  | serialization => "SerializationError"
  | queryCanceled => "QueryCanceledError"
  | validation => "ValidationError"

/-- Where a kind is defined; general kinds belong to no place. -/
def origin : Kind → String
  | library | driver | malformedTemplate | unsupportedLiteral | scopeClosed | notInitialized
  | cancel | sql | abortConnection => "pgquery.errors."
  | interrupted => "asyncio.exceptions."
  | interfaceMisuse | server => "asyncpg.exceptions._base."
  | serverSyntax | uniqueViolation | serialization | queryCanceled => "asyncpg.exceptions."
  | _ => ""

/-- The name of a kind with the place where it is defined. -/
def qualifiedName (k : Kind) : String := k.origin ++ k.name

/-- All kinds. -/
def all : List Kind := [generic, value, key, index, type, field, runtime, system,
  connectionReset, interrupted, library, driver, malformedTemplate, unsupportedLiteral,
  scopeClosed, notInitialized, cancel, sql, abortConnection, interfaceMisuse, server, serverSyntax,
  uniqueViolation, serialization, queryCanceled, validation]

/-- The kind of a name. -/
def ofName? (name : String) : Option Kind := all.find? (·.name == name)

/-- Whether a failure is an error of the program, as opposed to an interruption of its task. -/
def isError (k : Kind) : Bool := k != interrupted

/-- Whether a connection or the network raised the failure. -/
def isRaisedByConnection : Kind → Bool
  | interfaceMisuse | server | serverSyntax | uniqueViolation | serialization | queryCanceled
  | system | connectionReset => true
  | _ => false

end Kind

end PooledSql
