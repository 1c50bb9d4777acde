import PooledSql.Failure.Message
import PooledSql.Record

/-!
# Settings of a connection pool

Where the database is, how many connections the pool may hold, and how long it waits. Settings come
from named values or from environment variables; either way the sizes and times are checked.
-/

namespace PooledSql

/-- The settings of a pool. -/
structure PoolSettings where
  /-- Where the database is; without it the driver looks for itself. -/
  dsn : Option String
  /-- How many connections are opened at once. -/
  minSize : Int
  /-- How many connections there may be. -/
  maxSize : Int
  /-- How many seconds a connection may be idle. -/
  idleTimeout : Binary64
  /-- How many seconds opening a connection may take. -/
  connectTimeout : Binary64

/-- The values of environment variables. -/
abbrev Environment := List (String × String)

namespace PoolSettings

/-- How many connections there may be unless settings say otherwise. -/
def defaultMaxSize : Int := 10

/-- The idle time unless settings say otherwise. -/
def defaultIdleTimeout : Binary64 := .ofInt 300

/-- The time to connect unless settings say otherwise. -/
def defaultConnectTimeout : Binary64 := .ofInt 60

/-- Settings of named values. -/
def ofFields (fields : List (String × Value)) : Except Failure PoolSettings :=
  let dsn := Record.optional fields "dsn" none Record.optionalString
  let minSize := Record.optional fields "min_size" 1 (Record.integerFrom 0)
  let maxSize := Record.optional fields "max_size" defaultMaxSize (Record.integerFrom 1)
  let idle := Record.optional fields "idle_timeout" defaultIdleTimeout Record.nonnegative
  let connect := Record.optional fields "connect_timeout" defaultConnectTimeout Record.positive
  Record.Checked.toExcept <|
    (dsn.both (minSize.both (maxSize.both (idle.both connect)))).map
      fun (dsn, minSize, maxSize, idleTimeout, connectTimeout) =>
        { dsn, minSize, maxSize, idleTimeout, connectTimeout }

/-- Settings for a database, all else left as it is. -/
def ofDsn (dsn : String) : Except Failure PoolSettings := ofFields [("dsn", .ofString dsn)]

end PoolSettings

namespace Environment

/-- Where the database is, unless the variable is empty. -/
def databaseUrl (env : Environment) : Option String :=
  (env.lookup "DATABASE_URL").filter (!·.isEmpty)

/-- The integer in a variable. -/
def integer (env : Environment) (name : String) (default : Int) : Except Failure Int :=
  match env.lookup name with
  | none => .ok default
  | some s =>
    match readInteger s with
    | .ok n => .ok n
    | .error .malformed => .error (Fault.number (.notAnInteger s)).failure
    | .error (.tooLong digits) => .error (Fault.number (.tooManyDigits digits)).failure

/-- The number in a variable. -/
def number (env : Environment) (name : String) (default : Binary64) : Except Failure Binary64 :=
  match env.lookup name with
  | none => .ok default
  | some s =>
    match readBinary64 s with
    | some x => .ok x
    | none => .error (Fault.number (.notANumber s)).failure

/-- How many connections there may be. -/
def poolSize (env : Environment) : Except Failure Int :=
  env.integer "PG_POOL_SIZE" PoolSettings.defaultMaxSize

/-- How many seconds a connection may be idle. -/
def idleTimeout (env : Environment) : Except Failure Binary64 :=
  env.number "PG_IDLE_TIMEOUT" PoolSettings.defaultIdleTimeout

/-- How many seconds opening a connection may take. -/
def connectTimeout (env : Environment) : Except Failure Binary64 :=
  env.number "PG_CONNECT_TIMEOUT" PoolSettings.defaultConnectTimeout

/-- The settings that environment variables make up; the first variable that is no number decides
the failure. -/
def poolSettings (env : Environment) : Except Failure PoolSettings := do
  let dsn : Value := match env.databaseUrl with
    | some url => .ofString url
    | none => .null
  let size ← env.poolSize
  let idle ← env.idleTimeout
  let connect ← env.connectTimeout
  PoolSettings.ofFields [("dsn", dsn), ("max_size", .ofInt size),
    ("idle_timeout", .ofBinary64 idle), ("connect_timeout", .ofBinary64 connect)]

end Environment

end PooledSql
