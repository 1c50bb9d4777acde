import PooledSql.Failure.Kind
import PooledSql.Value.Spelling

/-!
# Failures

A failure says what went wrong, as data: a `Fault`, and the failure that brought it about, if any.
The wording of every fault is in one function, `Failure.message`, and nothing else depends on it.

A cancellation token has one failure of its own, which all its users raise. It is named by its
token rather than by a value, for what brought it about may become known after it has been raised.
-/

namespace PooledSql

/-- The name of a cancellation token. -/
abbrev TokenId := Nat

/-- Why a text is not a format string. -/
inductive FormatFault
  | singleOpening
  | singleClosing
  | unclosedField
  | braceInName
  | unclosedSpec
  | endsInConversion
  | textAfterConversion
  deriving DecidableEq

/-- Why a field name is not a path to a value. -/
inductive PathFault
  | emptyStep
  | textAfterIndex
  | tooManyDigits
  | unclosedIndex
  deriving DecidableEq

/-- Why a template cannot be put together. -/
inductive TemplateFault
  | segmentCount (segments values : Nat)
  | segmentType (typeName : String)
  | invalidFormat (format : String) (fault : FormatFault)
  | fieldConversion (field format : String)
  | missingField (field format : String)
  | interpolationConversion (expression : String)
  | notATemplate (typeName : String)
  deriving DecidableEq

/-- Why a value has no form in SQL text. -/
inductive LiteralFault
  | identifierType (typeName : String)
  | literalType (typeName : String)
  | notFinite (spelling : String)
  deriving DecidableEq

/-- The sequences that are read by position. -/
inductive Sequence
  | list
  | tuple
  | text
  | bytes
  | bytearray
  | range
  deriving DecidableEq

/-- An operation applied to a value that does not have it. -/
inductive Misuse
  | notIterable (typeName : String)
  | noLength (typeName : String)
  | notSubscriptable (typeName : String)
  | textIndex (sequence : Sequence)
  | paramsWithoutText
  | argumentsWithoutFormat
  deriving DecidableEq

/-- Why a text is not a number, or an integer has no text. -/
inductive NumberFault
  | notAnInteger (source : String)
  | tooManyDigits (digits : Nat)
  | notANumber (source : String)
  | overlong
  deriving DecidableEq

/-- A step on the way to the part of a record that is wrong. -/
inductive Location
  | name (s : String)
  | position (n : Int)
  deriving DecidableEq

/-- What is wrong with a part of a record. -/
inductive Complaint
  | missing
  | notAnInteger
  | integerText
  | fractional
  | tooLarge
  | notFinite
  | notANumber
  | numberText
  | notAString
  | notUnicode
  | below (bound : Nat)
  | notAbove (bound : Nat)
  | notAList
  | notADictionary
  deriving DecidableEq

/-- Where a query was issued: at a place in the program whose text is not known, or as a caller
describes it. -/
inductive CallSite
  | here
  | described (stack : String)
  deriving DecidableEq

mutual

/-- What went wrong. -/
inductive Fault
  | format (fault : PathFault)
  | template (fault : TemplateFault)
  | literal (fault : LiteralFault)
  | misuse (fault : Misuse)
  | number (fault : NumberFault)
  | missingKey (key : Value)
  | missingIndex (sequence : Sequence)
  | missingField (typeName field : String)
  /-- Parts of a record that do not have the form they should have. -/
  | invalid (complaints : List (List Location × Complaint))
  /-- The failure of a cancellation token. -/
  | cancelled (token : TokenId)
  | interrupted
  /-- A connection or pool rejected a request. -/
  | driver (message : String)
  /-- The server rejected a statement. -/
  | rejected (message sql : String) (lineage : Lineage) (params : List Value)
      (site : Option CallSite)
  /-- A rollback failed after another failure. -/
  | abandoned (first rollback : Failure)
  | scopeClosed
  | notInitialized
  | alreadyInitialized
  /-- A failure of someone else's making. -/
  | raised (kind : Kind) (message : Option String)

/-- A fault, the failure that it answers for, the failure that was being handled when it came up,
and remarks. -/
inductive Failure
  | mk (fault : Fault) (cause context : Option Failure) (notes : List String)

end

instance : Inhabited Failure := ⟨.mk .interrupted none none []⟩

/-- A fault on its own. -/
abbrev Fault.failure (fault : Fault) : Failure := .mk fault none none []

/-- The kind under which a fault is reported. -/
def Fault.kind : Fault → Kind
  | .format _ => .value
  | .template _ => .malformedTemplate
  | .literal _ => .unsupportedLiteral
  | .misuse _ => .type
  | .number _ => .value
  | .missingKey _ => .key
  | .missingIndex _ => .index
  | .missingField .. => .field
  | .invalid _ => .validation
  | .cancelled _ => .cancel
  | .interrupted => .interrupted
  | .driver _ => .driver
  | .rejected .. => .sql
  | .abandoned .. => .abortConnection
  | .scopeClosed => .scopeClosed
  | .notInitialized => .notInitialized
  | .alreadyInitialized => .runtime
  | .raised kind _ => kind

namespace Failure

/-- What went wrong. -/
def fault : Failure → Fault
  | mk fault _ _ _ => fault

/-- The failure that this one answers for. -/
def cause? : Failure → Option Failure
  | mk _ cause _ _ => cause

/-- The remarks added to a failure. -/
def notes : Failure → List String
  | mk _ _ _ notes => notes

/-- The kind under which a failure is reported. -/
def kind (f : Failure) : Kind := f.fault.kind

/-- Whether the failure is an error of the program, as opposed to an interruption of its task. -/
def isError (f : Failure) : Bool := f.kind.isError

/-- Whether the failure is a cancellation by the caller. -/
def isCancel (f : Failure) : Bool := f.kind == .cancel

/-- Whether a connection or pool rejected a request. -/
def isDriver (f : Failure) : Bool := f.kind == .driver

/-- Whether the connection that the failure comes from must not be used again. -/
def isAbort (f : Failure) : Bool := f.kind == .abortConnection

/-- The failure of a cancellation token. -/
abbrev cancelled (token : TokenId) : Failure := (Fault.cancelled token).failure

/-- The interruption of a task from outside. -/
abbrev interrupted : Failure := Fault.interrupted.failure

/-- The rejection that a failure of the connection amounts to. -/
def driverError (f : Failure) (message : String) : Failure := .mk (.driver message) (some f) none []

end Failure

end PooledSql
