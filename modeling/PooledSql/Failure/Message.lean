import PooledSql.Failure

/-!
# The wording of failures

One sentence for each fault, the spelling of a failure in the log, and the full account of a
failure with everything that led to it, in the order in which it happened.
-/

namespace PooledSql

/-- A text without the line ends at its end. -/
def dropLineEnds (s : String) : String :=
  String.ofList (s.toList.reverse.dropWhile (· == '\n')).reverse

/-- The wording of a fault of a format string. -/
def FormatFault.message : FormatFault → String
  | singleOpening => "Single '\x7b' encountered in format string"
  | singleClosing => "Single '\x7d' encountered in format string"
  | unclosedField => "expected '\x7d' before end of string"
  | braceInName => "unexpected '\x7b' in field name"
  | unclosedSpec => "unmatched '\x7b' in format spec"
  | endsInConversion => "end of string while looking for conversion specifier"
  | textAfterConversion => "expected ':' after conversion specifier"

/-- The wording of a fault of a path. -/
def PathFault.message : PathFault → String
  | emptyStep => "Empty attribute in format string"
  | textAfterIndex => "Only '.' or '[' may follow ']' in format field specifier"
  | tooManyDigits => "Too many decimal digits in format string"
  | unclosedIndex => "Missing ']' in format string"

/-- A field name between braces. -/
def braced (field : String) : String := "\x7b" ++ field ++ "\x7d"

/-- The wording of a fault of a template. -/
def TemplateFault.message : TemplateFault → String
  | segmentCount segments values =>
    "Template needs " ++ toString (values + 1) ++ " segments for " ++ toString values
      ++ " values, got " ++ toString segments
  | segmentType typeName => "Template segments must be str, got " ++ typeName
  | invalidFormat format fault =>
    "Invalid SQL template " ++ Text.quoted format ++ ": " ++ fault.message
  | fieldConversion field format =>
    "Field " ++ braced field ++ " in " ++ Text.quoted format
      ++ " has a conversion or format spec; write casts outside the braces"
  | missingField field format =>
    "No value for field " ++ braced field ++ " in " ++ Text.quoted format
  | interpolationConversion expression =>
    "Interpolation " ++ braced expression
      ++ " has a conversion or format spec; write casts outside the braces"
  | notATemplate typeName => "Expected a SQL template, got " ++ typeName

/-- The wording of a fault of a literal or identifier. -/
def LiteralFault.message : LiteralFault → String
  | identifierType typeName => "Cannot escape " ++ typeName ++ " as an identifier"
  | literalType typeName => "Cannot escape " ++ typeName ++ " as a SQL literal"
  | notFinite spelling => "Cannot escape non-finite number " ++ spelling

/-- The wording for an index that is a text. -/
def Sequence.textIndexMessage : Sequence → String
  | list => "list indices must be integers or slices, not str"
  | tuple => "tuple indices must be integers or slices, not str"
  | text => "string indices must be integers, not 'str'"
  | bytes => "byte indices must be integers or slices, not str"
  | bytearray => "bytearray indices must be integers or slices, not str"
  | range => "range indices must be integers or slices, not str"

/-- The wording for an index that is not in the sequence. -/
def Sequence.missingIndexMessage : Sequence → String
  | list => "list index out of range"
  | tuple => "tuple index out of range"
  | text => "string index out of range"
  | bytes => "index out of range"
  | bytearray => "bytearray index out of range"
  | range => "range object index out of range"

/-- The wording of a misuse. -/
def Misuse.message : Misuse → String
  | notIterable typeName => "'" ++ typeName ++ "' object is not iterable"
  | noLength typeName => "object of type '" ++ typeName ++ "' has no len()"
  | notSubscriptable typeName => "'" ++ typeName ++ "' object is not subscriptable"
  | textIndex sequence => sequence.textIndexMessage
  | paramsWithoutText => "params can only be passed together with a plain SQL string"
  | argumentsWithoutFormat => "format arguments can only be passed with a format string"

/-- The wording of a fault of a number. A text that is not an integer is quoted up to two hundred
characters. -/
def NumberFault.message : NumberFault → String
  | notAnInteger source =>
    "invalid literal for int() with base 10: "
      ++ String.ofList ((Text.quoted source).toList.take 200)
  | tooManyDigits digits =>
    "Exceeds the limit (4300 digits) for integer string conversion: value has "
      ++ toString digits ++ " digits; use sys.set_int_max_str_digits() to increase the limit"
  | notANumber source => "could not convert string to float: " ++ Text.quoted source
  | overlong =>
    "Exceeds the limit (4300 digits) for integer string conversion; "
      ++ "use sys.set_int_max_str_digits() to increase the limit"

/-- The sort of a complaint. -/
def Complaint.sort : Complaint → String
  | missing => "missing"
  | notAnInteger => "int_type"
  | integerText => "int_parsing"
  | fractional => "int_from_float"
  | tooLarge => "int_parsing_size"
  | notFinite => "finite_number"
  | notANumber => "float_type"
  | numberText => "float_parsing"
  | notAString => "string_type"
  | notUnicode => "string_unicode"
  | below _ => "greater_than_equal"
  | notAbove _ => "greater_than"
  | notAList => "list_type"
  | notADictionary => "dict_type"

/-- The wording of a complaint. -/
def Complaint.message : Complaint → String
  | missing => "Field required"
  | notAnInteger => "Input should be a valid integer"
  | integerText => "Input should be a valid integer, unable to parse string as an integer"
  | fractional => "Input should be a valid integer, got a number with a fractional part"
  | tooLarge => "Unable to parse input string as an integer, exceeded maximum size"
  | notFinite => "Input should be a finite number"
  | notANumber => "Input should be a valid number"
  | numberText => "Input should be a valid number, unable to parse string as a number"
  | notAString => "Input should be a valid string"
  | notUnicode => "Input should be a valid string, unable to parse raw data as a unicode string"
  | below bound => "Input should be greater than or equal to " ++ toString bound
  | notAbove bound => "Input should be greater than " ++ toString bound
  | notAList => "Input should be a valid list"
  | notADictionary => "Input should be a valid dictionary"

/-- The spelling of a value in a message, which is not raised unless there is one. -/
def Value.spelling (v : Value) : String := v.spell?.getD ""

/-- Parameters, one to a line, numbered like their placeholders. -/
def paramLines (first : Nat) : List Value → List String
  | [] => []
  | v :: vs =>
    ("  $" ++ toString first ++ ": " ++ v.typeName ++ " " ++ v.spelling) ::
      paramLines (first + 1) vs

/-- The wording of a rejected statement: what the server said, the statement, its parameters. -/
def rejectionMessage (message sql : String) (params : List Value) : String :=
  "\n".intercalate (("SQL Error: " ++ message) :: sql ::
    (if params.isEmpty then [] else "Query parameters:" :: paramLines 1 params))

/-- The wording of a failure of someone else's making. A missing key is quoted. -/
def raisedMessage (kind : Kind) (message : Option String) : String :=
  match kind, message with
  | .key, some key => Text.quoted key
  | .cancel, none => "Query cancelled"
  | _, message => message.getD ""

/-- The first line of the report on a failed rollback. -/
def rollbackHeadline : String := "Failed to execute rollback after error"

/-- The remarks that come with a fault: a rejected statement says where it was issued. -/
def Fault.remarks : Fault → List String
  | .rejected _ _ _ _ (some (.described stack)) =>
    if stack.isEmpty then [] else ["Query issued at:\n" ++ dropLineEnds stack]
  | _ => []

/-- The last part of an account: the kind and wording of a failure, then its remarks. -/
def reportLines (kind : Kind) (message : String) (notes : List String) : String :=
  kind.qualifiedName ++ (if message.isEmpty then "" else ": " ++ message) ++ "\n"
    ++ String.join (notes.map (· ++ "\n"))

mutual

/-- The wording of a fault. -/
def Fault.message : Fault → String
  | .format fault => fault.message
  | .template fault => fault.message
  | .literal fault => fault.message
  | .misuse fault => fault.message
  | .number fault => fault.message
  | .missingKey key => key.spelling
  | .missingIndex sequence => sequence.missingIndexMessage
  | .missingField typeName field =>
    "'" ++ typeName ++ "' object has no attribute '" ++ field ++ "'"
  | .invalid complaints => toString complaints.length ++ " validation errors"
  | .cancelled _ => "Query cancelled"
  | .interrupted => ""
  | .driver message => message
  | .rejected message sql _ params _ => rejectionMessage message sql params
  | .abandoned first rollback =>
    rollbackHeadline ++ "\n" ++ dropLineEnds (Failure.account first) ++ "\n\n"
      ++ dropLineEnds (Failure.account rollback)
  | .scopeClosed => "Scope used after its connection was released"
  | .notInitialized => "Call pgquery.init() before using the default database"
  | .alreadyInitialized => "pgquery default database is already initialized"
  | .raised kind message => raisedMessage kind message

/-- The account of a failure: that of the failure that it answers for, or else of the one that was
being handled when it came up, and then its own report. -/
def Failure.account : Failure → String
  | .mk fault (some cause) _ notes =>
    Failure.account cause
      ++ "\nThe above exception was the direct cause of the following exception:\n\n"
      ++ reportLines fault.kind (Fault.message fault) (fault.remarks ++ notes)
  | .mk fault none (some context) notes =>
    Failure.account context
      ++ "\nDuring handling of the above exception, another exception occurred:\n\n"
      ++ reportLines fault.kind (Fault.message fault) (fault.remarks ++ notes)
  | .mk fault none none notes =>
    reportLines fault.kind (Fault.message fault) (fault.remarks ++ notes)

end

namespace Failure

/-- The wording of a failure. -/
def message (f : Failure) : String := f.fault.message

/-- All remarks on a failure. -/
def remarks (f : Failure) : List String := f.fault.remarks ++ f.notes

/-- The spelling of a failure in the log: its kind and its wording in quotes. -/
def spell (f : Failure) : String :=
  let argument :=
    match f.fault with
    | .interrupted => ""
    | .missingKey key => key.spelling
    | .raised .cancel none => Text.quoted f.message
    | .raised _ none => ""
    | .raised _ (some message) => Text.quoted message
    | _ => Text.quoted f.message
  f.kind.name ++ "(" ++ argument ++ ")"

end Failure

end PooledSql
