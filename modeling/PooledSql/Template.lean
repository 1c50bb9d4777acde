import PooledSql.Format.Path
import PooledSql.Format.Scan

/-!
# Templates

A template is made of a list of segments and a list of values, of a format string and its
arguments, or of a text with interpolated values. However it is made, it has one segment more than
it has values, and its segments are texts or fragments.
-/

namespace PooledSql

namespace Template

/-- A value in the place of a segment. -/
def segmentOfValue : Value → Except Failure Segment
  | .text lineage s => .ok (.text lineage s)
  | .fragment f => .ok (.fragment f)
  | v => .error (Fault.template (.segmentType v.typeName)).failure

/-- Values in the places of segments; the first one that is none decides the failure. -/
def segmentsOfValues : List Value → Except Failure (List Segment)
  | [] => .ok []
  | v :: vs => do
    let segment ← segmentOfValue v
    let segments ← segmentsOfValues vs
    return segment :: segments

/-- A template of segments and values whose numbers fit. -/
def ofSegments (segments : List Segment) (values : List Value) : Except Failure Template :=
  if h : segments.length = values.length + 1 then .ok ⟨segments, values, h⟩
  else .error (Fault.template (.segmentCount segments.length values.length)).failure

/-- A template of what two values run through. The numbers are compared before the types. -/
def ofLists (segments values : Value) : Except Failure Template := do
  let segments ← segments.items
  let values ← values.items
  if segments.length = values.length + 1 then
    ofSegments (← segmentsOfValues segments) values
  else
    .error (Fault.template (.segmentCount segments.length values.length)).failure

/-- Whether an interpolated value has a conversion or a format. -/
def isFormatted (conversion : Option String) (spec : String) : Bool :=
  !(conversion.getD "").isEmpty || !spec.isEmpty

/-- A template of a text with interpolated values, which must stand as they are. -/
def ofInterpolation (pieces : List Value)
    (parts : List (Value × String × Option String × String)) : Except Failure Template :=
  match parts.find? fun (_, _, conversion, spec) => isFormatted conversion spec with
  | some (_, expression, _, _) =>
    .error (Fault.template (.interpolationConversion expression)).failure
  | none => ofLists (.tuple pieces) (.tuple (parts.map Prod.fst))

/-- The template that a value is. -/
def ofValue : Value → Except Failure Template
  | .template segments values => ofSegments segments values
  | .interpolation pieces parts => ofInterpolation pieces parts
  | v => .error (Fault.template (.notATemplate v.typeName)).failure

/-- A template as a value. -/
def toValue (t : Template) : Value := .template t.segments t.values

/-- A failure to find a value, as opposed to a fault of the path to it. -/
def isMissing (f : Failure) : Bool :=
  f.kind == .index || f.kind == .key || f.kind == .field

/-- The value of a field, which must lead somewhere. -/
def fieldValue (format : String) (arguments : Format.Arguments) (name : List Char) :
    Except Failure Value :=
  match arguments.resolve name with
  | .ok v => .ok v
  | .error f =>
    if isMissing f then
      .error (.mk (.template (.missingField (String.ofList name) format)) (some f) none [])
    else .error f

/-- The values of the fields of a format string. A field without a name takes the next number. -/
def fieldValues (format : String) (arguments : Format.Arguments) (next : Nat) :
    List (Format.Field × List Char) → Except Failure (List Value)
  | [] => .ok []
  | (field, _) :: rest =>
    if field.conversion.isSome || !field.spec.isEmpty then
      .error (Fault.template (.fieldConversion (String.ofList field.name) format)).failure
    else do
      let (name, next) :=
        if field.name.isEmpty then (Nat.toDigits 10 next, next + 1) else (field.name, next)
      let v ← fieldValue format arguments name
      let vs ← fieldValues format arguments next rest
      return v :: vs

/-- The segments of a format string. -/
def formatSegments (p : Format.Parts) : List Segment :=
  .text .plain (String.ofList p.text)
    :: p.fields.map fun (_, text) => .text .plain (String.ofList text)

/-- A template of a format string and its arguments. -/
def ofFormat (format : String) (arguments : Format.Arguments) : Except Failure Template :=
  match Format.parts format with
  | .error fault =>
    let syntaxFailure := (Fault.raised .value (some fault.message)).failure
    .error (.mk (.template (.invalidFormat format fault)) (some syntaxFailure) none [])
  | .ok p => do
    ofSegments (formatSegments p) (← fieldValues format arguments 0 p.fields)

end Template

end PooledSql
