import PooledSql.Template
import PooledSql.Literal

/-!
# Fragments

The makers of fragments escape what they are given at once, so that a value without a form in SQL
is refused when the fragment is made and never when a statement is about to run.
-/

namespace PooledSql

namespace Fragment

/-- A quoted identifier. -/
def identifier (v : Value) : Except Failure Fragment := do
  return .text (← Literal.identifier v)

/-- Several quoted identifiers with a separator between them. -/
def identifiers (values : Value) (separator : String) : Except Failure Fragment := do
  return .text (← Literal.joinedIdentifiers values separator)

/-- A literal. -/
def literal (v : Value) : Except Failure Fragment := do
  return .text (← Literal.ofValue v)

/-- Several literals with a separator between them. -/
def literals (values : Value) (separator : String) : Except Failure Fragment := do
  return .text (← Literal.joinedLiterals values separator)

/-- A value as a piece of SQL text: a fragment stays as it is, anything else becomes a literal. -/
def ofValue : Value → Except Failure Fragment
  | .fragment f => .ok f
  | v => literal v

/-- Several values as pieces of SQL text. -/
def ofValues : List Value → Except Failure (List Fragment)
  | [] => .ok []
  | v :: vs => do
    let piece ← ofValue v
    let pieces ← ofValues vs
    return piece :: pieces

/-- Several values, fragments or not, with a separator between them. -/
def items (values : Value) (separator : String) : Except Failure Fragment := do
  return .joined separator (← ofValues (← values.items))

/-- A segment of a template as a fragment. -/
def ofSegment : Segment → Fragment
  | .text _ s => .text s
  | .fragment f => f

/-- Segments with pieces between them. -/
def interleave : List Segment → List Fragment → List Fragment
  | [], _ => []
  | s :: ss, [] => ofSegment s :: interleave ss []
  | s :: ss, piece :: pieces => ofSegment s :: piece :: interleave ss pieces

/-- A whole template with its values written into the text. -/
def ofTemplate (t : Template) : Except Failure Fragment := do
  return .joined "" (interleave t.segments (← ofValues t.values))

/-- A template with its values written into the text, made of a format string and its arguments or
of anything that is a template by itself. -/
def template (source : Value) (arguments : Format.Arguments) : Except Failure Fragment :=
  match source with
  | .text _ format => do ofTemplate (← Template.ofFormat format arguments)
  | source =>
    if arguments.isEmpty then do ofTemplate (← Template.ofValue source)
    else .error (Fault.misuse .argumentsWithoutFormat).failure

end Fragment

end PooledSql
