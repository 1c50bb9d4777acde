import PooledSql.Fragment.Resolution
import PooledSql.Template

/-!
# Statements

A template is compiled to a statement: every value becomes a numbered placeholder and a parameter,
except that a fragment becomes its text. A query may be issued with a template, with a fragment,
which has no parameters, or with plain SQL and its parameters.
-/

namespace PooledSql

/-- The placeholder of a parameter. -/
def placeholder (n : Nat) : String := "$" ++ toString n

/-- Text and parameters in front of more of both. -/
def Statement.prepend (text : String) (params : List Value) (s : Statement) : Statement :=
  { s with sql := text ++ s.sql, params := params ++ s.params }

namespace Template

/-- The statement of some segments with values between them, when the next parameter has the
number `next`. -/
def compileFrom (context : Context) (next : Nat) :
    List Segment → List Value → Except Failure Statement
  | [], _ => .ok { sql := "" }
  | s :: ss, vs => do
    let text ← s.resolve context
    match vs with
    | [] => return (← compileFrom context next ss []).prepend text []
    | .fragment f :: vs =>
      let spliced ← f.resolve context
      return (← compileFrom context next ss vs).prepend (text ++ spliced) []
    | v :: vs =>
      return (← compileFrom context (next + 1) ss vs).prepend (text ++ placeholder next) [v]

/-- The statement of a template; placeholders are numbered from one in order of appearance. -/
def compile (t : Template) (context : Context) : Except Failure Statement :=
  compileFrom context 1 t.segments t.values

end Template

/-- What a query may be issued with. -/
inductive Source
  | text (lineage : Lineage) (sql : String)
  | fragment (fragment : Fragment)
  | template (template : Template)

namespace Source

/-- The source that a value is, if it may be used together with the parameters. Parameters that
count as true need plain SQL text. -/
def ofValue (source params : Value) : Except Failure Source :=
  match source with
  | .text lineage s => .ok (.text lineage s)
  | source =>
    if params.truthy then .error (Fault.misuse .paramsWithoutText).failure
    else
      match source with
      | .fragment f => .ok (.fragment f)
      | source => do return .template (← Template.ofValue source)

/-- A source as a value. -/
def toValue : Source → Value
  | text lineage s => .text lineage s
  | fragment f => .fragment f
  | template t => t.toValue

/-- Whether taking a value for a source makes another value of it, as it does of an interpolated
text alone. -/
def converts : Value → Bool
  | .interpolation .. => true
  | _ => false

/-- The statement of a source. -/
def statement (source : Source) (params : Value) (context : Context) : Except Failure Statement :=
  match source with
  | text lineage sql => do return { sql, lineage, params := (← params.items) }
  | fragment f => do return { sql := (← f.resolve context) }
  | template t => t.compile context

end Source

/-- The statement of anything that a query may be issued with. -/
def Statement.build (source params : Value) (context : Context) : Except Failure Statement := do
  (← Source.ofValue source params).statement params context

end PooledSql
