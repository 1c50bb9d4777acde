import PooledSql.Failure

/-!
# Resolution of fragments

The text of a fragment, for the connection on which its statement is going to run. Only a fragment
that names the connection, or that a client renders, depends on it.
-/

namespace PooledSql

namespace Fragment

mutual

/-- The text of a fragment. -/
def resolve (context : Context) : Fragment → Except Failure String
  | .text content => .ok content
  | .onConnection label => .ok (label ++ context.text)
  | .failing message => .error (Fault.raised .value (some message)).failure
  | .rendered render =>
    (render context).mapError fun (kind, message) => (Fault.raised kind message).failure
  | .joined separator parts => do return separator.intercalate (← resolveAll context parts)

/-- The texts of several fragments; the first one that fails decides the failure. -/
def resolveAll (context : Context) : List Fragment → Except Failure (List String)
  | [] => .ok []
  | f :: fs => do
    let text ← resolve context f
    let texts ← resolveAll context fs
    return text :: texts

end

end Fragment

/-- The text of a segment. -/
def Segment.resolve (context : Context) : Segment → Except Failure String
  | .text _ s => .ok s
  | .fragment f => f.resolve context

end PooledSql
