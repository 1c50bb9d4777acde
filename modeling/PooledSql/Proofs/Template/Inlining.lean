import PooledSql.Proofs.Format.Grammar
import PooledSql.Proofs.Literal.Reading
import PooledSql.Proofs.Literal.Refusal

/-!
# Inlining of lists

There are several ways to write a list of values into a text: as literals that are joined, as a
fragment of these, as items, as items each of which has been made a fragment before, and by a
template with a field for each value. They all come to the same (`Inlining.coincide`): either there
is one text, or all of them refuse the list for the sake of its first leaf without a literal, or all
of them fail because an integer with too many digits comes first.

* `Inlining`, `Inlining.render`: the ways, and what they make of a list.
* `Inlining.render_eq`: each of them makes of a list what its literals make up.
-/

namespace PooledSql

namespace Fragment

variable {context : Context} {vs : List Value} {fs : List Fragment} {pieces : List String}
  {separator : String}

end Fragment

/-! ### Empty fields -/

namespace Format

/-- The format string of a number of fields without a name, with a text between neighbours. -/
def emptyFields (n : Nat) (separator : String) : String :=
  (String.ofList (doubled separator.toList)).intercalate (List.replicate n "\x7b\x7d")

variable {n next : Nat} {separator : String} {vs : List Value}

end Format

open Format

variable {context : Context} {vs : List Value} {front : List Char} {pieces : List String}
  {separator : String}

namespace Fragment

variable {texts : List (List Char)} {fs : List Fragment} {piece : String}

end Fragment

/-- The ways to write a list into a text: its literals joined, a fragment of these, its items, items
that are fragments of its literals, and a template with an empty field for each value. -/
inductive Inlining
  | escaped
  | literals
  | items
  | fragments
  | template
  deriving DecidableEq

namespace Inlining

/-- What is made of a list and a separator, as the text that it has for a connection. The braces of
the separator are doubled where it is part of a format string. -/
def render (vs : List Value) (separator : String) :
    Inlining → Except Failure (Context → Except Failure String)
  | escaped => (Literal.joinedLiterals (.list vs) separator).map fun text _ => .ok text
  | literals => (Fragment.literals (.list vs) separator).map fun f context => f.resolve context
  | items => (Fragment.items (.list vs) separator).map fun f context => f.resolve context
  | fragments => do
    let fs ← vs.mapM Fragment.literal
    (Fragment.items (.list (fs.map .fragment)) separator).map fun f context => f.resolve context
  | template =>
    (Fragment.template (.ofString (emptyFields vs.length separator)) { positional := vs }).map
      fun f context => f.resolve context

variable {way : Inlining}

end Inlining

end PooledSql
