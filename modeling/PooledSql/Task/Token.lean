import PooledSql.Failure

/-!
# Cancellation tokens

A token is shared by everyone who works on behalf of one query. Whoever wants to be told of a
cancellation registers an action; the first cancellation takes all registered actions away in order,
to be run one after the other, and later ones find none. Once set, a token stays set.
-/

namespace PooledSql

/-- The state of a token, for actions of some type. -/
structure Token (A : Type) where
  /-- Whether the token has been set. -/
  cancelled : Bool := false
  /-- The registered actions, oldest first. -/
  actions : List A := []
  /-- What brought about the token's failure, as last reported. -/
  cause : Option Failure := none

namespace Token

variable {A : Type}

/-- A token with one more action. -/
def register (a : A) (t : Token A) : Token A := { t with actions := t.actions ++ [a] }

/-- A token without the oldest registration of an action. -/
def unregister [BEq A] (a : A) (t : Token A) : Token A := { t with actions := t.actions.erase a }

/-- A token that has been set, and the actions that the one who sets it has to run. -/
def trip (t : Token A) : List A × Token A :=
  if t.cancelled then ([], t) else (t.actions, { t with cancelled := true, actions := [] })

/-- A token whose failure answers for another one. -/
def blame (f : Failure) (t : Token A) : Token A := { t with cause := some f }

end Token

end PooledSql
