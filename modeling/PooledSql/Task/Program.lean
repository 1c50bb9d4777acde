import PooledSql.Failure

/-!
# Programs

A program is a tree of requests. It performs acts, which are done at once, and it awaits answers,
which may take time and may fail; between two waits nothing else happens. What may be asked is an
`Interface`. A program over one interface is carried over to another by saying what becomes of each
request, so that the same program can be studied against everything that its surroundings may
answer, and run against particular ones.
-/

namespace PooledSql

/-- What a program may ask for. -/
structure Interface where
  /-- Requests that are done at once. -/
  Act : Type
  /-- What an act gives back. -/
  Outcome : Act → Type
  /-- Requests whose answer may take time, and may be a failure. -/
  Wait : Type
  /-- What a wait gives back if it does not fail. -/
  Answer : Wait → Type

namespace Interface

/-- The requests of two interfaces together. -/
def sum (I J : Interface) : Interface where
  Act := I.Act ⊕ J.Act
  Outcome := Sum.elim I.Outcome J.Outcome
  Wait := I.Wait ⊕ J.Wait
  Answer := Sum.elim I.Answer J.Answer

/-- Requests that look at a state and change it, and no waits. -/
inductive StateAct (σ : Type)
  | look
  | change (s : σ)

/-- What such a request gives back. -/
def StateAct.Outcome {σ : Type} : StateAct σ → Type
  | look => σ
  | change _ => Unit

/-- The interface of a state. -/
def state (σ : Type) : Interface := ⟨StateAct σ, StateAct.Outcome, Empty, nofun⟩

end Interface

/-- A program that ends with a value. -/
inductive Program (I : Interface) (α : Type) : Type
  /-- The program has ended. -/
  | done (a : α)
  /-- An act, and the program that goes on with its outcome. -/
  | act (r : I.Act) (next : I.Outcome r → Program I α)
  /-- A wait, and the program that goes on with its answer. -/
  | await (w : I.Wait) (next : Except Failure (I.Answer w) → Program I α)

namespace Program

variable {I K : Interface} {α β : Type}

/-- A program that goes on where another one ends. -/
def bind : Program I α → (α → Program I β) → Program I β
  | done a, f => f a
  | act r next, f => act r fun out => (next out).bind f
  | await w next, f => await w fun ans => (next ans).bind f

instance : Monad (Program I) where
  pure := done
  bind := bind

/-- Going on with nothing more changes nothing. -/
theorem bind_done (x : Program I α) : x.bind done = x := by
  induction x with
  | done a => rfl
  | act r next ih => exact congrArg (act r) (funext ih)
  | await w next ih => exact congrArg (await w) (funext ih)

/-- It does not matter how the parts of a program are grouped. -/
theorem bind_bind {γ : Type} (x : Program I α) (f : α → Program I β) (g : β → Program I γ) :
    (x.bind f).bind g = x.bind fun a => (f a).bind g := by
  induction x with
  | done a => rfl
  | act r next ih => exact congrArg (act r) (funext ih)
  | await w next ih => exact congrArg (await w) (funext ih)

instance : LawfulMonad (Program I) :=
  LawfulMonad.mk' (Program I) bind_done (fun _ _ => rfl) bind_bind

/-- The program that replaces each request by a program for it. -/
def carry (acts : (r : I.Act) → Program K (I.Outcome r))
    (waits : (w : I.Wait) → Program K (Except Failure (I.Answer w))) :
    Program I α → Program K α
  | done a => done a
  | act r next => (acts r).bind fun out => (next out).carry acts waits
  | await w next => (waits w).bind fun ans => (next ans).carry acts waits

/-- The program that keeps the requests of the first of two interfaces and replaces those of the
second one. -/
def carryRight {J : Interface} (acts : (r : J.Act) → Program (I.sum K) (J.Outcome r))
    (waits : (w : J.Wait) → Program (I.sum K) (Except Failure (J.Answer w))) :
    Program (I.sum J) α → Program (I.sum K) α :=
  carry (I := I.sum J) (K := I.sum K)
    (fun
      | .inl r => act (I := I.sum K) (.inl r) done
      | .inr r => acts r)
    (fun
      | .inl w => await (I := I.sum K) (.inl w) done
      | .inr w => waits w)

end Program

/-- A program that may fail. -/
abbrev Fiber (I : Interface) (α : Type) : Type := ExceptT Failure (Program I) α

namespace Fiber

variable {I : Interface} {α : Type}

/-- An act. -/
def act (r : I.Act) : Fiber I (I.Outcome r) := .mk (.act r fun out => .done (.ok out))

/-- A wait, whose failure is the program's own. -/
def await (w : I.Wait) : Fiber I (I.Answer w) := .mk (.await w .done)

/-- A value or a failure. -/
def ofExcept (x : Except Failure α) : Fiber I α := .mk (.done x)

/-- The outcome of a program, failure or not. -/
def attempt (x : Fiber I α) : Fiber I (Except Failure α) :=
  .mk (Program.bind x.run fun r => .done (.ok r))

end Fiber

end PooledSql
