import PooledSql.Proofs.Task.Exchange

/-!
# Behaviours

What a program meets with, as a function. A `Behaviour` says what acts come to and what waits are
answered with, after the requests and answers so far, which are the `events`; a wait that it has no
answer for is never over. Acts are no events, so that it makes no difference how often something is
looked at.

* `Program.against`: the events between a program and surroundings that behave in some way, and the
  value with which the program ends, if it does.
* `Program.LeadsAmid`: the exchanges of a program, others among them that look at something besides.
* `Program.against_of_leadsAmid`: such exchanges, if they are governed by a behaviour, are as far as
  the program gets against it.
-/

namespace PooledSql

/-- How the surroundings of a program behave after some events. -/
structure Interface.Behaviour (I : Interface) where
  /-- What an act comes to. -/
  outcome : List (Exchange I) → (r : I.Act) → I.Outcome r
  /-- What a wait is answered with, if it is answered. -/
  answer? : List (Exchange I) → (w : I.Wait) → Option (Except Failure (I.Answer w))

variable {I : Interface} {α : Type}

namespace Exchange

/-- Whether an exchange is an act. -/
def isAct : Exchange I → Bool
  | act .. => true
  | _ => false

/-- The requests and the answers among some exchanges. -/
def events (l : List (Exchange I)) : List (Exchange I) := l.filter (!·.isAct)

/-- Whether an exchange is a request of some kind. -/
def calls (p : I.Wait → Bool) : Exchange I → Bool
  | call w => p w
  | _ => false

variable {l l' : List (Exchange I)}

@[simp]
theorem events_nil : events ([] : List (Exchange I)) = [] := rfl

@[simp]
theorem events_append : events (l ++ l') = events l ++ events l' := List.filter_append ..

@[simp]
theorem events_act {r : I.Act} {out : I.Outcome r} : events (.act r out :: l) = events l := rfl

@[simp]
theorem events_call {w : I.Wait} : events (.call w :: l) = .call w :: events l := rfl

@[simp]
theorem events_answer {w : I.Wait} {ans : Except Failure (I.Answer w)} :
    events (.answer w ans :: l) = .answer w ans :: events l := rfl

/-- Whether an exchange is what a behaviour makes of it after some events. -/
def Follows (b : I.Behaviour) (past : List (Exchange I)) : Exchange I → Prop
  | act r out => out = b.outcome past r
  | call _ => True
  | answer w ans => b.answer? past w = some ans

end Exchange

namespace Interface.Behaviour

variable (b : I.Behaviour) {past l l' : List (Exchange I)}

/-- Whether exchanges after some events are what a behaviour makes of them. -/
def Governs : List (Exchange I) → List (Exchange I) → Prop
  | _, [] => True
  | past, e :: l => e.Follows b past ∧ Governs (past ++ Exchange.events [e]) l

/-- Whether a behaviour has no answer to the request that has been made last. -/
def Ignores (l : List (Exchange I)) : Prop :=
  ∀ w, (Exchange.events l).getLast? = some (.call w) → b.answer? (Exchange.events l) w = none

variable {b}

/-- A behaviour governs exchanges if it governs the first of them and then the others. -/
theorem governs_append_iff :
    b.Governs past (l ++ l') ↔ b.Governs past l ∧ b.Governs (past ++ Exchange.events l) l' := by
  induction l generalizing past with
  | nil => simp [Governs]
  | cons e l ih =>
    have hevents : Exchange.events (e :: l) = Exchange.events [e] ++ Exchange.events l :=
      Exchange.events_append (l := [e])
    rw [List.cons_append, Governs, Governs, ih, hevents, and_assoc, List.append_assoc]

end Interface.Behaviour

namespace Program

/-- What passes between a program and surroundings that behave in some way, after what has passed
before, and the value with which the program ends, if it does. -/
def against (b : I.Behaviour) : Program I α → List (Exchange I) → List (Exchange I) × Option α
  | done a, past => (past, some a)
  | act r next, past => (next (b.outcome past r)).against b past
  | await w next, past =>
    match b.answer? (past ++ [.call w]) w with
    | none => (past ++ [.call w], none)
    | some ans => (next ans).against b (past ++ [.call w, .answer w ans])

/-- The exchanges `l`, acts that are none of the program's own aside, lead from one program to what
is left of it. -/
inductive LeadsAmid : Program I α → List (Exchange I) → Program I α → Prop
  | nil (x : Program I α) : LeadsAmid x [] x
  | aside {x : Program I α} {r : I.Act} {out : I.Outcome r} {l : List (Exchange I)}
      {y : Program I α} :
      LeadsAmid x l y → LeadsAmid x (.act r out :: l) y
  | act {r : I.Act} {next : I.Outcome r → Program I α} {out : I.Outcome r} {l : List (Exchange I)}
      {y : Program I α} : LeadsAmid (next out) l y → LeadsAmid (.act r next) (.act r out :: l) y
  | await {w : I.Wait} {next : Except Failure (I.Answer w) → Program I α}
      {ans : Except Failure (I.Answer w)} {l : List (Exchange I)} {y : Program I α} :
      LeadsAmid (next ans) l y → LeadsAmid (.await w next) (.call w :: .answer w ans :: l) y

namespace LeadsAmid

variable {b : I.Behaviour} {x y z : Program I α} {past l l₁ l₂ : List (Exchange I)}

/-- Ways can be put together. -/
theorem trans (h₁ : LeadsAmid x l₁ y) (h₂ : LeadsAmid y l₂ z) : LeadsAmid x (l₁ ++ l₂) z := by
  induction h₁ with
  | nil => exact h₂
  | aside _ ih => exact .aside (ih h₂)
  | act _ ih => exact .act (ih h₂)
  | await _ ih => exact .await (ih h₂)

/-- Going on afterwards makes no difference to the way so far. -/
theorem bind {β : Type} (h : LeadsAmid x l y) (f : α → Program I β) :
    LeadsAmid (x.bind f) l (y.bind f) := by
  induction h with
  | nil => exact .nil _
  | aside _ ih => exact .aside ih
  | act _ ih => exact .act ih
  | await _ ih => exact .await ih

/-- A program makes no way by what is looked at besides. -/
theorem of_acts (hl : ∀ e ∈ l, e.isAct) : LeadsAmid x l x := by
  induction l with
  | nil => exact .nil x
  | cons e l ih =>
    obtain ⟨he, hrest⟩ := List.forall_mem_cons.mp hl
    cases e with
    | act r out => exact .aside (ih hrest)
    | call w => cases he
    | answer w ans => cases he

/-- What a program is led to by exchanges that a behaviour governs, it comes to against that
behaviour. -/
theorem against_eq (h : LeadsAmid x l y) (hb : b.Governs past l) :
    x.against b past = y.against b (past ++ Exchange.events l) := by
  induction h generalizing past with
  | nil => simp
  | aside _ ih => simpa using ih hb.2
  | act _ ih =>
    obtain ⟨rfl, hb⟩ := hb
    simpa [against] using ih hb
  | @await w next ans l y _ ih =>
    obtain ⟨-, hans, hb⟩ := hb
    have hans : b.answer? (past ++ [.call w]) w = some ans := hans
    rw [against, hans]
    simpa using ih hb

end LeadsAmid

variable {b : I.Behaviour} {x : Program I α} {l : List (Exchange I)}

/-- A program that has ended has ended against what has governed it. -/
theorem against_of_done {a : α} (h : LeadsAmid x l (.done a)) (hb : b.Governs [] l) :
    x.against b [] = (Exchange.events l, some a) := h.against_eq hb

/-- A program that waits for what is never answered gets no further. -/
theorem against_of_await {w : I.Wait} {next : Except Failure (I.Answer w) → Program I α}
    (h : LeadsAmid x l (.await w next)) (hb : b.Governs [] (l ++ [.call w]))
    (hnone : b.Ignores (l ++ [.call w])) :
    x.against b [] = (Exchange.events (l ++ [.call w]), none) := by
  have hw : b.answer? (Exchange.events l ++ [.call w]) w = none := by
    simpa using hnone w (by simp)
  rw [h.against_eq (Interface.Behaviour.governs_append_iff.mp hb).1, against]
  simp [hw]

/-- Whatever it meets with, a program makes at most some number of requests of some kind. -/
inductive AtMost (p : I.Wait → Bool) : Nat → Program I α → Prop
  | done {n : Nat} (a : α) : AtMost p n (.done a)
  | act {n : Nat} {r : I.Act} {next : I.Outcome r → Program I α} :
      (∀ out, AtMost p n (next out)) → AtMost p n (.act r next)
  | other {n : Nat} {w : I.Wait} {next : Except Failure (I.Answer w) → Program I α} :
      p w = false → (∀ ans, AtMost p n (next ans)) → AtMost p n (.await w next)
  | one {n : Nat} {w : I.Wait} {next : Except Failure (I.Answer w) → Program I α} :
      (∀ ans, AtMost p n (next ans)) → AtMost p (n + 1) (.await w next)

namespace AtMost

variable {β : Type} {p : I.Wait → Bool} {m n : Nat}

/-- More requests may be allowed for. -/
theorem mono (h : x.AtMost p m) : x.AtMost p (m + n) := by
  induction h with
  | done a => exact .done a
  | act _ ih => exact .act ih
  | other hw _ ih => exact .other hw ih
  | @one m _ _ _ ih => exact Nat.add_right_comm m 1 n ▸ .one ih

/-- A program and what follows on it make together as many requests as each of them. -/
theorem bind {f : α → Program I β} (hx : x.AtMost p m) (hf : ∀ a, (f a).AtMost p n) :
    (x.bind f).AtMost p (n + m) := by
  induction hx with
  | done a => exact (hf a).mono
  | act _ ih => exact .act ih
  | other hw _ ih => exact .other hw ih
  | one _ ih => exact .one ih

/-- The same if what follows is left out after a failure. -/
theorem bind_fiber {x : Fiber I α} {f : α → Fiber I β} (hx : AtMost p m x.run)
    (hf : ∀ a, AtMost p n (f a).run) : AtMost p (n + m) (x >>= f).run := by
  refine hx.bind fun r => ?_
  cases r with
  | ok a => exact hf a
  | error e => exact .done _

/-- An attempt makes as many requests as what is attempted. -/
theorem attempt {x : Fiber I α} (hx : AtMost p m x.run) : AtMost p m (Fiber.attempt x).run := by
  rw [← Nat.zero_add m]
  exact hx.bind fun _ => .done _

/-- No behaviour makes a program exceed its number of requests. -/
theorem countP_against_le {past : List (Exchange I)} (h : x.AtMost p n) :
    (x.against b past).1.countP (Exchange.calls p) ≤ past.countP (Exchange.calls p) + n := by
  have hanswer : ∀ {w : I.Wait} {ans : Except Failure (I.Answer w)} {past : List (Exchange I)},
      (past ++ [Exchange.call w, Exchange.answer w ans]).countP (Exchange.calls p) =
        (past ++ [Exchange.call w]).countP (Exchange.calls p) := by
    intros
    simp [List.countP_append, List.countP_cons, Exchange.calls]
  -- only requests count, and a program that may make one of them more has one fewer left after it
  induction h generalizing past with
  | done a => exact Nat.le_add_right ..
  | act _ ih => exact ih _
  | @other n w next hw _ ih =>
    have hcall :
        (past ++ [Exchange.call w]).countP (Exchange.calls p) = past.countP (Exchange.calls p) := by
      simp [List.countP_append, Exchange.calls, hw]
    rw [against]
    -- a behaviour that gives no answer leaves the program where it is
    split
    · exact hcall ▸ Nat.le_add_right ..
    · exact hcall ▸ hanswer ▸ ih _
  | @one n w next _ ih =>
    have hcall : (past ++ [Exchange.call w]).countP (Exchange.calls p) ≤
        past.countP (Exchange.calls p) + 1 := by
      rw [List.countP_append]
      exact Nat.add_le_add_left List.countP_le_length _
    rw [against]
    split
    · exact Nat.le_trans hcall (by omega)
    · next ans _ =>
      refine Nat.le_trans (ih ans) ?_
      rw [hanswer]
      omega

end AtMost

end Program

end PooledSql
