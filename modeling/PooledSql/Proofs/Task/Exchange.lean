import PooledSql.Task.Program

/-!
# Exchanges

What passes between a program and its surroundings, as a list of exchanges: acts with what came of
them, and waits with their answers. The exchanges say which way a program has taken through its
tree, whatever the surroundings were.

* `Program.Leads x l y`: the exchanges `l` lead from the program `x` to what is left of it, `y`.
* `Fiber.Ends x l r`: by the exchanges `l`, a program that may fail ends with the outcome `r`.
* `Fiber.Asks x l e`: after the exchanges `l`, such a program asks for what `e` begins with.
* `Fiber.Comes x b y`: by the exchanges `b`, such a program comes to a part of it, `y`.

A program that goes on where another one ends takes the way of the first and then one of the second
(`Fiber.ends_bind_iff`, `Fiber.asks_bind_iff`); all facts about larger programs come from that.
-/

namespace PooledSql

/-- What passes between a program and its surroundings. -/
inductive Exchange (I : Interface)
  /-- An act, and what came of it. -/
  | act (r : I.Act) (out : I.Outcome r)
  /-- The beginning of a wait. -/
  | call (w : I.Wait)
  /-- The end of a wait. -/
  | answer (w : I.Wait) (ans : Except Failure (I.Answer w))

namespace Exchange

variable {I : Interface}

/-- Whether an exchange is the end of a wait. -/
def IsAnswer : Exchange I → Prop
  | answer .. => True
  | _ => False

end Exchange

namespace Program

variable {I : Interface} {α β : Type}

/-- The exchanges `l` lead from one program to what is left of it. A wait is led past only together
with its answer. -/
inductive Leads : Program I α → List (Exchange I) → Program I α → Prop
  | nil (x : Program I α) : Leads x [] x
  | act {r : I.Act} {next : I.Outcome r → Program I α} {out : I.Outcome r}
      {l : List (Exchange I)} {y : Program I α} :
      Leads (next out) l y → Leads (.act r next) (.act r out :: l) y
  | await {w : I.Wait} {next : Except Failure (I.Answer w) → Program I α}
      {ans : Except Failure (I.Answer w)} {l : List (Exchange I)} {y : Program I α} :
      Leads (next ans) l y → Leads (.await w next) (.call w :: .answer w ans :: l) y

namespace Leads

variable {x y z : Program I α} {l l₁ l₂ : List (Exchange I)}

/-- Ways can be put together. -/
theorem trans (h₁ : Leads x l₁ y) (h₂ : Leads y l₂ z) : Leads x (l₁ ++ l₂) z := by
  induction h₁ with
  | nil => exact h₂
  | act _ ih => exact .act (ih h₂)
  | await _ ih => exact .await (ih h₂)

/-- The exchanges determine what is left. -/
theorem det (h₁ : Leads x l y) (h₂ : Leads x l z) : y = z := by
  induction h₁ with
  | nil => cases h₂; rfl
  | act _ ih => cases h₂ with | act h => exact ih h
  | await _ ih => cases h₂ with | await h => exact ih h

/-- The rest of a way starts where its beginning has led. -/
theorem cancel_left (h₁ : Leads x l₁ y) (h : Leads x (l₁ ++ l₂) z) : Leads y l₂ z := by
  induction h₁ with
  | nil => exact h
  | act _ ih => cases h with | act h => exact ih h
  | await _ ih => cases h with | await h => exact ih h

/-- A way past an act. -/
theorem snoc_act {r : I.Act} {next : I.Outcome r → Program I α} (h : Leads x l (.act r next))
    (out : I.Outcome r) : Leads x (l ++ [.act r out]) (next out) :=
  h.trans (.act (.nil _))

/-- A way past a wait. -/
theorem snoc_await {w : I.Wait} {next : Except Failure (I.Answer w) → Program I α}
    (h : Leads x l (.await w next)) (ans : Except Failure (I.Answer w)) :
    Leads x (l ++ [.call w, .answer w ans]) (next ans) :=
  h.trans (.await (.nil _))

/-- Going on afterwards makes no difference to the way so far. -/
theorem bind (h : Leads x l y) (f : α → Program I β) : Leads (x.bind f) l (y.bind f) := by
  induction h with
  | nil => exact .nil _
  | act _ ih => exact .act ih
  | await _ ih => exact .await ih

/-- A way never stops between a wait and its answer. -/
theorem not_snoc_call {w : I.Wait} : ¬ Leads x (l ++ [.call w]) y := by
  intro h
  generalize hl : l ++ [Exchange.call w] = l' at h
  -- each step takes exchanges off the front, so what comes before the wait varies
  induction h generalizing l with
  | nil => simp at hl
  | act _ ih =>
    cases l with
    | nil => simp at hl
    | cons e l => exact ih (by simpa using (List.cons.inj hl).2)
  | await _ ih =>
    match l with
    | [] => simp at hl
    -- a wait and its answer come together, so a way that makes one exchange of them makes both
    | [_] => simp at hl
    | _ :: _ :: l =>
      simp only [List.cons_append, List.cons.injEq] at hl
      exact ih hl.2.2

end Leads

/-- A program that has ended makes no further exchanges. -/
@[simp]
theorem leads_done_iff {a : α} {l : List (Exchange I)} {y : Program I α} :
    Leads (.done a) l y ↔ l = [] ∧ y = .done a := by
  constructor
  · intro h
    cases h
    exact ⟨rfl, rfl⟩
  · rintro ⟨rfl, rfl⟩
    exact .nil _

/-- A program ends once. -/
theorem Leads.done_unique {x : Program I α} {l₁ l₂ m₁ m₂ : List (Exchange I)} {a₁ a₂ : α}
    (h₁ : Leads x l₁ (.done a₁)) (h₂ : Leads x l₂ (.done a₂)) (heq : l₁ ++ m₁ = l₂ ++ m₂) :
    l₁ = l₂ ∧ a₁ = a₂ ∧ m₁ = m₂ := by
  have hlonger :
      ∀ {l m a a'}, Leads x l (.done a) → Leads x (l ++ m) (.done a') → m = [] ∧ a = a' := by
    intro l m a a' hl hlm
    obtain ⟨rfl, ha⟩ := leads_done_iff.mp (hl.cancel_left hlm)
    cases ha
    exact ⟨rfl, rfl⟩
  rcases List.append_eq_append_iff.mp heq with ⟨m, rfl, rfl⟩ | ⟨m, rfl, rfl⟩
  · obtain ⟨rfl, rfl⟩ := hlonger h₁ h₂
    simp
  · obtain ⟨rfl, rfl⟩ := hlonger h₂ h₁
    simp

/-- The ways of a program that goes on where another one ends: either the first part is still under
way, or it has ended and the second part is. -/
theorem leads_bind {x : Program I α} {f : α → Program I β} {l : List (Exchange I)}
    {z : Program I β} (h : Leads (x.bind f) l z) :
    (∃ y, Leads x l y ∧ z = y.bind f) ∨
      ∃ a l₁ l₂, l = l₁ ++ l₂ ∧ Leads x l₁ (.done a) ∧ Leads (f a) l₂ z := by
  -- along the first part: as long as it has exchanges to make, they are its own
  induction x generalizing l with
  | done a => exact .inr ⟨a, [], l, rfl, .nil _, h⟩
  | act r next ih =>
    cases h with
    | nil => exact .inl ⟨_, .nil _, rfl⟩
    | act h =>
      rcases ih _ h with ⟨y, hy, rfl⟩ | ⟨a, l₁, l₂, rfl, hx, hf⟩
      · exact .inl ⟨y, .act hy, rfl⟩
      · exact .inr ⟨a, _ :: l₁, l₂, rfl, .act hx, hf⟩
  | await w next ih =>
    cases h with
    | nil => exact .inl ⟨_, .nil _, rfl⟩
    | await h =>
      rcases ih _ h with ⟨y, hy, rfl⟩ | ⟨a, l₁, l₂, rfl, hx, hf⟩
      · exact .inl ⟨y, .await hy, rfl⟩
      · exact .inr ⟨a, _ :: _ :: l₁, l₂, rfl, .await hx, hf⟩

/-- A program that goes on where another one ends takes the whole way of the first, then one of the
second. -/
theorem leads_bind_done_iff {x : Program I α} {f : α → Program I β} {l : List (Exchange I)}
    {b : β} :
    Leads (x.bind f) l (.done b) ↔
      ∃ a l₁ l₂, l = l₁ ++ l₂ ∧ Leads x l₁ (.done a) ∧ Leads (f a) l₂ (.done b) := by
  constructor
  · intro h
    rcases leads_bind h with ⟨y, hy, hb⟩ | h
    · cases y with
      | done a => exact ⟨a, l, [], by simp, hy, hb ▸ .nil _⟩
      | act r next => cases hb
      | await w next => cases hb
    · exact h
  · rintro ⟨a, l₁, l₂, rfl, hx, hf⟩
    exact (hx.bind f).trans hf

/-- After the exchanges `l`, a program asks for what the exchange `e` begins with; what comes of an
act is not the program's to choose. -/
inductive Asks (x : Program I α) (l : List (Exchange I)) : Exchange I → Prop
  | act {r : I.Act} {next : I.Outcome r → Program I α} (out : I.Outcome r) :
      Leads x l (.act r next) → Asks x l (.act r out)
  | call {w : I.Wait} {next : Except Failure (I.Answer w) → Program I α} :
      Leads x l (.await w next) → Asks x l (.call w)

/-- What is not an answer has been asked for. -/
theorem Leads.asks {x z : Program I α} {l₁ l₂ : List (Exchange I)} {e : Exchange I}
    (h : Leads x (l₁ ++ e :: l₂) z) (he : ¬ e.IsAnswer) : Asks x l₁ e := by
  generalize hl : l₁ ++ e :: l₂ = l at h
  -- along the way, until what it has passed is the whole of the prefix
  induction h generalizing l₁ with
  | nil x => simp at hl
  | @act r next out l z h ih =>
    cases l₁ with
    | nil =>
      cases hl
      exact .act out (.nil _)
    | cons d l₁ =>
      simp only [List.cons_append, List.cons.injEq] at hl
      obtain ⟨rfl, hl⟩ := hl
      rcases ih hl with ⟨out', h⟩ | h
      · exact .act out' (.act h)
      · exact .call (.act h)
  | @await w next ans l z h ih =>
    match l₁ with
    | [] =>
      cases hl
      exact .call (.nil _)
    | [d] =>
      cases hl
      -- the exchange would be the answer of the wait before it
      exact (he trivial).elim
    | _ :: _ :: l₁ =>
      simp only [List.cons_append, List.cons.injEq] at hl
      obtain ⟨rfl, rfl, hl⟩ := hl
      rcases ih hl with ⟨out', h⟩ | h
      · exact .act out' (.await h)
      · exact .call (.await h)

/-- A program that has ended asks for nothing. -/
@[simp]
theorem not_asks_done {a : α} {l : List (Exchange I)} {e : Exchange I} :
    ¬ Asks (.done a) l e := by
  rintro (⟨_, h⟩ | h) <;> cases h

/-- A program that goes on where another one ends asks for what the first does, and then for what
the second does. -/
theorem asks_bind_iff {x : Program I α} {f : α → Program I β} {l : List (Exchange I)}
    {e : Exchange I} :
    Asks (x.bind f) l e ↔
      Asks x l e ∨ ∃ a l₁ l₂, l = l₁ ++ l₂ ∧ Leads x l₁ (.done a) ∧ Asks (f a) l₂ e := by
  constructor
  · rintro (@⟨r, next, out, h⟩ | @⟨w, next, h⟩)
    · -- where the whole asks, the first part is under way or over; if it has just ended, the second
      -- part has made nothing yet
      rcases leads_bind h with ⟨y, hy, hz⟩ | ⟨a, l₁, l₂, rfl, hx, hf⟩
      · cases y with
        | done a =>
          have hf : f a = .act r next := hz.symm
          exact .inr ⟨a, l, [], by simp, hy, .act out (by rw [hf]; exact .nil _)⟩
        | act r next =>
          cases hz
          exact .inl (.act out hy)
        | await w next => cases hz
      · exact .inr ⟨a, l₁, l₂, rfl, hx, .act out hf⟩
    · -- the same for a wait
      rcases leads_bind h with ⟨y, hy, hz⟩ | ⟨a, l₁, l₂, rfl, hx, hf⟩
      · cases y with
        | done a =>
          have hf : f a = .await w next := hz.symm
          exact .inr ⟨a, l, [], by simp, hy, .call (by rw [hf]; exact .nil _)⟩
        | act r next => cases hz
        | await w next =>
          cases hz
          exact .inl (.call hy)
      · exact .inr ⟨a, l₁, l₂, rfl, hx, .call hf⟩
  · rintro ((⟨out, h⟩ | h) | ⟨a, l₁, l₂, rfl, hx, (⟨out, h⟩ | h)⟩)
    · exact .act out (h.bind f)
    · exact .call (h.bind f)
    · exact .act out ((hx.bind f).trans h)
    · exact .call ((hx.bind f).trans h)

end Program

namespace Fiber

variable {I : Interface} {α β : Type} {l : List (Exchange I)}

/-- By the exchanges `l`, a program that may fail ends with the outcome `r`. -/
def Ends (x : Fiber I α) (l : List (Exchange I)) (r : Except Failure α) : Prop :=
  Program.Leads x.run l (.done r)

/-- A value is an end without exchanges. -/
@[simp]
theorem ends_pure_iff {a : α} {r : Except Failure α} :
    Ends (pure a : Fiber I α) l r ↔ l = [] ∧ r = .ok a := by
  refine Program.leads_done_iff.trans ?_
  simp

/-- A failure is an end without exchanges. -/
@[simp]
theorem ends_throw_iff {f : Failure} {r : Except Failure α} :
    Ends (throw f : Fiber I α) l r ↔ l = [] ∧ r = .error f := by
  refine Program.leads_done_iff.trans ?_
  simp

/-- A value or a failure that is known is an end without exchanges. -/
@[simp]
theorem ends_ofExcept_iff {x r : Except Failure α} :
    Ends (ofExcept x : Fiber I α) l r ↔ l = [] ∧ r = x := by
  refine Program.leads_done_iff.trans ?_
  simp

/-- An act is one exchange and does not fail. -/
@[simp]
theorem ends_act_iff {r : I.Act} {o : Except Failure (I.Outcome r)} :
    Ends (act r) l o ↔ ∃ out, l = [.act r out] ∧ o = .ok out := by
  constructor
  · intro h
    cases h with
    | act h =>
      cases h
      exact ⟨_, rfl, rfl⟩
  · rintro ⟨out, rfl, rfl⟩
    exact .act (.nil _)

/-- A wait ends as its answer says. -/
@[simp]
theorem ends_await_iff {w : I.Wait} {o : Except Failure (I.Answer w)} :
    Ends (await w) l o ↔ l = [.call w, .answer w o] := by
  constructor
  · intro h
    cases h with
    | await h =>
      cases h
      rfl
  · rintro rfl
    exact .await (.nil _)

/-- What a program does with the end of a first part. -/
theorem run_bind (x : Fiber I α) (f : α → Fiber I β) :
    (x >>= f).run = x.run.bind fun
      | .ok a => (f a).run
      | .error e => .done (.error e) := by
  refine congrArg (Program.bind x.run) (funext fun r => ?_)
  cases r <;> rfl

/-- A program in two parts fails with the first part, or goes on to the second. -/
theorem ends_bind_iff {x : Fiber I α} {f : α → Fiber I β} {r : Except Failure β} :
    Ends (x >>= f) l r ↔
      (∃ e, Ends x l (.error e) ∧ r = .error e) ∨
        ∃ a l₁ l₂, l = l₁ ++ l₂ ∧ Ends x l₁ (.ok a) ∧ Ends (f a) l₂ r := by
  rw [Ends, run_bind, Program.leads_bind_done_iff]
  constructor
  · rintro ⟨o, l₁, l₂, rfl, hx, hf⟩
    cases o with
    | error e =>
      -- after a failure nothing of the second part is run
      obtain ⟨rfl, hr⟩ := Program.leads_done_iff.mp hf
      cases hr
      exact .inl ⟨e, by rwa [List.append_nil], rfl⟩
    | ok a => exact .inr ⟨a, l₁, l₂, rfl, hx, hf⟩
  · rintro (⟨e, hx, rfl⟩ | ⟨a, l₁, l₂, rfl, hx, hf⟩)
    · exact ⟨.error e, l, [], by simp, hx, .nil _⟩
    · exact ⟨.ok a, l₁, l₂, rfl, hx, hf⟩

/-- A program that begins with an act. -/
theorem ends_act_bind_iff {r : I.Act} {f : I.Outcome r → Fiber I β} {o : Except Failure β} :
    Ends (act r >>= f) l o ↔ ∃ out l', l = .act r out :: l' ∧ Ends (f out) l' o := by
  rw [ends_bind_iff]
  constructor
  · rintro (⟨e, hr, -⟩ | ⟨a, l₁, l₂, rfl, hr, hf⟩)
    · obtain ⟨out, -, ho⟩ := ends_act_iff.mp hr
      cases ho
    · obtain ⟨out, rfl, ho⟩ := ends_act_iff.mp hr
      cases ho
      exact ⟨a, l₂, rfl, hf⟩
  · rintro ⟨out, l', rfl, hf⟩
    exact .inr ⟨out, [_], l', rfl, ends_act_iff.mpr ⟨out, rfl, rfl⟩, hf⟩

/-- A program that begins with a wait. -/
theorem ends_await_bind_iff {w : I.Wait} {f : I.Answer w → Fiber I β} {o : Except Failure β} :
    Ends (await w >>= f) l o ↔
      (∃ e, l = [.call w, .answer w (.error e)] ∧ o = .error e) ∨
        ∃ a l', l = .call w :: .answer w (.ok a) :: l' ∧ Ends (f a) l' o := by
  rw [ends_bind_iff]
  refine or_congr (by simp only [ends_await_iff]) ?_
  constructor
  · rintro ⟨a, l₁, l₂, rfl, hw, hf⟩
    rw [ends_await_iff] at hw
    exact ⟨a, l₂, by rw [hw]; rfl, hf⟩
  · rintro ⟨a, l', rfl, hf⟩
    exact ⟨a, [_, _], l', rfl, ends_await_iff.mpr rfl, hf⟩

/-- A function of a result takes the same exchanges. -/
theorem ends_map_iff {x : Fiber I α} {g : α → β} {r : Except Failure β} :
    Ends (g <$> x) l r ↔ ∃ r', Ends x l r' ∧ r = r'.map g := by
  rw [map_eq_pure_bind, ends_bind_iff]
  constructor
  · rintro (⟨e, hx, rfl⟩ | ⟨a, l₁, l₂, rfl, hx, hf⟩)
    · exact ⟨.error e, hx, rfl⟩
    · obtain ⟨rfl, rfl⟩ := ends_pure_iff.mp hf
      exact ⟨.ok a, by simpa using hx, rfl⟩
  · rintro ⟨r' | a, hx, rfl⟩
    · exact .inl ⟨r', hx, rfl⟩
    · exact .inr ⟨a, l, [], by simp, hx, ends_pure_iff.mpr ⟨rfl, rfl⟩⟩

/-- An attempt takes the same exchanges and does not fail. -/
@[simp]
theorem ends_attempt_iff {x : Fiber I α} {r : Except Failure (Except Failure α)} :
    Ends (attempt x) l r ↔ ∃ o, Ends x l o ∧ r = .ok o := by
  refine Program.leads_bind_done_iff.trans ?_
  constructor
  · rintro ⟨o, l₁, l₂, rfl, hx, hr⟩
    obtain ⟨rfl, hr⟩ := Program.leads_done_iff.mp hr
    cases hr
    exact ⟨o, by rwa [List.append_nil], rfl⟩
  · rintro ⟨o, hx, rfl⟩
    exact ⟨o, l, [], by simp, hx, .nil _⟩

/-- A program that begins with an attempt. -/
theorem ends_attempt_bind_iff {x : Fiber I α} {f : Except Failure α → Fiber I β}
    {r : Except Failure β} :
    Ends (attempt x >>= f) l r ↔
      ∃ o l₁ l₂, l = l₁ ++ l₂ ∧ Ends x l₁ o ∧ Ends (f o) l₂ r := by
  rw [ends_bind_iff]
  constructor
  · rintro (⟨e, hx, -⟩ | ⟨o, l₁, l₂, rfl, hx, hf⟩)
    · obtain ⟨o, -, ho⟩ := ends_attempt_iff.mp hx
      cases ho
    · obtain ⟨o, hx, ho⟩ := ends_attempt_iff.mp hx
      cases ho
      exact ⟨o, l₁, l₂, rfl, hx, hf⟩
  · rintro ⟨o, l₁, l₂, rfl, hx, hf⟩
    exact .inr ⟨o, l₁, l₂, rfl, ends_attempt_iff.mpr ⟨o, hx, rfl⟩, hf⟩

/-- After the exchanges `l`, a program that may fail asks for what the exchange `e` begins with. -/
def Asks (x : Fiber I α) (l : List (Exchange I)) (e : Exchange I) : Prop :=
  Program.Asks x.run l e

variable {e : Exchange I}

/-- What is not an answer has been asked for. -/
theorem Ends.asks {x : Fiber I α} {l₁ l₂ : List (Exchange I)} {r : Except Failure α}
    (h : Ends x (l₁ ++ e :: l₂) r) (he : ¬ e.IsAnswer) : Asks x l₁ e := Program.Leads.asks h he

/-- What is not an answer has been asked for on the way to what is asked for now. -/
theorem Asks.of_append {x : Fiber I α} {l₁ l₂ : List (Exchange I)} {d : Exchange I}
    (h : Asks x (l₁ ++ d :: l₂) e) (hd : ¬ d.IsAnswer) : Asks x l₁ d := by
  rcases h with ⟨_, h⟩ | h <;> exact h.asks hd

/-- A value asks for nothing. -/
@[simp]
theorem not_asks_pure {a : α} : ¬ Asks (pure a : Fiber I α) l e := Program.not_asks_done

/-- A failure asks for nothing. -/
@[simp]
theorem not_asks_throw {f : Failure} : ¬ Asks (throw f : Fiber I α) l e := Program.not_asks_done

/-- A value or a failure that is known asks for nothing. -/
@[simp]
theorem not_asks_ofExcept {x : Except Failure α} : ¬ Asks (ofExcept x : Fiber I α) l e :=
  Program.not_asks_done

/-- An act is asked for at once. -/
@[simp]
theorem asks_act_iff {r : I.Act} : Asks (act r) l e ↔ l = [] ∧ ∃ out, e = .act r out := by
  constructor
  · rintro (⟨out, h⟩ | h)
    · cases h with
      | nil => exact ⟨rfl, out, rfl⟩
      | act h => cases h
    · cases h with
      | act h => cases h
  · rintro ⟨rfl, out, rfl⟩
    exact .act out (.nil _)

/-- A wait is asked for at once. -/
@[simp]
theorem asks_await_iff {w : I.Wait} : Asks (await w) l e ↔ l = [] ∧ e = .call w := by
  constructor
  · rintro (⟨out, h⟩ | h)
    · cases h with
      | await h => cases h
    · cases h with
      | nil => exact ⟨rfl, rfl⟩
      | await h => cases h
  · rintro ⟨rfl, rfl⟩
    exact .call (.nil _)

/-- A program in two parts asks for what the first part does, and after its end for what the second
part does. -/
theorem asks_bind_iff {x : Fiber I α} {f : α → Fiber I β} :
    Asks (x >>= f) l e ↔
      Asks x l e ∨ ∃ a l₁ l₂, l = l₁ ++ l₂ ∧ Ends x l₁ (.ok a) ∧ Asks (f a) l₂ e := by
  rw [Asks, run_bind, Program.asks_bind_iff]
  refine or_congr Iff.rfl ⟨?_, ?_⟩
  · rintro ⟨o, l₁, l₂, rfl, hx, hf⟩
    cases o with
    | error f => exact absurd hf Program.not_asks_done
    | ok a => exact ⟨a, l₁, l₂, rfl, hx, hf⟩
  · rintro ⟨a, l₁, l₂, rfl, hx, hf⟩
    exact ⟨.ok a, l₁, l₂, rfl, hx, hf⟩

/-- What a program asks for that begins with an act. -/
theorem asks_act_bind_iff {r : I.Act} {f : I.Outcome r → Fiber I β} :
    Asks (act r >>= f) l e ↔
      (l = [] ∧ ∃ out, e = .act r out) ∨ ∃ out l', l = .act r out :: l' ∧ Asks (f out) l' e := by
  rw [asks_bind_iff, asks_act_iff]
  refine or_congr Iff.rfl ⟨?_, ?_⟩
  · rintro ⟨a, l₁, l₂, rfl, hr, hf⟩
    obtain ⟨out, rfl, ho⟩ := ends_act_iff.mp hr
    cases ho
    exact ⟨a, l₂, rfl, hf⟩
  · rintro ⟨out, l', rfl, hf⟩
    exact ⟨out, [_], l', rfl, ends_act_iff.mpr ⟨out, rfl, rfl⟩, hf⟩

/-- What a program asks for that begins with a wait. -/
theorem asks_await_bind_iff {w : I.Wait} {f : I.Answer w → Fiber I β} :
    Asks (await w >>= f) l e ↔
      (l = [] ∧ e = .call w) ∨
        ∃ a l', l = .call w :: .answer w (.ok a) :: l' ∧ Asks (f a) l' e := by
  rw [asks_bind_iff, asks_await_iff]
  refine or_congr Iff.rfl ⟨?_, ?_⟩
  · rintro ⟨a, l₁, l₂, rfl, hw, hf⟩
    rw [ends_await_iff] at hw
    exact ⟨a, l₂, by rw [hw]; rfl, hf⟩
  · rintro ⟨a, l', rfl, hf⟩
    exact ⟨a, [_, _], l', rfl, ends_await_iff.mpr rfl, hf⟩

/-- A function of a result asks for the same. -/
@[simp]
theorem asks_map_iff {x : Fiber I α} {g : α → β} : Asks (g <$> x) l e ↔ Asks x l e := by
  rw [map_eq_pure_bind, asks_bind_iff]
  simp

/-- An attempt asks for the same. -/
@[simp]
theorem asks_attempt_iff {x : Fiber I α} : Asks (attempt x) l e ↔ Asks x l e := by
  refine Program.asks_bind_iff.trans ?_
  simp [Asks]

/-- What a program asks for that begins with an attempt. -/
theorem asks_attempt_bind_iff {x : Fiber I α} {f : Except Failure α → Fiber I β} :
    Asks (attempt x >>= f) l e ↔
      Asks x l e ∨ ∃ o l₁ l₂, l = l₁ ++ l₂ ∧ Ends x l₁ o ∧ Asks (f o) l₂ e := by
  rw [asks_bind_iff, asks_attempt_iff]
  refine or_congr Iff.rfl ⟨?_, ?_⟩
  · rintro ⟨o, l₁, l₂, rfl, hx, hf⟩
    obtain ⟨o, hx, ho⟩ := ends_attempt_iff.mp hx
    cases ho
    exact ⟨o, l₁, l₂, rfl, hx, hf⟩
  · rintro ⟨o, l₁, l₂, rfl, hx, hf⟩
    exact ⟨o, l₁, l₂, rfl, ends_attempt_iff.mpr ⟨o, hx, rfl⟩, hf⟩

/-- By the exchanges `b`, a program comes to a part of it, after whose end it may go on. -/
def Comes (x : Fiber I α) (b : List (Exchange I)) (y : Fiber I β) : Prop :=
  ∃ f : Except Failure β → Program I (Except Failure α), Program.Leads x.run b (y.run.bind f)

/-- A program is a part of itself. -/
theorem Comes.refl (x : Fiber I α) : Comes x [] x :=
  ⟨.done, by rw [Program.bind_done]; exact .nil _⟩

/-- A part of a part is a part. -/
theorem Comes.trans {γ : Type} {x : Fiber I α} {y : Fiber I β} {z : Fiber I γ}
    {b : List (Exchange I)} (hy : Comes x b y) (hz : Comes y l z) : Comes x (b ++ l) z := by
  obtain ⟨f, hf⟩ := hy
  obtain ⟨f', hf'⟩ := hz
  refine ⟨fun r => (f' r).bind f, ?_⟩
  rw [← Program.bind_bind]
  exact hf.trans (hf'.bind f)

/-- What a program asks for after it has come to a part, that part asks for, unless it has ended. -/
theorem Comes.asks_cases {x : Fiber I α} {y : Fiber I β} {b : List (Exchange I)}
    (hy : Comes x b y) (h : Asks x (b ++ l) e) :
    Asks y l e ∨ ∃ l₁ l₂ r, l = l₁ ++ l₂ ∧ Ends y l₁ r := by
  obtain ⟨f, hf⟩ := hy
  have hrest : Program.Asks (y.run.bind f) l e := by
    rcases h with ⟨out, h⟩ | h
    · exact .act out (hf.cancel_left h)
    · exact .call (hf.cancel_left h)
  rcases Program.asks_bind_iff.mp hrest with h | ⟨r, l₁, l₂, rfl, h, -⟩
  · exact .inl h
  · exact .inr ⟨l₁, l₂, r, rfl, h⟩

/-- When a program has ended, a part that it has come to has ended. -/
theorem Comes.ends_cases {x : Fiber I α} {y : Fiber I β} {b : List (Exchange I)}
    {r : Except Failure α} (hy : Comes x b y) (h : Ends x (b ++ l) r) :
    ∃ l₁ l₂ r', l = l₁ ++ l₂ ∧ Ends y l₁ r' := by
  obtain ⟨f, hf⟩ := hy
  obtain ⟨r', l₁, l₂, rfl, h, -⟩ := Program.leads_bind_done_iff.mp (hf.cancel_left h)
  exact ⟨l₁, l₂, r', rfl, h⟩

/-- A program that may fail ends once. -/
theorem Ends.unique {x : Fiber I α} {l₁ l₂ m₁ m₂ : List (Exchange I)} {r₁ r₂ : Except Failure α}
    (h₁ : Ends x l₁ r₁) (h₂ : Ends x l₂ r₂) (heq : l₁ ++ m₁ = l₂ ++ m₂) :
    l₁ = l₂ ∧ r₁ = r₂ ∧ m₁ = m₂ :=
  Program.Leads.done_unique h₁ h₂ heq

/-- The first of two parts comes first. -/
theorem comes_bind {x : Fiber I α} {f : α → Fiber I β} : Comes (x >>= f) [] x :=
  ⟨_, by rw [run_bind]; exact .nil _⟩

/-- The second of two parts comes when the first one has ended. -/
theorem Ends.comes {x : Fiber I α} {f : α → Fiber I β} {a : α} (h : Ends x l (.ok a)) :
    Comes (x >>= f) l (f a) := by
  refine ⟨.done, ?_⟩
  rw [run_bind, Program.bind_done]
  exact Program.Leads.bind h _

/-- What is attempted comes at once. -/
theorem comes_attempt {x : Fiber I α} : Comes (attempt x) [] x := ⟨_, .nil _⟩

/-- What follows an attempt comes when that has ended. -/
theorem Ends.comes_attempt {x : Fiber I α} {f : Except Failure α → Fiber I β} {o : Except Failure α}
    (h : Ends x l o) : Comes (attempt x >>= f) l (f o) :=
  Ends.comes (ends_attempt_iff.mpr ⟨o, h, rfl⟩)

/-- What a function is applied to comes at once. -/
theorem comes_map {x : Fiber I α} {g : α → β} : Comes (g <$> x) [] x := by
  rw [map_eq_pure_bind]
  exact comes_bind

end Fiber

end PooledSql
