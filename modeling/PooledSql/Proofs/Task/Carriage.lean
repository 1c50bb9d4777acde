import PooledSql.Proofs.Task.Exchange
import PooledSql.Task.Settlement

/-!
# Carriage

A program is carried over to another interface by programs for its requests. What passes between the
program that is carried and its surroundings is known by what passes between the other one and its
own: each request stands for a stretch of exchanges, the last of which may still be under way.

* `Program.Reaches x l`: by the exchanges `l`, a program gets somewhere, be it into a wait.
* `Program.Tracks`: the exchanges of a program, and those of the program that carries it.
* `Program.Conveys`: what one more exchange of the program that carries means to the one that is
  carried.
* `Carriage`: how what a task asks for beyond other tasks is carried over.
-/

namespace PooledSql

namespace Program

variable {I K : Interface} {α β : Type}

/-- By the exchanges `l`, a program gets somewhere; it may be in the middle of a wait. -/
inductive Reaches : Program I α → List (Exchange I) → Prop
  | nil (x : Program I α) : Reaches x []
  | act {r : I.Act} {next : I.Outcome r → Program I α} {out : I.Outcome r}
      {l : List (Exchange I)} : Reaches (next out) l → Reaches (.act r next) (.act r out :: l)
  | call {w : I.Wait} {next : Except Failure (I.Answer w) → Program I α} :
      Reaches (.await w next) [.call w]
  | await {w : I.Wait} {next : Except Failure (I.Answer w) → Program I α}
      {ans : Except Failure (I.Answer w)} {l : List (Exchange I)} :
      Reaches (next ans) l → Reaches (.await w next) (.call w :: .answer w ans :: l)

/-- By the exchanges `l`, a program gets somewhere, but not to its end. -/
def Under (x : Program I α) (l : List (Exchange I)) : Prop :=
  Reaches x l ∧ ∀ a, ¬ Leads x l (.done a)

/-- Where exchanges lead, they get. -/
theorem Leads.reaches {x y : Program I α} {l : List (Exchange I)} (h : Leads x l y) :
    Reaches x l := by
  induction h with
  | nil x => exact .nil x
  | act _ ih => exact .act ih
  | await _ ih => exact .await ih

/-- A program gets into the wait that exchanges lead to. -/
theorem Leads.reaches_call {x : Program I α} {l : List (Exchange I)} {w : I.Wait}
    {next : Except Failure (I.Answer w) → Program I α} (h : Leads x l (.await w next)) :
    Reaches x (l ++ [.call w]) := by
  generalize hy : Program.await w next = y at h
  induction h with
  | nil x =>
    cases hy
    exact .call
  | act _ ih => exact .act (ih hy)
  | await _ ih => exact .await (ih hy)

/-- A program is in the middle of a wait, or exchanges lead somewhere. -/
theorem reaches_iff {x : Program I α} {l : List (Exchange I)} :
    Reaches x l ↔ (∃ y, Leads x l y) ∨
      ∃ l₀ w next, l = l₀ ++ [.call w] ∧ Leads x l₀ (.await w next) := by
  constructor
  · intro h
    induction h with
    | nil x => exact .inl ⟨x, .nil x⟩
    -- an act or an answered wait comes before whatever the rest of the way gets to
    | act _ ih =>
      rcases ih with ⟨y, hy⟩ | ⟨l₀, w, next, rfl, hl⟩
      · exact .inl ⟨y, .act hy⟩
      · exact .inr ⟨_ :: l₀, w, next, rfl, .act hl⟩
    | call => exact .inr ⟨[], _, _, rfl, .nil _⟩
    | await _ ih =>
      rcases ih with ⟨y, hy⟩ | ⟨l₀, w, next, rfl, hl⟩
      · exact .inl ⟨y, .await hy⟩
      · exact .inr ⟨_ :: _ :: l₀, w, next, rfl, .await hl⟩
  · rintro (⟨y, h⟩ | ⟨l₀, w, next, rfl, h⟩)
    · exact h.reaches
    · exact h.reaches_call

/-- A program goes on from where exchanges lead. -/
theorem Leads.cancel_reaches {x y : Program I α} {l₁ l₂ : List (Exchange I)} (h : Leads x l₁ y)
    (hr : Reaches x (l₁ ++ l₂)) : Reaches y l₂ := by
  induction h with
  | nil => exact hr
  | act _ ih => cases hr with | act hr => exact ih hr
  | await _ ih => cases hr with | await hr => exact ih hr

/-- An answer comes right after the beginning of its wait. -/
theorem Reaches.call_of_answer {x : Program I α} {l l₁ l₂ : List (Exchange I)} {w : I.Wait}
    {ans : Except Failure (I.Answer w)} (h : Reaches x l) (hl : l = l₁ ++ .answer w ans :: l₂) :
    ∃ l₀, l₁ = l₀ ++ [.call w] := by
  induction h generalizing l₁ with
  | nil => simp at hl
  | act _ ih =>
    cases l₁ with
    | nil => cases hl
    | cons d l₁ =>
      obtain ⟨l₀, rfl⟩ := ih (List.cons.inj hl).2
      exact ⟨d :: l₀, rfl⟩
  | call =>
    match l₁ with
    | [] => cases hl
    | d :: l₁ => simp at hl
  | await _ ih =>
    -- of the two exchanges of a wait the answer is the second
    match l₁ with
    | [] => cases hl
    | [d] =>
      cases hl
      exact ⟨[], rfl⟩
    | d₁ :: d₂ :: l₁ =>
      simp only [List.cons_append, List.cons.injEq] at hl
      obtain ⟨l₀, rfl⟩ := ih hl.2.2
      exact ⟨d₁ :: d₂ :: l₀, rfl⟩

/-- A program that has ended gets nowhere else. -/
theorem Reaches.eq_nil_of_done {a : α} {l : List (Exchange I)} (h : Reaches (.done a) l) :
    l = [] := by
  cases h
  rfl

/-- A program that has not begun is under way unless there is nothing to do. -/
theorem under_nil {x : Program I α} (hx : ∀ a, x ≠ .done a) : Under x [] := by
  refine ⟨.nil x, fun a h => ?_⟩
  cases h
  exact hx a rfl

/-- A program that is under way has not ended before. -/
theorem Under.not_done {x : Program I α} {l₁ l₂ : List (Exchange I)} {a : α}
    (h : Under x (l₁ ++ l₂)) :
    ¬ Leads x l₁ (.done a) := by
  intro hdone
  obtain rfl := (hdone.cancel_reaches h.1).eq_nil_of_done
  exact h.2 a (by rwa [List.append_nil])

/-- What is not an answer has been asked for. -/
theorem Reaches.asks {x : Program I α} {l : List (Exchange I)} {e : Exchange I}
    (h : Reaches x (l ++ [e])) (he : ¬ e.IsAnswer) : Asks x l e := by
  rcases reaches_iff.mp h with ⟨y, hy⟩ | ⟨l₀, w, next, heq, hl₀⟩
  · exact hy.asks he
  · obtain ⟨rfl, hew⟩ := List.append_inj' heq rfl
    cases hew
    exact .call hl₀

/-- A program gets to what it asks for. -/
theorem Asks.reaches {x : Program I α} {l : List (Exchange I)} {e : Exchange I} (h : Asks x l e) :
    Reaches x (l ++ [e]) := by
  rcases h with ⟨out, h⟩ | h
  · exact (h.snoc_act out).reaches
  · exact h.reaches_call

/-- The first exchange of a program is not the end of a wait. -/
theorem Reaches.not_isAnswer {x : Program I α} {e : Exchange I} (h : Reaches x [e]) :
    ¬ e.IsAnswer := by
  cases h <;> exact id

/-- A program that goes on where another one ends gets somewhere in the first part, or it has ended
that and gets somewhere in the second one. -/
theorem Reaches.of_bind {x : Program I α} {f : α → Program I β} {l : List (Exchange I)}
    (h : Reaches (x.bind f) l) :
    Under x l ∨ ∃ a l₁ l₂, l = l₁ ++ l₂ ∧ Leads x l₁ (.done a) ∧ Reaches (f a) l₂ := by
  induction x generalizing l with
  | done a => exact .inr ⟨a, [], l, rfl, .nil _, h⟩
  | act r next ih =>
    cases h with
    | nil => exact .inl (under_nil nofun)
    | act h =>
      rcases ih _ h with ⟨hr, hd⟩ | ⟨a, l₁, l₂, rfl, hx, hf⟩
      · -- the first part is still not over: it could only have ended after this act
        refine .inl ⟨.act hr, fun a ha => ?_⟩
        cases ha with | act ha => exact hd a ha
      · exact .inr ⟨a, _ :: l₁, l₂, rfl, .act hx, hf⟩
  | await w next ih =>
    cases h with
    | nil => exact .inl (under_nil nofun)
    | call => exact .inl ⟨.call, fun a ha => nomatch ha⟩
    | await h =>
      rcases ih _ h with ⟨hr, hd⟩ | ⟨a, l₁, l₂, rfl, hx, hf⟩
      · refine .inl ⟨.await hr, fun a ha => ?_⟩
        cases ha with | await ha => exact hd a ha
      · exact .inr ⟨a, _ :: _ :: l₁, l₂, rfl, .await hx, hf⟩

/-- An act is led past by what comes of it. -/
theorem leads_act_done_iff {r : I.Act} {out : I.Outcome r} {l : List (Exchange I)} :
    Leads (.act r .done) l (.done out) ↔ l = [.act r out] := by
  constructor
  · intro h
    cases h with
    | act h =>
      cases h
      rfl
  · rintro rfl
    exact .act (.nil _)

/-- A wait is led past by its answer. -/
theorem leads_await_done_iff {w : I.Wait} {ans : Except Failure (I.Answer w)}
    {l : List (Exchange I)} :
    Leads (.await w .done) l (.done ans) ↔ l = [.call w, .answer w ans] := by
  constructor
  · intro h
    cases h with
    | await h =>
      cases h
      rfl
  · rintro rfl
    exact .await (.nil _)

/-- There is no way into a single act. -/
theorem eq_nil_of_under_act {r : I.Act} {l : List (Exchange I)}
    (h : Under (.act r .done : Program I (I.Outcome r)) l) : l = [] := by
  obtain ⟨hr, hd⟩ := h
  cases hr with
  | nil => rfl
  | act hr =>
    cases hr
    exact (hd _ (.act (.nil _))).elim

/-- The only way into a single wait is to wait. -/
theorem eq_of_under_await {w : I.Wait} {l : List (Exchange I)}
    (h : Under (.await w .done : Program I (Except Failure (I.Answer w))) l) (hl : l ≠ []) :
    l = [.call w] := by
  obtain ⟨hr, hd⟩ := h
  cases hr with
  | nil => exact absurd rfl hl
  | call => rfl
  | await hr =>
    cases hr
    exact (hd _ (.await (.nil _))).elim

/-- Nothing else passes in a single act. -/
theorem Reaches.mem_act {r : I.Act} {l : List (Exchange I)} {e : Exchange I}
    (h : Reaches (.act r .done : Program I (I.Outcome r)) l) (he : e ∈ l) :
    ∃ out, e = .act r out := by
  cases h with
  | nil => cases he
  | act hdone =>
    cases hdone
    exact ⟨_, List.mem_singleton.mp he⟩

/-- Nothing else passes in a single wait. -/
theorem Reaches.mem_await {w : I.Wait} {l : List (Exchange I)} {e : Exchange I}
    (h : Reaches (.await w .done : Program I (Except Failure (I.Answer w))) l) (he : e ∈ l) :
    e = .call w ∨ ∃ ans, e = .answer w ans := by
  cases h with
  | nil => cases he
  | call => exact .inl (List.mem_singleton.mp he)
  | await hdone =>
    cases hdone
    rcases List.mem_cons.mp he with he | he
    · exact .inl he
    · exact .inr ⟨_, List.mem_singleton.mp he⟩

/-- Carrying over a program in two parts is carrying over both. -/
theorem carry_bind (acts : (r : I.Act) → Program K (I.Outcome r))
    (waits : (w : I.Wait) → Program K (Except Failure (I.Answer w))) (x : Program I α)
    (f : α → Program I β) :
    (x.bind f).carry acts waits = (x.carry acts waits).bind fun a => (f a).carry acts waits := by
  induction x with
  | done a => rfl
  | act r next ih =>
    simp only [Program.bind, carry, bind_bind]
    exact congrArg (Program.bind (acts r)) (funext ih)
  | await w next ih =>
    simp only [Program.bind, carry, bind_bind]
    exact congrArg (Program.bind (waits w)) (funext ih)

/-- All that a program may ever ask for is such as `A` and `B` say. -/
def Keeps (A : I.Act → Prop) (B : I.Wait → Prop) : Program I α → Prop
  | done _ => True
  | act r next => A r ∧ ∀ out, (next out).Keeps A B
  | await w next => B w ∧ ∀ ans, (next ans).Keeps A B

/-- A program in two parts asks for what its parts do. -/
theorem Keeps.bind {A : I.Act → Prop} {B : I.Wait → Prop} {x : Program I α} {f : α → Program I β}
    (hx : x.Keeps A B) (hf : ∀ a, (f a).Keeps A B) : (x.bind f).Keeps A B := by
  induction x with
  | done a => exact hf a
  | act r next ih => exact ⟨hx.1, fun out => ih out (hx.2 out)⟩
  | await w next ih => exact ⟨hx.1, fun ans => ih ans (hx.2 ans)⟩

/-- A program asks for what it may under a laxer rule as well. -/
theorem Keeps.mono {A A' : I.Act → Prop} {B B' : I.Wait → Prop} {x : Program I α} (hx : x.Keeps A B)
    (hA : ∀ r, A r → A' r) (hB : ∀ w, B w → B' w) : x.Keeps A' B' := by
  induction x with
  | done a => trivial
  | act r next ih => exact ⟨hA r hx.1, fun out => ih out (hx.2 out)⟩
  | await w next ih => exact ⟨hB w hx.1, fun ans => ih ans (hx.2 ans)⟩

/-- What passes in a program is such as `A` and `B` say. -/
theorem Keeps.of_reaches {A : I.Act → Prop} {B : I.Wait → Prop} {x : Program I α}
    {l : List (Exchange I)} (hx : x.Keeps A B) (h : Reaches x l) :
    ∀ e ∈ l, match e with
      | .act r _ => A r
      | .call w | .answer w _ => B w := by
  induction h with
  | nil => exact List.forall_mem_nil _
  | act _ ih => exact List.forall_mem_cons.mpr ⟨hx.1, ih (hx.2 _)⟩
  | call => exact List.forall_mem_singleton.mpr hx.1
  | await _ ih =>
    exact List.forall_mem_cons.mpr ⟨hx.1, List.forall_mem_cons.mpr ⟨hx.1, ih (hx.2 _)⟩⟩

section Tracks

variable (acts : (r : I.Act) → Program K (I.Outcome r))
  (waits : (w : I.Wait) → Program K (Except Failure (I.Answer w)))

/-- The exchanges of a program, and those of the program that carries it. -/
inductive Tracks : Program I α → List (Exchange I) → List (Exchange K) → Prop
  | nil (x : Program I α) : Tracks x [] []
  | act {r : I.Act} {next : I.Outcome r → Program I α} {out : I.Outcome r}
      {b l' : List (Exchange K)} {l : List (Exchange I)} :
      Leads (acts r) b (.done out) → Tracks (next out) l l' →
      Tracks (.act r next) (.act r out :: l) (b ++ l')
  /-- An act is being carried over. -/
  | acting {r : I.Act} {next : I.Outcome r → Program I α} {b : List (Exchange K)} :
      b ≠ [] → Under (acts r) b → Tracks (.act r next) [] b
  | await {w : I.Wait} {next : Except Failure (I.Answer w) → Program I α}
      {ans : Except Failure (I.Answer w)} {b l' : List (Exchange K)} {l : List (Exchange I)} :
      Leads (waits w) b (.done ans) → Tracks (next ans) l l' →
      Tracks (.await w next) (.call w :: .answer w ans :: l) (b ++ l')
  /-- A wait is being carried over. -/
  | waiting {w : I.Wait} {next : Except Failure (I.Answer w) → Program I α}
      {b : List (Exchange K)} :
      b ≠ [] → Under (waits w) b → Tracks (.await w next) [.call w] b

/-- What the exchange `e` of the program that carries means to the program that is carried, which
has made the exchanges `l`, by way of `l'`. -/
inductive Conveys (x : Program I α) (l : List (Exchange I)) (l' : List (Exchange K))
    (e : Exchange K) : List (Exchange I) → Prop
  | act {r : I.Act} {next : I.Outcome r → Program I α} {out : I.Outcome r}
      {l₁ b : List (Exchange K)} : Leads x l (.act r next) → l' = l₁ ++ b →
      Leads (acts r) (b ++ [e]) (.done out) → Conveys x l l' e [.act r out]
  | acting {r : I.Act} {next : I.Outcome r → Program I α} {l₁ b : List (Exchange K)} :
      Leads x l (.act r next) → l' = l₁ ++ b → Under (acts r) (b ++ [e]) → Conveys x l l' e []
  | call {w : I.Wait} {next : Except Failure (I.Answer w) → Program I α} :
      Leads x l (.await w next) → Under (waits w) [e] → Conveys x l l' e [.call w]
  | waiting {l₀ : List (Exchange I)} {w : I.Wait} {next : Except Failure (I.Answer w) → Program I α}
      {l₁ b : List (Exchange K)} : l = l₀ ++ [.call w] → Leads x l₀ (.await w next) → l' = l₁ ++ b →
      b ≠ [] → Under (waits w) (b ++ [e]) → Conveys x l l' e []
  | answer {l₀ : List (Exchange I)} {w : I.Wait} {next : Except Failure (I.Answer w) → Program I α}
      {ans : Except Failure (I.Answer w)} {l₁ b : List (Exchange K)} : l = l₀ ++ [.call w] →
      Leads x l₀ (.await w next) → l' = l₁ ++ b → b ≠ [] →
      Leads (waits w) (b ++ [e]) (.done ans) → Conveys x l l' e [.answer w ans]
  | both {w : I.Wait} {next : Except Failure (I.Answer w) → Program I α}
      {ans : Except Failure (I.Answer w)} : Leads x l (.await w next) →
      Leads (waits w) [e] (.done ans) → Conveys x l l' e [.call w, .answer w ans]

variable {acts waits} {l : List (Exchange I)} {l' b : List (Exchange K)} {e : Exchange K}
  {xs : List (Exchange I)}

/-- What an exchange means does not depend on the acts before. -/
theorem Conveys.after_act {r : I.Act} {next : I.Outcome r → Program I α} {out : I.Outcome r}
    (h : Conveys acts waits (next out) l l' e xs) :
    Conveys acts waits (.act r next) (.act r out :: l) (b ++ l') e xs := by
  cases h with
  | act hl hb he => exact .act (.act hl) (by rw [hb, List.append_assoc]) he
  | acting hl hb he => exact .acting (.act hl) (by rw [hb, List.append_assoc]) he
  | call hl he => exact .call (.act hl) he
  | waiting hl hx hb hne he =>
    exact .waiting (by rw [hl]; rfl) (.act hx) (by rw [hb, List.append_assoc]) hne he
  | answer hl hx hb hne he =>
    exact .answer (by rw [hl]; rfl) (.act hx) (by rw [hb, List.append_assoc]) hne he
  | both hl he => exact .both (.act hl) he

/-- What an exchange means does not depend on the waits before. -/
theorem Conveys.after_await {w : I.Wait} {next : Except Failure (I.Answer w) → Program I α}
    {ans : Except Failure (I.Answer w)} (h : Conveys acts waits (next ans) l l' e xs) :
    Conveys acts waits (.await w next) (.call w :: .answer w ans :: l) (b ++ l') e xs := by
  cases h with
  | act hl hb he => exact .act (.await hl) (by rw [hb, List.append_assoc]) he
  | acting hl hb he => exact .acting (.await hl) (by rw [hb, List.append_assoc]) he
  | call hl he => exact .call (.await hl) he
  | waiting hl hx hb hne he =>
    exact .waiting (by rw [hl]; rfl) (.await hx) (by rw [hb, List.append_assoc]) hne he
  | answer hl hx hb hne he =>
    exact .answer (by rw [hl]; rfl) (.await hx) (by rw [hb, List.append_assoc]) hne he
  | both hl he => exact .both (.await hl) he

/-- A program that has come to its end by some exchanges has so by the last one of them, or
before. -/
theorem Under.ended {x : Program I α} {m m₁ m₂ : List (Exchange I)} {d : Exchange I} {a : α}
    (hm : Under x m) (hsplit : m ++ [d] = m₁ ++ m₂) (hdone : Leads x m₁ (.done a)) :
    m₂ = [] ∧ m₁ = m ++ [d] := by
  rcases List.eq_nil_or_concat m₂ with rfl | ⟨m₂, d', rfl⟩
  · exact ⟨rfl, by simpa using hsplit.symm⟩
  · rw [List.concat_eq_append, ← List.append_assoc] at hsplit
    obtain ⟨rfl, -⟩ := List.append_inj' hsplit rfl
    exact (hm.not_done hdone).elim

/-- One more exchange of the program that carries means something to the program that is carried. -/
theorem Tracks.extend {x : Program I α} (hacts : ∀ r out, acts r ≠ .done out)
    (hwaits : ∀ w ans, waits w ≠ .done ans) (h : Tracks acts waits x l l')
    (hr : Reaches (x.carry acts waits) (l' ++ [e])) :
    ∃ xs, Tracks acts waits x (l ++ xs) (l' ++ [e]) ∧ Conveys acts waits x l l' e xs := by
  induction h with
  | nil x =>
    cases x with
    | done a => cases hr
    | act r next =>
      -- the first exchange for an act either belongs to what the act is carried over as, or
      -- completes it; it cannot come after it, since no act is carried over as nothing
      rcases hr.of_bind with hu | ⟨out, l₁, l₂, he, hdone, -⟩
      · exact ⟨[], .acting (by simp) hu, .acting (.nil _) (List.nil_append []).symm hu⟩
      · obtain ⟨rfl, rfl⟩ := (under_nil (hacts r)).ended he hdone
        refine ⟨[.act r out], ?_, .act (.nil _) (List.nil_append []).symm hdone⟩
        simpa using Tracks.act hdone (.nil (next out))
    | await w next =>
      -- for a wait it also begins the wait, and if it completes it, answers it at once
      rcases hr.of_bind with hu | ⟨ans, l₁, l₂, he, hdone, -⟩
      · exact ⟨[.call w], .waiting (by simp) hu, .call (.nil _) hu⟩
      · obtain ⟨rfl, rfl⟩ := (under_nil (hwaits w)).ended he hdone
        refine ⟨[.call w, .answer w ans], ?_, .both (.nil _) hdone⟩
        simpa using Tracks.await hdone (.nil (next ans))
  -- what has been carried over completely is left behind
  | @act r next out b l' l hb _ ih =>
    rw [List.append_assoc] at hr
    obtain ⟨xs, ht, hc⟩ := ih ((hb.bind _).cancel_reaches hr)
    exact ⟨xs, by simpa using Tracks.act hb ht, hc.after_act⟩
  | @acting r next b hne hu =>
    -- one more exchange for what is under way: it goes on, or is complete with it
    rcases hr.of_bind with hu' | ⟨out, l₁, l₂, he, hdone, -⟩
    · exact ⟨[], .acting (by simp) hu', .acting (.nil _) (List.nil_append b).symm hu'⟩
    · obtain ⟨rfl, rfl⟩ := hu.ended he hdone
      refine ⟨[.act r out], ?_, .act (.nil _) (List.nil_append b).symm hdone⟩
      simpa using Tracks.act hdone (.nil (next out))
  | @await w next ans b l' l hb _ ih =>
    rw [List.append_assoc] at hr
    obtain ⟨xs, ht, hc⟩ := ih ((hb.bind _).cancel_reaches hr)
    exact ⟨xs, by simpa using Tracks.await hb ht, hc.after_await⟩
  | @waiting w next b hne hu =>
    rcases hr.of_bind with hu' | ⟨ans, l₁, l₂, he, hdone, -⟩
    · exact ⟨[], .waiting (by simp) hu',
        .waiting (List.nil_append _).symm (.nil _) (List.nil_append b).symm hne hu'⟩
    · obtain ⟨rfl, rfl⟩ := hu.ended he hdone
      refine ⟨[.answer w ans], ?_,
        .answer (List.nil_append _).symm (.nil _) (List.nil_append b).symm hne hdone⟩
      simpa using Tracks.await hdone (.nil (next ans))

/-- A program has ended when the one that carries it has. -/
theorem Tracks.leads_done {x : Program I α} {a : α} (hacts : ∀ r out, acts r ≠ .done out)
    (hwaits : ∀ w ans, waits w ≠ .done ans) (h : Tracks acts waits x l l')
    (hd : Leads (x.carry acts waits) l' (.done a)) : Leads x l (.done a) := by
  induction h with
  | nil x =>
    cases x with
    | done =>
      cases hd
      exact .nil _
    | act r next =>
      -- without an exchange nothing can be complete
      obtain ⟨out, l₁, l₂, he, hdone, -⟩ := leads_bind_done_iff.mp hd
      obtain ⟨rfl, -⟩ := List.append_eq_nil_iff.mp he.symm
      exact ((under_nil (hacts r)).2 out hdone).elim
    | await w next =>
      obtain ⟨ans, l₁, l₂, he, hdone, -⟩ := leads_bind_done_iff.mp hd
      obtain ⟨rfl, -⟩ := List.append_eq_nil_iff.mp he.symm
      exact ((under_nil (hwaits w)).2 ans hdone).elim
  | act hb _ ih => exact .act (ih ((hb.bind _).cancel_left hd))
  | acting hne hu =>
    -- what is under way is not complete at an earlier point either
    obtain ⟨out, l₁, l₂, rfl, hdone, -⟩ := leads_bind_done_iff.mp hd
    exact (hu.not_done hdone).elim
  | await hb _ ih => exact .await (ih ((hb.bind _).cancel_left hd))
  | waiting hne hu =>
    obtain ⟨ans, l₁, l₂, rfl, hdone, -⟩ := leads_bind_done_iff.mp hd
    exact (hu.not_done hdone).elim

/-- A program gets where the one that carries it does. -/
theorem Tracks.reaches {x : Program I α} (h : Tracks acts waits x l l') : Reaches x l := by
  induction h with
  | nil | acting => exact .nil _
  | act _ _ ih => exact .act ih
  | await _ _ ih => exact .await ih
  | waiting => exact .call

/-- What is complete ends with no wait, so a wait at the end belongs to what comes later. -/
theorem Leads.exists_concat_of_append {x : Program K α} {y : Program K α} {v : K.Wait}
    {l₁ l₂ m : List (Exchange K)} (hx : Leads x l₁ y) (hl : l₁ ++ l₂ = m ++ [.call v]) :
    ∃ m', l₂ = m' ++ [.call v] := by
  rcases List.eq_nil_or_concat l₂ with rfl | ⟨m', d, rfl⟩
  · rw [List.append_nil] at hl
    exact (Leads.not_snoc_call (hl ▸ hx)).elim
  · rw [List.concat_eq_append, ← List.append_assoc] at hl
    obtain ⟨-, hd⟩ := List.append_inj' hl rfl
    exact ⟨m', by rw [List.concat_eq_append, hd]⟩

/-- The program that is carried is in the middle of a wait when the one that carries it is. -/
theorem Tracks.call_of_call {x : Program I α} {v : K.Wait}
    (hprompt : ∀ r l v, ¬ Asks (acts r) l (.call v))
    (h : Tracks acts waits x l l') (hl' : l' = b ++ [.call v]) : ∃ l₀ w, l = l₀ ++ [.call w] := by
  induction h generalizing b with
  | nil => simp at hl'
  | @act r next out b' l' l hb ht ih =>
    obtain ⟨m, rfl⟩ := hb.exists_concat_of_append hl'
    obtain ⟨l₀, w, rfl⟩ := ih rfl
    exact ⟨_ :: l₀, w, rfl⟩
  | @acting r next b' hne hu =>
    -- acts are carried over without waiting
    rcases reaches_iff.mp hu.1 with ⟨y, hy⟩ | ⟨l₀, w, next, -, hx⟩
    · exact (Leads.not_snoc_call (hl' ▸ hy)).elim
    · exact (hprompt r l₀ w (.call hx)).elim
  | @await w next ans b' l' l hb ht ih =>
    obtain ⟨m, rfl⟩ := hb.exists_concat_of_append hl'
    obtain ⟨l₀, w', rfl⟩ := ih rfl
    exact ⟨_ :: _ :: l₀, w', rfl⟩
  | @waiting w => exact ⟨[], w, rfl⟩

/-- While a program that is carried is in the middle of a wait, what has been made for the wait is
not all of it. -/
theorem Tracks.under_of_call {x : Program I α} {l₀ : List (Exchange I)} {w : I.Wait}
    (h : Tracks acts waits x (l₀ ++ [.call w]) l') :
    ∃ m b, l' = m ++ b ∧ b ≠ [] ∧ Under (waits w) b := by
  generalize hl : l₀ ++ [.call w] = l at h
  -- along what the carried program has made, down to its last exchange
  induction h generalizing l₀ with
  | nil | acting => simp at hl
  | @act r next out b l' l hb ht ih =>
    cases l₀ with
    | nil => cases hl
    | cons d l₀ =>
      obtain ⟨m, b', rfl, hwaiting⟩ := ih (List.cons.inj hl).2
      exact ⟨b ++ m, b', (List.append_assoc ..).symm, hwaiting⟩
  | @await v next ans b l' l hb ht ih =>
    match l₀ with
    | [] | [_] => cases hl
    | _ :: _ :: l₀ =>
      obtain ⟨m, b', rfl, hwaiting⟩ := ih (List.cons.inj (List.cons.inj hl).2).2
      exact ⟨b ++ m, b', (List.append_assoc ..).symm, hwaiting⟩
  | @waiting v next b hne hu =>
    match l₀ with
    | [] =>
      cases hl
      exact ⟨[], b, rfl, hne, hu⟩
    | _ :: l₀ => simp at hl

variable (acts waits) in
/-- Among the exchanges `l'` of the program that carries, `b` are made for the wait `w` that the
program that is carried has come to by the exchanges `l`. -/
def Serves (x : Program I α) (l : List (Exchange I)) (w : I.Wait)
    (l' b : List (Exchange K)) : Prop :=
  ∃ m m', l' = m ++ (b ++ m') ∧ Tracks acts waits x l m ∧ (∃ next, Leads x l (.await w next)) ∧
    b ≠ [] ∧ ((m' = [] ∧ Under (waits w) b) ∨ ∃ ans, Leads (waits w) b (.done ans))

/-- Exchanges are made for a wait after those that are made for an act. -/
theorem Serves.after_act {r : I.Act} {next : I.Outcome r → Program I α} {out : I.Outcome r}
    {w : I.Wait}
    {d : List (Exchange K)} (hd : Leads (acts r) d (.done out))
    (h : Serves acts waits (next out) l w l' b) :
    Serves acts waits (.act r next) (.act r out :: l) w (d ++ l') b := by
  obtain ⟨m, m', rfl, ht, ⟨next', hx⟩, hb⟩ := h
  exact ⟨d ++ m, m', by simp, .act hd ht, ⟨next', .act hx⟩, hb⟩

/-- Exchanges are made for a wait after those that are made for another one. -/
theorem Serves.after_await {v w : I.Wait} {next : Except Failure (I.Answer v) → Program I α}
    {ans : Except Failure (I.Answer v)} {d : List (Exchange K)} (hd : Leads (waits v) d (.done ans))
    (h : Serves acts waits (next ans) l w l' b) :
    Serves acts waits (.await v next) (.call v :: .answer v ans :: l) w (d ++ l') b := by
  obtain ⟨m, m', rfl, ht, ⟨next', hx⟩, hb⟩ := h
  exact ⟨d ++ m, m', by simp, .await hd ht, ⟨next', .await hx⟩, hb⟩

/-- Nobody is served a wait without anything that passes. -/
theorem ne_nil_of_leads_done {x : Program I α} {a : α} (hx : ∀ a, x ≠ .done a)
    (h : Leads x b' (.done a)) : b' ≠ [] := by
  rintro rfl
  exact (under_nil hx).2 a h

/-- Some exchanges are made for each wait of the program that is carried, and they come to its
answer. -/
theorem Tracks.serves {x : Program I α} {l₁ l₂ : List (Exchange I)} {w : I.Wait}
    (hwaits : ∀ w ans, waits w ≠ .done ans) (h : Tracks acts waits x (l₁ ++ .call w :: l₂) l') :
    ∃ b, Serves acts waits x l₁ w l' b ∧
      ∀ ans l₃, l₂ = .answer w ans :: l₃ → Leads (waits w) b (.done ans) := by
  generalize hl : l₁ ++ .call w :: l₂ = l at h
  -- the exchanges made before the wait are put aside one by one
  induction h generalizing l₁ with
  | nil => simp at hl
  | act hb ht ih =>
    cases l₁ with
    | nil => cases hl
    | cons d l₁ =>
      simp only [List.cons_append, List.cons.injEq] at hl
      obtain ⟨rfl, hl⟩ := hl
      obtain ⟨b, hserves, hans⟩ := ih hl
      exact ⟨b, hserves.after_act hb, hans⟩
  | acting => simp at hl
  | @await v next ans b l' l hb ht ih =>
    match l₁ with
    | [] =>
      cases hl
      -- the wait is the first exchange that is left, and it has been answered
      refine ⟨b, ⟨[], l', rfl, .nil _, ⟨_, .nil _⟩, ne_nil_of_leads_done (hwaits w) hb,
        .inr ⟨ans, hb⟩⟩, ?_⟩
      rintro _ _ ⟨⟩
      exact hb
    | [d] => simp at hl
    | _ :: _ :: l₁ =>
      simp only [List.cons_append, List.cons.injEq] at hl
      obtain ⟨rfl, rfl, hl⟩ := hl
      obtain ⟨b, hserves, hans⟩ := ih hl
      exact ⟨b, hserves.after_await hb, hans⟩
  | @waiting v next b hne hu =>
    match l₁ with
    | [] =>
      cases hl
      -- the wait is the first exchange that is left, and is being carried over
      exact ⟨b, ⟨[], [], by simp, .nil _, ⟨_, .nil _⟩, hne, .inl ⟨rfl, hu⟩⟩, nofun⟩
    | _ :: l₁ => simp at hl

/-- Every exchange is made for an act or for a wait of the program that is carried. -/
theorem Tracks.serves_of_mem {x : Program I α} (hwaits : ∀ w ans, waits w ≠ .done ans)
    (h : Tracks acts waits x l l') (he : e ∈ l') :
    (∃ r b, Reaches (acts r) b ∧ e ∈ b) ∨
      ∃ l₁ w l₂ b, l = l₁ ++ .call w :: l₂ ∧ Serves acts waits x l₁ w l' b ∧ e ∈ b := by
  induction h with
  | nil => cases he
  | @act r next out b l' l hb ht ih =>
    -- the exchange is one of those for the first act, or comes later
    rcases List.mem_append.mp he with he | he
    · exact .inl ⟨r, b, hb.reaches, he⟩
    · rcases ih he with hacts | ⟨l₁, w, l₂, b, rfl, hserves, he⟩
      · exact .inl hacts
      · exact .inr ⟨_ :: l₁, w, l₂, b, rfl, hserves.after_act hb, he⟩
  | @acting r next b hne hu => exact .inl ⟨r, b, hu.1, he⟩
  | @await v next ans b l' l hb ht ih =>
    rcases List.mem_append.mp he with he | he
    · exact .inr ⟨[], v, _, b, rfl, ⟨[], l', rfl, .nil _, ⟨_, .nil _⟩,
        ne_nil_of_leads_done (hwaits v) hb, .inr ⟨ans, hb⟩⟩, he⟩
    · rcases ih he with hacts | ⟨l₁, w, l₂, b, rfl, hserves, he⟩
      · exact .inl hacts
      · exact .inr ⟨_ :: _ :: l₁, w, l₂, b, rfl, hserves.after_await hb, he⟩
  | @waiting v next b hne hu =>
    exact .inr ⟨[], v, [], b, rfl, ⟨[], [], by simp, .nil _, ⟨_, .nil _⟩, hne, .inl ⟨rfl, hu⟩⟩, he⟩

/-- A program that comes to a wait does so once in the program that carries it. -/
theorem Tracks.unique {x : Program I α} {w : I.Wait}
    {next : Except Failure (I.Answer w) → Program I α}
    {m₁ m₂ n₁ n₂ : List (Exchange K)} (h₁ : Tracks acts waits x l m₁)
    (h₂ : Tracks acts waits x l m₂)
    (hx : Leads x l (.await w next)) (heq : m₁ ++ n₁ = m₂ ++ n₂) : m₁ = m₂ := by
  -- a program that makes the same exchanges takes the same way, so the two ways run in step
  induction h₁ generalizing m₂ with
  | nil x =>
    cases hx
    cases h₂
    rfl
  | act hb _ ih =>
    cases hx with
    | act hx =>
      cases h₂ with
      | act hb' h₂ =>
        rw [List.append_assoc, List.append_assoc] at heq
        -- what an act is carried over as is the same in both, since it ends once
        obtain ⟨rfl, -, heq⟩ := hb.done_unique hb' heq
        rw [ih h₂ hx heq]
  | acting => cases hx
  | await hb _ ih =>
    cases hx with
    | await hx =>
      cases h₂ with
      | await hb' h₂ =>
        rw [List.append_assoc, List.append_assoc] at heq
        obtain ⟨rfl, -, heq⟩ := hb.done_unique hb' heq
        rw [ih h₂ hx heq]
  | waiting => cases hx

/-- Something passes in the program that carries while a wait is over. -/
theorem Tracks.not_later {x : Program I α} {w : I.Wait}
    {next : Except Failure (I.Answer w) → Program I α}
    {l₂ : List (Exchange I)} (hwaits : ∀ w ans, waits w ≠ .done ans)
    (hx : Leads x l (.await w next))
    (h : Tracks acts waits x l l') : ¬ Tracks acts waits x (l ++ .call w :: l₂) l' := by
  intro hlater
  obtain ⟨b, ⟨m, m', heq, hm, -, hne, -⟩, -⟩ := hlater.serves hwaits
  have hsplit : l' ++ [] = m ++ (b ++ m') := by rw [List.append_nil, heq]
  obtain rfl := h.unique hm hx hsplit
  exact hne (List.append_eq_nil_iff.mp (List.append_cancel_left hsplit).symm).1

/-- A program that has come to a wait has come to it in the program that carries it. -/
theorem Tracks.leads_await {x : Program I α} {w : I.Wait}
    {next : Except Failure (I.Answer w) → Program I α} (h : Tracks acts waits x l l')
    (hx : Leads x l (.await w next)) :
    Leads (x.carry acts waits) l' ((waits w).bind fun ans => (next ans).carry acts waits) := by
  induction h with
  | nil x =>
    cases hx
    exact .nil _
  | act hb _ ih => cases hx with | act hx => exact (hb.bind _).trans (ih hx)
  | await hb _ ih => cases hx with | await hx => exact (hb.bind _).trans (ih hx)
  | acting | waiting => cases hx

/-- What is made for a wait is made in one place. -/
theorem Serves.unique {x : Program I α} {w : I.Wait} {b₁ b₂ : List (Exchange K)}
    (h₁ : Serves acts waits x l w l' b₁) (h₂ : Serves acts waits x l w l' b₂) : b₁ = b₂ := by
  obtain ⟨m₁, m₁', rfl, ht₁, ⟨next, hx⟩, -, hb₁⟩ := h₁
  obtain ⟨m₂, m₂', heq, ht₂, -, -, hb₂⟩ := h₂
  obtain rfl := ht₁.unique ht₂ hx heq
  have heq := List.append_cancel_left heq
  rcases hb₁ with ⟨rfl, hu₁⟩ | ⟨ans₁, hd₁⟩ <;> rcases hb₂ with ⟨rfl, hu₂⟩ | ⟨ans₂, hd₂⟩
  · simpa using heq
  · rw [List.append_nil] at heq
    exact ((heq ▸ hu₁).not_done hd₂).elim
  · rw [List.append_nil] at heq
    exact ((heq ▸ hu₂).not_done hd₁).elim
  · exact (hd₁.done_unique hd₂ heq).1

end Tracks

end Program

namespace Fiber

variable {I : Interface} {α β : Type} {A : I.Act → Prop} {B : I.Wait → Prop}

/-- All that a program that may fail may ever ask for is such as `A` and `B` say. -/
def Keeps (A : I.Act → Prop) (B : I.Wait → Prop) (x : Fiber I α) : Prop := Program.Keeps A B x.run

/-- A value or a failure asks for nothing. -/
theorem keeps_ofExcept (r : Except Failure α) : Keeps A B (ofExcept r : Fiber I α) := trivial

/-- A value asks for nothing. -/
theorem keeps_pure (a : α) : Keeps A B (pure a : Fiber I α) := trivial

/-- A failure asks for nothing. -/
theorem keeps_throw (f : Failure) : Keeps A B (throw f : Fiber I α) := trivial

/-- An act asks for itself. -/
theorem keeps_act {r : I.Act} (hr : A r) : Keeps A B (act r) := ⟨hr, fun _ => trivial⟩

/-- A wait asks for itself. -/
theorem keeps_await {w : I.Wait} (hw : B w) : Keeps A B (await w) := ⟨hw, fun _ => trivial⟩

/-- A program in two parts asks for what its parts do. -/
theorem Keeps.bind {x : Fiber I α} {f : α → Fiber I β} (hx : Keeps A B x)
    (hf : ∀ a, Keeps A B (f a)) : Keeps A B (x >>= f) := by
  rw [Keeps, run_bind]
  refine Program.Keeps.bind hx fun r => ?_
  cases r with
  | ok a => exact hf a
  | error e => trivial

/-- An attempt asks for what is attempted. -/
theorem Keeps.attempt {x : Fiber I α} (hx : Keeps A B x) : Keeps A B (attempt x) :=
  Program.Keeps.bind hx fun _ => trivial

end Fiber

/-- An act that nobody but the writer of the log takes notice of among tasks. -/
def Setting.IsQuiet {S : Setting} {K : Interface} : (S.interface.sum K).Act → Prop
  | .inl (.log _) => True
  | .inl _ => False
  | .inr _ => True

/-- A wait for something beyond tasks. -/
def Setting.IsBeyond {S : Setting} {K : Interface} : (S.interface.sum K).Wait → Prop
  | .inl _ => False
  | .inr _ => True

/-- How what tasks ask for beyond other tasks is carried over from one interface to another: nothing
is had for nothing, acts take no time, and other tasks are left alone. -/
structure Carriage (S : Setting) (J K : Interface) where
  act : (r : J.Act) → Program (S.interface.sum K) (J.Outcome r)
  wait : (w : J.Wait) → Program (S.interface.sum K) (Except Failure (J.Answer w))
  act_ne_done : ∀ r out, act r ≠ .done out
  wait_ne_done : ∀ w ans, wait w ≠ .done ans
  act_keeps : ∀ r, (act r).Keeps Setting.IsQuiet fun _ => False
  wait_keeps : ∀ w, (wait w).Keeps Setting.IsQuiet Setting.IsBeyond

namespace Carriage

variable {S : Setting} {J K : Interface} {α β : Type} (C : Carriage S J K)

/-- The program for an act. What is asked of other tasks is asked of them. -/
def acts : (r : (S.interface.sum J).Act) →
    Program (S.interface.sum K) ((S.interface.sum J).Outcome r)
  | .inl r => .act (I := S.interface.sum K) (.inl r) .done
  | .inr r => C.act r

/-- The program for a wait. -/
def waits : (w : (S.interface.sum J).Wait) →
    Program (S.interface.sum K) (Except Failure ((S.interface.sum J).Answer w))
  | .inl w => .await (I := S.interface.sum K) (.inl w) .done
  | .inr w => C.wait w

/-- The program that carries a program. -/
def carried (x : TaskM S J α) : TaskM S K α := Program.carry C.acts C.waits x

/-- No act is had for nothing. -/
theorem acts_ne_done (r : (S.interface.sum J).Act) (out : (S.interface.sum J).Outcome r) :
    C.acts r ≠ .done out := by
  cases r with
  | inl r => exact nofun
  | inr r => exact C.act_ne_done r out

/-- No wait is had for nothing. -/
theorem waits_ne_done (w : (S.interface.sum J).Wait)
    (ans : Except Failure ((S.interface.sum J).Answer w)) : C.waits w ≠ .done ans := by
  cases w with
  | inl w => exact nofun
  | inr w => exact C.wait_ne_done w ans

/-- Acts take no time. -/
theorem acts_keep (r : (S.interface.sum J).Act) :
    (C.acts r).Keeps (fun _ => True) fun _ => False := by
  cases r with
  | inl r => exact ⟨trivial, fun _ => trivial⟩
  | inr r => exact (C.act_keeps r).mono (fun _ _ => trivial) fun _ => id

/-- No exchange that an act is carried over by is an answer. -/
theorem not_isAnswer_of_acts {r : (S.interface.sum J).Act} {l : List (Exchange (S.interface.sum K))}
    {e : Exchange (S.interface.sum K)} (h : Program.Reaches (C.acts r) (l ++ [e])) :
    ¬ e.IsAnswer := by
  intro he
  have hkept := (C.acts_keep r).of_reaches h e (List.mem_append_right _ (List.mem_singleton_self e))
  cases e with
  | answer w ans => exact hkept
  | act r out => exact he
  | call w => exact he

/-- Nothing is waited for while an act is carried over. -/
theorem not_asks_call (r : (S.interface.sum J).Act) (l : List (Exchange (S.interface.sum K)))
    (v : (S.interface.sum K).Wait) : ¬ Program.Asks (C.acts r) l (.call v) := by
  rintro (_ | h)
  exact (C.acts_keep r).of_reaches h.reaches_call _
    (List.mem_append_right _ (List.mem_singleton_self _))

/-- Carrying over a program in two parts is carrying over both. -/
theorem carried_bind (x : TaskM S J α) (f : α → TaskM S J β) :
    C.carried (x >>= f) = C.carried x >>= fun a => C.carried (f a) := by
  refine (Program.carry_bind C.acts C.waits (x : Program _ _) _).trans ?_
  refine congrArg (Program.bind (C.carried x : Program _ _)) (funext fun r => ?_)
  cases r <;> rfl

/-- Carrying over an attempt is an attempt at what is carried over. -/
theorem carried_attempt (x : TaskM S J α) :
    C.carried (Fiber.attempt x) = Fiber.attempt (C.carried x) :=
  Program.carry_bind C.acts C.waits (x : Program _ _) _

/-- Raising the failure of a token is a matter of tasks. -/
theorem carried_raiseIfCancelled (token : TokenId) :
    C.carried (TaskM.raiseIfCancelled token) = TaskM.raiseIfCancelled token := by
  refine (C.carried_bind _ _).trans (congrArg (TaskM.isCancelled token >>= ·) (funext fun b => ?_))
  cases b <;> rfl

/-- What is carried over on behalf of a token settles under it. -/
theorem carried_settle (token : TokenId) (x : TaskM S J α) :
    C.carried (TaskM.settle token x) = TaskM.settle token (C.carried x) := by
  unfold TaskM.settle
  rw [carried_bind, carried_attempt]
  -- what is left depends on how the attempt has ended
  refine congrArg (Fiber.attempt (C.carried x) >>= ·) (funext fun r => ?_)
  cases r with
  | ok a =>
    dsimp only
    rw [carried_bind, carried_raiseIfCancelled]
    rfl
  | error f =>
    dsimp only
    split
    · rw [carried_bind]
      refine congrArg (TaskM.isCancelled token >>= ·) (funext fun b => ?_)
      cases b <;> rfl
    · rfl

/-- The program of a job is carried over with the meaning of computations. -/
theorem carried_program (meaning : S.Body → TaskM S J S.Value) (job : Job S) :
    C.carried (job.program meaning) = job.program fun body => C.carried (meaning body) := by
  cases job with
  | query body token => exact C.carried_settle token (meaning body)
  | derived base f token =>
    refine (C.carried_settle token _).trans (congrArg (TaskM.settle token) ?_)
    rw [carried_bind]
    rfl
  | plain body => rfl

end Carriage

end PooledSql
