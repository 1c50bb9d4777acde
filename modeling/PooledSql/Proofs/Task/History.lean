import Mathlib.Data.List.Induction
import PooledSql.Proofs.Task.Exchange
import PooledSql.Task.Machine

/-!
# Histories

What happens while tasks run, in order: which tasks are started, what each of them asks for and what
it is answered, how they end, and where an interruption comes in from outside.

A `Regime` says what is run and what the world around may do. Its *possible* histories are those in
which every happening fits what has happened before: a task does what its program asks for next, an
act comes to what it comes to in the present state, and a wait for another task is over only when
that task has ended, or by an interruption. Tasks take turns, so that between the answer to a wait
and the next wait nothing happens but what the task itself does.

Nothing is said about the order of turns. Facts that hold of all possible histories hold whatever
that order is.
-/

namespace PooledSql

variable {S : Setting} {O : Interface}

/-- Something that happens while tasks run. -/
inductive Happening (S : Setting) (O : Interface)
  /-- A task is started from outside. -/
  | launch (job : Job S)
  /-- Something passes between a task and its surroundings. -/
  | deed (task : TaskId) (x : Exchange (S.interface.sum O))
  /-- A task ends. -/
  | finish (task : TaskId) (outcome : Except Failure S.Value)
  /-- An interruption reaches a task from outside. -/
  | interrupt (task : TaskId)

namespace Happening

/-- The job that a happening starts. -/
def job? : Happening S O → Option (Job S)
  | launch job => some job
  | deed _ (.act (.inl (.spawn job)) _) => some job
  | _ => none

/-- What passes between a given task and its surroundings. -/
def deed? (i : TaskId) : Happening S O → Option (Exchange (S.interface.sum O))
  | deed j x => if j = i then some x else none
  | _ => none

/-- A job is started from outside or by a task. -/
theorem job?_eq_some_iff {e : Happening S O} {job : Job S} :
    e.job? = some job ↔ e = .launch job ∨ ∃ i n, e = .deed i (.act (.inl (.spawn job)) n) := by
  constructor
  · intro h
    match e, h with
    | launch _, rfl => exact .inl rfl
    | deed i (.act (.inl (.spawn _)) n), rfl => exact .inr ⟨i, n, rfl⟩
  · rintro (rfl | ⟨i, n, rfl⟩) <;> rfl

/-- What passes between a task and its surroundings happens as a deed of that task. -/
theorem deed?_eq_some_iff {e : Happening S O} {i : TaskId} {x : Exchange (S.interface.sum O)} :
    e.deed? i = some x ↔ e = .deed i x := by
  constructor
  · intro h
    cases e with
    | deed j y =>
      rw [deed?, Option.ite_none_right_eq_some] at h
      obtain ⟨rfl, h⟩ := h
      rw [Option.some.inj h]
    | _ => cases h
  · rintro rfl
    exact if_pos rfl

/-- Whether a happening makes a token. -/
def makesToken : Happening S O → Bool
  | deed _ (.act (.inl .newToken) _) => true
  | _ => false

end Happening

/-- What has happened, in order. -/
abbrev History (S : Setting) (O : Interface) := List (Happening S O)

namespace History

/-- What has passed between a task and its surroundings. -/
def of (h : History S O) (i : TaskId) : List (Exchange (S.interface.sum O)) :=
  h.filterMap (Happening.deed? i)

/-- The jobs of all tasks; the place of a job is the name of its task. -/
def jobs (h : History S O) : List (Job S) := h.filterMap Happening.job?

/-- How many tokens have been made. -/
def tokenCount (h : History S O) : Nat := h.countP Happening.makesToken

/-- Whether a task has ended. -/
def Finished (h : History S O) (i : TaskId) : Prop := ∃ r, .finish i r ∈ h

/-- Whether a token has been set after it was made. -/
def Cancelled (h : History S O) (token : TokenId) : Prop :=
  ∃ g i out g', h = g ++ .deed i (.act (.inl (.trip token)) out) :: g' ∧ token < tokenCount g

/-- Whether actions have been registered under a token. -/
def Registered (h : History S O) (token : TokenId) (actions : List S.Action) : Prop :=
  ∀ a ∈ actions, ∃ i, .deed i (.act (.inl (.register token a)) ()) ∈ h

/-- Whether a task does not have its turn: it has not begun, is in the middle of a wait or has
ended. -/
def Idle (h : History S O) (i : TaskId) : Prop :=
  h.of i = [] ∨ (∃ l w, h.of i = l ++ [.call w]) ∨ h.Finished i

/-- Whether a task may go on at once: it has not begun, or it was the last to do something; and no
other task has its turn. -/
def InTurn (h : History S O) (i : TaskId) : Prop :=
  (h.of i = [] ∨ ∃ g x, h = g ++ [.deed i x]) ∧ ∀ j, j ≠ i → h.Idle j

/-- Whether no task has its turn. -/
def AtRest (h : History S O) : Prop := ∀ i, h.Idle i

variable {g g' h : History S O} {i j : TaskId}

@[simp]
theorem of_nil : of ([] : History S O) i = [] := rfl

@[simp]
theorem of_append : of (g ++ g') i = of g i ++ of g' i := List.filterMap_append

@[simp]
theorem of_cons {e : Happening S O} : of (e :: g) i = (e.deed? i).toList ++ of g i := by
  unfold of
  rw [List.filterMap_cons]
  cases e.deed? i <;> rfl

@[simp]
theorem jobs_nil : jobs ([] : History S O) = [] := rfl

@[simp]
theorem jobs_append : jobs (g ++ g') = jobs g ++ jobs g' := List.filterMap_append

@[simp]
theorem jobs_cons {e : Happening S O} : jobs (e :: g) = e.job?.toList ++ jobs g := by
  unfold jobs
  rw [List.filterMap_cons]
  cases e.job? <;> rfl

@[simp]
theorem tokenCount_append : tokenCount (g ++ g') = tokenCount g + tokenCount g' :=
  List.countP_append

@[simp]
theorem tokenCount_nil : tokenCount ([] : History S O) = 0 := rfl

@[simp]
theorem tokenCount_cons {e : Happening S O} :
    tokenCount (e :: g) = tokenCount g + if e.makesToken then 1 else 0 := List.countP_cons

/-- A job keeps its place. -/
theorem jobs_mono {job : Job S} (hj : (jobs g)[i]? = some job) :
    (jobs (g ++ g'))[i]? = some job := by
  rw [jobs_append, List.getElem?_append_left (List.getElem?_eq_some_iff.mp hj).1, hj]

/-- A task that has ended stays so. -/
theorem Finished.mono (hi : Finished g i) : Finished (g ++ g') i := by
  obtain ⟨r, hr⟩ := hi
  exact ⟨r, List.mem_append_left _ hr⟩

/-- A task has ended before what does not end it. -/
theorem Finished.of_append (hi : Finished (g ++ g') i) (hg' : ∀ r, .finish i r ∉ g') :
    Finished g i := by
  obtain ⟨r, hr⟩ := hi
  exact ⟨r, (List.mem_append.mp hr).resolve_right (hg' r)⟩

/-- A token that has been set stays so. -/
theorem Cancelled.mono {token : TokenId} (ht : Cancelled g token) : Cancelled (g ++ g') token := by
  obtain ⟨g₁, i, out, g₂, rfl, hlt⟩ := ht
  exact ⟨g₁, i, out, g₂ ++ g', by simp, hlt⟩

/-- A task does not get its turn by what others do. -/
theorem Idle.mono (hi : Idle g i) (hg' : g'.of i = []) : Idle (g ++ g') i := by
  unfold Idle at hi ⊢
  rw [of_append, hg', List.append_nil]
  exact hi.imp_right (Or.imp_right Finished.mono)

/-- A token is set after a happening if it was before, or if that happening sets it. -/
theorem cancelled_snoc_iff {token : TokenId} {e : Happening S O} :
    Cancelled (g ++ [e]) token ↔
      Cancelled g token ∨
        token < tokenCount g ∧ ∃ i out, e = .deed i (.act (.inl (.trip token)) out) := by
  constructor
  · rintro ⟨g₁, i, out, g₂, heq, hlt⟩
    -- the token has been set by the last happening, or before it
    rcases List.eq_nil_or_concat g₂ with rfl | ⟨g₂, e', rfl⟩
    · obtain ⟨rfl, he⟩ := List.append_inj' heq rfl
      exact .inr ⟨hlt, i, out, by simpa using he⟩
    · rw [List.concat_eq_append, ← List.cons_append, ← List.append_assoc] at heq
      obtain ⟨rfl, -⟩ := List.append_inj' heq rfl
      exact .inl ⟨g₁, i, out, g₂, rfl, hlt⟩
  · rintro (ht | ⟨hlt, i, out, rfl⟩)
    · exact ht.mono
    · exact ⟨g, i, out, [], rfl, hlt⟩

/-- What a task does is part of what happens. -/
theorem mem_of_iff {x : Exchange (S.interface.sum O)} : x ∈ of h i ↔ .deed i x ∈ h := by
  rw [of, List.mem_filterMap]
  constructor
  · rintro ⟨e, he, hx⟩
    exact Happening.deed?_eq_some_iff.mp hx ▸ he
  · exact fun hx => ⟨_, hx, Happening.deed?_eq_some_iff.mpr rfl⟩

/-- What a task does in a row is done by it. -/
@[simp]
theorem of_map_deed {xs : List (Exchange (S.interface.sum O))} :
    of (xs.map (.deed i) : History S O) i = xs := by
  induction xs with
  | nil => rfl
  | cons x xs ih => simp [Happening.deed?, ih]

/-- What a task does in a row is not done by others. -/
theorem of_map_deed_of_ne {xs : List (Exchange (S.interface.sum O))} (hij : i ≠ j) :
    of (xs.map (.deed i) : History S O) j = [] := by
  induction xs with
  | nil => rfl
  | cons x xs ih => simp [Happening.deed?, hij, ih]

/-- Where a task does something, it has done before what precedes it. -/
theorem exists_split_of {l l' : List (Exchange (S.interface.sum O))}
    {x : Exchange (S.interface.sum O)} (hl : of h i = l ++ x :: l') :
    ∃ g g', h = g ++ .deed i x :: g' ∧ of g i = l ∧ of g' i = l' := by
  unfold of at hl
  -- the happenings in between are none of the task
  obtain ⟨g₁, g₂, rfl, h₁, h₂⟩ := List.filterMap_eq_append_iff.mp hl
  obtain ⟨g₃, e, g₄, rfl, h₃, he, h₄⟩ := List.filterMap_eq_cons_iff.mp h₂
  obtain rfl := Happening.deed?_eq_some_iff.mp he
  refine ⟨g₁ ++ g₃, g₄, by simp, ?_, h₄⟩
  rw [of_append]
  unfold of
  rw [h₁, List.filterMap_eq_nil_iff.mpr h₃, List.append_nil]

/-- Two places in a history are the same, or one comes before the other. -/
theorem place_cases {a a' b b' : History S O} {e e' : Happening S O} (ha : h = a ++ e :: a')
    (hb : h = b ++ e' :: b') :
    (a = b ∧ e = e' ∧ a' = b') ∨ (∃ m, b = a ++ e :: m ∧ a' = m ++ e' :: b') ∨
      ∃ m, a = b ++ e' :: m ∧ b' = m ++ e :: a' := by
  -- one of the two prefixes goes on with the other
  rcases List.append_eq_append_iff.mp (ha.symm.trans hb) with ⟨m, rfl, hm⟩ | ⟨m, rfl, hm⟩
  · cases m with
    | nil =>
      obtain ⟨rfl, rfl⟩ := List.cons.inj hm
      exact .inl ⟨by simp, rfl, rfl⟩
    | cons d m =>
      obtain ⟨rfl, rfl⟩ := List.cons.inj hm
      exact .inr (.inl ⟨m, rfl, rfl⟩)
  · cases m with
    | nil =>
      obtain ⟨rfl, rfl⟩ := List.cons.inj hm
      exact .inl ⟨by simp, rfl, rfl⟩
    | cons d m =>
      obtain ⟨rfl, rfl⟩ := List.cons.inj hm
      exact .inr (.inr ⟨m, rfl, rfl⟩)

/-- A job is that of the happening that has started it. -/
theorem exists_of_job {job : Job S} (hj : (jobs h)[i]? = some job) :
    ∃ g e g', h = g ++ e :: g' ∧ e.job? = some job ∧ (jobs g).length = i := by
  obtain ⟨hlt, hjob⟩ := List.getElem?_eq_some_iff.mp hj
  have hsplit : jobs h = (jobs h).take i ++ job :: (jobs h).drop (i + 1) := by
    rw [← hjob, List.getElem_cons_drop, List.take_append_drop]
  obtain ⟨g₁, g₂, rfl, h₁, h₂⟩ := List.filterMap_eq_append_iff.mp hsplit
  obtain ⟨g₃, e, g₄, rfl, h₃, he, h₄⟩ := List.filterMap_eq_cons_iff.mp h₂
  refine ⟨g₁ ++ g₃, e, g₄, by simp, he, ?_⟩
  have hnil : jobs g₃ = [] := List.filterMap_eq_nil_iff.mpr h₃
  have htake : jobs g₁ = (jobs (g₁ ++ (g₃ ++ e :: g₄))).take i := h₁
  rw [jobs_append, hnil, List.append_nil, htake, List.length_take]
  exact Nat.min_eq_left (Nat.le_of_lt hlt)

end History

/-- The effect of an act of a task on tokens. -/
def TaskAct.onTokens [BEq S.Action] (tokens : List (Token S.Action)) :
    TaskAct S → List (Token S.Action)
  | newToken => tokens ++ [{}]
  | register token a => tokens.modify token (Token.register a)
  | unregister token a => tokens.modify token (Token.unregister a)
  | trip token => tokens.modify token (·.trip.2)
  | blame token f => tokens.modify token (Token.blame f)
  | _ => tokens

/-- The effect of a happening on tokens. -/
def Happening.onTokens [BEq S.Action] (tokens : List (Token S.Action)) :
    Happening S O → List (Token S.Action)
  | deed _ (.act (.inl r) _) => r.onTokens tokens
  | _ => tokens

/-- The tokens after a history. -/
def History.tokens [BEq S.Action] (h : History S O) : List (Token S.Action) :=
  h.foldl Happening.onTokens []

/-- The tokens after one more happening. -/
@[simp]
theorem History.tokens_snoc [BEq S.Action] {h : History S O} {e : Happening S O} :
    History.tokens (h ++ [e]) = e.onTokens h.tokens := by
  simp [History.tokens]

/-- What is run, and what the world around may do. -/
structure Regime (S : Setting) (O : Interface) (W : Type) where
  engine : Engine S O W
  /-- Whether a state of the world is one that there can be after some history. -/
  Agrees : History S O → W → Prop
  agrees_act : ∀ {h : History S O} {w : W} (i : TaskId) (r : O.Act), Agrees h w →
    Agrees (h ++ [.deed i (.act (.inr r) (engine.perform r w).1)]) (engine.perform r w).2
  agrees_other : ∀ {h : History S O} {w : W} {e : Happening S O},
    (∀ i r out, e ≠ .deed i (.act (.inr r) out)) → Agrees h w → Agrees (h ++ [e]) w
  /-- Which jobs may be started from outside. -/
  Launches : Job S → Prop
  /-- What may be answered to a wait beyond tasks. -/
  Answers : History S O → (w : O.Wait) → Except Failure (O.Answer w) → Prop

namespace Regime

variable {W : Type} (R : Regime S O W)

/-- The program of a job. -/
abbrev program (job : Job S) : TaskM S O S.Value := job.program R.engine.meaning

/-- By the exchanges `b`, a task has come to a part of its program. -/
def Performs {α : Type} (h : History S O) (i : TaskId) (b : List (Exchange (S.interface.sum O)))
    (y : TaskM S O α) : Prop :=
  ∃ job, h.jobs[i]? = some job ∧ Fiber.Comes (R.program job) b y

/-- A task comes to the parts of what it has come to. -/
theorem Performs.comes {α β : Type} {R : Regime S O W} {h : History S O} {i : TaskId}
    {y : TaskM S O α} {z : TaskM S O β} {b l : List (Exchange (S.interface.sum O))}
    (hy : R.Performs h i b y) (hz : Fiber.Comes y l z) : R.Performs h i (b ++ l) z := by
  obtain ⟨job, hj, hy⟩ := hy
  exact ⟨job, hj, hy.trans hz⟩

/-- Between `g` and `h`, a task has run a part of its program that it had come to by `g`, and that
has returned a value. -/
def Returned {α : Type} (g h : History S O) (x : TaskM S O α) (a : α) : Prop :=
  ∃ i l, R.Performs h i (g.of i) x ∧ Fiber.Ends x l (.ok a) ∧ g <+: h ∧ g.of i ++ l <+: h.of i

variable [BEq S.Action]

/-- What an act may come to after some history. -/
def Yields (h : History S O) : (r : (S.interface.sum O).Act) → (S.interface.sum O).Outcome r → Prop
  | .inl (.spawn _), out => out = h.jobs.length
  | .inl (.isDone j), out => out = true ↔ h.Finished j
  | .inl .newToken, out => out = h.tokenCount
  | .inl (.isCancelled token), out => out = true ↔ h.Cancelled token
  | .inl (.trip token), out =>
    h.Registered token out ∧ out = (h.tokens[token]?.map (·.trip.1)).getD []
  | .inl _, _ => True
  | .inr r, out => ∃ w, R.Agrees h w ∧ out = (R.engine.perform r w).1

/-- How the wait of a task may be over after some history. -/
def Resolves (h : History S O) (i : TaskId) :
    (w : (S.interface.sum O).Wait) → Except Failure ((S.interface.sum O).Answer w) → Prop
  | .inl (.join j), ans => .finish j ans ∈ h ∨ ans = .error .interrupted ∧ .interrupt i ∈ h
  | .inl (.joinShielded j), ans =>
    .finish j ans ∈ h ∨ ans = .error .interrupted ∧ .interrupt i ∈ h
  | .inl (.signal _), ans => ans = .ok () ∨ ans = .error .interrupted ∧ .interrupt i ∈ h
  | .inr w, ans => R.Answers h w ans ∨ ans = .error .interrupted ∧ .interrupt i ∈ h

/-- What may happen next after some history. -/
inductive Fits (h : History S O) : Happening S O → Prop
  | launch {job : Job S} : R.Launches job → Fits h (.launch job)
  | interrupt (i : TaskId) : Fits h (.interrupt i)
  | finish {i : TaskId} {job : Job S} {r : Except Failure S.Value} :
      h.jobs[i]? = some job → ¬ h.Finished i → h.InTurn i →
      Program.Leads (R.program job).run (h.of i) (.done r) → Fits h (.finish i r)
  /-- A task that is interrupted before its first turn does nothing. -/
  | stillborn {i : TaskId} {job : Job S} :
      h.jobs[i]? = some job → ¬ h.Finished i → h.of i = [] → .interrupt i ∈ h →
      Fits h (.finish i (.error .interrupted))
  | act {i : TaskId} {job : Job S} {r : (S.interface.sum O).Act}
      {next : (S.interface.sum O).Outcome r →
        Program (S.interface.sum O) (Except Failure S.Value)}
      {out : (S.interface.sum O).Outcome r} :
      h.jobs[i]? = some job → ¬ h.Finished i → h.InTurn i →
      Program.Leads (R.program job).run (h.of i) (.act r next) → R.Yields h r out →
      Fits h (.deed i (.act r out))
  | call {i : TaskId} {job : Job S} {w : (S.interface.sum O).Wait}
      {next : Except Failure ((S.interface.sum O).Answer w) →
        Program (S.interface.sum O) (Except Failure S.Value)} :
      h.jobs[i]? = some job → ¬ h.Finished i → h.InTurn i →
      Program.Leads (R.program job).run (h.of i) (.await w next) → Fits h (.deed i (.call w))
  | answer {i : TaskId} {job : Job S} {l : List (Exchange (S.interface.sum O))}
      {w : (S.interface.sum O).Wait}
      {next : Except Failure ((S.interface.sum O).Answer w) →
        Program (S.interface.sum O) (Except Failure S.Value)}
      {ans : Except Failure ((S.interface.sum O).Answer w)} :
      h.jobs[i]? = some job → ¬ h.Finished i → h.of i = l ++ [.call w] →
      Program.Leads (R.program job).run l (.await w next) → R.Resolves h i w ans →
      Fits h (.deed i (.answer w ans))

/-- The histories that there can be. -/
inductive Possible : History S O → Prop
  | nil : Possible []
  | snoc {h : History S O} {e : Happening S O} : Possible h → R.Fits h e → Possible (h ++ [e])

namespace Possible

variable {R} {g g' h : History S O} {i j : TaskId} {job : Job S}

/-- The beginning of a possible history is possible. -/
theorem of_append (hp : R.Possible (g ++ g')) : R.Possible g := by
  induction g' using List.reverseRecOn with
  | nil => simpa using hp
  | append_singleton g' e ih =>
    rw [← List.append_assoc] at hp
    generalize hk : g ++ g' ++ [e] = k at hp
    cases hp with
    | nil => simp at hk
    | snoc hp _ =>
      obtain ⟨rfl, -⟩ := List.append_inj' hk rfl
      exact ih hp

/-- Every happening of a possible history fits what has happened before. -/
theorem fits {e : Happening S O} (hp : R.Possible (g ++ e :: g')) : R.Fits g e := by
  have hp : R.Possible ((g ++ [e]) ++ g') := by simpa using hp
  replace hp := hp.of_append
  generalize hk : g ++ [e] = k at hp
  cases hp with
  | nil => simp at hk
  | snoc _ hf =>
    obtain ⟨rfl, he⟩ := List.append_inj' hk rfl
    cases he
    exact hf

/-- A task that does something has been started and has not ended. -/
theorem started_of_deed {x : Exchange (S.interface.sum O)}
    (hp : R.Possible (g ++ .deed i x :: g')) :
    (∃ job, g.jobs[i]? = some job) ∧ ¬ g.Finished i := by
  cases hp.fits with
  | act hj hn _ _ _ => exact ⟨⟨_, hj⟩, hn⟩
  | call hj hn _ _ => exact ⟨⟨_, hj⟩, hn⟩
  | answer hj hn _ _ _ => exact ⟨⟨_, hj⟩, hn⟩

/-- An act comes to what it may come to by then. -/
theorem yields {r : (S.interface.sum O).Act} {out : (S.interface.sum O).Outcome r}
    (hp : R.Possible (g ++ .deed i (.act r out) :: g')) : R.Yields g r out := by
  cases hp.fits with
  | act _ _ _ _ hout => exact hout

/-- A wait is over as it may be by then. -/
theorem resolves {w : (S.interface.sum O).Wait}
    {ans : Except Failure ((S.interface.sum O).Answer w)}
    (hp : R.Possible (g ++ .deed i (.answer w ans) :: g')) : R.Resolves g i w ans := by
  cases hp.fits with
  | answer _ _ _ _ hans => exact hans

/-- What is answered has been asked for directly before. -/
theorem call_of_answer {w : (S.interface.sum O).Wait}
    {ans : Except Failure ((S.interface.sum O).Answer w)}
    (hp : R.Possible (g ++ .deed i (.answer w ans) :: g')) : ∃ l, g.of i = l ++ [.call w] := by
  cases hp.fits with
  | answer _ _ hl _ _ => exact ⟨_, hl⟩

/-- What is answered has been asked for. -/
theorem mem_call_of_answer {w : (S.interface.sum O).Wait}
    {ans : Except Failure ((S.interface.sum O).Answer w)}
    (hp : R.Possible (g ++ .deed i (.answer w ans) :: g')) : .deed i (.call w) ∈ g := by
  obtain ⟨l, hl⟩ := hp.call_of_answer
  rw [← History.mem_of_iff, hl]
  exact List.mem_append_right _ (List.mem_singleton_self _)

/-- What is launched is what may be. -/
theorem launches (hp : R.Possible (g ++ .launch job :: g')) : R.Launches job := by
  cases hp.fits with
  | launch hl => exact hl

/-- A task is started under the name that comes next. -/
theorem eq_length_of_spawn (hp : R.Possible (g ++ .deed i (.act (.inl (.spawn job)) j) :: g')) :
    j = g.jobs.length := hp.yields

/-- The job of a task that does something was known before. -/
theorem job_before {x : Exchange (S.interface.sum O)} (hp : R.Possible (g ++ .deed i x :: g'))
    (hj : (History.jobs (g ++ .deed i x :: g'))[i]? = some job) : g.jobs[i]? = some job := by
  obtain ⟨⟨job', hj'⟩, -⟩ := hp.started_of_deed
  rw [History.jobs_mono hj'] at hj
  rw [hj', hj]

/-- A task that has ended does nothing more. -/
theorem of_eq_nil_of_finished (hp : R.Possible (g ++ g')) (hi : g.Finished i) : g'.of i = [] := by
  rw [List.eq_nil_iff_forall_not_mem]
  intro x hx
  obtain ⟨g₁, g₂, rfl⟩ := List.append_of_mem (History.mem_of_iff.mp hx)
  rw [← List.append_assoc] at hp
  exact hp.started_of_deed.2 hi.mono

/-- A task that has done something has been started. -/
theorem job_of_begun (hp : R.Possible h) (hi : h.of i ≠ []) : ∃ job, h.jobs[i]? = some job := by
  obtain ⟨x, hx⟩ := List.exists_mem_of_ne_nil _ hi
  obtain ⟨g₁, g₂, rfl⟩ := List.append_of_mem (History.mem_of_iff.mp hx)
  obtain ⟨⟨job, hj⟩, -⟩ := hp.started_of_deed
  exact ⟨job, History.jobs_mono hj⟩

/-- A task that has not been started has done nothing. -/
theorem of_eq_nil_of_not_started (hp : R.Possible h) (hi : h.jobs[i]? = none) : h.of i = [] := by
  by_contra hbegun
  obtain ⟨job, hj⟩ := hp.job_of_begun hbegun
  rw [hi] at hj
  cases hj

/-- A task has done nothing before it is started. -/
theorem of_eq_nil_of_spawn (hp : R.Possible (g ++ .deed i (.act (.inl (.spawn job)) j) :: g')) :
    g.of j = [] :=
  hp.of_append.of_eq_nil_of_not_started
    (List.getElem?_eq_none (Nat.le_of_eq hp.eq_length_of_spawn.symm))

/-- A task has gone some way into its program; it may be in the middle of a wait. -/
theorem way (hp : R.Possible h) (hj : h.jobs[i]? = some job) :
    (∃ y, Program.Leads (R.program job).run (h.of i) y) ∨
      ∃ l w next, h.of i = l ++ [.call w] ∧
        Program.Leads (R.program job).run l (.await w next) := by
  rcases List.eq_nil_or_concat (h.of i) with hnil | ⟨l, x, hl⟩
  · exact .inl ⟨_, by rw [hnil]; exact .nil _⟩
  rw [List.concat_eq_append] at hl
  -- all that the last exchange needs in order to fit is known at the time it is made
  obtain ⟨g, g', rfl, rfl, hg'⟩ := History.exists_split_of hl
  rw [hl]
  -- a task keeps its job
  have hsame : ∀ {job'}, g.jobs[i]? = some job' → job' = job := by
    intro job' hj'
    have hsame : (History.jobs (g ++ .deed i x :: g'))[i]? = some job' := History.jobs_mono hj'
    rw [hj] at hsame
    exact (Option.some.inj hsame).symm
  cases hp.fits with
  | act hj' _ _ hx _ =>
    cases hsame hj'
    exact .inl ⟨_, hx.snoc_act _⟩
  | call hj' _ _ hx =>
    cases hsame hj'
    exact .inr ⟨_, _, _, rfl, hx⟩
  | answer hj' _ hcall hx _ =>
    cases hsame hj'
    rw [hcall]
    exact .inl ⟨_, by simpa using hx.snoc_await _⟩

/-- Whoever asks for something has its turn. -/
theorem inTurn {x : Exchange (S.interface.sum O)} (hp : R.Possible (g ++ .deed i x :: g'))
    (hx : ¬ x.IsAnswer) : g.InTurn i := by
  cases hp.fits with
  | act _ _ hturn _ _ => exact hturn
  | call _ _ hturn _ => exact hturn
  | answer => exact absurd trivial hx

/-- What a task asks for follows directly on what it did before. -/
theorem directly {x y : Exchange (S.interface.sum O)} {l : List (Exchange (S.interface.sum O))}
    (hp : R.Possible (g ++ .deed i x :: g')) (hx : ¬ x.IsAnswer) (hl : g.of i = l ++ [y]) :
    ∃ g₀ : History S O, g = g₀ ++ [.deed i y] ∧ g₀.of i = l := by
  rcases (hp.inTurn hx).1 with hnil | ⟨g₀, z, rfl⟩
  · rw [hnil] at hl
    simp at hl
  · have hz : History.of g₀ i ++ [z] = l ++ [y] := by
      rw [← hl]
      simp [Happening.deed?]
    obtain ⟨rfl, hzy⟩ := List.append_inj' hz rfl
    cases hzy
    exact ⟨g₀, rfl, rfl⟩

/-- What a task asks for next is what happens next. -/
theorem follows {x y : Exchange (S.interface.sum O)} {l : List (Exchange (S.interface.sum O))}
    (hp : R.Possible (g ++ .deed i x :: g')) (hy : ¬ y.IsAnswer) (hl : g'.of i = y :: l) :
    ∃ g₁ : History S O, g' = .deed i y :: g₁ ∧ g₁.of i = l := by
  have hsplit : g'.of i = [] ++ y :: l := hl
  obtain ⟨m, g₁, rfl, hm, hg₁⟩ := History.exists_split_of hsplit
  have hp' : R.Possible ((g ++ .deed i x :: m) ++ .deed i y :: g₁) := by simpa using hp
  obtain ⟨g₀, hg₀, -⟩ := hp'.directly hy (l := g.of i) (y := x) (by simp [Happening.deed?, hm])
  rcases List.eq_nil_or_concat m with rfl | ⟨m, e, rfl⟩
  · exact ⟨g₁, rfl, hg₁⟩
  · rw [List.concat_eq_append, ← List.cons_append, ← List.append_assoc] at hg₀
    cases (List.append_inj' hg₀ rfl).2
    simp [Happening.deed?] at hm

/-- What a task asks for next without having to wait is what happens next. -/
theorem follows_all {x : Exchange (S.interface.sum O)} {l xs : List (Exchange (S.interface.sum O))}
    (hp : R.Possible (g ++ .deed i x :: g')) (hxs : ∀ y ∈ xs, ¬ y.IsAnswer)
    (hl : g'.of i = xs ++ l) :
    ∃ g₁ : History S O, g' = xs.map (.deed i) ++ g₁ ∧ g₁.of i = l := by
  induction xs generalizing g g' x with
  | nil => exact ⟨g', rfl, hl⟩
  | cons y xs ih =>
    obtain ⟨g₁, rfl, hg₁⟩ := hp.follows (hxs y (List.mem_cons_self ..)) hl
    obtain ⟨g₂, rfl, hg₂⟩ := ih (g := g ++ [.deed i x]) (by simpa using hp)
      (fun z hz => hxs z (List.mem_cons_of_mem _ hz)) hg₁
    exact ⟨g₂, rfl, hg₂⟩

/-- What a task asks for follows directly on all that it has asked for without having to wait. -/
theorem stretch {x : Exchange (S.interface.sum O)} {l xs : List (Exchange (S.interface.sum O))}
    (hp : R.Possible (g ++ .deed i x :: g')) (hx : ¬ x.IsAnswer) (hxs : ∀ y ∈ xs, ¬ y.IsAnswer)
    (hl : g.of i = l ++ xs) : ∃ g₀ : History S O, g = g₀ ++ xs.map (.deed i) ∧ g₀.of i = l := by
  induction xs using List.reverseRecOn generalizing g g' x with
  | nil => exact ⟨g, by simp, by simpa using hl⟩
  | append_singleton xs y ih =>
    rw [← List.append_assoc] at hl
    obtain ⟨g₁, rfl, hl₁⟩ := hp.directly hx hl
    have hp : R.Possible (g₁ ++ .deed i y :: .deed i x :: g') := by simpa using hp
    obtain ⟨g₀, rfl, hl₀⟩ := ih hp (hxs y (by simp)) (fun z hz => hxs z (by simp [hz])) hl₁
    exact ⟨g₀, by simp, hl₀⟩

/-- A task that may go on has done last, and alone, all that it has asked for without having to
wait. -/
theorem stretch_of_inTurn {l xs : List (Exchange (S.interface.sum O))} (hp : R.Possible h)
    (hturn : h.InTurn i) (hxs : ∀ y ∈ xs, ¬ y.IsAnswer) (hl : h.of i = l ++ xs) :
    ∃ g₀ : History S O, h = g₀ ++ xs.map (.deed i) ∧ g₀.of i = l := by
  rcases List.eq_nil_or_concat xs with rfl | ⟨xs, y, rfl⟩
  · exact ⟨h, by simp, by simpa using hl⟩
  rw [List.concat_eq_append, ← List.append_assoc] at hl
  -- if it has begun, the task was the last to do something
  rcases hturn.1 with hnil | ⟨g, z, rfl⟩
  · rw [hnil] at hl
    simp at hl
  have hz : History.of g i ++ [z] = (l ++ xs) ++ [y] := by
    rw [← hl]
    simp [Happening.deed?]
  obtain ⟨hg, hzy⟩ := List.append_inj' hz rfl
  cases hzy
  obtain ⟨g₀, rfl, hl₀⟩ := hp.stretch (hxs y (by simp)) (fun x hx => hxs x (by simp [hx])) hg
  exact ⟨g₀, by simp, hl₀⟩

/-- How a task that has ended came to its end. -/
theorem finish_cases {r : Except Failure S.Value} (hp : R.Possible h) (hi : .finish i r ∈ h) :
    ∃ job, h.jobs[i]? = some job ∧
      (Program.Leads (R.program job).run (h.of i) (.done r) ∨
        h.of i = [] ∧ r = .error .interrupted ∧ .interrupt i ∈ h) := by
  obtain ⟨g, g', rfl⟩ := List.append_of_mem hi
  have hend : History.of (.finish i r :: g') i = [] := by
    have hp : R.Possible ((g ++ [.finish i r]) ++ g') := by simpa using hp
    exact hp.of_eq_nil_of_finished ⟨r, by simp⟩
  rw [History.of_append, hend, List.append_nil]
  cases hp.fits with
  | finish hj _ _ hx => exact ⟨_, History.jobs_mono hj, .inl hx⟩
  | stillborn hj _ hnil hint =>
    exact ⟨_, History.jobs_mono hj, .inr ⟨hnil, rfl, List.mem_append_left _ hint⟩⟩

/-- A task that has ended has done what its job is, unless it was interrupted before its first
turn. -/
theorem finish_cases_of_job {r : Except Failure S.Value} (hp : R.Possible h)
    (hj : h.jobs[i]? = some job) (hi : .finish i r ∈ h) :
    Fiber.Ends (R.program job) (h.of i) r ∨ h.of i = [] ∧ r = .error .interrupted ∧
      .interrupt i ∈ h := by
  obtain ⟨job', hj', hcases⟩ := hp.finish_cases hi
  rw [hj] at hj'
  cases hj'
  exact hcases

/-- A task that has ended is not in the middle of a wait. -/
theorem not_waiting_of_finished {l : List (Exchange (S.interface.sum O))}
    {w : (S.interface.sum O).Wait} (hp : R.Possible h) (hi : h.Finished i) :
    h.of i ≠ l ++ [.call w] := by
  intro hl
  obtain ⟨r, hr⟩ := hi
  obtain ⟨job, -, hx | ⟨hnil, -, -⟩⟩ := hp.finish_cases hr
  · exact Program.Leads.not_snoc_call (hl ▸ hx)
  · rw [hnil] at hl
    simp at hl

/-- What a task goes on with after the beginning of a wait is the answer. -/
theorem answered {l l' : List (Exchange (S.interface.sum O))} {w : (S.interface.sum O).Wait}
    {x : Exchange (S.interface.sum O)} (hp : R.Possible h) (hl : h.of i = l ++ .call w :: x :: l') :
    ∃ ans, x = .answer w ans := by
  rw [List.append_cons] at hl
  obtain ⟨g, g', rfl, hg, -⟩ := History.exists_split_of hl
  cases hp.fits with
  | act _ _ _ hx _ => exact (Program.Leads.not_snoc_call (hg ▸ hx)).elim
  | call _ _ _ hx => exact (Program.Leads.not_snoc_call (hg ▸ hx)).elim
  | answer _ _ hcall _ _ =>
    rw [hcall] at hg
    cases (List.append_inj' hg rfl).2
    exact ⟨_, rfl⟩

/-- What a task does is what its program asks for. -/
theorem asks {x : Exchange (S.interface.sum O)} (hp : R.Possible (g ++ .deed i x :: g'))
    (hx : ¬ x.IsAnswer) :
    ∃ job, g.jobs[i]? = some job ∧ Fiber.Asks (R.program job) (g.of i) x := by
  cases hp.fits with
  | act hj _ _ hl _ => exact ⟨_, hj, .act _ hl⟩
  | call hj _ _ hl => exact ⟨_, hj, .call hl⟩
  | answer => exact absurd trivial hx

/-- What a task does is what the program of its job asks for. -/
theorem asks_of_job {x : Exchange (S.interface.sum O)} {job : Job S}
    (hp : R.Possible (g ++ .deed i x :: g'))
    (hj : (History.jobs (g ++ .deed i x :: g'))[i]? = some job)
    (hx : ¬ x.IsAnswer) : Fiber.Asks (R.program job) (g.of i) x := by
  obtain ⟨job', hj', hasks⟩ := hp.asks hx
  rw [hp.job_before hj] at hj'
  cases hj'
  exact hasks

end Possible

namespace Performs

variable {R} {g g' h : History S O} {i : TaskId} {α : Type} {y : TaskM S O α}
  {b l : List (Exchange (S.interface.sum O))}

/-- What a task asks for after it has come to a part of its program, that part asks for, unless it
has ended. -/
theorem asks_cases {e : Exchange (S.interface.sum O)} (hy : R.Performs h i b y)
    (hp : R.Possible h) (heq : h = g ++ .deed i e :: g') (he : ¬ e.IsAnswer)
    (hof : g.of i = b ++ l) :
    Fiber.Asks y l e ∨ ∃ l₁ l₂ r, l = l₁ ++ l₂ ∧ Fiber.Ends y l₁ r := by
  obtain ⟨job, hj, hy⟩ := hy
  exact hy.asks_cases (hof ▸ (heq ▸ hp).asks_of_job (heq ▸ hj) he)

/-- Between turns, what a task has come to has ended, or waits for an answer. -/
theorem ends_or_waits (hy : R.Performs h i b y) (hp : R.Possible h) (hrest : h.AtRest)
    (hof : h.of i = b ++ l) (hne : h.of i ≠ []) :
    (∃ l₁ l₂ r, l = l₁ ++ l₂ ∧ Fiber.Ends y l₁ r) ∨
      ∃ l₁ w, l = l₁ ++ [.call w] ∧ Fiber.Asks y l₁ (.call w) := by
  obtain ⟨job, hj, hy⟩ := hy
  rcases hrest i with hnil | ⟨l', w, hl'⟩ | ⟨r, hr⟩
  · exact absurd hnil hne
  · -- the task waits: then so does what it has come to, unless that has ended before
    rcases hp.way hj with ⟨z, hz⟩ | ⟨l₁, w', next, hl₁, hz⟩
    · exact (Program.Leads.not_snoc_call (hl' ▸ hz)).elim
    have hwait : Fiber.Asks (R.program job) l₁ (.call w') := .call hz
    rw [hof] at hl₁
    -- a part does not begin in the middle of a wait
    rcases List.eq_nil_or_concat l with rfl | ⟨l₂, x, rfl⟩
    · obtain ⟨f, hf⟩ := hy
      rw [List.append_nil] at hl₁
      exact (Program.Leads.not_snoc_call (hl₁ ▸ hf)).elim
    · rw [List.concat_eq_append, ← List.append_assoc] at hl₁
      obtain ⟨rfl, hx⟩ := List.append_inj' hl₁ rfl
      cases hx
      rcases hy.asks_cases hwait with hasks | ⟨l₃, l₄, r, rfl, hends⟩
      · exact .inr ⟨l₂, w', List.concat_eq_append, hasks⟩
      · exact .inl ⟨l₃, l₄ ++ [.call w'], r, by simp, hends⟩
  · -- the task has ended, and what it has come to with it
    rcases hp.finish_cases_of_job hj hr with hends | ⟨hnil, -⟩
    · rw [hof] at hends
      exact .inl (hy.ends_cases hends)
    · exact absurd hnil hne

end Performs

/-- Whatever is said to start a task has started one that was not there before. -/
theorem Returned.started {R : Regime S O W} {g h : History S O} {job : Job S} {α : Type}
    {f : TaskId → α} {a : α} (hx : R.Returned g h (do return f (← TaskM.spawn job)) a)
    (hp : R.Possible h) :
    ∃ j, a = f j ∧ g.jobs.length ≤ j ∧ h.jobs[j]? = some job := by
  obtain ⟨i, l, -, hends, hg, l', hl⟩ := hx
  obtain ⟨j, _, rfl, hpure⟩ := Fiber.ends_act_bind_iff.mp hends
  obtain ⟨rfl, ha⟩ := Fiber.ends_pure_iff.mp hpure
  cases ha
  have hof : h.of i = g.of i ++ .act (.inl (.spawn job)) j :: l' := by simpa using hl.symm
  obtain ⟨p, p', rfl, hp', -⟩ := History.exists_split_of hof
  obtain rfl := hp.eq_length_of_spawn
  refine ⟨_, rfl, ?_, by simp [Happening.job?]⟩
  -- the task has not been started by `g`, for that is not among what has been done by then
  obtain ⟨t, rfl⟩ : g <+: p := by
    rcases List.prefix_or_prefix_of_prefix hg (List.prefix_append p _) with h | ⟨t, rfl⟩
    · exact h
    cases t with
    | nil => simp
    | cons e t =>
      obtain ⟨rfl, -⟩ := List.cons_prefix_cons.mp ((List.prefix_append_right_inj p).mp hg)
      simp [Happening.deed?] at hp'
  simp

end Regime

end PooledSql
