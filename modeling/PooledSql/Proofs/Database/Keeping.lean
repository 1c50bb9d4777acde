import PooledSql.Database.Default
import PooledSql.Proofs.Database.Surroundings

/-!
# Keeping a default database

Programs that leave it to `DefaultDatabase.start` and `DefaultDatabase.stop` to change the default
database (`Keeping`). Whatever else such a program does, it makes a database the default only where
it has just opened that database in a start, and leaves no default only where it has just found one
in a stop (`Keeping.asks_setDefault`).

The jobs of a database are of that kind if the programs of its clients are (`Keeping.program`).
-/

namespace PooledSql

variable {c : Client} {target : Target} {settings : PoolSettings} {l : List (Deed c)} {e : Deed c}
  {p : PoolId}

/-- Asking for a database to be opened. -/
def DatabaseM.requesting (settings : PoolSettings) (ans : Except Failure PoolId) : List (Deed c) :=
  [.does (.log (.openingPool settings.maxSize)) (), .requests (.openPool settings),
    .served (.openPool settings) ans]

/-- Asking for a database to be opened begins with the settings, and ends with the answer. -/
theorem DatabaseM.requesting_append_inj {settings' : PoolSettings} {l' : List (Deed c)}
    {ans ans' : Except Failure PoolId}
    (h : requesting settings ans ++ l = requesting settings' ans' ++ l') :
    settings = settings' ∧ ans = ans' ∧ l = l' := by
  obtain ⟨-, h⟩ := List.cons.inj h
  obtain ⟨hrequest, h⟩ := List.cons.inj h
  obtain ⟨hserved, hl⟩ := List.cons.inj h
  cases hrequest
  cases hserved
  exact ⟨rfl, rfl, hl⟩

/-- A database is opened with the settings of its target. -/
theorem DatabaseM.ends_openDatabase {r : Except Failure PoolId}
    (h : Fiber.Ends (openDatabase target : DatabaseM c PoolId) l r) :
    (∃ f, target.poolSettings = .error f ∧ l = [] ∧ r = .error f) ∨
      ∃ settings, target.poolSettings = .ok settings ∧ l = requesting settings r := by
  rcases Fiber.ends_bind_iff.mp h with ⟨f, hf, rfl⟩ | ⟨settings, _, _, rfl, hsettings, hlog⟩
  · obtain ⟨rfl, hfailed⟩ := Fiber.ends_ofExcept_iff.mp hf
    exact .inl ⟨f, hfailed.symm, rfl, rfl⟩
  · obtain ⟨rfl, hok⟩ := Fiber.ends_ofExcept_iff.mp hsettings
    obtain ⟨⟨⟩, _, rfl, hwait⟩ := Fiber.ends_act_bind_iff.mp hlog
    obtain rfl := Fiber.ends_await_iff.mp hwait
    exact .inr ⟨settings, hok.symm, rfl⟩

/-- Whoever opens a database asks for nothing else. -/
theorem DatabaseM.asks_openDatabase
    (h : Fiber.Asks (openDatabase target : DatabaseM c PoolId) l e) :
    (∃ entry out, e = .does (.log entry) out) ∨
      ∃ settings, l = [.does (.log (.openingPool settings.maxSize)) ()] ∧
        e = .requests (.openPool settings) := by
  rcases Fiber.asks_bind_iff.mp h with hf | ⟨settings, _, _, rfl, hsettings, hlog⟩
  · exact absurd hf Fiber.not_asks_ofExcept
  · obtain ⟨rfl, -⟩ := Fiber.ends_ofExcept_iff.mp hsettings
    rcases Fiber.asks_act_bind_iff.mp hlog with ⟨-, out, rfl⟩ | ⟨⟨⟩, _, rfl, hwait⟩
    · exact .inl ⟨_, out, rfl⟩
    · obtain ⟨rfl, rfl⟩ := Fiber.asks_await_iff.mp hwait
      exact .inr ⟨settings, rfl, rfl⟩

namespace DefaultDatabase

/-- Opening a database where there is no default. -/
def opening (settings : PoolSettings) (p : PoolId) : List (Deed c) :=
  .enters .default none :: DatabaseM.requesting settings (.ok p)

/-- Forgetting a default database, before it is closed. -/
def forgetting (p : PoolId) : List (Deed c) :=
  [.enters .default (some p), .enters (.setDefault none) ()]

/-- Where there is a default database, a start fails, and opens nothing. Otherwise it opens a
database and makes it the default, unless the database cannot be opened. -/
theorem ends_start {r : Except Failure PoolId}
    (h : Fiber.Ends (start target : DatabaseM c PoolId) l r) :
    (∃ q, l = [.enters .default (some q)] ∧ r = .error Fault.alreadyInitialized.failure) ∨
      (∃ f, target.poolSettings = .error f ∧ l = [.enters .default none] ∧ r = .error f) ∨
      (∃ settings f, l = .enters .default none :: DatabaseM.requesting settings (.error f) ∧
        r = .error f) ∨
      ∃ settings p, l = opening settings p ++
        [.enters (.setDefault (some p)) (), .does (.log .defaultReady) ()] ∧ r = .ok p := by
  obtain ⟨q, _, rfl, hq⟩ := Fiber.ends_act_bind_iff.mp h
  -- a start goes on only if it finds no default
  cases q with
  | some q =>
    obtain ⟨rfl, rfl⟩ := Fiber.ends_throw_iff.mp hq
    exact .inl ⟨q, rfl, rfl⟩
  | none =>
    refine .inr ?_
    rcases Fiber.ends_bind_iff.mp hq with ⟨f, hopen, rfl⟩ | ⟨p, _, _, rfl, hopen, hset⟩
    · rcases DatabaseM.ends_openDatabase hopen with ⟨_, hf, rfl, he⟩ | ⟨settings, -, rfl⟩
      · cases he
        exact .inl ⟨f, hf, rfl, rfl⟩
      · exact .inr (.inl ⟨settings, f, rfl, rfl⟩)
    · rcases DatabaseM.ends_openDatabase hopen with ⟨_, -, -, he⟩ | ⟨settings, -, rfl⟩
      · cases he
      · -- behind the answer of the pool nothing fails any more
        obtain ⟨⟨⟩, _, rfl, hlog⟩ := Fiber.ends_act_bind_iff.mp hset
        obtain ⟨⟨⟩, _, rfl, hdone⟩ := Fiber.ends_act_bind_iff.mp hlog
        obtain ⟨rfl, rfl⟩ := Fiber.ends_pure_iff.mp hdone
        exact .inr (.inr ⟨settings, p, rfl, rfl⟩)

/-- What a start asks for: the default, a database, and that it be made the default. -/
theorem asks_start (h : Fiber.Asks (start target : DatabaseM c PoolId) l e) :
    (∃ q, e = .enters .default q) ∨ (∃ entry out, e = .does (.log entry) out) ∨
      (∃ settings, l = [.enters .default none, .does (.log (.openingPool settings.maxSize)) ()] ∧
        e = .requests (.openPool settings)) ∨
      ∃ settings p, target.poolSettings = .ok settings ∧ l = opening settings p ∧
        e = .enters (.setDefault (some p)) () := by
  rcases Fiber.asks_act_bind_iff.mp h with ⟨-, q, rfl⟩ | ⟨q, _, rfl, hq⟩
  · exact .inl ⟨q, rfl⟩
  refine .inr ?_
  -- where there is a default, nothing more is asked for
  cases q with
  | some q => exact absurd hq Fiber.not_asks_throw
  | none =>
    rcases Fiber.asks_bind_iff.mp hq with hopen | ⟨p, _, _, rfl, hopen, hset⟩
    · rcases DatabaseM.asks_openDatabase hopen with hlog | ⟨settings, rfl, rfl⟩
      · exact .inl hlog
      · exact .inr (.inl ⟨settings, rfl, rfl⟩)
    rcases DatabaseM.ends_openDatabase hopen with ⟨_, -, -, he⟩ | ⟨settings, hsettings, rfl⟩
    · cases he
    rcases Fiber.asks_act_bind_iff.mp hset with ⟨rfl, ⟨⟩, rfl⟩ | ⟨⟨⟩, _, rfl, hlog⟩
    · exact .inr (.inr ⟨settings, p, hsettings, rfl, rfl⟩)
    rcases Fiber.asks_act_bind_iff.mp hlog with ⟨-, out, rfl⟩ | ⟨⟨⟩, _, rfl, hdone⟩
    · exact .inl ⟨_, out, rfl⟩
    · exact absurd hdone Fiber.not_asks_pure

/-- A stop forgets the default database and closes it, if there is one. -/
theorem ends_stop {r : Except Failure Unit} (h : Fiber.Ends (stop : DatabaseM c Unit) l r) :
    l = [.enters .default none] ∨
      ∃ p ans, l = forgetting p ++ [.requests (.close p), .served (.close p) ans] := by
  obtain ⟨q, _, rfl, hq⟩ := Fiber.ends_act_bind_iff.mp h
  cases q with
  | none =>
    obtain ⟨rfl, -⟩ := Fiber.ends_pure_iff.mp hq
    exact .inl rfl
  | some p =>
    obtain ⟨⟨⟩, _, rfl, hclose⟩ := Fiber.ends_act_bind_iff.mp hq
    obtain rfl := Fiber.ends_await_iff.mp hclose
    exact .inr ⟨p, r, rfl⟩

/-- What a stop asks for: the default, and that it be forgotten and closed. -/
theorem asks_stop (h : Fiber.Asks (stop : DatabaseM c Unit) l e) :
    (∃ q, e = .enters .default q) ∨
      (∃ p, l = [.enters .default (some p)] ∧ e = .enters (.setDefault none) ()) ∨
      ∃ p, l = forgetting p ∧ e = .requests (.close p) := by
  rcases Fiber.asks_act_bind_iff.mp h with ⟨-, q, rfl⟩ | ⟨q, _, rfl, hq⟩
  · exact .inl ⟨q, rfl⟩
  refine .inr ?_
  cases q with
  | none => exact absurd hq Fiber.not_asks_pure
  | some p =>
    rcases Fiber.asks_act_bind_iff.mp hq with ⟨rfl, ⟨⟩, rfl⟩ | ⟨⟨⟩, _, rfl, hclose⟩
    · exact .inl ⟨p, rfl, rfl⟩
    · obtain ⟨rfl, rfl⟩ := Fiber.asks_await_iff.mp hclose
      exact .inr ⟨p, rfl, rfl⟩

end DefaultDatabase

/-- Programs that change the default database only by starting and stopping it. -/
inductive Keeping : {α : Type} → DatabaseM c α → Prop
  | ofExcept {α : Type} (x : Except Failure α) : Keeping (Fiber.ofExcept x)
  | act (r : (c.setting.interface.sum c.requests).Act) :
      (∀ pool, r ≠ .inr (.inr (.inl (.setDefault pool)))) → Keeping (Fiber.act r)
  | await (w : (c.setting.interface.sum c.requests).Wait) : Keeping (Fiber.await w)
  | bind {α β : Type} {x : DatabaseM c α} {f : α → DatabaseM c β} :
      Keeping x → (∀ a, Keeping (f a)) → Keeping (x >>= f)
  | attempt {α : Type} {x : DatabaseM c α} : Keeping x → Keeping (Fiber.attempt x)
  | start (target : Target) : Keeping (DefaultDatabase.start target)
  | stop : Keeping DefaultDatabase.stop

variable {α β : Type} {x : DatabaseM c α} {y : DatabaseM c β} {b : List (Deed c)}
  {q : Option PoolId}

/-- Where a program may change the default: to a database that it has just opened in a start, or to
none, where it has just found one in a stop. -/
inductive DefaultDatabase.Sets (x : DatabaseM c α) (l : List (Deed c)) : Option PoolId → Prop
  | start {b : List (Deed c)} {target : Target} {settings : PoolSettings} {p : PoolId} :
      Fiber.Comes x b (start target) → target.poolSettings = .ok settings →
      l = b ++ opening settings p →
      Sets x l (some p)
  | stop {b : List (Deed c)} {p : PoolId} :
      Fiber.Comes x b stop → l = b ++ [.enters .default (some p)] → Sets x l none

/-- A program changes the default where a part of it does. -/
theorem DefaultDatabase.Sets.after (h : Sets y l q) (hy : Fiber.Comes x b y) :
    Sets x (b ++ l) q := by
  cases h with
  | start hcomes hsettings hl =>
    exact .start (hy.trans hcomes) hsettings (by rw [hl, List.append_assoc])
  | stop hcomes hl => exact .stop (hy.trans hcomes) (by rw [hl, List.append_assoc])

namespace Keeping

/-- A program that leaves the default to starts and stops changes it only in these. -/
theorem asks_setDefault (hx : Keeping x) (h : Fiber.Asks x l (.enters (.setDefault q) ())) :
    DefaultDatabase.Sets x l q := by
  -- only a start or a stop can ask for it; the other parts lead up to one that does
  induction hx generalizing l with
  | ofExcept x => exact absurd h Fiber.not_asks_ofExcept
  | act r hr =>
    obtain ⟨-, out, he⟩ := Fiber.asks_act_iff.mp h
    cases he
    exact absurd rfl (hr q)
  | await w =>
    obtain ⟨-, he⟩ := Fiber.asks_await_iff.mp h
    cases he
  | bind _ _ ihx ihf =>
    rcases Fiber.asks_bind_iff.mp h with h | ⟨a, l₁, l₂, rfl, hx, h⟩
    · exact (ihx h).after Fiber.comes_bind
    · exact (ihf a h).after hx.comes
  | attempt _ ih => exact (ih (Fiber.asks_attempt_iff.mp h)).after Fiber.comes_attempt
  | start target =>
    rcases DefaultDatabase.asks_start h with ⟨_, he⟩ | ⟨_, _, he⟩ | ⟨_, -, he⟩ |
      ⟨settings, p, hs, rfl, he⟩
    · cases he
    · cases he
    · cases he
    · cases he
      exact .start (.refl _) hs rfl
  | stop =>
    rcases DefaultDatabase.asks_stop h with ⟨_, he⟩ | ⟨p, rfl, he⟩ | ⟨_, -, he⟩
    · cases he
    · cases he
      exact .stop (.refl _) rfl
    · cases he

variable {token : TokenId} {k : LeaseId} {statement : Statement} {site : Option CallSite}

/-- Returning a value leaves the default alone. -/
theorem pure (a : α) : Keeping (Pure.pure a : DatabaseM c α) := .ofExcept (.ok a)

/-- Looking at a token leaves the default alone. -/
theorem raiseIfCancelled : Keeping (TaskM.raiseIfCancelled token : DatabaseM c Unit) :=
  .bind (.act _ nofun) fun out => by
    cases out with
    | true => exact .ofExcept (.error _)
    | false => exact .ofExcept (.ok ())

/-- Raising the failure of a token leaves the default alone. -/
theorem raiseCancelledFor {f : Failure} :
    Keeping (TaskM.raiseCancelledFor token f : DatabaseM c α) :=
  .bind (.act _ nofun) fun _ => .ofExcept (.error _)

/-- What is settled in view of a token leaves the default to starts and stops if the work does. -/
theorem settle (hx : Keeping x) : Keeping (TaskM.settle token x) := by
  refine .bind hx.attempt fun o => ?_
  cases o with
  | ok a => exact .bind raiseIfCancelled fun _ => .ofExcept (.ok a)
  | error f =>
    dsimp only
    split
    · refine .bind (.act _ nofun) fun out => ?_
      split
      · exact .bind raiseCancelledFor fun _ => .ofExcept (.error f)
      · exact .ofExcept (.error f)
    · exact .ofExcept (.error f)

/-- Reporting an outcome leaves the default alone. -/
theorem report {o : Except Failure Result} :
    Keeping (DatabaseM.report statement token site o : DatabaseM c Result) := by
  cases o with
  | ok result => exact .ofExcept (.ok result)
  | error f =>
    unfold DatabaseM.report
    dsimp only
    split
    · exact .ofExcept (.error f)
    · refine .bind (.act _ nofun) fun out => ?_
      split
      · exact .bind raiseCancelledFor fun _ => .ofExcept (.error _)
      · exact .ofExcept (.error _)

/-- Running a statement leaves the default alone. -/
theorem execute : Keeping (DatabaseM.execute k statement token site : DatabaseM c Result) := by
  have hlast : ∀ o : Except Failure Result, Keeping (do
      let result ← Fiber.ofExcept o
      TaskM.raiseIfCancelled token
      return result : DatabaseM c Result) := fun o =>
    .bind (.ofExcept o) fun result => .bind raiseIfCancelled fun _ => .ofExcept (.ok result)
  refine .bind raiseIfCancelled fun _ => .bind (.act _ nofun) fun run =>
    .bind (.act _ nofun) fun _ => .bind (.act _ nofun) fun _ =>
    .bind (.attempt (.await _)) fun o => .bind (.attempt report) fun o =>
    .bind (.act _ nofun) fun _ => .bind (.act _ nofun) fun request => ?_
  cases request with
  | none => exact hlast o
  | some request => exact .bind (.bind (.await _) fun _ => .ofExcept (.ok ())) fun _ => hlast o

/-- Giving a connection back leaves the default alone. -/
theorem giveBack {o : Except Failure α} : Keeping (DatabaseM.giveBack k o : DatabaseM c α) := by
  cases o with
  | ok a =>
    exact .bind (.await _) fun _ => .bind (.act _ nofun) fun _ => .bind (.act _ nofun) fun _ =>
      .ofExcept (.ok a)
  | error f =>
    unfold DatabaseM.giveBack
    dsimp only
    split
    · exact .bind (.act _ nofun) fun _ => .bind (.act _ nofun) fun _ => .bind (.await _) fun _ =>
        .ofExcept (.error f)
    · exact .bind (.await _) fun _ => .ofExcept (.error f)

/-- Work with a connection leaves the default to starts and stops if the work does. -/
theorem withConnection {pool : PoolId} {token? : Option TokenId} {work : LeaseId → DatabaseM c α}
    (hwork : ∀ k, Keeping (work k)) : Keeping (DatabaseM.withConnection pool token? work) := by
  rw [DatabaseM.withConnection_eq]
  refine .bind (.await _) fun k => .bind (.act _ nofun) fun _ => .bind (.act _ nofun) fun _ =>
    .bind (.attempt ?_) fun _ => giveBack
  cases token? with
  | none => exact hwork k
  | some token => exact .bind raiseIfCancelled fun _ => hwork k

/-- Asking the server to stop a run leaves the default alone. -/
theorem cancelRequest : Keeping (DatabaseM.cancelRequest k : DatabaseM c Unit) := by
  refine .bind (.act _ nofun) fun pid => .bind (.act _ nofun) fun _ =>
    .bind (.attempt (.await _)) fun o => ?_
  cases o with
  | ok u => exact .ofExcept (.ok ())
  | error f =>
    dsimp only
    split
    · exact .act _ nofun
    · exact .ofExcept (.error f)

/-- A query on a pool leaves the default alone. -/
theorem runPooled {pool : PoolId} {source : Source} {params : Value} :
    Keeping (DatabaseM.runPooled pool source params token : DatabaseM c Result) := by
  have hwork : ∀ k, Keeping (DatabaseM.runOn source params token k : DatabaseM c Result) := fun k =>
    .bind (.act _ nofun) fun _ => .bind (.ofExcept _) fun _ => execute
  exact withConnection hwork

/-- The jobs of a database leave the default to starts and stops if its clients do. -/
theorem program {client : c.Task → DatabaseM c Reply} (hclient : ∀ task, Keeping (client task))
    {job : Job c.setting} (hjob : job.Lawful) : Keeping (job.program (Work.meaning client)) := by
  cases hjob with
  | free hjob =>
    -- the client is asked only for the work of its own tasks
    cases hjob with
    | query task token => exact settle (hclient task)
    | derived base f token =>
      have hderived : Keeping (do Fiber.ofExcept (f (← TaskM.join base)) : DatabaseM c Reply) :=
        .bind (.await _) fun a => .ofExcept (f a)
      exact settle hderived
    | plain task => exact hclient task
  | pooled pool source params token =>
    have hpooled : Keeping (do return .result (← DatabaseM.runPooled pool source params token) :
      DatabaseM c Reply) := .bind runPooled fun _ => .pure _
    exact settle hpooled
  | statement k statement token =>
    have hscoped : Keeping (do return .result (← DatabaseM.execute k statement token (some .here)) :
      DatabaseM c Reply) := .bind execute fun _ => .pure _
    exact settle hscoped
  | cancelRequest k => exact .bind cancelRequest fun _ => .pure _

end Keeping

end PooledSql
