import PooledSql.Failure.Message
import PooledSql.Proofs.Wire.Requests

/-!
# Rejections by the driver

How the failures that are raised over the wire are reported. Whatever is raised last decides how an
operation ends. Every operation reports what the connection or the network raised as a rejection by
the driver, and anything else unchanged, except that giving a connection back and closing a pool
pass all failures on (`WireM.reports_iff`).

* `Exchange.raised?`: the failure that an exchange raises.
* `WireM.Operation`: what a pool and its connections do over the wire.
* `Reports`: an outcome reports a failure as a pool should.
-/

namespace PooledSql

namespace Exchange

variable {S : Setting} {X : Interface}

/-- The failure that an exchange raises: of a request over the wire that is answered with it, or of
a status tag that is not told for it. -/
def raised? : Exchange (S.interface.sum (WireM.requests X)) → Option Failure
  | .answer (.inr (.inl _)) (.error f) => some f
  | .act (.inr (.inl (.statusTag _))) (.error f) => some f
  | _ => none

/-- The failures that are raised in some exchanges, in order. -/
def raisedIn (l : List (Exchange (S.interface.sum (WireM.requests X)))) : List Failure :=
  l.filterMap raised?

/-- What is raised in one list of exchanges after another is raised in either, in order. -/
theorem raisedIn_append {l l' : List (Exchange (S.interface.sum (WireM.requests X)))} :
    raisedIn (l ++ l') = raisedIn l ++ raisedIn l' := List.filterMap_append

end Exchange

/-- Whether an outcome reports a failure as a pool should: what the connection or the network raised
as a rejection by the driver, with the same message and with what was raised as its cause, and
anything else unchanged. -/
structure Reports {α : Type} (f : Failure) (r : Except Failure α) : Prop where
  rejected : f.kind.isRaisedByConnection = true →
    ∃ g, r = .error g ∧ g.kind = .driver ∧ g.message = f.message ∧ g.cause? = some f
  passed : f.kind.isRaisedByConnection = false → r = .error f

namespace WireM

open PooledSql.Fiber Exchange

variable {S : Setting} {X : Interface} {α β : Type}

/-- A rejection reports the failure that it is made of. -/
theorem reports_asRejection {f : Failure} :
    Reports f (.error (asRejection f) : Except Failure α) where
  rejected hf := ⟨f.driverError f.message, congrArg Except.error (if_pos hf), rfl, rfl, rfl⟩
  passed hf := congrArg Except.error (if_neg (by simp [hf]))

/-- A failure that is passed on is reported as it should be unless the connection or the network
raised it. -/
theorem reports_error_iff {f : Failure} :
    Reports f (.error f : Except Failure α) ↔ ¬ f.kind.isRaisedByConnection = true := by
  constructor
  · intro h hraised
    obtain ⟨g, heq, hkind, -⟩ := h.rejected hraised
    cases heq
    rw [hkind] at hraised
    cases hraised
  · exact fun hf => ⟨fun hraised => absurd hraised hf, fun _ => rfl⟩

/-- Stop a process over a link of its own. -/
def stopProcess (opened : OpenedPool) (pid : Nat) : WireM S X Unit :=
  guarded do
    let sibling ← wireWait (.connect opened.settings.dsn opened.settings.connectTimeout)
    let outcome ← Fiber.attempt (wireWait (.request sibling cancelCommand pid))
    wireWait (.hangUp sibling)
    Fiber.ofExcept outcome

/-- To stop what runs on a connection is to stop the process that serves it. -/
theorem cancelRunning_eq (k : LeaseId) : (cancelRunning k : WireM S X Unit) = (do
    let l ← lease k
    let pid : Option Nat ← linkPid l.link
    match pid with
    | none => return ()
    | some pid =>
      let opened ← openedPool l.pool
      stopProcess opened pid) := rfl

/-- What a pool and its connections do over the wire. -/
inductive Operation
  /-- What is asked of a pool. -/
  | pool (w : Pool.Wait)
  /-- The part of stopping what runs on a connection that is left to the pool. -/
  | stopProcess (opened : OpenedPool) (pid : Nat)

namespace Operation

/-- What is given back. -/
def Answer : Operation → Type
  | pool w => w.Answer
  | stopProcess .. => Unit

/-- What becomes of an operation. -/
def program : (o : Operation) → WireM S X o.Answer
  | pool w => poolWait w
  | stopProcess opened pid => WireM.stopProcess opened pid

/-- Whether an operation passes failures on as they are. -/
def passesOn : Operation → Bool
  | pool (.release ..) | pool (.close _) => true
  | _ => false

/-- What is made of the failures that an operation fails with. -/
def report (o : Operation) (f : Failure) : Failure := if o.passesOn then f else asRejection f

end Operation

/-- Whether a program fails with what is made of the failure that has been raised last. -/
def FailsBy (g : Failure → Failure) (x : WireM S X α) : Prop :=
  ∀ l r f, Ends x l r → (raisedIn l).getLast? = some f → r = .error (g f)

/-- Whether no failures are raised in a program. -/
def RaisesNone (x : WireM S X α) : Prop := ∀ l r, Ends x l r → raisedIn l = []

variable {g : Failure → Failure} {x : WireM S X α}
  {l : List (Exchange (S.interface.sum (requests X)))}

/-- A program in which no failures are raised fails with what is made of them. -/
theorem RaisesNone.failsBy (hx : RaisesNone x) : FailsBy g x := by
  intro l r f h hf
  rw [hx l r h] at hf
  cases hf

/-- Nothing is raised in a value or failure that is known. -/
theorem raisesNone_ofExcept (r : Except Failure α) :
    RaisesNone (Fiber.ofExcept r : WireM S X α) := by
  intro l _ h
  rw [(ends_ofExcept_iff.mp h).1]
  rfl

/-- Nothing is raised by an entry about pools and leases. -/
theorem raisesNone_holdings (r : Holdings.Act) : RaisesNone (holdings r : WireM S X r.Outcome) := by
  intro l _ h
  obtain ⟨out, rfl, -⟩ := ends_act_iff.mp h
  rfl

/-- Nothing is raised in a program that goes on with another one if nothing is raised in either. -/
theorem RaisesNone.bind {y : α → WireM S X β} (hx : RaisesNone x) (hy : ∀ a, RaisesNone (y a)) :
    RaisesNone (x >>= y) := by
  intro l r h
  rcases ends_bind_iff.mp h with ⟨e, hfirst, -⟩ | ⟨a, l₁, l₂, rfl, hfirst, hrest⟩
  · exact hx _ _ hfirst
  · rw [raisedIn_append, hx _ _ hfirst, hy a _ _ hrest, List.nil_append]

/-- A program that succeeds has raised nothing. -/
theorem FailsBy.raisedIn_eq_nil {a : α} (hx : FailsBy g x) (h : Ends x l (.ok a)) :
    raisedIn l = [] := by
  cases hlast : (raisedIn l).getLast? with
  | none => exact List.getLast?_eq_none_iff.mp hlast
  | some f => cases hx _ _ _ h hlast

/-- What is raised in a program that goes on with another one is raised in the other one, unless the
first one fails. -/
theorem FailsBy.bind {y : α → WireM S X β} (hx : FailsBy g x) (hy : ∀ a, FailsBy g (y a)) :
    FailsBy g (x >>= y) := by
  intro l r f h hf
  rcases ends_bind_iff.mp h with ⟨e, hfirst, rfl⟩ | ⟨a, l₁, l₂, rfl, hfirst, hrest⟩
  · cases hx _ _ _ hfirst hf
    rfl
  · rw [raisedIn_append, hx.raisedIn_eq_nil hfirst, List.nil_append] at hf
    exact hy a _ _ _ hrest hf

/-- What is raised in an attempt decides the failure, unless something is raised afterwards. -/
theorem FailsBy.attempt_bind {y : Except Failure α → WireM S X β} (hx : FailsBy g x)
    (hy : ∀ o, FailsBy g (y o))
    (hfail : ∀ e l r, Ends (y (.error e)) l r → raisedIn l = [] → r = .error e) :
    FailsBy g (Fiber.attempt x >>= y) := by
  intro l r f h hf
  obtain ⟨o, l₁, l₂, rfl, hattempt, hrest⟩ := ends_attempt_bind_iff.mp h
  rw [raisedIn_append, List.getLast?_append] at hf
  -- what is raised behind the attempt decides; otherwise what the attempt has failed with is passed
  -- on
  cases hlast : (raisedIn l₂).getLast? with
  | none =>
    rw [hlast] at hf
    cases hx _ _ _ hattempt hf
    exact hfail _ _ _ hrest (List.getLast?_eq_none_iff.mp hlast)
  | some f' =>
    rw [hlast] at hf
    cases hf
    exact hy o _ _ _ hrest hlast

/-- A request over the wire fails with what it raises. -/
theorem failsBy_wireWait (w : Wire.Wait) : FailsBy id (wireWait w : WireM S X w.Answer) := by
  intro l r f h hf
  obtain rfl := ends_await_iff.mp h
  cases r with
  | ok a => cases hf
  | error e =>
    cases hf
    rfl

/-- Reporting failures makes rejections of those that are raised. -/
theorem FailsBy.guarded (hx : FailsBy id x) : FailsBy asRejection (guarded x) := by
  intro l r f h hf
  obtain ⟨o, hinner, rfl⟩ := ends_guarded_iff.mp h
  obtain rfl := hx _ _ _ hinner hf
  rfl

/-- Reading the status tag of a statement fails with what that raises. -/
theorem failsBy_statusTag {prepared : PreparedId} {y : Option String → WireM S X α}
    (hy : ∀ tag, RaisesNone (y tag)) :
    FailsBy id (do y (← Fiber.ofExcept (← wireAct (.statusTag prepared))) : WireM S X α) := by
  intro l r f h hf
  obtain ⟨told, _, rfl, htold⟩ := ends_act_bind_iff.mp h
  rcases ends_bind_iff.mp htold with ⟨e, he, rfl⟩ | ⟨tag, _, _, rfl, htag, hrest⟩
  · obtain ⟨rfl, rfl⟩ := ends_ofExcept_iff.mp he
    cases hf
    rfl
  · obtain ⟨rfl, rfl⟩ := ends_ofExcept_iff.mp htag
    -- once the tag has been told, nothing is asked for any more
    exact ((hy tag).failsBy (g := id)) _ _ _ hrest hf

/-- Looking up a pool raises nothing. -/
theorem raisesNone_openedPool (pool : PoolId) :
    RaisesNone (openedPool pool : WireM S X OpenedPool) :=
  (raisesNone_holdings _).bind fun _ => raisesNone_ofExcept _

/-- Looking up a lease raises nothing. -/
theorem raisesNone_lease (k : LeaseId) : RaisesNone (lease k : WireM S X Lease) :=
  (raisesNone_holdings _).bind fun _ => raisesNone_ofExcept _

/-- Fetching the rows of a statement fails with what that raises. -/
theorem failsBy_fetched (link : LinkId) (statement : Statement) :
    FailsBy id (fetched link statement : WireM S X _) :=
  (failsBy_wireWait _).bind fun _ => (failsBy_wireWait _).bind fun _ => failsBy_statusTag fun _ =>
    (raisesNone_ofExcept _).bind fun _ => raisesNone_ofExcept (.ok _)

/-- Nothing is raised in breaking a connection off. -/
theorem raisedIn_breakingOff {link : LinkId} {cause : Option Failure} {pid : Option Nat} :
    raisedIn (breakingOff link cause pid : List (Exchange (S.interface.sum (requests X)))) =
      [] := by
  unfold breakingOff
  split <;> rfl

/-- Handing a connection back fails with what that raises. -/
theorem failsBy_handBack (lent : Lease) (opened : OpenedPool) (cause : Option Failure) :
    FailsBy id (handBack lent opened cause : WireM S X Unit) := by
  intro l r f h hf
  obtain ⟨pid, rfl⟩ := ends_handBack h
  rw [raisedIn_append, raisedIn_breakingOff, List.nil_append] at hf
  cases r with
  | ok a => cases hf
  | error e =>
    cases hf
    rfl

/-- Stopping a process fails with a rejection made of what that raises. -/
theorem failsBy_stopProcess (opened : OpenedPool) (pid : Nat) :
    FailsBy asRejection (stopProcess opened pid : WireM S X Unit) := by
  refine FailsBy.guarded ((failsBy_wireWait _).bind fun sibling => ?_)
  refine (failsBy_wireWait _).attempt_bind
    (fun o => (failsBy_wireWait _).bind fun _ => (raisesNone_ofExcept o).failsBy)
    fun e l r h hnone => ?_
  rcases ends_await_bind_iff.mp h with ⟨e', rfl, -⟩ | ⟨_, _, rfl, hrest⟩
  · cases hnone
  · exact (ends_ofExcept_iff.mp hrest).2

/-- Running a statement fails with a rejection made of what that raises. -/
theorem failsBy_execute (k : LeaseId) (run : RunId) (statement : Statement) :
    FailsBy asRejection (execute k run statement : WireM S X Result) := by
  refine (raisesNone_lease k).failsBy.bind fun lent =>
    (raisesNone_holdings _).failsBy.bind fun _ => ?_
  -- the rows are fetched in an attempt, behind which nothing is raised
  refine (failsBy_fetched lent.link statement).guarded.attempt_bind (fun o => ?_)
    fun e l r h _ => ?_
  · exact (raisesNone_holdings _).failsBy.bind fun _ =>
      (raisesNone_ofExcept o).failsBy.bind fun _ => (raisesNone_ofExcept (.ok _)).failsBy
  · obtain ⟨_, _, rfl, hrest⟩ := ends_act_bind_iff.mp h
    rcases ends_bind_iff.mp hrest with ⟨e', he, rfl⟩ | ⟨_, _, _, rfl, he, -⟩
    · cases (ends_ofExcept_iff.mp he).2
      rfl
    · cases (ends_ofExcept_iff.mp he).2

/-- Taking a connection back fails with what that raises. -/
theorem failsBy_release (k : LeaseId) (cause : Option Failure) :
    FailsBy id (release k cause : WireM S X Unit) := by
  rw [release_eq]
  refine (raisesNone_lease k).failsBy.bind fun lent => ?_
  split
  · exact (raisesNone_ofExcept (.ok ())).failsBy
  · exact (raisesNone_openedPool _).failsBy.bind fun opened =>
      (raisesNone_holdings _).failsBy.bind fun _ => failsBy_handBack lent opened cause

/-- Stopping what runs on a connection fails with a rejection made of what that raises. -/
theorem failsBy_cancelRunning (k : LeaseId) :
    FailsBy asRejection (cancelRunning k : WireM S X Unit) := by
  rw [cancelRunning_eq]
  refine (raisesNone_lease k).failsBy.bind fun lent => ?_
  have hpid : RaisesNone (linkPid lent.link : WireM S X (Option Nat)) := fun l _ h => by
    obtain ⟨out, rfl, -⟩ := ends_act_iff.mp h
    rfl
  refine hpid.failsBy.bind fun pid => ?_
  cases pid with
  | none => exact (raisesNone_ofExcept (.ok ())).failsBy
  | some pid =>
    exact (raisesNone_openedPool _).failsBy.bind fun opened => failsBy_stopProcess opened pid

/-- An operation fails with what is made of the failure that has been raised last. -/
theorem failsBy_program (o : Operation) : FailsBy o.report (o.program : WireM S X o.Answer) :=
  match o with
  | .stopProcess opened pid => failsBy_stopProcess opened pid
  | .pool (.openPool _) =>
    (failsBy_wireWait _).guarded.bind fun _ => (raisesNone_holdings _).failsBy
  | .pool (.acquire pool) => (raisesNone_openedPool pool).failsBy.bind fun _ =>
      (failsBy_wireWait _).guarded.bind fun _ => (raisesNone_holdings _).failsBy
  | .pool (.release k cause) => failsBy_release k cause
  | .pool (.execute k run statement) => failsBy_execute k run statement
  | .pool (.cancelRunning k) => failsBy_cancelRunning k
  | .pool (.close pool) => (raisesNone_openedPool pool).failsBy.bind fun _ => failsBy_wireWait _

/-- When a statement is over, however it ended, nothing runs on its connection. -/
theorem idle_of_execute {k : LeaseId} {run : RunId} {statement : Statement}
    {r : Except Failure Result} (h : Ends (execute k run statement : WireM S X Result) l r) :
    ∃ (e : Holdings.Act) (out : e.Outcome), l.getLast? = some (.notes e out) ∧
      ∀ s : Holdings, (s.perform e).1 = out →
        (s.perform e).2.leases[k]?.bind Lease.running = none := by
  rcases ends_execute_iff.mp h with ⟨rfl, -⟩ | ⟨lent, l', r, -, rfl, -⟩
  · -- there is no such connection
    refine ⟨.lease k, none, rfl, fun s hs => ?_⟩
    have hnone : s.leases[k]? = none := hs
    simp [Holdings.perform, hnone]
  · -- nothing is asked for once the entry has been made
    refine ⟨.setRunning k none, (), ?_, fun s _ => by simp [Holdings.perform, Option.bind_map]⟩
    rw [← List.cons_append, ← List.cons_append]
    exact List.getLast?_concat

/-- What is raised last in an operation is reported as it should be, unless the operation takes a
connection back or closes a pool and the connection or the network raised it: these two pass on what
is raised in them. When a statement is over, however it ended, nothing runs on its connection. -/
theorem reports_iff {o : Operation} {r : Except Failure o.Answer}
    (h : Ends (o.program : WireM S X o.Answer) l r) :
    (∀ f, (raisedIn l).getLast? = some f →
      (Reports f r ↔ ¬ (o.passesOn = true ∧ f.kind.isRaisedByConnection = true)) ∧
        (o.passesOn = true → r = .error f)) ∧
    ∀ k run statement, o = .pool (.execute k run statement) →
      ∃ (e : Holdings.Act) (out : e.Outcome), l.getLast? = some (.notes e out) ∧
        ∀ s : Holdings, (s.perform e).1 = out →
          (s.perform e).2.leases[k]?.bind Lease.running = none := by
  constructor
  · intro f hf
    obtain rfl := failsBy_program o l r f h hf
    cases hpasses : o.passesOn with
    | true => simp [Operation.report, hpasses, reports_error_iff]
    | false => simp [Operation.report, hpasses, reports_asRejection]
  · rintro k run statement rfl
    exact idle_of_execute h

/-- The network has been lost. -/
def lost : Failure := (Fault.raised .system (some "lost")).failure

/-- What passes while a statement is run whose status tag is not told. -/
def executingUntold : List (Exchange (S.interface.sum (requests X))) :=
  [.notes (.lease 0) (some { pool := 0, link := 0 }),
    .notes (.setRunning 0 (some (0, { sql := "SELECT 1" }))) (),
    .sends (.prepare 0 .plain "SELECT 1"),
    .receives (.prepare 0 .plain "SELECT 1") (.ok (0 : PreparedId)),
    .sends (.fetch 0 []), .receives (.fetch 0 []) (.ok ([] : List (List (String × Value)))),
    .tells (.statusTag 0) (.error lost), .notes (.setRunning 0 none) ()]

/-- A pool with the settings that it has unless they are given. -/
def openedByDefault : OpenedPool where
  raw := 0
  settings :=
    { dsn := none, minSize := 1, maxSize := PoolSettings.defaultMaxSize,
      idleTimeout := PoolSettings.defaultIdleTimeout,
        connectTimeout := PoolSettings.defaultConnectTimeout }

/-- What passes while a connection is taken back that is lost in handing it back. -/
def takingBackLost : List (Exchange (S.interface.sum (requests X))) :=
  [.notes (.lease 0) (some { pool := 0, link := 0 }), .notes (.pool 0) (some openedByDefault),
    .notes (.markReleased 0) (), .sends (.release 0 0), .receives (.release 0 0) (.error lost)]

/-- A status tag that is not told since the network has been lost is a rejection by the driver, and
nothing runs on the connection afterwards. -/
theorem reports_iff_untold :
    Ends (execute 0 0 { sql := "SELECT 1" } : WireM ⟨Empty, Empty, Unit⟩ (.state Unit) Result)
        executingUntold (.error (lost.driverError "lost")) ∧
      Reports lost (.error (lost.driverError "lost") : Except Failure Result) ∧
      ∃ (e : Holdings.Act) (out : e.Outcome),
        (executingUntold (S := ⟨Empty, Empty, Unit⟩) (X := .state Unit)).getLast? =
          some (.notes e out) ∧
        ∀ s : Holdings, (s.perform e).1 = out →
          (s.perform e).2.leases[0]?.bind Lease.running = none := by
  have hends :
      Ends (execute 0 0 { sql := "SELECT 1" } : WireM ⟨Empty, Empty, Unit⟩ (.state Unit) Result)
      executingUntold (.error (lost.driverError "lost")) :=
    .act (.act (.await (.await (.act (.act (.nil _))))))
  obtain ⟨hreports, hidle⟩ := reports_iff (o := .pool (.execute 0 0 { sql := "SELECT 1" })) hends
  exact ⟨hends, ((hreports lost rfl).1.mpr (by simp [Operation.passesOn])), hidle 0 0 _ rfl⟩

/-- It is not so that every operation reports what is raised last in it as it should: taking a
connection back passes on that the network has been lost. -/
theorem not_reports :
    ¬ ∀ {S : Setting} {X : Interface} {l : List (Exchange (S.interface.sum (requests X)))}
      {o : Operation} {r : Except Failure o.Answer} {f : Failure},
      Ends (o.program : WireM S X o.Answer) l r →
        (raisedIn l).getLast? = some f → Reports f r := by
  intro hall
  have hends : Ends (release 0 none : WireM ⟨Empty, Empty, Unit⟩ (.state Unit) Unit) takingBackLost
      (.error lost) := .act (.act (.act (.await (.nil _))))
  exact reports_error_iff.mp (hall (o := .pool (.release 0 none)) hends rfl) rfl

end WireM

end PooledSql
