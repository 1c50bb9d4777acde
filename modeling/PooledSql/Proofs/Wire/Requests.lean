import Mathlib.Logic.Basic
import PooledSql.Proofs.Task.Carriage
import PooledSql.Wire.Pooled

/-!
# Requests to pools over the wire

What passes over the wire while a request to a pool is carried over. Each lease is entered when its
connection is lent out, and marked when that is taken back for the first time.

* `WireM.KeepsToWire`: programs that do nothing but what requests to pools are carried over by.
* `WireM.carriage`: how requests to pools are carried over.
* `WireM.lendingOut`, `WireM.takingBack`: lending out a connection, and taking it back.
-/

namespace PooledSql

namespace Exchange

variable {S : Setting} {X : Interface}

/-- An act of the wire. -/
abbrev tells (r : Wire.Act) (out : r.Outcome) : Exchange (S.interface.sum (WireM.requests X)) :=
  .act (.inr (.inl r)) out

/-- An entry about pools and leases. -/
abbrev notes (r : Holdings.Act) (out : r.Outcome) : Exchange (S.interface.sum (WireM.requests X)) :=
  .act (.inr (.inr (.inl r))) out

/-- A request over the wire. -/
abbrev sends (w : Wire.Wait) : Exchange (S.interface.sum (WireM.requests X)) :=
  .call (.inr (.inl w))

/-- The answer to a request over the wire. -/
abbrev receives (w : Wire.Wait) (ans : Except Failure w.Answer) :
    Exchange (S.interface.sum (WireM.requests X)) := .answer (.inr (.inl w)) ans

end Exchange

namespace WireM

variable {S : Setting} {X : Interface} {α : Type}

/-- The acts by which requests to pools are carried over that make the entries `E` about pools and
leases. -/
def IsWireAct (E : Holdings.Act → Prop) : (S.interface.sum (requests X)).Act → Prop
  | .inl (.log _) => True
  | .inl _ => False
  | .inr (.inl _) => True
  | .inr (.inr (.inl r)) => E r
  | .inr (.inr (.inr _)) => False

/-- The waits by which requests to pools are carried over. -/
def IsWireWait : (S.interface.sum (requests X)).Wait → Prop
  | .inr (.inl _) => True
  | _ => False

/-- The exchanges that pass while a request to a pool is carried over for which the entries `E` are
made. -/
def IsWire (E : Holdings.Act → Prop) : Exchange (S.interface.sum (requests X)) → Prop
  | .act r _ => IsWireAct E r
  | .call w | .answer w _ => IsWireWait w

/-- Whether a program asks for nothing but what requests to pools are carried over by, with the
entries `E`. -/
abbrev KeepsToWire (E : Holdings.Act → Prop) (x : WireM S X α) : Prop :=
  Fiber.Keeps (IsWireAct E) IsWireWait x

/-- Looking up pools and leases. -/
def LooksUp : Holdings.Act → Prop
  | .pool _ | .lease _ => True
  | _ => False

/-- The entries about pools and leases that are made for a request to a pool. -/
def Enters : Pool.Wait → Holdings.Act → Prop
  | .openPool _, .addPool _ => True
  | .acquire pool, .addLease pool' _ => pool = pool'
  | .release k _, .markReleased k' | .execute k _ _, .setRunning k' _ => k = k'
  | _, r => LooksUp r

section Keeps

variable {E : Holdings.Act → Prop}

/-- An act of the wire keeps to it. -/
theorem keeps_wireAct (r : Wire.Act) : KeepsToWire E (wireAct r : WireM S X r.Outcome) :=
  Fiber.keeps_act trivial

/-- A request over the wire keeps to it. -/
theorem keeps_wireWait (w : Wire.Wait) : KeepsToWire E (wireWait w : WireM S X w.Answer) :=
  Fiber.keeps_await trivial

/-- An entry about pools and leases keeps to the wire. -/
theorem keeps_holdings {r : Holdings.Act} (hr : E r) :
    KeepsToWire E (holdings r : WireM S X r.Outcome) :=
  Fiber.keeps_act hr

/-- Looking up a pool keeps to the wire. -/
theorem keeps_openedPool {pool : PoolId} (hpool : E (.pool pool)) :
    KeepsToWire E (openedPool pool : WireM S X OpenedPool) :=
  (keeps_holdings hpool).bind fun _ => Fiber.keeps_ofExcept _

/-- Looking up a lease keeps to the wire. -/
theorem keeps_lease {k : LeaseId} (hk : E (.lease k)) :
    KeepsToWire E (lease k : WireM S X Lease) :=
  (keeps_holdings hk).bind fun _ => Fiber.keeps_ofExcept _

/-- Reporting failures keeps to the wire. -/
theorem keeps_guarded {x : WireM S X α} (hx : KeepsToWire E x) : KeepsToWire E (guarded x) := by
  refine hx.attempt.bind fun r => ?_
  cases r with
  | ok a => exact Fiber.keeps_pure a
  | error f => exact Fiber.keeps_throw _

end Keeps

/-- Taking a connection back keeps to the wire. -/
theorem keeps_release (k : LeaseId) (cause : Option Failure) :
    KeepsToWire (Enters (.release k cause)) (release k cause : WireM S X Unit) := by
  refine (keeps_lease trivial).bind fun l => ?_
  split
  · exact Fiber.keeps_pure ()
  have hmark : Enters (.release k cause) (.markReleased k) := rfl
  refine (keeps_openedPool trivial).bind fun opened => (keeps_holdings hmark).bind fun _ => ?_
  cases cause.any Failure.isAbort with
  | true =>
    exact (keeps_wireAct _).bind fun _ => (Fiber.keeps_act trivial).bind fun _ =>
      (keeps_wireAct _).bind fun _ => keeps_wireWait _
  | false => exact keeps_wireWait _

/-- Fetching the rows of a statement keeps to the wire. -/
theorem keeps_fetched {E : Holdings.Act → Prop} (link : LinkId) (statement : Statement) :
    KeepsToWire E (fetched link statement : WireM S X _) :=
  (keeps_wireWait _).bind fun _ => (keeps_wireWait _).bind fun _ => (keeps_wireAct _).bind fun _ =>
    (Fiber.keeps_ofExcept _).bind fun _ => (Fiber.keeps_ofExcept _).bind fun _ => Fiber.keeps_pure _

/-- Running a statement keeps to the wire. -/
theorem keeps_execute (k : LeaseId) (run : RunId) (statement : Statement) :
    KeepsToWire (Enters (.execute k run statement))
      (execute k run statement : WireM S X Result) := by
  have hset : ∀ running, Enters (.execute k run statement) (.setRunning k running) := fun _ => rfl
  refine (keeps_lease trivial).bind fun l => (keeps_holdings (hset _)).bind fun _ => ?_
  exact (keeps_guarded (keeps_fetched ..)).attempt.bind fun _ =>
    (keeps_holdings (hset none)).bind fun _ =>
    (Fiber.keeps_ofExcept _).bind fun _ => Fiber.keeps_pure _

/-- Stopping what runs on a connection keeps to the wire. -/
theorem keeps_cancelRunning (k : LeaseId) :
    KeepsToWire (Enters (.cancelRunning k)) (cancelRunning k : WireM S X Unit) := by
  refine (keeps_lease trivial).bind fun l => (keeps_wireAct _).bind fun pid => ?_
  cases pid with
  | none => exact Fiber.keeps_pure ()
  | some pid =>
    refine (keeps_openedPool trivial).bind fun opened => keeps_guarded ?_
    exact (keeps_wireWait _).bind fun sibling => (keeps_wireWait _).attempt.bind fun _ =>
      (keeps_wireWait _).bind fun _ => Fiber.keeps_ofExcept _

/-- What becomes of a request to a pool keeps to the wire. -/
theorem keeps_poolWait (w : Pool.Wait) :
    KeepsToWire (Enters w) (poolWait w : WireM S X w.Answer) := by
  cases w with
  | openPool settings =>
    exact (keeps_guarded (keeps_wireWait _)).bind fun _ => keeps_holdings trivial
  | acquire pool =>
    exact (keeps_openedPool trivial).bind fun _ => (keeps_guarded (keeps_wireWait _)).bind fun _ =>
      keeps_holdings rfl
  | release k cause => exact keeps_release k cause
  | execute k run statement => exact keeps_execute k run statement
  | cancelRunning k => exact keeps_cancelRunning k
  | close pool => exact (keeps_openedPool trivial).bind fun _ => keeps_wireWait _

/-- What becomes of an inquiry keeps to the wire, and takes no time. -/
theorem keeps_poolAct (r : Pool.Act) :
    (poolAct r : Steady S X r.Outcome).Keeps (IsWireAct LooksUp) fun _ => False := by
  cases r with
  | pid k =>
    refine ⟨trivial, fun l => ?_⟩
    cases l with
    | none => trivial
    | some l => exact ⟨trivial, fun _ => trivial⟩
  | activeRun k => exact ⟨trivial, fun _ => trivial⟩

/-- What passes while a request to a pool is carried over. -/
theorem isWire_of_poolWait {w : Pool.Wait} {l : List (Exchange (S.interface.sum (requests X)))}
    {e : Exchange (S.interface.sum (requests X))}
    (h : Program.Reaches (poolWait w : WireM S X w.Answer).run l) (he : e ∈ l) :
    IsWire (Enters w) e := by
  have hkept := Program.Keeps.of_reaches (keeps_poolWait w) h e he
  cases e <;> exact hkept

/-- What passes while an inquiry is carried over. -/
theorem isWire_of_poolAct {r : Pool.Act} {l : List (Exchange (S.interface.sum (requests X)))}
    {e : Exchange (S.interface.sum (requests X))}
    (h : Program.Reaches (poolAct r : Steady S X r.Outcome) l) (he : e ∈ l) : IsWire LooksUp e := by
  have hkept := (keeps_poolAct r).of_reaches h e he
  cases e with
  | act r out => exact hkept
  | _ => exact hkept.elim

/-- An inquiry comes to its answer by an act beyond tasks. -/
theorem snoc_of_poolAct {r : Pool.Act} {l : List (Exchange (S.interface.sum (requests X)))}
    {out : r.Outcome} (h : Program.Leads (poolAct r : Steady S X r.Outcome) l (.done out)) :
    ∃ l₁ r' out', l = l₁ ++ [.act (.inr r') out'] := by
  cases r with
  | pid k =>
    cases h with
    | @act _ _ found m _ h =>
      cases found with
      | none =>
        cases h
        exact ⟨[], _, _, rfl⟩
      | some l =>
        obtain rfl := Program.leads_act_done_iff.mp h
        exact ⟨[_], _, _, rfl⟩
  | activeRun k =>
    cases h with
    | act h =>
      cases h
      exact ⟨[], _, _, rfl⟩

/-- How requests to pools are carried over. -/
def carriage (S : Setting) (X : Interface) : Carriage S (Pool.interface.sum X) (requests X) where
  act
    | .inl r => poolAct r
    | .inr r => Program.act (I := S.interface.sum (requests X)) (.inr (.inr (.inr r))) .done
  wait
    | .inl w => poolWait w
    | .inr w => Program.await (I := S.interface.sum (requests X)) (.inr (.inr (.inr w))) .done
  act_ne_done
    | .inl (.pid _), _ | .inl (.activeRun _), _ | .inr _, _ => nofun
  wait_ne_done
    | .inl (.openPool _), _ | .inl (.acquire _), _ | .inl (.release ..), _
    | .inl (.execute ..), _ | .inl (.cancelRunning _), _ | .inl (.close _), _ | .inr _, _ => nofun
  act_keeps
    | .inl r => (keeps_poolAct r).mono
        (fun
          | .inl (.log _), _ | .inr _, _ => trivial) fun _ => id
    | .inr _ => ⟨trivial, fun _ => trivial⟩
  wait_keeps
    | .inl w => (keeps_poolWait w).mono
        (fun
          | .inl (.log _), _ | .inr _, _ => trivial)
        fun
          | .inr _, _ => trivial
    | .inr _ => ⟨trivial, fun _ => trivial⟩

/-- A program that uses pools is carried over to the wire. -/
theorem ofPooled_eq (x : TaskM S (Pool.interface.sum X) α) :
    ofPooled x = (carriage S X).carried x := by
  refine congrArg₂ (fun acts waits => Program.carry acts waits x) (funext fun r => ?_)
    (funext fun w => ?_)
  · rcases r with r | r | r <;> rfl
  · rcases w with w | w | w <;> rfl

/-- What passes while a connection is lent out. -/
def lendingOut (pool : PoolId) (opened : OpenedPool) (link : LinkId) (k : LeaseId) :
    List (Exchange (S.interface.sum (requests X))) :=
  [.notes (.pool pool) (some opened), .sends (.acquire opened.raw),
    .receives (.acquire opened.raw) (.ok link), .notes (.addLease pool link) k]

/-- What passes before a connection is handed back: it is broken off if the cause says so. -/
def breakingOff (link : LinkId) (cause : Option Failure) (pid : Option Nat) :
    List (Exchange (S.interface.sum (requests X))) :=
  if cause.any Failure.isAbort then
    [.tells (.pid link) pid, .act (.inl (.log (.terminating pid))) (), .tells (.terminate link) ()]
  else []

/-- A connection is broken off if the cause says so. -/
theorem breakingOff_of_abort {link : LinkId} {cause : Option Failure} {pid : Option Nat}
    (habort : cause.any Failure.isAbort) :
    breakingOff link cause pid = ([.tells (.pid link) pid, .act (.inl (.log (.terminating pid))) (),
      .tells (.terminate link) ()] : List (Exchange (S.interface.sum (requests X)))) :=
  if_pos habort

/-- A connection is not broken off unless the cause says so. -/
theorem breakingOff_of_not_abort {link : LinkId} {cause : Option Failure} {pid : Option Nat}
    (habort : ¬ cause.any Failure.isAbort) :
    breakingOff link cause pid = ([] : List (Exchange (S.interface.sum (requests X)))) :=
  if_neg habort

/-- What passes until a connection is handed back. -/
def takingBack (k : LeaseId) (l : Lease) (opened : OpenedPool) (cause : Option Failure)
    (pid : Option Nat) : List (Exchange (S.interface.sum (requests X))) :=
  [.notes (.lease k) (some l), .notes (.pool l.pool) (some opened), .notes (.markReleased k) ()] ++
    (breakingOff l.link cause pid ++ [.sends (.release opened.raw l.link)])

/-- An entry that is no lookup is not made for an act. -/
theorem looksUp_of_acts {r : (S.interface.sum (Pool.interface.sum X)).Act} {r' : Holdings.Act}
    {out : r'.Outcome} {l : List (Exchange (S.interface.sum (requests X)))}
    (h : Program.Reaches ((carriage S X).acts r) l) (hnote : .notes r' out ∈ l) : LooksUp r' := by
  rcases r with r | r | r
  · obtain ⟨_, he⟩ := h.mem_act hnote
    cases he
  · exact isWire_of_poolAct h hnote
  · obtain ⟨_, he⟩ := h.mem_act hnote
    cases he

/-- An entry is made for a request to a pool. -/
theorem enters_of_waits {w : (S.interface.sum (Pool.interface.sum X)).Wait} {r : Holdings.Act}
    {out : r.Outcome} {l : List (Exchange (S.interface.sum (requests X)))}
    (h : Program.Reaches ((carriage S X).waits w) l) (hnote : .notes r out ∈ l) :
    ∃ w', w = .inr (.inl w') ∧ Enters w' r := by
  rcases w with w | w | w
  · rcases h.mem_await hnote with he | ⟨_, he⟩ <;> cases he
  · exact ⟨w, rfl, isWire_of_poolWait h hnote⟩
  · rcases h.mem_await hnote with he | ⟨_, he⟩ <;> cases he

/-- A lease is marked right after it and its pool have been looked up. -/
theorem eq_of_markReleased {k k' : LeaseId} {lent : Lease} {opened : OpenedPool}
    {cause : Option Failure} {pid : Option Nat} {l : List (Exchange (S.interface.sum (requests X)))}
    (h : l ++ [.notes (.markReleased k') ()] <+: takingBack k lent opened cause pid) :
    l = [.notes (.lease k) (some lent), .notes (.pool lent.pool) (some opened)] := by
  obtain ⟨t, ht⟩ := h
  -- nothing is marked after that
  have hlater : .notes (.markReleased k') () ∉ (breakingOff lent.link cause pid ++
      [.sends (.release opened.raw lent.link)] : List
        (Exchange (S.interface.sum (requests X)))) := by
    unfold breakingOff
    split
    · simp only [List.mem_append, List.mem_cons, List.not_mem_nil, or_false]
      rintro ((h | h | h) | h) <;> cases h
    · simp
  -- so the mark is the third exchange
  rcases l with _ | ⟨d₁, _ | ⟨d₂, _ | ⟨d₃, l⟩⟩⟩
  · cases ht
  · cases ht
  · cases ht
    rfl
  · simp only [takingBack, List.cons_append, List.nil_append, List.cons.injEq] at ht
    refine (hlater ?_).elim
    rw [← ht.2.2.2]
    simp

/-- Taking a connection back does not have to wait before it is handed back. -/
theorem eq_of_call {k : LeaseId} {lent : Lease} {opened : OpenedPool} {cause : Option Failure}
    {pid : Option Nat} {l : List (Exchange (S.interface.sum (requests X)))}
    {v : (S.interface.sum (requests X)).Wait}
    (h : l ++ [.call v] <+: takingBack k lent opened cause pid) :
    l ++ [.call v] = takingBack k lent opened cause pid := by
  -- all but the last exchange are acts
  have hprompt : .call v ∉ (([.notes (.lease k) (some lent), .notes (.pool lent.pool) (some opened),
      .notes (.markReleased k) ()] ++ breakingOff lent.link cause pid) :
        List (Exchange (S.interface.sum (requests X)))) := by
    unfold breakingOff
    split <;> simp
  rw [takingBack, ← List.append_assoc] at h ⊢
  rcases List.prefix_concat_iff.mp h with heq | hpre
  · exact heq
  · exact (hprompt (hpre.subset (List.mem_append_right _ (List.mem_singleton_self _)))).elim

/-- Breaking a connection off if the cause says so, and handing it back. -/
def handBack (l : Lease) (opened : OpenedPool) (cause : Option Failure) : WireM S X Unit := do
  if cause.any Failure.isAbort then
    TaskM.log (.terminating (← linkPid l.link))
    wireAct (.terminate l.link)
  wireWait (.release opened.raw l.link)

/-- Taking a connection back in its parts. -/
theorem release_eq (k : LeaseId) (cause : Option Failure) :
    (release k cause : WireM S X Unit) = (do
      let l ← lease k
      if l.released then return ()
      let opened ← openedPool l.pool
      holdings (.markReleased k)
      handBack l opened cause) := rfl

section Exchanges

variable {l : List (Exchange (S.interface.sum (requests X)))}
  {e : Exchange (S.interface.sum (requests X))} {k : LeaseId} {cause : Option Failure}

section Lookup

variable {β : Type} {x : WireM S X (Option α)}
  {d : Option α → Exchange (S.interface.sum (requests X))} {f : α → WireM S X β}

/-- What has been looked up in one exchange is gone on with, unless its name is not known. -/
theorem ends_lookup_bind_iff {o : Except Failure β}
    (hends : ∀ {l r}, Fiber.Ends x l r ↔ ∃ found, l = [d found] ∧ r = .ok found) :
    Fiber.Ends ((do Fiber.ofExcept ((← x).elim (.error unknownName) .ok)) >>= f) l o ↔
      (l = [d none] ∧ o = .error unknownName) ∨
        ∃ a l', l = d (some a) :: l' ∧ Fiber.Ends (f a) l' o := by
  rw [bind_assoc]
  constructor
  · intro h
    rcases Fiber.ends_bind_iff.mp h with ⟨_, hr, -⟩ | ⟨found, _, l', rfl, hfound, hf⟩
    · obtain ⟨_, -, hr⟩ := hends.mp hr
      cases hr
    -- the lookup has succeeded as such, whatever it has found
    obtain ⟨_, rfl, hr⟩ := hends.mp hfound
    cases hr
    cases found with
    | none =>
      obtain ⟨rfl, rfl⟩ := Fiber.ends_throw_iff.mp hf
      exact .inl ⟨rfl, rfl⟩
    | some a => exact .inr ⟨a, l', rfl, hf⟩
  · rintro (⟨rfl, rfl⟩ | ⟨a, l', rfl, hf⟩)
    · exact Fiber.ends_bind_iff.mpr (.inr ⟨none, _, [], rfl, hends.mpr ⟨none, rfl, rfl⟩,
        Fiber.ends_throw_iff.mpr ⟨rfl, rfl⟩⟩)
    · exact Fiber.ends_bind_iff.mpr (.inr ⟨some a, _, l', rfl, hends.mpr ⟨some a, rfl, rfl⟩, hf⟩)

/-- What is asked for is the lookup, or what is gone on with. -/
theorem asks_lookup_bind
    (hends : ∀ {l r}, Fiber.Ends x l r → ∃ found, l = [d found] ∧ r = .ok found)
    (hasks : ∀ {l e}, Fiber.Asks x l e → l = [] ∧ ∃ found, e = d found)
    (h : Fiber.Asks ((do Fiber.ofExcept ((← x).elim (.error unknownName) .ok)) >>= f) l e) :
    (l = [] ∧ ∃ found, e = d found) ∨ ∃ a l', l = d (some a) :: l' ∧ Fiber.Asks (f a) l' e := by
  rw [bind_assoc] at h
  rcases Fiber.asks_bind_iff.mp h with h | ⟨found, _, l', rfl, hfound, hf⟩
  · exact .inl (hasks h)
  obtain ⟨_, rfl, hr⟩ := hends hfound
  cases hr
  cases found with
  | none => exact (Fiber.not_asks_throw hf).elim
  | some a => exact .inr ⟨a, l', rfl, hf⟩

end Lookup

/-- A pool is looked up in one exchange. -/
theorem ends_openedPool_bind_iff {pool : PoolId} {f : OpenedPool → WireM S X α}
    {o : Except Failure α} :
    Fiber.Ends (openedPool pool >>= f) l o ↔
      (l = [.notes (.pool pool) none] ∧ o = .error unknownName) ∨
        ∃ opened l', l = .notes (.pool pool) (some opened) :: l' ∧ Fiber.Ends (f opened) l' o :=
  ends_lookup_bind_iff Fiber.ends_act_iff

/-- A pool is looked up before anything is done with it. -/
theorem asks_openedPool_bind {pool : PoolId} {f : OpenedPool → WireM S X α}
    (h : Fiber.Asks (openedPool pool >>= f) l e) :
    (l = [] ∧ ∃ found, e = .notes (.pool pool) found) ∨
      ∃ opened l', l = .notes (.pool pool) (some opened) :: l' ∧ Fiber.Asks (f opened) l' e :=
  asks_lookup_bind Fiber.ends_act_iff.mp Fiber.asks_act_iff.mp h

/-- A lease is looked up in one exchange. -/
theorem ends_lease_bind_iff {f : Lease → WireM S X α} {o : Except Failure α} :
    Fiber.Ends (lease k >>= f) l o ↔
      (l = [.notes (.lease k) none] ∧ o = .error unknownName) ∨
        ∃ lent l', l = .notes (.lease k) (some lent) :: l' ∧ Fiber.Ends (f lent) l' o :=
  ends_lookup_bind_iff Fiber.ends_act_iff

/-- A lease is looked up before anything is done with it. -/
theorem asks_lease_bind {f : Lease → WireM S X α} (h : Fiber.Asks (lease k >>= f) l e) :
    (l = [] ∧ ∃ found, e = .notes (.lease k) found) ∨
      ∃ lent l', l = .notes (.lease k) (some lent) :: l' ∧ Fiber.Asks (f lent) l' e :=
  asks_lookup_bind Fiber.ends_act_iff.mp Fiber.asks_act_iff.mp h

/-- Reporting failures makes nothing of them but what is reported. -/
theorem ends_guarded_iff {x : WireM S X α} {r : Except Failure α} :
    Fiber.Ends (guarded x) l r ↔ ∃ o, Fiber.Ends x l o ∧ r = o.mapError asRejection := by
  constructor
  · intro h
    obtain ⟨o, l₁, l₂, rfl, hx, hr⟩ := Fiber.ends_attempt_bind_iff.mp h
    cases o with
    | ok a =>
      obtain ⟨rfl, rfl⟩ := Fiber.ends_pure_iff.mp hr
      exact ⟨_, by simpa using hx, rfl⟩
    | error f =>
      obtain ⟨rfl, rfl⟩ := Fiber.ends_throw_iff.mp hr
      exact ⟨_, by simpa using hx, rfl⟩
  · rintro ⟨o, hx, rfl⟩
    refine Fiber.ends_attempt_bind_iff.mpr ⟨o, l, [], (List.append_nil l).symm, hx, ?_⟩
    cases o with
    | ok a => exact Fiber.ends_pure_iff.mpr ⟨rfl, rfl⟩
    | error f => exact Fiber.ends_throw_iff.mpr ⟨rfl, rfl⟩

/-- A connection is lent out by adding its lease to the holdings. -/
theorem ends_acquire {pool : PoolId} (h : Fiber.Ends (acquire pool : WireM S X LeaseId) l (.ok k)) :
    ∃ opened link, l = lendingOut pool opened link k := by
  -- a loan that succeeds has found its pool and has been granted a link
  rcases ends_openedPool_bind_iff.mp h with ⟨-, hk⟩ | ⟨opened, _, rfl, hrest⟩
  · cases hk
  rcases Fiber.ends_bind_iff.mp hrest with ⟨_, -, hk⟩ | ⟨link, l₂, _, rfl, hlink, hadd⟩
  · cases hk
  obtain ⟨o, hlink, ho⟩ := ends_guarded_iff.mp hlink
  obtain rfl := Fiber.ends_await_iff.mp hlink
  obtain ⟨out, rfl, hk⟩ := Fiber.ends_act_iff.mp hadd
  cases hk
  cases o with
  | error f => cases ho
  | ok link =>
    cases ho
    exact ⟨opened, link, rfl⟩

/-- A lease is added to a pool that is known. -/
theorem known_of_addLease {pool pool' : PoolId} {link : LinkId} {out : LeaseId}
    (h : Fiber.Asks (acquire pool : WireM S X LeaseId) l (.notes (.addLease pool' link) out)) :
    ∃ opened l', l = .notes (.pool pool) (some opened) :: l' := by
  rcases asks_openedPool_bind h with ⟨-, _, he⟩ | ⟨opened, l', rfl, -⟩
  · cases he
  · exact ⟨opened, l', rfl⟩

/-- A connection has been lent out when its lease is added. -/
theorem ends_of_addLease {pool pool' : PoolId} {link : LinkId}
    (h : Fiber.Asks (acquire pool : WireM S X LeaseId) l (.notes (.addLease pool' link) k)) :
    Fiber.Ends (acquire pool : WireM S X LeaseId) (l ++ [.notes (.addLease pool' link) k])
      (.ok k) := by
  rcases asks_openedPool_bind h with ⟨-, _, he⟩ | ⟨opened, l', rfl, hrest⟩
  · cases he
  rcases Fiber.asks_bind_iff.mp hrest with hlink | ⟨link', l₃, l₄, rfl, hlink, hadd⟩
  · -- no entry is made while a link is asked for
    have hkept : KeepsToWire (fun _ => False)
        (guarded (wireWait (.acquire opened.raw)) : WireM S X LinkId) :=
      keeps_guarded (keeps_wireWait _)
    exact (Program.Keeps.of_reaches hkept hlink.reaches _
      (List.mem_append_right _ (List.mem_singleton_self _))).elim
  · obtain ⟨rfl, out, he⟩ := Fiber.asks_act_iff.mp hadd
    cases he
    have hadded : Fiber.Ends (holdings (.addLease pool link) : WireM S X LeaseId)
        [.notes (.addLease pool link) k] (.ok k) := Fiber.ends_act_iff.mpr ⟨k, rfl, rfl⟩
    rw [List.append_nil]
    exact ends_openedPool_bind_iff.mpr (.inr ⟨opened, _, rfl,
      Fiber.ends_bind_iff.mpr (.inr ⟨link, l₃, _, rfl, hlink, hadded⟩)⟩)

/-- A connection is handed back by one request. -/
theorem ends_handBack {lent : Lease} {opened : OpenedPool} {r : Except Failure Unit}
    (h : Fiber.Ends (handBack lent opened cause : WireM S X Unit) l r) :
    ∃ pid, l = breakingOff lent.link cause pid ++
      [.sends (.release opened.raw lent.link), .receives (.release opened.raw lent.link) r] := by
  unfold handBack at h
  split at h
  next habort =>
    obtain ⟨(pid : Option Nat), _, rfl, hpid⟩ := Fiber.ends_act_bind_iff.mp h
    obtain ⟨⟨⟩, _, rfl, hlog⟩ := Fiber.ends_act_bind_iff.mp hpid
    obtain ⟨⟨⟩, _, rfl, hterminate⟩ := Fiber.ends_act_bind_iff.mp hlog
    obtain rfl := Fiber.ends_await_iff.mp hterminate
    refine ⟨pid, ?_⟩
    rw [breakingOff_of_abort habort]
    rfl
  next habort =>
    obtain rfl := Fiber.ends_await_iff.mp h
    refine ⟨none, ?_⟩
    rw [breakingOff_of_not_abort habort]
    rfl

/-- What is asked for in handing a connection back. -/
theorem asks_handBack {lent : Lease} {opened : OpenedPool}
    (h : Fiber.Asks (handBack lent opened cause : WireM S X Unit) l e) :
    ∃ pid, l ++ [e] <+: breakingOff lent.link cause pid ++
      [.sends (.release opened.raw lent.link)] := by
  unfold handBack at h
  split at h
  next habort =>
    -- each exchange of breaking off is one with a rest of its own
    have hpart : ∀ (pid : Option Nat) (t : List (Exchange (S.interface.sum (requests X)))),
        l ++ [e] ++ t = [.tells (.pid lent.link) pid, .act (.inl (.log (.terminating pid))) (),
          .tells (.terminate lent.link) (), .sends (.release opened.raw lent.link)] →
        ∃ pid, l ++ [e] <+: breakingOff lent.link cause pid ++
          [.sends (.release opened.raw lent.link)] := by
      intro pid t ht
      refine ⟨pid, t, ?_⟩
      rw [breakingOff_of_abort habort]
      exact ht
    rcases Fiber.asks_act_bind_iff.mp h with ⟨rfl, pid, rfl⟩ | ⟨pid, _, rfl, hpid⟩
    · exact hpart pid _ rfl
    rcases Fiber.asks_act_bind_iff.mp hpid with ⟨rfl, ⟨⟩, rfl⟩ | ⟨⟨⟩, _, rfl, hlog⟩
    · exact hpart pid _ rfl
    rcases Fiber.asks_act_bind_iff.mp hlog with ⟨rfl, ⟨⟩, rfl⟩ | ⟨⟨⟩, _, rfl, hterminate⟩
    · exact hpart pid _ rfl
    obtain ⟨rfl, rfl⟩ := Fiber.asks_await_iff.mp hterminate
    exact hpart pid [] rfl
  next habort =>
    obtain ⟨rfl, rfl⟩ := Fiber.asks_await_iff.mp h
    refine ⟨none, [], ?_⟩
    rw [breakingOff_of_not_abort habort]
    rfl

/-- A connection is taken back unless it has been before, or nothing is known of it. -/
theorem ends_release {r : Except Failure Unit}
    (h : Fiber.Ends (release k cause : WireM S X Unit) l r) :
    (∃ found : Option Lease, l = [.notes (.lease k) found] ∧
        ∀ lent, found = some lent → lent.released ∧ r = .ok ()) ∨
      ∃ lent, lent.released = false ∧
        (l = [.notes (.lease k) (some lent), .notes (.pool lent.pool) none] ∨
          ∃ opened pid, l = takingBack k lent opened cause pid ++
            [.receives (.release opened.raw lent.link) r]) := by
  rw [release_eq] at h
  rcases ends_lease_bind_iff.mp h with ⟨rfl, -⟩ | ⟨lent, l', rfl, hlent⟩
  · exact .inl ⟨none, rfl, nofun⟩
  -- a lease that is marked is left alone
  cases hreleased : lent.released with
  | true =>
    rw [if_pos hreleased] at hlent
    obtain ⟨rfl, rfl⟩ := Fiber.ends_pure_iff.mp hlent
    refine .inl ⟨some lent, rfl, ?_⟩
    rintro _ ⟨⟩
    exact ⟨hreleased, rfl⟩
  | false =>
    rw [if_neg (by simp [hreleased])] at hlent
    refine .inr ⟨lent, hreleased, ?_⟩
    rcases ends_openedPool_bind_iff.mp hlent with ⟨rfl, -⟩ | ⟨opened, _, rfl, hopened⟩
    · exact .inl rfl
    obtain ⟨⟨⟩, _, rfl, hmark⟩ := Fiber.ends_act_bind_iff.mp hopened
    obtain ⟨pid, rfl⟩ := ends_handBack hmark
    exact .inr ⟨opened, pid, by simp [takingBack]⟩

/-- What is asked for in taking a connection back. -/
theorem asks_release (h : Fiber.Asks (release k cause : WireM S X Unit) l e) :
    (l = [] ∧ ∃ found, e = .notes (.lease k) found) ∨
      ∃ lent : Lease, lent.released = false ∧
        ((l = [.notes (.lease k) (some lent)] ∧ ∃ found, e = .notes (.pool lent.pool) found) ∨
          ∃ opened pid, l ++ [e] <+: takingBack k lent opened cause pid) := by
  rw [release_eq] at h
  rcases asks_lease_bind h with ⟨rfl, found, rfl⟩ | ⟨lent, l', rfl, hlent⟩
  · exact .inl ⟨rfl, found, rfl⟩
  -- a lease that is marked is left alone
  cases hreleased : lent.released with
  | true =>
    rw [if_pos hreleased] at hlent
    exact (Fiber.not_asks_pure hlent).elim
  | false =>
    rw [if_neg (by simp [hreleased])] at hlent
    refine .inr ⟨lent, hreleased, ?_⟩
    rcases asks_openedPool_bind hlent with ⟨rfl, found, rfl⟩ | ⟨opened, _, rfl, hopened⟩
    · exact .inl ⟨rfl, found, rfl⟩
    rcases Fiber.asks_act_bind_iff.mp hopened with ⟨rfl, ⟨⟩, rfl⟩ | ⟨⟨⟩, _, rfl, hmark⟩
    · exact .inr ⟨opened, none, _, rfl⟩
    · obtain ⟨pid, t, ht⟩ := asks_handBack hmark
      exact .inr ⟨opened, pid, t, by simp [takingBack, ← ht]⟩

/-- Taking a connection back begins with looking up its lease. -/
theorem lookup_of_release (h : Program.Reaches (release k cause : WireM S X Unit).run [e]) :
    ∃ found, e = .notes (.lease k) found := by
  have hasks : Fiber.Asks (release k cause : WireM S X Unit) [] e :=
    Program.Reaches.asks (l := []) h h.not_isAnswer
  rcases asks_release hasks with ⟨-, found, rfl⟩ | ⟨lent, -, ⟨hnil, -⟩ | ⟨opened, pid, t, ht⟩⟩
  · exact ⟨found, rfl⟩
  · cases hnil
  · cases ht
    exact ⟨some lent, rfl⟩

/-- The result of a status and of the records that have been fetched. -/
def resultOf : (String × Int) × List (List (String × Value)) → Result
  | ((command, rowCount), records) => { command, rowCount, rows := records.map Row.ofColumns }

/-- A statement is run by noting it as what runs on its connection, fetching its rows, and noting
that nothing runs any more. It ends as fetching the rows does. -/
theorem ends_execute_iff {run : RunId} {statement : Statement} {o : Except Failure Result} :
    Fiber.Ends (execute k run statement : WireM S X Result) l o ↔
      (l = [.notes (.lease k) none] ∧ o = .error unknownName) ∨
      ∃ lent l' r, Fiber.Ends (fetched lent.link statement : WireM S X _) l' r ∧
        l = .notes (.lease k) (some lent) :: .notes (.setRunning k (some (run, statement))) () ::
          (l' ++ [.notes (.setRunning k none) ()]) ∧
        o = (r.mapError asRejection).map resultOf := by
  constructor
  · intro h
    rcases ends_lease_bind_iff.mp h with ⟨rfl, rfl⟩ | ⟨lent, _, rfl, hrest⟩
    · exact .inl ⟨rfl, rfl⟩
    obtain ⟨⟨⟩, _, rfl, hset⟩ := Fiber.ends_act_bind_iff.mp hrest
    obtain ⟨r, l', _, rfl, hguarded, hclear⟩ := Fiber.ends_attempt_bind_iff.mp hset
    obtain ⟨⟨⟩, _, rfl, hresult⟩ := Fiber.ends_act_bind_iff.mp hclear
    obtain ⟨r, hfetched, rfl⟩ := ends_guarded_iff.mp hguarded
    -- what is left is no more than to take the outcome
    refine .inr ⟨lent, l', r, hfetched, ?_⟩
    rcases Fiber.ends_bind_iff.mp hresult with ⟨f, hf, rfl⟩ | ⟨a, _, _, rfl, ha, hdone⟩
    · obtain ⟨rfl, hr⟩ := Fiber.ends_ofExcept_iff.mp hf
      rw [← hr]
      exact ⟨rfl, rfl⟩
    · obtain ⟨rfl, hr⟩ := Fiber.ends_ofExcept_iff.mp ha
      obtain ⟨rfl, rfl⟩ := Fiber.ends_pure_iff.mp hdone
      rw [← hr]
      exact ⟨rfl, rfl⟩
  · rintro (⟨rfl, rfl⟩ | ⟨lent, l', r, hfetched, rfl, rfl⟩)
    · exact ends_lease_bind_iff.mpr (.inl ⟨rfl, rfl⟩)
    refine ends_lease_bind_iff.mpr (.inr ⟨lent, _, rfl, ?_⟩)
    refine Fiber.ends_act_bind_iff.mpr ⟨(), _, rfl, ?_⟩
    refine Fiber.ends_attempt_bind_iff.mpr ⟨_, l', _, rfl,
      ends_guarded_iff.mpr ⟨r, hfetched, rfl⟩, ?_⟩
    refine Fiber.ends_act_bind_iff.mpr ⟨(), [], rfl, ?_⟩
    cases r with
    | ok a =>
      exact Fiber.ends_bind_iff.mpr (.inr ⟨a, [], [], rfl,
        Fiber.ends_ofExcept_iff.mpr ⟨rfl, rfl⟩, Fiber.ends_pure_iff.mpr ⟨rfl, rfl⟩⟩)
    | error f =>
      exact Fiber.ends_bind_iff.mpr (.inl ⟨_, Fiber.ends_ofExcept_iff.mpr ⟨rfl, rfl⟩, rfl⟩)

/-- A statement that is waited for has been noted as what runs on its connection, and that has not
been changed. -/
theorem asks_execute_call {run : RunId} {statement : Statement}
    {v : (S.interface.sum (requests X)).Wait}
    (h : Fiber.Asks (execute k run statement : WireM S X Result) l (.call v)) :
    ∃ lent l',
      l = .notes (.lease k) (some lent) :: .notes (.setRunning k (some (run, statement))) () :: l' ∧
      ∀ running, .notes (.setRunning k running) () ∉ l' := by
  rcases asks_lease_bind h with ⟨-, _, he⟩ | ⟨lent, _, rfl, hlent⟩
  · cases he
  rcases Fiber.asks_act_bind_iff.mp hlent with ⟨-, _, he⟩ | ⟨⟨⟩, l', rfl, hset⟩
  · cases he
  refine ⟨lent, l', rfl, fun running hmem => ?_⟩
  rcases Fiber.asks_attempt_bind_iff.mp hset with hfetch | ⟨o, l₂, l₃, rfl, -, hclear⟩
  · -- nothing is entered while rows are fetched
    have hkept : KeepsToWire (fun _ => False)
        (guarded (fetched lent.link statement) : WireM S X _) :=
      keeps_guarded (keeps_fetched ..)
    exact Program.Keeps.of_reaches hkept hfetch.reaches _ (List.mem_append_left _ hmem)
  · rcases Fiber.asks_act_bind_iff.mp hclear with ⟨-, _, he⟩ | ⟨_, _, -, hresult⟩
    · cases he
    rcases Fiber.asks_bind_iff.mp hresult with he | ⟨_, _, _, -, -, he⟩
    · exact Fiber.not_asks_ofExcept he
    · exact Fiber.not_asks_pure he

/-- What runs on a connection is looked up at its lease. -/
theorem ends_activeRun {out : Option RunId}
    (h : Program.Leads (poolAct (.activeRun k) : Steady S X (Option RunId)) l (.done out)) :
    ∃ found : Option Lease, l = [.notes (.lease k) found] ∧
      out = (found.bind Lease.running).map Prod.fst := by
  cases h with
  | act h =>
    cases h
    exact ⟨_, rfl, rfl⟩

end Exchanges

end WireM

end PooledSql
