import Mathlib.Data.Set.Card
import PooledSql.Proofs.Database.Tenure

/-!
# Evictions

A connection is evicted if it is given back with a failure of the kind that says that its state is
unknown. That is meant for connections on which the `ROLLBACK` of their own transaction has failed,
and all of these are evicted (`Surroundings.RollbackFailed.evicted`).

The kind is all that is looked at, however. A failure of that kind that has come up on one
connection may pass through a unit of work on another one, which then is evicted too, even if
nothing has been wrong with it (`Surroundings.Foreign`).
-/

namespace PooledSql

variable {c : Client} {D : Surroundings c} {g g' h : History c.setting c.requests} {i : TaskId}
  {k : LeaseId}

/-- Whether a connection has been given back as one that must not be used again. -/
def History.Evicted (h : History c.setting c.requests) (k : LeaseId) : Prop :=
  ∃ i f, .deed i (.requests (.release k (some f))) ∈ h

/-- A failure that speaks of a connection in an unknown state is an error. -/
theorem Failure.isError_of_isAbort {f : Failure} (hf : f.isAbort) : f.isError := by
  have hkind : f.kind = .abortConnection := by simpa [Failure.isAbort] using hf
  simp [Failure.isError, hkind, Kind.isError]

namespace Surroundings

/-- The `ROLLBACK` of the transaction on a connection has failed with an error. -/
inductive RollbackFailed (D : Surroundings c) (h : History c.setting c.requests) (k : LeaseId) :
    Prop
  | intro {α : Type} {i : TaskId} {b lb lf lr rest : List (Deed c)} {pool : PoolId}
      {work : ScopeId → DatabaseM c α} {pid : Option Nat} {scope : ScopeId} {first f : Failure} :
      D.regime.Performs h i b (Scope.transaction pool work) →
      h.of i = b ++ (Scope.opening pool k pid (some .notStarted) scope ++
        (lb ++ (lf ++ (lr ++ rest)))) →
      Fiber.Ends (Scope.begin scope) lb (.ok ()) → Scope.Fails scope (work scope) lf first →
      Fiber.Ends (Scope.command scope "ROLLBACK") lr (.error f) → f.isError → RollbackFailed D h k

/-- A unit of work on a connection has ended with a failure that speaks of a connection in an
unknown state and that does not come from a `ROLLBACK` on this one. -/
inductive Foreign (D : Surroundings c) (h : History c.setting c.requests) (k : LeaseId) : Prop
  | connection {α : Type} {i : TaskId} {b lw rest : List (Deed c)} {pool : PoolId}
      {work : ScopeId → DatabaseM c α} {pid : Option Nat} {scope : ScopeId} {f : Failure} :
      D.regime.Performs h i b (Scope.connection pool work) →
      h.of i = b ++ (Scope.opening pool k pid none scope ++ (lw ++ rest)) →
      Fiber.Ends (work scope) lw (.error f) → f.isAbort → Foreign D h k
  | unbegun {α : Type} {i : TaskId} {b lb rest : List (Deed c)} {pool : PoolId}
      {work : ScopeId → DatabaseM c α} {pid : Option Nat} {scope : ScopeId} {f : Failure} :
      D.regime.Performs h i b (Scope.transaction pool work) →
      h.of i = b ++ (Scope.opening pool k pid (some .notStarted) scope ++ (lb ++ rest)) →
      Fiber.Ends (Scope.command scope "BEGIN") lb (.error f) → f.isAbort → Foreign D h k
  | rolledBack {α : Type} {i : TaskId} {b lb lf lr rest : List (Deed c)} {pool : PoolId}
      {work : ScopeId → DatabaseM c α} {pid : Option Nat} {scope : ScopeId} {f : Failure} :
      D.regime.Performs h i b (Scope.transaction pool work) →
      h.of i = b ++ (Scope.opening pool k pid (some .notStarted) scope ++
        (lb ++ (lf ++ (lr ++ rest)))) →
      Fiber.Ends (Scope.begin scope) lb (.ok ()) → Scope.Fails scope (work scope) lf f →
      Fiber.Ends (Scope.command scope "ROLLBACK") lr (.ok ()) → f.isAbort → Foreign D h k
  | pooled {i : TaskId} {b lw rest : List (Deed c)} {pool : PoolId} {source : Source}
      {params : Value} {token : TokenId} {pid : Option Nat} {f : Failure} :
      D.regime.Performs h i b (DatabaseM.runPooled pool source params token) →
      h.of i = b ++ (DatabaseM.lending pool k pid ++ (lw ++ rest)) →
      Fiber.Ends (DatabaseM.unlessCancelled (some token)
        (DatabaseM.runOn source params token k)) lw (.error f) → f.isAbort → Foreign D h k

/-- A connection is evicted for a reason of its own or for one of someone else's. -/
theorem evicted_cases (hp : D.regime.Possible h) (he : h.Evicted k) :
    D.RollbackFailed h k ∨ D.Foreign h k := by
  obtain ⟨i, f, hmem⟩ := he
  obtain ⟨g, g', heq⟩ := List.append_of_mem hmem
  obtain ⟨job, b, u, lr, -, -, -, hj, hg, hu, -, -⟩ := (heq ▸ hp).spent_of_returned
  have hperforms : ∀ {α : Type} {y : DatabaseM c α}, Fiber.Comes (D.regime.program job) b y →
      D.regime.Performs h i b y := fun hy => ⟨job, heq ▸ History.jobs_mono hj, hy⟩
  have hof : ∃ rest, h.of i = b ++ (u ++ rest) :=
    ⟨lr ++ .requests (.release k (some f)) :: History.of g' i, by simp [heq, hg, Happening.deed?]⟩
  obtain ⟨rest, hof⟩ := hof
  generalize hcause : some f = cause at hu
  -- by the unit of work that has given the connection back
  cases hu with
  | @connection _ pool pid scope work lw o hy _ hw =>
    obtain ⟨rfl, hf⟩ := DatabaseM.releaseCause_eq_some_iff.mp hcause.symm
    exact .inr (.connection (hperforms hy) (by simpa using hof) hw hf)
  | @pooled pool pid source params token lw o hy hw =>
    obtain ⟨rfl, hf⟩ := DatabaseM.releaseCause_eq_some_iff.mp hcause.symm
    exact .inr (.pooled (hperforms hy) (by simpa using hof) hw hf)
  | @transaction _ pool pid scope work lw o hy _ hw =>
    obtain ⟨rfl, hf⟩ := DatabaseM.releaseCause_eq_some_iff.mp hcause.symm
    replace hof : h.of i = b ++ (Scope.opening pool k pid (some .notStarted) scope ++
        (lw ++ .enters (.closeScope scope) () :: rest)) := by simpa using hof
    generalize hr : (Except.error f : Except Failure _) = r at hw
    -- a transaction fails in its beginning, in its work or in being undone
    cases Scope.ends_bracket hw with
    | unbegun hb =>
      cases hr
      exact .inr (.unbegun (hperforms hy) hof hb hf)
    | committed => cases hr
    | @rolledBack lb lf lr f' entry hb hfails hrollback =>
      cases hr
      exact .inr (.rolledBack (hperforms hy) (by simpa using hof) hb hfails hrollback hf)
    | @abandoned lb lf lr first f' entry hb hfails hrollback herror =>
      exact .inl (.intro (hperforms hy) (by simpa using hof) hb hfails hrollback herror)
    | interrupted _ _ _ herror =>
      cases hr
      rw [Failure.isError_of_isAbort hf] at herror
      cases herror

/-- What passes between the last act of a unit of work in a scope and the return of its connection
with a failure. -/
def eviction (scope : ScopeId) (k : LeaseId) (pid : Option Nat) (f : Failure) : List (Deed c) :=
  [.enters (.closeScope scope) (), .inquires (.pid k) pid, .does (.log (.evicting pid)) (),
    .requests (.release k (some f))]

/-- Between turns, a connection has been evicted if the work in a scope on it has ended with a
failure that speaks of a connection in an unknown state. -/
theorem evicts {α : Type} {b lw rest : List (Deed c)} {pool : PoolId} {pid : Option Nat}
    {scope : ScopeId} {state : Option TransactionState} {work : ScopeId → DatabaseM c α}
    {f : Failure} (hp : D.regime.Possible h) (hrest : h.AtRest)
    (hy : D.regime.Performs h i b (Scope.withScope pool state work))
    (hof : h.of i = b ++ (Scope.opening pool k pid state scope ++ (lw ++ rest)))
    (hw : Fiber.Ends (work scope) lw (.error f)) (hf : f.isAbort) :
    ∃ pid' rest', h.of i = b ++ (Scope.opening pool k pid state scope ++
      (lw ++ (eviction scope k pid' f ++ rest'))) := by
  obtain ⟨pid', rest', rfl⟩ := hy.closes hp hrest hof hw
  rw [DatabaseM.parting_of_abort hf, DatabaseM.releaseCause_eq_some_iff.mpr ⟨rfl, hf⟩] at hof
  exact ⟨pid', rest', hof⟩

/-- What has passed up to the eviction of a connection is known by the connection. -/
theorem eviction_unique {j : TaskId} {scope scope' : ScopeId} {pid pid' : Option Nat}
    {f f' : Failure} {x x' : Deed c} {l l' m m' : List (Deed c)} (hp : D.regime.Possible h)
    (hi : h.of i = l ++ x :: (eviction scope k pid f ++ m))
    (hj : h.of j = l' ++ x' :: (eviction scope' k pid' f' ++ m')) : x = x' := by
  have hsplit : ∀ {l m : List (Deed c)} {x scope pid f}, l ++ x :: (eviction scope k pid f ++ m) =
      (l ++ [x, .enters (.closeScope scope) (), .inquires (.pid k) pid,
        .does (.log (.evicting pid)) ()]) ++ .requests (.release k (some f)) :: m := by
    simp [eviction]
  rw [hsplit] at hi hj
  have hsame := (List.append_inj' (hp.returned_once hi hj).2.1 rfl).2
  exact (List.cons.inj hsame).1

/-- Between turns, all connections on which a `ROLLBACK` has failed have been evicted. -/
theorem RollbackFailed.eviction (hp : D.regime.Possible h) (hrest : h.AtRest)
    (hk : D.RollbackFailed h k) :
    ∃ i l first f scope pid rest, h.of i = l ++ .does (.log (.rollbackFailed first f)) () ::
      (Surroundings.eviction scope k pid (Scope.abandonment first f) ++ rest) := by
  obtain @⟨_, i, b, lb, lf, lr, rest, pool, work, pid, scope, first, f, hy, hof, hb, hfails,
    hrollback, hf⟩ := hk
  have hne : h.of i ≠ [] := by simp [hof, Scope.opening, DatabaseM.lending]
  rw [Scope.transaction_eq] at hy
  have habandon : D.regime.Performs h i
      (b ++ (Scope.opening pool k pid (some .notStarted) scope ++ ((lb ++ lf) ++ lr)))
      (Scope.abandon scope first f) :=
    hy.comes (Scope.comes_withScope.trans
      ((Scope.Fails.comes hb hfails).trans (Scope.comes_abandon hrollback hf)))
  -- noting the failure takes no time, so between turns it is done
  rcases habandon.ends_or_waits hp hrest (l := rest) (by simp [hof]) hne with
    ⟨la, rest, r, rfl, hends⟩ | ⟨la, w, -, hasks⟩
  · obtain ⟨entry, rfl, rfl⟩ := Scope.ends_abandon hends
    have hw := Scope.Fails.ends_error hb hfails (Scope.ends_rollback_of_abandon hrollback hf hends)
    obtain ⟨pid', rest', hof⟩ := evicts hp hrest hy (by simpa using hof) hw rfl
    exact ⟨i, b ++ (Scope.opening pool k pid (some .notStarted) scope ++ (lb ++ (lf ++ (lr ++
      Scope.noting scope entry .abortedConnection)))), first, f, scope, pid', rest', by simp [hof]⟩
  · exact absurd hasks Scope.not_asks_abandon_call

/-- Between turns, a connection has been evicted if a failure has passed through the transaction on
it that has been undone. -/
theorem eviction_of_rolledBack {α : Type} {b lb lf lr rest : List (Deed c)} {pool : PoolId}
    {work : ScopeId → DatabaseM c α} {pid : Option Nat} {scope : ScopeId} {f : Failure}
    (hp : D.regime.Possible h) (hrest : h.AtRest)
    (hy : D.regime.Performs h i b (Scope.transaction pool work))
    (hof : h.of i = b ++ (Scope.opening pool k pid (some .notStarted) scope ++
      (lb ++ (lf ++ (lr ++ rest)))))
    (hb : Fiber.Ends (Scope.begin scope) lb (.ok ()))
    (hfails : Scope.Fails scope (work scope) lf f)
    (hrollback : Fiber.Ends (Scope.command scope "ROLLBACK") lr (.ok ())) (hf : f.isAbort) :
    ∃ l pid' rest', h.of i = l ++ .enters (.setState scope .rolledBack) () ::
      (eviction scope k pid' f ++ rest') := by
  have hne : h.of i ≠ [] := by simp [hof, Scope.opening, DatabaseM.lending]
  rw [Scope.transaction_eq] at hy
  have hnote : D.regime.Performs h i
      (b ++ (Scope.opening pool k pid (some .notStarted) scope ++ ((lb ++ lf) ++ lr)))
      (Scope.transition scope .rolledBack) :=
    hy.comes (Scope.comes_withScope.trans
      ((Scope.Fails.comes hb hfails).trans hrollback.comes_attempt))
  -- noting that takes no time, so between turns it is done
  rcases hnote.ends_or_waits hp hrest (l := rest) (by simp [hof]) hne with
    ⟨ln, rest, r, rfl, hends⟩ | ⟨ln, w, -, hasks⟩
  · obtain ⟨entry, rfl, rfl⟩ := Scope.ends_transition hends
    have hundone : Fiber.Ends (Scope.rollback scope f) (lr ++ Scope.noting scope entry .rolledBack)
        (.ok ()) := Fiber.ends_attempt_bind_iff.mpr ⟨.ok (), lr, _, rfl, hrollback, hends⟩
    obtain ⟨pid', rest', hof⟩ :=
      evicts hp hrest hy (by simpa using hof) (hfails.ends_ok hb hundone) hf
    refine ⟨b ++ (Scope.opening pool k pid (some .notStarted) scope ++ (lb ++ (lf ++ (lr ++
      [.enters (.scope scope) entry,
        .does (.log (.transition (entry.bind (·.state)) (some .rolledBack))) ()])))),
          pid', rest', ?_⟩
    simp [hof, Scope.noting]
  · exact absurd hasks Scope.not_asks_transition_call

/-- Between turns, all connections have been evicted that a foreign failure has come upon. -/
theorem Foreign.evicted (hp : D.regime.Possible h) (hrest : h.AtRest) (hk : D.Foreign h k) :
    h.Evicted k := by
  have hmem : ∀ {i : TaskId} {l rest : List (Deed c)} {scope pid f},
      h.of i = l ++ (eviction scope k pid f ++ rest) → h.Evicted k :=
    fun {i l rest scope pid f} hof => ⟨i, f, History.mem_of_iff.mp (by simp [hof, eviction])⟩
  cases hk with
  | connection hy hof hw hf =>
    obtain ⟨pid', rest', hof⟩ := evicts hp hrest hy hof hw hf
    rw [← List.append_assoc, ← List.append_assoc] at hof
    exact hmem hof
  | unbegun hy hof hb hf =>
    rw [Scope.transaction_eq] at hy
    obtain ⟨pid', rest', hof⟩ := evicts hp hrest hy hof (Scope.ends_bracket_of_unbegun hb) hf
    rw [← List.append_assoc, ← List.append_assoc] at hof
    exact hmem hof
  | rolledBack hy hof hb hfails hrollback hf =>
    obtain ⟨l, pid', rest', hof⟩ := eviction_of_rolledBack hp hrest hy hof hb hfails hrollback hf
    rw [List.append_cons] at hof
    exact hmem hof
  | @pooled i b lw rest pool source params token pid f hy hof hw hf =>
    rw [DatabaseM.runPooled_eq] at hy
    obtain ⟨pid', rest', rfl⟩ := hy.gives_back hp hrest hof hw
    rw [DatabaseM.releaseCause_eq_some_iff.mpr ⟨rfl, hf⟩] at hof
    exact ⟨i, f, History.mem_of_iff.mp (by simp [hof])⟩

/-- The failure that ends a unit of work is either foreign or that of its own `ROLLBACK`. -/
theorem RollbackFailed.not_foreign (hp : D.regime.Possible h) (hrest : h.AtRest)
    (hk : D.RollbackFailed h k) : ¬ D.Foreign h k := by
  obtain ⟨_, _, _, _, _, _, _, heviction⟩ := hk.eviction hp hrest
  obtain @⟨_, j, b, lb, lf, lr, rest, pool, _, pid, scope, _, _, -, hj, hb, -, -, -⟩ := hk
  have hj : h.of j = b ++ (DatabaseM.lending pool k pid ++
      .enters (.openScope k (some .notStarted)) scope :: (lb ++ (lf ++ (lr ++ rest)))) := by
    rw [hj, Scope.opening, List.append_assoc]
    rfl
  intro hforeign
  -- the connection is lent once, so both speak of the same unit of work, which has gone one way
  cases hforeign with
  | connection _ hof =>
    rw [Scope.opening, List.append_assoc] at hof
    obtain ⟨-, -, -, -, hopen⟩ := hp.loan_unique hj hof
    cases (List.cons.inj hopen).1
  | unbegun _ hof hbegin =>
    rw [Scope.opening, List.append_assoc] at hof
    obtain ⟨-, -, -, -, hopen⟩ := hp.loan_unique hj hof
    obtain ⟨hscope, hrest⟩ := List.cons.inj hopen
    cases hscope
    rcases Scope.ends_begin hb with ⟨_, hr, -⟩ | ⟨-, lb', entry, rfl, hbegun⟩
    · cases hr
    · rw [List.append_assoc] at hrest
      obtain ⟨-, hr, -⟩ := hbegun.unique hbegin hrest
      cases hr
  | rolledBack hy hof hbegin hfails hrollback hf =>
    obtain ⟨_, _, _, hof⟩ := eviction_of_rolledBack hp hrest hy hof hbegin hfails hrollback hf
    cases eviction_unique hp heviction hof
  | pooled _ hof hw =>
    obtain ⟨-, -, -, -, hopen⟩ := hp.loan_unique hj hof
    obtain ⟨out, l', rfl⟩ := DatabaseM.ends_unlessCancelled hw
    cases (List.cons.inj hopen).1

end Surroundings

namespace History

/-- The connection that a happening evicts. -/
def eviction? : Happening c.setting c.requests → Option LeaseId
  | .deed _ (.call (.inr (.inl (.release k (some _))))) => some k
  | _ => none

/-- A happening evicts a connection if that is given back with a failure. -/
theorem eviction?_eq_some_iff {e : Happening c.setting c.requests} :
    eviction? e = some k ↔ ∃ i f, e = .deed i (.requests (.release k (some f))) := by
  constructor
  · intro he
    unfold eviction? at he
    split at he
    · cases he
      exact ⟨_, _, rfl⟩
    · cases he
  · rintro ⟨i, f, rfl⟩
    rfl

/-- All evictions, in order. -/
def evictions (h : History c.setting c.requests) : List LeaseId := h.filterMap eviction?

/-- The connections that have been evicted can be listed. -/
theorem evicted_iff : h.Evicted k ↔ k ∈ h.evictions := by
  unfold evictions
  rw [List.mem_filterMap]
  constructor
  · rintro ⟨i, f, hmem⟩
    exact ⟨_, hmem, rfl⟩
  · rintro ⟨e, hmem, he⟩
    obtain ⟨i, f, rfl⟩ := eviction?_eq_some_iff.mp he
    exact ⟨i, f, hmem⟩

instance : Decidable (h.Evicted k) := decidable_of_iff _ evicted_iff.symm

end History

/-- No connection is evicted twice. -/
theorem Regime.Possible.nodup_evictions (hp : D.regime.Possible h) : h.evictions.Nodup := by
  induction hp with
  | nil => exact List.nodup_nil
  | @snoc h e hp hf ih =>
    unfold History.evictions at ih ⊢
    rw [List.filterMap_append, List.filterMap_cons, List.filterMap_nil]
    cases he : History.eviction? e with
    | none => simpa using ih
    | some k =>
      obtain ⟨i, f, rfl⟩ := History.eviction?_eq_some_iff.mp he
      have hsnoc : D.regime.Possible (h ++ .deed i (.requests (.release k (some f))) :: []) :=
        hp.snoc hf
      refine List.nodup_append.mpr ⟨ih, List.nodup_singleton k, ?_⟩
      -- a connection that has been given back is not given back again
      rintro k' hk' _ hk rfl
      obtain rfl := List.mem_singleton.mp hk
      obtain ⟨j, g, hmem⟩ := History.evicted_iff.mpr hk'
      exact hsnoc.not_returned ⟨j, some g, hmem⟩

/-- The connections that have been evicted are those on which a `ROLLBACK` has failed, and as many,
if and only if no foreign failure has come upon one of them. -/
theorem Regime.Run.evicted_exactly {m : Machine c.setting c.requests (Ledger × D.World)}
    (hr : D.regime.Run h m) :
    (∀ k, (h.Evicted k ↔ D.RollbackFailed h k) ↔ ¬ D.Foreign h k) ∧
      (h.evictions.length = {k | D.RollbackFailed h k}.ncard ↔ ∀ k, ¬ D.Foreign h k) := by
  have hp := hr.possible
  have hrest := hr.atRest
  have hevicted : ∀ {k}, D.RollbackFailed h k → h.Evicted k := by
    intro k hk
    obtain ⟨i, l, first, f, scope, pid, rest, hof⟩ := hk.eviction hp hrest
    exact ⟨i, Scope.abandonment first f,
      History.mem_of_iff.mp (by simp [hof, Surroundings.eviction])⟩
  have heach : ∀ k, (h.Evicted k ↔ D.RollbackFailed h k) ↔ ¬ D.Foreign h k := by
    intro k
    constructor
    · intro hiff hforeign
      exact (hiff.mp (hforeign.evicted hp hrest)).not_foreign hp hrest hforeign
    · intro hforeign
      exact ⟨fun he => (Surroundings.evicted_cases hp he).resolve_right hforeign, hevicted⟩
  refine ⟨heach, ?_⟩
  -- no connection is evicted twice, so that the evictions are as many as the connections
  have hlist : {k | h.Evicted k} = ↑h.evictions.toFinset := by
    ext k
    simp [History.evicted_iff]
  have hcard : h.evictions.length = {k | h.Evicted k}.ncard := by
    rw [hlist, Set.ncard_coe_finset, List.toFinset_card_of_nodup hp.nodup_evictions]
  rw [hcard]
  constructor
  · intro hcount k
    -- one set is part of the other, and finite, so that they are the same if they are as large
    have hsame : {k | D.RollbackFailed h k} = {k | h.Evicted k} :=
      Set.eq_of_subset_of_ncard_le (fun _ => hevicted) hcount.le (hlist ▸ Finset.finite_toSet _)
    exact (heach k).mp (Set.ext_iff.mp hsame k).symm
  · intro hforeign
    have hsame : {k | h.Evicted k} = {k | D.RollbackFailed h k} :=
      Set.ext fun k => (heach k).mpr (hforeign k)
    rw [hsame]

/-- Work with one connection that consists of a transaction on another one, which fails. -/
def Scope.nested : DatabaseM .silent Reply :=
  connection 0 fun _ => transaction 0 fun _ => throw (Fault.raised .value none).failure

/-- Nested work uses a database by what it offers. -/
theorem Scope.nested_public : Public nested :=
  .connection 0 fun _ => .transaction 0 fun _ => .ofExcept (.error _)

/-- Whether a happening opens a transaction on a connection. -/
def History.opensTransaction (k : LeaseId) : Happening c.setting c.requests → Bool
  | .deed _ (.act (.inr (.inr (.inl (.openScope k' (some _))))) _) => k' == k
  | _ => false

/-- There is a run of nested work in which `ROLLBACK` fails on the inner connection, and the outer
one is evicted too. -/
theorem Scope.nested_run :
    ∃ (h : History Client.silent.setting Client.silent.requests)
      (m : Machine Client.silent.setting Client.silent.requests (Ledger × Unit)),
      (Surroundings.solo _ nested_public).regime.Run h m ∧ h.Evicted 0 ∧
        ¬ (Surroundings.solo _ nested_public).RollbackFailed h 0 := by
  have hstart : (Surroundings.solo _ nested_public).regime.Run [] { world := ({}, ()) } :=
    .start rfl
  have houter := ((hstart.launch ⟨(), rfl⟩).runTurns 1).grant 0 0 (by decide)
  have hinner := (houter.grant 0 1 (by decide)).runTurns 1
  have hbegun := ((hinner.grant 1 2 (by decide)).runTurns 1).runTurns 1
  have hfailed := (hbegun.refuse 2 (Fault.driver "").failure).runTurns 1
  have hreturned := hfailed.grant 0 2 (by decide)
  obtain ⟨h, m, hr, hevicted, hplain⟩ : ∃ h m,
      (Surroundings.solo _ nested_public).regime.Run h m ∧ h.Evicted 0 ∧
      h.any (History.opensTransaction 0) = false :=
    ⟨_, _, hreturned, by decide +kernel, by decide +kernel⟩
  refine ⟨h, m, hr, hevicted, ?_⟩
  -- the outer connection has never had a transaction of its own
  rintro @⟨_, i, b, lb, lf, lr, rest, pool, work, pid, scope, first, f, -, hof, -⟩
  have hmem : .deed i (.enters (.openScope 0 (some .notStarted)) scope) ∈ h :=
    History.mem_of_iff.mp (by simp [hof, Scope.opening])
  exact List.any_eq_false.mp hplain _ hmem rfl

/-- In a run of nested work, a foreign failure comes upon the outer connection. -/
theorem evicted_exactly_nested :
    ∃ (h : History Client.silent.setting Client.silent.requests)
      (m : Machine Client.silent.setting Client.silent.requests (Ledger × Unit)),
      (Surroundings.solo _ Scope.nested_public).regime.Run h m ∧
        (Surroundings.solo _ Scope.nested_public).Foreign h 0 := by
  obtain ⟨h, m, hr, hevicted, hown⟩ := Scope.nested_run
  refine ⟨h, m, hr, ?_⟩
  by_contra hforeign
  exact hown (((hr.evicted_exactly.1 0).mpr hforeign).mp hevicted)

/-- The connection around a transaction whose `ROLLBACK` has failed on another connection is evicted
too. -/
theorem not_evicted_iff_rollbackFailed :
    ¬ ∀ {c : Client} {D : Surroundings c} {h : History c.setting c.requests}
      {m : Machine c.setting c.requests (Ledger × D.World)} {k : LeaseId}, D.regime.Run h m →
      (h.Evicted k ↔ D.RollbackFailed h k) := by
  intro hall
  obtain ⟨h, m, hr, hevicted, hown⟩ := Scope.nested_run
  exact hown ((hall hr).mp hevicted)

end PooledSql
