import Mathlib.Data.List.Basic
import PooledSql.Proofs.Database.Possession

/-!
# Sequences of statements

Where the queries on a connection are run one at a time, what passes on the connection is what they
do there, one after the other in the order in which they have been issued, and then its return
(`Regime.Possible.traffic_eq`).

* `History.queries`: the queries that are issued on a connection, in order.
* `History.part`: what a task does on a connection.
* `History.returns`: the return of a connection.

Whether queries are run one at a time can be decided by looking at each happening in view of what
has happened before it (`History.oneByOne_iff`).
-/

namespace PooledSql

variable {c : Client} {D : Surroundings c} {a a' g g' h m : History c.setting c.requests}
  {i j t : TaskId} {k : LeaseId} {statement : Statement} {token : TokenId}
  {e : Happening c.setting c.requests} {x : Deed c}

namespace Exchange

/-- The query that an exchange issues on a connection. -/
def query? (k : LeaseId) : Deed c → Option TaskId
  | .act (.inl (.spawn (.query (.scoped k' _ _) _))) t => if k' = k then some t else none
  | _ => none

/-- Whether an exchange is about the return of a connection. -/
def returns (k : LeaseId) : Deed c → Bool
  | .call (.inr (.inl (.release k' _))) => k' == k
  | .answer (.inr (.inl (.release k' _))) _ => k' == k
  | _ => false

/-- An exchange issues a query if it starts it. -/
theorem exists_of_query? (hx : x.query? k = some t) :
    ∃ statement token token',
      x = .does (.spawn (.query (.scoped k statement token) token')) t := by
  unfold query? at hx
  split at hx
  next k' statement token token' t' =>
    obtain ⟨rfl, ht⟩ := Option.ite_none_right_eq_some.mp hx
    cases ht
    exact ⟨statement, token, token', rfl⟩
  next => cases hx

/-- What passes on a connection issues no query. -/
theorem query?_of_lease? (hx : x.lease? = some k) : x.query? k = none := by
  rw [Option.eq_none_iff_forall_ne_some]
  intro t ht
  obtain ⟨_, _, _, rfl⟩ := exists_of_query? ht
  cases hx

/-- What is about the return of a connection is the request for it, or the answer to that. -/
theorem returns_iff :
    x.returns k = true ↔
      ∃ cause, x = .requests (.release k cause) ∨ ∃ ans, x = .served (.release k cause) ans := by
  constructor
  · intro hx
    unfold returns at hx
    split at hx
    next k' cause =>
      obtain rfl := eq_of_beq hx
      exact ⟨cause, .inl rfl⟩
    next k' cause ans =>
      obtain rfl := eq_of_beq hx
      exact ⟨cause, .inr ⟨ans, rfl⟩⟩
    next => cases hx
  · rintro ⟨cause, rfl | ⟨ans, rfl⟩⟩ <;> exact beq_self_eq_true k

/-- What is about the return of a connection passes on it. -/
theorem lease?_of_returns (hx : x.returns k = true) : x.lease? = some k := by
  obtain ⟨cause, rfl | ⟨ans, rfl⟩⟩ := returns_iff.mp hx <;> rfl

end Exchange

namespace History

/-- The queries that are issued on a connection, in order. -/
def queries (h : History c.setting c.requests) (k : LeaseId) : List TaskId :=
  h.filterMap fun
    | .deed _ x => x.query? k
    | _ => none

/-- What a task does on a connection. -/
def part (h : History c.setting c.requests) (k : LeaseId) (t : TaskId) :
    History c.setting c.requests :=
  ((h.of t).filter (·.lease? == some k)).map (.deed t)

/-- The return of a connection. -/
def returns (h : History c.setting c.requests) (k : LeaseId) : History c.setting c.requests :=
  h.filter fun
    | .deed _ x => x.returns k
    | _ => false

@[simp]
theorem queries_append : queries (g ++ g') k = queries g k ++ queries g' k := List.filterMap_append

@[simp]
theorem queries_cons_deed :
    queries (.deed i x :: g) k = (x.query? k).toList ++ queries g k := by
  rw [queries, List.filterMap_cons]
  cases hx : x.query? k <;> simp [hx, queries]

@[simp]
theorem queries_nil : queries ([] : History c.setting c.requests) k = [] := rfl

@[simp]
theorem returns_append : returns (g ++ g') k = returns g k ++ returns g' k := List.filter_append ..

@[simp]
theorem part_append : part (g ++ g') k t = part g k t ++ part g' k t := by
  simp [part]

/-- A query that is issued is started by some task. -/
theorem mem_queries_iff : t ∈ queries h k ↔ ∃ i x, .deed i x ∈ h ∧ x.query? k = some t := by
  rw [queries, List.mem_filterMap]
  constructor
  · rintro ⟨e, he, hx⟩
    match e, hx with
    | .deed i x, hx => exact ⟨i, x, he, hx⟩
  · rintro ⟨i, x, hmem, hx⟩
    exact ⟨_, hmem, hx⟩

/-- What is about the return of a connection passes with some task. -/
theorem mem_returns_iff :
    e ∈ returns h k ↔ e ∈ h ∧ ∃ i x, e = .deed i x ∧ x.returns k = true := by
  rw [returns, List.mem_filter]
  refine and_congr_right fun _ => ?_
  cases e with
  | deed i x => simp
  | launch | finish | interrupt => simp

/-- What passes on no connection is not part of what a task does there. -/
theorem part_eq_nil (hx : x.lease? ≠ some k) : part [.deed j x] k t = [] := by
  have hlease : (x.lease? == some k) = false := beq_eq_false_iff_ne.mpr hx
  by_cases hj : j = t <;> simp [part, Happening.deed?, hj, hlease]

/-- What a task does is not part of what another one does. -/
theorem part_of_ne (hj : j ≠ t) : part [.deed j x] k t = [] := by
  simp [part, Happening.deed?, hj]

/-- What passes on a connection is part of what its task does. -/
theorem part_self (hx : x.lease? = some k) : part [.deed j x] k j = [.deed j x] := by
  simp [part, Happening.deed?, hx]

/-- A task that has done nothing has done nothing on a connection. -/
theorem part_of_eq_nil (ht : h.of t = []) : part h k t = [] := by
  simp [part, ht]

/-- What tasks do on a connection does not change by what others do. -/
theorem flatMap_part_append {ts : List TaskId} (hnone : ∀ t ∈ ts, part g' k t = []) :
    ts.flatMap (part (g ++ g') k) = ts.flatMap (part g k) :=
  List.flatMap_congr fun t ht => by rw [part_append, hnone t ht, List.append_nil]

/-- What passes on a connection is its traffic. -/
theorem traffic_of_lease? (hx : x.lease? = some k) :
    traffic [.deed j x] k = [.deed j x] := by
  simp [traffic, Happening.passesOn, hx]

/-- What is about the return of a connection is its return. -/
theorem returns_of_returns (hx : x.returns k = true) : returns [.deed j x] k = [.deed j x] := by
  simp [returns, hx]

/-- Only tasks issue queries. -/
theorem queries_other (he : ∀ j x, e ≠ .deed j x) : queries [e] k = [] := by
  cases e with
  | deed j x => exact absurd rfl (he j x)
  | launch | finish | interrupt => rfl

section Decidable

variable {P : History c.setting c.requests → Happening c.setting c.requests → Prop}

/-- Whether something is so of every happening, in view of what has happened before it. -/
def Throughout (P : History c.setting c.requests → Happening c.setting c.requests → Prop) :
    History c.setting c.requests → History c.setting c.requests → Prop
  | _, [] => True
  | g, e :: m => P g e ∧ Throughout P (g ++ [e]) m

instance Throughout.decidable [∀ g e, Decidable (P g e)] :
    (g m : History c.setting c.requests) → Decidable (Throughout P g m)
  | _, [] => instDecidableTrue
  | g, e :: m =>
    have : Decidable (Throughout P (g ++ [e]) m) := Throughout.decidable (g ++ [e]) m
    inferInstanceAs (Decidable (P g e ∧ Throughout P (g ++ [e]) m))

/-- What is so of every happening is so wherever a history is split. -/
theorem throughout_iff {m : History c.setting c.requests} :
    Throughout P g m ↔ ∀ a e a', m = a ++ e :: a' → P (g ++ a) e := by
  induction m generalizing g with
  | nil => simp [Throughout]
  | cons e m ih =>
    rw [Throughout, ih]
    constructor
    · rintro ⟨he, hm⟩ a d a' heq
      -- a happening is the first one, or a later one to which the induction applies
      cases a with
      | nil =>
        cases heq
        simpa using he
      | cons d a =>
        cases heq
        simpa using hm a _ a' rfl
    · intro hall
      refine ⟨by simpa using hall [] e m rfl, fun a d a' heq => ?_⟩
      simpa using hall (e :: a) d a' (congrArg _ heq)

/-- Whether a happening is the end of a task. -/
def ends (i : TaskId) : Happening c.setting c.requests → Bool
  | .finish j _ => j == i
  | _ => false

/-- The end of a task can be looked up. -/
theorem finished_iff : h.Finished i ↔ h.any (ends i) = true := by
  rw [List.any_eq_true]
  constructor
  · rintro ⟨r, hr⟩
    exact ⟨_, hr, beq_self_eq_true i⟩
  · rintro ⟨e, he, hi⟩
    cases e with
    | finish j r =>
      obtain rfl := eq_of_beq hi
      exact ⟨r, he⟩
    | _ => cases hi

instance : Decidable (h.Finished i) := decidable_of_iff _ finished_iff.symm

/-- Whether a job is a query on a connection. -/
def isQuery (k : LeaseId) : Job c.setting → Bool
  | .query (.scoped k' _ token) token' => k' == k && token' == token
  | _ => false

/-- A job is a query on a connection if it runs a statement there. -/
theorem isQuery_iff {job : Job c.setting} :
    isQuery k job = true ↔ ∃ statement token, job = .query (.scoped k statement token) token := by
  constructor
  · intro hjob
    unfold isQuery at hjob
    split at hjob
    next k' statement token token' =>
      obtain ⟨hk, htoken⟩ := Bool.and_eq_true_iff.mp hjob
      obtain rfl := eq_of_beq hk
      obtain rfl := eq_of_beq htoken
      exact ⟨statement, token', rfl⟩
    next => cases hjob
  · rintro ⟨statement, token, rfl⟩
    simp [isQuery]

/-- The queries on a connection can be looked up. -/
theorem rests_iff :
    h.Rests k ↔ ∀ j < h.jobs.length, h.jobs[j]?.any (isQuery k) = true → h.Finished j := by
  constructor
  · intro hrests j _ hj
    cases hjob : h.jobs[j]? with
    | none => simp [hjob] at hj
    | some job =>
      rw [hjob] at hj
      obtain ⟨statement, token, rfl⟩ := isQuery_iff.mp hj
      exact hrests j statement token hjob
  · intro hall j statement token hj
    refine hall j (List.getElem?_eq_some_iff.mp hj).1 ?_
    simp [hj, isQuery]

instance : Decidable (h.Rests k) := decidable_of_iff _ rests_iff.symm

/-- Whether a happening asks for a connection to be at rest where queries are run one at a time. -/
def asksForRest (k : LeaseId) : Happening c.setting c.requests → Bool
  | .deed _ (.act (.inl (.spawn job)) _) => isQuery k job
  | .deed _ (.call (.inr (.inl (.release k' _)))) => k' == k
  | _ => false

/-- Queries are run one at a time if the connection is at rest wherever it is asked to be. -/
theorem oneByOne_iff :
    h.OneByOne k ↔ Throughout (fun g e => asksForRest k e = true → g.Rests k) [] h := by
  rw [throughout_iff]
  constructor
  · intro hone a e a' heq he
    -- rest is asked for at the start of a query, and at the return
    unfold asksForRest at he
    split at he
    next job t =>
      obtain ⟨statement, token, rfl⟩ := isQuery_iff.mp he
      exact hone.started heq
    next k' cause =>
      obtain rfl := eq_of_beq he
      exact hone.returned heq
    next => cases he
  · intro hall
    constructor
    · intro g g' i statement token t heq
      exact hall g _ g' heq (by simp [asksForRest, isQuery])
    · intro g g' i cause heq
      exact hall g _ g' heq (beq_self_eq_true k)

instance : Decidable (h.OneByOne k) := decidable_of_iff _ oneByOne_iff.symm

end Decidable
end History

namespace Regime.Possible

/-- What issues a query on a connection issues it under its own token. -/
theorem issue_of_query? (hp : D.regime.Possible (g ++ .deed i x :: g')) (hx : x.query? k = some t) :
    ∃ statement token, Happening.deed i x = .issue i k statement token t := by
  obtain ⟨statement, token, token', rfl⟩ := Exchange.exists_of_query? hx
  have hjob := hp.job_of_spawned
  cases hp.lawful hjob with
  | free hfree => cases hfree
  | statement => exact ⟨statement, token, rfl⟩

/-- A query that has been issued is a task. -/
theorem job_of_mem_queries (hp : D.regime.Possible h) (ht : t ∈ h.queries k) :
    ∃ statement token, h.jobs[t]? = some (.query (.scoped k statement token) token) := by
  obtain ⟨i, x, hmem, hx⟩ := History.mem_queries_iff.mp ht
  obtain ⟨g, g', rfl⟩ := List.append_of_mem hmem
  obtain ⟨statement, token, he⟩ := hp.issue_of_query? hx
  cases he
  exact ⟨statement, token, hp.job_of_spawned⟩

/-- A task is a query that has been issued if it runs a statement of a scope. -/
theorem mem_queries_of_job (hp : D.regime.Possible h)
    (ht : h.jobs[t]? = some (.query (.scoped k statement token) token)) : t ∈ h.queries k := by
  obtain ⟨g, i, g', rfl⟩ := hp.issued ht
  simp [Exchange.query?]

/-- What is about the return of a connection comes with the request to take it back, or after
that. -/
theorem returned_of_mem_returns (hp : D.regime.Possible h) (he : e ∈ h.returns k) :
    h.Returned k := by
  obtain ⟨hmem, i, x, rfl, hx⟩ := History.mem_returns_iff.mp he
  obtain ⟨cause, rfl | ⟨ans, rfl⟩⟩ := Exchange.returns_iff.mp hx
  · exact ⟨i, cause, hmem⟩
  · obtain ⟨g, g', rfl⟩ := List.append_of_mem hmem
    exact ⟨i, cause, List.mem_append_left _ hp.mem_call_of_answer⟩

/-- Where queries are run one at a time, one that is not over is the last to have been issued. -/
theorem queries_of_running (hp : D.regime.Possible h) (hone : h.OneByOne k) (heq : h = g ++ g')
    (hj : g.jobs[j]? = some (.query (.scoped k statement token) token)) (hover : ¬ g.Finished j) :
    ∃ qs, g.queries k = qs ++ [j] ∧ j ∉ qs := by
  have hpg : D.regime.Possible g := (heq ▸ hp).of_append
  obtain ⟨p, i, q, rfl⟩ := hpg.issued hj
  refine ⟨History.queries p k, ?_, ?_⟩
  · -- any query issued later would have found this one over
    have hq : History.queries q k = [] := by
      rw [List.eq_nil_iff_forall_not_mem]
      intro t ht
      obtain ⟨i', x, hmem, hx⟩ := History.mem_queries_iff.mp ht
      obtain ⟨q₁, q₂, rfl⟩ := List.append_of_mem hmem
      have hpx :
          D.regime.Possible ((p ++ .issue i k statement token j :: q₁) ++ .deed i' x :: q₂) := by
        simpa using hpg
      obtain ⟨statement', token', he⟩ := hpx.issue_of_query? hx
      have heq : h = (p ++ .issue i k statement token j :: q₁) ++
          .issue i' k statement' token' t :: (q₂ ++ g') := by
        rw [heq, ← he]
        simp
      have hrests := hone.started heq j statement token hpx.of_append.job_of_spawned
      have hlater : History.Finished ((p ++ .issue i k statement token j :: q₁) ++
          .deed i' x :: q₂) j :=
        hrests.mono
      exact hover (by simpa using hlater)
    simp [Exchange.query?, hq]
  · intro hmem
    obtain ⟨_, _, hjob⟩ := hpg.of_append.job_of_mem_queries hmem
    -- a task is started under a fresh name, and queries issued earlier have theirs
    have hlt := (List.getElem?_eq_some_iff.mp hjob).1
    exact absurd hpg.eq_length_of_spawn (Nat.ne_of_lt hlt)

/-- Where queries are run one at a time, a connection is not being given back while one of them is
not over. -/
theorem returns_of_running (hp : D.regime.Possible h) (hone : h.OneByOne k) (heq : h = g ++ g')
    (hj : g.jobs[j]? = some (.query (.scoped k statement token) token)) (hover : ¬ g.Finished j) :
    g.returns k = [] := by
  rw [List.eq_nil_iff_forall_not_mem]
  intro e he
  exact hover (hp.over_of_returned hone heq ((heq ▸ hp).of_append.returned_of_mem_returns he)
    (heq ▸ History.jobs_mono hj))

/-- Where queries are run one at a time on a connection with an open scope, what passes there is
what they do, one after the other, and then the return of the connection. -/
theorem traffic_eq {b u : List (Deed c)} {pool : PoolId} {pid : Option Nat}
    {state : Option TransactionState} {scope : ScopeId} (hp : D.regime.Possible h)
    (hopen : h.of i = b ++ (Scope.opening pool k pid state scope ++ u)) (hone : h.OneByOne k)
    (heq : h = g ++ g') : g.traffic k = (g.queries k).flatMap (g.part k) ++ g.returns k := by
  -- along the history: an exchange on the connection extends the last query or the return, and a
  -- query that is issued has no part yet
  induction g using List.reverseRecOn generalizing g' with
  | nil => rfl
  | append_singleton g e ih =>
    rw [List.append_assoc, List.singleton_append] at heq
    have hpe : D.regime.Possible (g ++ e :: g') := heq ▸ hp
    rw [History.traffic_append, History.queries_append, History.returns_append, ih heq]
    cases e with
    | launch | finish | interrupt =>
      simp [History.queries_other, History.flatMap_part_append, History.part_of_eq_nil,
        History.traffic, Happening.passesOn, History.returns, Happening.deed?]
    | deed j x =>
      rw [History.queries_cons_deed, History.queries_nil, List.append_nil, List.flatMap_append]
      by_cases hx : x.lease? = some k
      · rw [Exchange.query?_of_lease? hx, Option.toList_none, List.flatMap_nil, List.append_nil,
          History.traffic_of_lease? hx]
        cases hreturns : x.returns k with
        | true =>
          rw [History.flatMap_part_append fun t ht => ?_, History.returns_of_returns hreturns,
            List.append_assoc]
          -- a query that has been issued is over when the connection is given back
          refine History.part_of_ne fun hj => ?_
          subst hj
          obtain ⟨statement, token, hjob⟩ := hpe.of_append.job_of_mem_queries ht
          obtain ⟨-, hover⟩ := hpe.started_of_deed
          exact hover (hp.over_of_returning hone heq (Exchange.returns_iff.mp hreturns)
            (heq ▸ History.jobs_mono hjob))
        | false =>
          -- what passes is done by a query that is not over, and that is the last one issued
          obtain ⟨⟨statement, token, hj⟩, hover⟩ := (hp.passing_cases hopen heq hx).resolve_right
            fun hr => by simp [Exchange.returns_iff.mpr hr] at hreturns
          obtain ⟨qs, hqs, hnew⟩ := hp.queries_of_running hone heq hj hover
          have hothers : ∀ t ∈ qs, History.part [.deed j x] k t = [] := fun t ht =>
            History.part_of_ne fun hne => hnew (hne ▸ ht)
          rw [hqs, List.flatMap_append, List.flatMap_append, History.flatMap_part_append hothers,
            hp.returns_of_running hone heq hj hover]
          simp [History.part_self hx, History.returns, hreturns]
      · have hnone : x.returns k = false := by
          by_contra hne
          exact hx (Exchange.lease?_of_returns (by simpa using hne))
        rw [History.flatMap_part_append fun t _ => History.part_eq_nil hx]
        have hquiet : History.traffic [Happening.deed j x] k = [] :=
          History.traffic_eq_nil fun _ _ hmem => by
            cases List.mem_singleton.mp hmem
            exact hx
        rw [hquiet, List.append_nil]
        cases hquery : x.query? k with
        | none => simp [History.returns, hnone]
        | some t =>
          -- the query has done nothing yet, and the connection has not been given back
          obtain ⟨statement, token, he⟩ := hpe.issue_of_query? hquery
          cases he
          have hnew : History.of g t = [] := hpe.of_eq_nil_of_spawn
          have hkept : History.returns g k = [] := by
            rw [List.eq_nil_iff_forall_not_mem]
            exact fun e he => hpe.issued_on_loan.2 (hpe.of_append.returned_of_mem_returns he)
          rw [hkept]
          simp [History.part_of_eq_nil hnew, History.part_eq_nil hx, History.returns, hnone]

section Loan

variable {b u v w : List (Deed c)} {pool : PoolId} {pid : Option Nat}
  {state : Option TransactionState} {scope : ScopeId} {cause : Option Failure}
  {ans : Except Failure Unit}

/-- No query is issued on a connection by its borrower before it has been lent out. -/
theorem no_query_before_loan (hp : D.regime.Possible h)
    (hopen : h.of i = b ++ (Scope.opening pool k pid state scope ++ u)) :
    b.filterMap (Exchange.query? k) = [] := by
  rw [List.filterMap_eq_nil_iff]
  intro x hx
  by_contra hne
  obtain ⟨t, ht⟩ := Option.ne_none_iff_exists'.mp hne
  obtain ⟨b₁, b₂, rfl⟩ := List.append_of_mem hx
  have hof : h.of i = b₁ ++ x :: (b₂ ++ (Scope.opening pool k pid state scope ++ u)) := by
    rw [hopen]
    simp
  -- a query is issued while the connection is on loan
  obtain ⟨g, g', rfl, rfl, -⟩ := History.exists_split_of hof
  obtain ⟨statement, token, he⟩ := hp.issue_of_query? ht
  obtain ⟨j, pool', hlent⟩ := (he ▸ hp).issued_on_loan.1
  obtain ⟨l, l', hl⟩ := List.append_of_mem (History.mem_of_iff.mpr hlent)
  have hj : History.of (g ++ .deed i x :: g') j =
      l ++ .served (.acquire pool') (.ok k) :: (l' ++ History.of (.deed i x :: g') j) := by
    rw [History.of_append, hl]
    simp
  have hi : History.of (g ++ .deed i x :: g') i =
      (History.of g i ++ x :: (b₂ ++ [.requests (.acquire pool)])) ++
        .served (.acquire pool) (.ok k) :: (.inquires (.pid k) pid ::
          .does (.log (.acquired pid)) () :: .enters (.openScope k state) scope :: u) := by
    rw [hof]
    simp [Scope.opening, DatabaseM.lending]
  -- it is lent out once, so the loan would stand before itself
  obtain ⟨rfl, hplace, -⟩ := hp.lent_unique hi hj
  have hlen := congrArg List.length hplace
  have hlen' := congrArg List.length hl
  simp only [List.length_append, List.length_cons] at hlen hlen'
  omega

/-- No query is issued on a connection by its borrower before the scope on it has been opened. -/
theorem no_query_before_work (hp : D.regime.Possible h)
    (hopen : h.of i = b ++ (Scope.opening pool k pid state scope ++ u)) :
    (b ++ Scope.opening pool k pid state scope).filterMap (Exchange.query? k) = [] := by
  rw [List.filterMap_append, hp.no_query_before_loan hopen]
  simp [Scope.opening, DatabaseM.lending, Exchange.query?]

end Loan

end Regime.Possible

end PooledSql
