import PooledSql.Proofs.Task.Account
import PooledSql.Proofs.Task.Progress
import PooledSql.Proofs.Task.Settlement
import PooledSql.Query

/-!
# Trees of queries

A query that computes something is the root of a tree: further queries are derived from it, and from
those, by functions of their results. All of them settle under one token, each in a task of its own
and at a time of its own.

* `Regime.Tree`: the queries of a tree, as they are issued and derived; `History.Tree`: their tasks.
* `Regime.Raises`: the failures that are raised on the way to the outcome of a query.
* `Regime.Run.settled_of_tree`: how the queries of a tree end, whenever the token is set.
-/

namespace PooledSql

variable {S : Setting} {O : Interface} {W : Type}

/-- The tasks of a tree: its root, and those that derive, under the same token, from a task of the
tree that has been started before. -/
inductive History.Tree (h : History S O) (token : TokenId) (root : TaskId) : TaskId → Prop
  | root {body : S.Body} : h.jobs[root]? = some (.query body token) → Tree h token root root
  | derived {base i : TaskId} {f : S.Value → Except Failure S.Value} :
      Tree h token root base → h.jobs[i]? = some (.derived base f token) → base < i →
      Tree h token root i

namespace Regime

/-- The queries of a tree: its root, which has been issued for a computation, and those that have
been derived from a query of the tree when that had been issued. -/
inductive Tree (R : Regime S O W) (h : History S O) (root : Query) : Query → Prop
  | root {g : History S O} {body : S.Body} :
      R.Returned g h (Query.issueUnder root.token body) root → Tree R h root root
  | derived {g : History S O} {q q' : Query} {f : S.Value → Except Failure S.Value} :
      Tree R h root q → q.task < g.jobs.length → R.Returned g h (q.derive f) q' → Tree R h root q'

/-- The failures that are raised on the way to the outcome of a query: by the computation at the
root of its tree, and by the functions on the way from there. -/
inductive Raises (R : Regime S O W) (h : History S O) : Query → Failure → Prop
  | computation {g : History S O} {q : Query} {body : S.Body}
      {l : List (Exchange (S.interface.sum O))} {e : Failure} :
      R.Returned g h (Query.issueUnder q.token body) q → l <+: h.of q.task →
      Fiber.Ends (R.engine.meaning body) l (.error e) → Raises R h q e
  | function {g : History S O} {q q' : Query} {f : S.Value → Except Failure S.Value} {v : S.Value}
      {e : Failure} :
      R.Returned g h (q.derive f) q' → .finish q.task (.ok v) ∈ h → f v = .error e → Raises R h q' e
  | base {g : History S O} {q q' : Query} {f : S.Value → Except Failure S.Value} {e : Failure} :
      R.Returned g h (q.derive f) q' → Raises R h q e → Raises R h q' e

variable [BEq S.Action] {R : Regime S O W} {g g' h : History S O} {i j : TaskId} {token : TokenId}

namespace Returned

variable {q q' : Query}

/-- A query that has been issued is a new task for its computation. -/
theorem issue {body : S.Body} (hq : R.Returned g h (Query.issueUnder token body) q)
    (hp : R.Possible h) : q.token = token ∧ h.jobs[q.task]? = some (.query body token) := by
  obtain ⟨j, rfl, -, hj⟩ := started (f := fun j => Query.mk j token) hq hp
  exact ⟨rfl, hj⟩

/-- A query that has been derived is a new task under the same token, which waits for that of the
other query. -/
theorem derive {f : S.Value → Except Failure S.Value} (hq : R.Returned g h (q.derive f) q')
    (hp : R.Possible h) : q'.token = q.token ∧ g.jobs.length ≤ q'.task ∧
      h.jobs[q'.task]? = some (.derived q.task f q.token) := by
  obtain ⟨j, rfl, hlt, hj⟩ := started (f := fun j => Query.mk j q.token) hq hp
  exact ⟨rfl, hlt, hj⟩

end Returned

namespace Tree

variable {root q : Query}

/-- The queries of a tree share their token. -/
theorem token_eq (hq : R.Tree h root q) (hp : R.Possible h) : q.token = root.token := by
  induction hq with
  | root => rfl
  | derived _ _ hq' ih => exact (hq'.derive hp).1.trans ih

/-- The queries of a tree run in its tasks. -/
theorem tree (hq : R.Tree h root q) (hp : R.Possible h) : h.Tree root.token root.task q.task := by
  induction hq with
  | root hroot => exact .root (hroot.issue hp).2
  | derived hq hlt hq' ih =>
    obtain ⟨-, hle, hjob⟩ := hq'.derive hp
    exact .derived ih (hq.token_eq hp ▸ hjob) (Nat.lt_of_lt_of_le hlt hle)

end Tree

namespace Possible

/-- A task ends once. -/
theorem outcome_unique {r r' : Except Failure S.Value} (hp : R.Possible h) (hr : .finish i r ∈ h)
    (hr' : .finish i r' ∈ h) : r = r' := by
  -- nothing comes after the end of a task that is an end of it again
  have hlast : ∀ {g g' : History S O} {r r'}, h = g ++ .finish i r :: g' → .finish i r' ∉ g' := by
    rintro g g' r r' rfl hmem
    obtain ⟨p, q, rfl⟩ := List.append_of_mem hmem
    have hp : R.Possible ((g ++ .finish i r :: p) ++ .finish i r' :: q) := by simpa using hp
    have hfinished : History.Finished (g ++ .finish i r :: p) i := ⟨r, by simp⟩
    cases hp.fits with
    | finish _ hn _ _ => exact hn hfinished
    | stillborn _ hn _ _ => exact hn hfinished
  obtain ⟨g, g', rfl⟩ := List.append_of_mem hr
  rcases List.mem_append.mp hr' with hmem | hmem
  · obtain ⟨p, q, rfl⟩ := List.append_of_mem hmem
    have hmem : .finish i r ∈ q ++ .finish i r :: g' := by simp
    exact absurd hmem (hlast (List.append_assoc p _ _))
  rcases List.mem_cons.mp hmem with he | hmem
  · cases he
    rfl
  · exact absurd hmem (hlast rfl)

/-- A derived query that no interruption reaches ends after its base, with what its function makes
of the outcome of the base, in view of the token. -/
theorem finish_of_derived {base : TaskId} {f : S.Value → Except Failure S.Value}
    {r : Except Failure S.Value} (hp : R.Possible (g ++ .finish i r :: g'))
    (hjob : (History.jobs (g ++ .finish i r :: g'))[i]? = some (.derived base f token))
    (hint : .interrupt i ∉ g) :
    ∃ rb, .finish base rb ∈ g ∧ TaskM.Settled token (rb.bind f) (g.Cancelled token) r := by
  obtain ⟨o, lw, lz, hof, hw, hz⟩ := hp.finish_of_settle hjob rfl fun _ => hint
  -- the work of a derived query is to wait for its base and to apply its function
  obtain ⟨ans, hans, rfl⟩ : ∃ ans, .answer (.inl (.join base)) ans ∈ lw ∧ o = ans.bind f := by
    rcases Fiber.ends_await_bind_iff.mp hw with ⟨e, rfl, rfl⟩ | ⟨v, l, rfl, hv⟩
    · exact ⟨.error e, by simp, rfl⟩
    · obtain ⟨rfl, rfl⟩ := Fiber.ends_ofExcept_iff.mp hv
      exact ⟨.ok v, by simp, rfl⟩
  refine ⟨ans, ?_, hz⟩
  have hjoined : .deed i (.answer (.inl (.join base)) ans) ∈ g := by
    rw [← History.mem_of_iff, hof]
    exact List.mem_append_left _ hans
  obtain ⟨p, q, rfl⟩ := List.append_of_mem hjoined
  -- the answer is the outcome of the base, since no interruption has reached the query
  rcases hp.of_append.resolves with hover | ⟨-, hi⟩
  · exact List.mem_append_left _ hover
  · exact absurd (List.mem_append_left _ hi) hint

/-- How a query of a tree ends: with an outcome in view of the token. If that outcome is a failure,
it has been raised, or it is the token's own. -/
theorem outcome_of_tree {root q : Query} {r : Except Failure S.Value} (hp : R.Possible h)
    (hquiet : ∀ q, R.Tree h root q → .interrupt q.task ∉ h) (hq : R.Tree h root q)
    (heq : h = g ++ .finish q.task r :: g') :
    ∃ o, TaskM.Settled root.token o (g.Cancelled root.token) r ∧
      ∀ e, o = .error e → e = .cancelled root.token ∨ R.Raises h q e := by
  have hint : ∀ {q} {g g' : History S O} {r}, R.Tree h root q → h = g ++ .finish q.task r :: g' →
      .interrupt q.task ∉ g := by
    rintro q g g' r hq rfl hmem
    exact hquiet q hq (List.mem_append_left _ hmem)
  -- down the tree, from the root to the query
  induction hq generalizing g g' r with
  | root hroot =>
    have hjob := (hroot.issue hp).2
    obtain ⟨o, lw, lz, hof, hw, hz⟩ :=
      (heq ▸ hp).finish_of_settle (heq ▸ hjob) rfl fun _ => hint (.root hroot) heq
    refine ⟨o, hz, ?_⟩
    rintro e rfl
    refine .inr (.computation hroot ?_ hw)
    rw [heq, History.of_append, hof, List.append_assoc]
    exact List.prefix_append ..
  | @derived _ q q' f hq hlt hq' ih =>
    obtain ⟨-, -, hjob⟩ := hq'.derive hp
    rw [hq.token_eq hp] at hjob
    obtain ⟨rb, hrb, hz⟩ :=
      (heq ▸ hp).finish_of_derived (heq ▸ hjob) (hint (.derived hq hlt hq') heq)
    refine ⟨rb.bind f, hz, fun e he => ?_⟩
    have hrb' : .finish q.task rb ∈ h := heq ▸ List.mem_append_left _ hrb
    -- a failure of the base passes on as it is, and it is known where that comes from
    cases rb with
    | ok v => exact .inr (.function hq' hrb' he)
    | error e' =>
      cases he
      obtain ⟨p, p', hpp'⟩ := List.append_of_mem hrb'
      obtain ⟨o, hz, ho⟩ := ih hpp'
      have hraised : e = .cancelled root.token ∨ R.Raises h q e := by
        generalize hr : (Except.error e : Except Failure S.Value) = r at hz
        cases hz with
        | unset _ => exact ho e hr.symm
        | own _ =>
          cases hr
          exact .inl rfl
        | kept _ _ _ => exact ho e hr.symm
      exact hraised.imp_right (.base hq')

end Possible

namespace Performs

/-- Who has come to an act performs it next. -/
theorem act_bind {α : Type} {r : (S.interface.sum O).Act}
    {next : (S.interface.sum O).Outcome r → TaskM S O α} {x : Exchange (S.interface.sum O)}
    (hy : R.Performs h j (g.of j) (Fiber.act r >>= next)) (hp : R.Possible h)
    (heq : h = g ++ .deed j x :: g') : ∃ out, x = .act r out ∧ R.Yields g r out := by
  -- an answer would be to a wait that the act has come out of the middle of
  have hx : ¬ x.IsAnswer := by
    intro hx
    obtain ⟨job, hj, f, hf⟩ := hy
    cases (heq ▸ hp).fits with
    | act => exact hx
    | call => exact hx
    | answer _ _ hl _ _ =>
      rw [hl] at hf
      exact Program.Leads.not_snoc_call hf
  rcases hy.asks_cases hp heq hx (List.append_nil _).symm with hasks | ⟨l₁, l₂, o, hl, hends⟩
  · rcases Fiber.asks_act_bind_iff.mp hasks with ⟨-, out, rfl⟩ | ⟨out, _, hnil, -⟩
    · exact ⟨out, rfl, (heq ▸ hp).yields⟩
    · cases hnil
  · obtain ⟨rfl, -⟩ := List.append_eq_nil_iff.mp hl.symm
    obtain ⟨out, l', hl', -⟩ := Fiber.ends_act_bind_iff.mp hends
    cases hl'

variable {q : Query} {x : Exchange (S.interface.sum O)}

/-- Who has come to start a task starts it next. -/
theorem starts {α : Type} {f : TaskId → α} {job : Job S}
    (hd : R.Performs h j (g.of j) (do return f (← TaskM.spawn job) : TaskM S O α))
    (hp : R.Possible h) (heq : h = g ++ .deed j x :: g') :
    ∃ i, x = .act (.inl (.spawn job)) i ∧
      Fiber.Ends (do return f (← TaskM.spawn job) : TaskM S O α) [x] (.ok (f i)) ∧
      R.Returned g h (do return f (← TaskM.spawn job)) (f i) := by
  obtain ⟨i, rfl, -⟩ := hd.act_bind hp heq
  have hends : Fiber.Ends (do return f (← TaskM.spawn job) : TaskM S O α)
      [.act (.inl (.spawn job)) i] (.ok (f i)) :=
    Fiber.ends_act_bind_iff.mpr ⟨i, [], rfl, Fiber.ends_pure_iff.mpr ⟨rfl, rfl⟩⟩
  refine ⟨i, rfl, hends, j, _, hd, hends, ⟨_, heq.symm⟩, g'.of j, ?_⟩
  simp [heq, Happening.deed?]

/-- What starts a task and no more is over once the task has been started. -/
theorem returned {α : Type} {f : TaskId → α} {job job' : Job S} {i : TaskId}
    (hd : R.Performs h j (g.of j) (do return f (← TaskM.spawn job) : TaskM S O α))
    (hp : R.Possible h) (heq : h = g ++ .deed j (.act (.inl (.spawn job')) i) :: g') :
    R.Returned g h (do return f (← TaskM.spawn job)) (f i) := by
  obtain ⟨i', hi, -, hreturned⟩ := hd.starts hp heq
  cases hi
  exact hreturned

variable {perform : S.Action → TaskM S O Unit}

/-- Who calls for the cancellation of a query that has ended finds it so and does nothing more. -/
theorem cancel_of_finished (hc : R.Performs h j (g.of j) (q.cancel perform)) (hp : R.Possible h)
    (heq : h = g ++ .deed j x :: g') (hfinished : g.Finished q.task) :
    x = .act (.inl (.isDone q.task)) true ∧ Fiber.Ends (q.cancel perform) [x] (.ok ()) := by
  obtain ⟨out, rfl, hout⟩ := hc.act_bind hp heq
  obtain rfl : out = true := hout.mpr hfinished
  exact ⟨rfl, Fiber.ends_act_bind_iff.mpr ⟨true, [], rfl, Fiber.ends_pure_iff.mpr ⟨rfl, rfl⟩⟩⟩

/-- Who calls for the cancellation of a query that has not ended sets its token at once. -/
theorem cancelled_of_cancel (hc : R.Performs h j (g.of j) (q.cancel perform)) (hp : R.Possible h)
    (hrest : h.AtRest) (heq : h = g ++ .deed j x :: g') (hunfinished : ¬ g.Finished q.task)
    (htoken : q.token < g.tokenCount) : h.Cancelled q.token := by
  have hall : h.of j = g.of j ++ x :: g'.of j := by simp [heq, Happening.deed?]
  obtain ⟨out, rfl, hout⟩ := hc.act_bind hp heq
  obtain rfl : out = false := Bool.eq_false_iff.mpr fun hdone => hunfinished (hout.mp hdone)
  -- between turns, the token has been set, whether the call is over or waits for an action
  obtain ⟨actions, l, hl⟩ : ∃ actions l,
      g'.of j = [.act (.inl (.log .cancelling)) (), .act (.inl (.trip q.token)) actions] ++ l := by
    rcases hc.ends_or_waits hp hrest hall (by simp [hall]) with
      ⟨l₁, l₂, r, hl, hends⟩ | ⟨l₁, w, hl, hasks⟩
    · obtain ⟨_, _, rfl, hdone⟩ := Fiber.ends_act_bind_iff.mp hends
      cases (List.cons.inj hl).1
      obtain ⟨⟨⟩, _, rfl, hlog⟩ := Fiber.ends_act_bind_iff.mp hdone
      obtain ⟨actions, l', rfl, -⟩ := Fiber.ends_act_bind_iff.mp hlog
      exact ⟨actions, l' ++ l₂, (List.cons.inj hl).2⟩
    · rcases Fiber.asks_act_bind_iff.mp hasks with ⟨-, _, he⟩ | ⟨_, _, rfl, hdone⟩
      · cases he
      cases (List.cons.inj hl).1
      rcases Fiber.asks_act_bind_iff.mp hdone with ⟨-, _, he⟩ | ⟨⟨⟩, _, rfl, hlog⟩
      · cases he
      rcases Fiber.asks_act_bind_iff.mp hlog with ⟨-, _, he⟩ | ⟨actions, l', rfl, -⟩
      · cases he
      · exact ⟨actions, l' ++ [.call w], (List.cons.inj hl).2⟩
  obtain ⟨g₁, rfl, -⟩ := (heq ▸ hp).follows_all (by simp [Exchange.IsAnswer]) hl
  refine ⟨g ++ [.deed j (.act (.inl (.isDone q.task)) false),
    .deed j (.act (.inl (.log .cancelling)) ())], j, actions, g₁, by simp [heq], ?_⟩
  simpa [Happening.makesToken] using htoken

end Performs

namespace Run

variable {m : Machine S O W} {root : TaskId}

/-- A task that has ended keeps its outcome. -/
theorem outcome {r : Except Failure S.Value} (hr : R.Run h m) (hi : .finish i r ∈ h) :
    m.outcome? i = some r := by
  obtain ⟨r', hr'⟩ := hr.records.finished i ⟨r, hi⟩
  rw [hr', hr.possible.outcome_unique hi (hr.records.outcome i r' hr')]

/-- When there are no more turns, the queries derived from a query that has ended have ended. -/
theorem finished_of_tree (hr : R.Run h m) (hturns : m.turns = []) (hroot : h.Finished root)
    (hi : h.Tree token root i) : h.Finished i := by
  have hnone : ∀ {t}, t ∉ m.turns := by simp [hturns]
  -- if a query has not ended, its base has, and so there is a turn left for it
  induction hi with
  | root => exact hroot
  | @derived base i f hbase hjob hlt ih =>
    obtain ⟨p, hphase, hfits⟩ := hr.phase_of_job hjob
    cases p with
    | fresh job => exact absurd (hr.wakeful.fresh i job nofun hphase) hnone
    | ended r => exact ⟨r, hfits⟩
    | waiting w next =>
      obtain ⟨job, l, hjob', -, hx, -⟩ := hfits
      rw [hjob] at hjob'
      cases hjob'
      -- all that a derived query waits for is its base
      have hw : w = .inl (.join base) := by
        have hasks : Fiber.Asks (TaskM.settle token do Fiber.ofExcept (f (← TaskM.join base))) l
            (.call w) := .call hx
        rcases Fiber.asks_await_bind_iff.mp (TaskM.asks_settle_call hasks) with
          ⟨-, he⟩ | ⟨v, l', -, hv⟩
        · cases he
          rfl
        · exact absurd hv Fiber.not_asks_ofExcept
      subst hw
      refine absurd (hr.wakeful.joined i base next nofun hlt hphase ?_) hnone
      obtain ⟨r, hr'⟩ := hr.records.finished base ih
      simp [hr']

/-- How the queries of a tree end, which no interruption reaches and in which only errors are
raised.

A query that has not ended when the token is set ends by a cancellation, which is the failure of the
token unless it has been raised on the way to the query. A query that has ended keeps its outcome.
Whoever calls for the cancellation of a query sets its token if it has not ended, and otherwise
finds that it has and does nothing more. Whoever derives a query from one of the tree starts a new
one under the same token; that ends after the other one and, if the token has not been set, with
what the function makes of the outcome of the other one. When there are no more turns, all queries
of the tree have ended if the root has. -/
theorem settled_of_tree {root : Query} (hr : R.Run h m)
    (hquiet : ∀ q, R.Tree h root q → .interrupt q.task ∉ h)
    (herror : ∀ q e, R.Tree h root q → R.Raises h q e → e.isError = true) :
    (∀ (g g' : History S O) (q : Query) (r : Except Failure S.Value), R.Tree h root q →
        h = g ++ .finish q.task r :: g' → g.Cancelled root.token →
        ∃ e, r = .error e ∧ e.isCancel = true ∧ (e = .cancelled root.token ∨ R.Raises h q e)) ∧
      (∀ (q : Query) (r : Except Failure S.Value), R.Tree h root q → .finish q.task r ∈ h →
        m.outcome? q.task = some r ∧ ∀ r', .finish q.task r' ∈ h → r' = r) ∧
      (∀ (g g' : History S O) (j : TaskId) (x : Exchange (S.interface.sum O)) (q : Query)
        (perform : S.Action → TaskM S O Unit),
        R.Performs h j (g.of j) (q.cancel perform) → h = g ++ .deed j x :: g' →
        (g.Finished q.task → x = .act (.inl (.isDone q.task)) true ∧
          Fiber.Ends (q.cancel perform) [x] (.ok ())) ∧
        (¬ g.Finished q.task → q.token < g.tokenCount → h.Cancelled q.token)) ∧
      (∀ (g g' : History S O) (j : TaskId) (x : Exchange (S.interface.sum O)) (q : Query)
        (f : S.Value → Except Failure S.Value),
        R.Performs h j (g.of j) (q.derive f) → h = g ++ .deed j x :: g' →
        R.Tree h root q → q.task < g.jobs.length →
        ∃ q' : Query, Fiber.Ends (q.derive f : TaskM S O Query) [x] (.ok q') ∧ R.Tree h root q' ∧
          g.jobs.length ≤ q'.task ∧ q'.token = root.token ∧
          ∀ (p p' : History S O) (r : Except Failure S.Value), h = p ++ .finish q'.task r :: p' →
            ∃ rb, .finish q.task rb ∈ p ∧ (¬ p.Cancelled root.token → r = rb.bind f)) ∧
      (m.turns = [] → h.Finished root.task → ∀ q, R.Tree h root q → h.Finished q.task) := by
  have hp := hr.possible
  refine ⟨?_, ?_, ?_, ?_, ?_⟩
  · intro g g' q r hq heq hset
    obtain ⟨o, hz, ho⟩ := hp.outcome_of_tree hquiet hq heq
    -- as the token is set, the failure is its own, or one that was a cancellation already
    cases hz with
    | unset hunset => exact absurd hset hunset
    | own _ => exact ⟨_, rfl, rfl, .inl rfl⟩
    | @kept e _ he hcivil =>
      refine ⟨e, he, ?_, ho e he⟩
      rcases ho e he with rfl | hraised
      · rfl
      · simpa [herror q e hq hraised] using hcivil
  · exact fun q r _ hi => ⟨hr.outcome hi, fun r' hi' => hp.outcome_unique hi' hi⟩
  · exact fun g g' j x q perform hc heq => ⟨hc.cancel_of_finished hp heq,
      hc.cancelled_of_cancel hp hr.atRest heq⟩
  · intro g g' j x q f hd heq hq hlt
    obtain ⟨i, -, hends, hq'⟩ := hd.starts (f := fun i => Query.mk i q.token) hp heq
    obtain ⟨-, hle, hjob⟩ := hq'.derive hp
    rw [hq.token_eq hp] at hjob
    refine ⟨_, hends, .derived hq hlt hq', hle, hq.token_eq hp, ?_⟩
    rintro p p' r rfl
    obtain ⟨rb, hrb, hz⟩ := hp.finish_of_derived hjob fun hmem =>
      hquiet _ (.derived hq hlt hq') (List.mem_append_left _ hmem)
    refine ⟨rb, hrb, fun hunset => ?_⟩
    -- a failure that is kept although the token is set is the outcome of the base all the same
    cases hz with
    | unset _ => rfl
    | own hset => exact absurd hset hunset
    | kept hset _ _ => rfl
  · exact fun hturns hroot q hq => hr.finished_of_tree hturns hroot (hq.tree hp)

end Run

end Regime

/-- Tasks that compute numbers; one of them issues queries and cancels them. -/
def Setting.numbers : Setting := ⟨Bool, Empty, Nat⟩

instance : BEq Setting.numbers.Action := inferInstanceAs (BEq Empty)

/-- Issuing a query, waiting for its result, and deriving two more queries from it that are
cancelled before they have their turn. -/
def Query.cancellingLate : TaskM Setting.numbers Interface.nothing Nat := do
  let q ← Query.issue (S := Setting.numbers) fun _ => false
  let _ ← q.result (S := Setting.numbers)
  let q' ← q.derive (S := Setting.numbers) fun n => .ok (Nat.succ n)
  let _ ← q'.derive (S := Setting.numbers) fun n => .ok (Nat.succ n)
  q.cancel (S := Setting.numbers) nofun
  q'.cancel (S := Setting.numbers) nofun
  return 0

/-- A regime in which queries are cancelled late. -/
def Regime.cancellingLate : Regime Setting.numbers Interface.nothing Unit where
  engine := { meaning := Bool.rec (pure Nat.zero) Query.cancellingLate, perform := nofun }
  Agrees _ _ := True
  agrees_act _ r := nomatch r
  agrees_other _ _ := trivial
  Launches _ := True
  Answers _ w := nomatch w

/-- Whether a happening is an interruption. -/
def Happening.isInterruption : Happening S O → Bool
  | .interrupt _ => true
  | _ => false

/-- A tree whose root ends before the token is set, and the other queries after that. -/
theorem settled_of_tree_cancellingLate :
    ∃ (h : History Setting.numbers Interface.nothing)
      (m : Machine Setting.numbers Interface.nothing Unit),
      Regime.cancellingLate.Run h m ∧ Regime.cancellingLate.Tree h ⟨1, 0⟩ ⟨3, 0⟩ ∧
      h.Cancelled 0 ∧ m.outcome? 1 = some (.ok Nat.zero) ∧
      (∃ e, .finish 2 (.error e) ∈ h ∧ e.isCancel = true) ∧ h.Finished 3 := by
  have hstart : Regime.cancellingLate.Run [] { world := () } := .start trivial
  have hrun :=
    (hstart.launch (show Regime.cancellingLate.Launches (.plain true) from trivial)).runTurns 10
  obtain ⟨h, m, g, r, g', rest, hr, hjobs, hof, hall, hturns, hone, htwo, hset⟩ : ∃ h m g r g' rest,
      Regime.cancellingLate.Run h m ∧
      h.jobs = [.plain true, .query false 0, .derived 1 (fun n => .ok (Nat.succ n)) 0,
        .derived 2 (fun n => .ok (Nat.succ n)) 0] ∧
      h.of 0 = [.act (.inl .newToken) (0 : Nat), .act (.inl (.spawn (.query false 0))) (1 : Nat),
        .call (.inl (.join 1)), .answer (.inl (.join 1)) (.ok Nat.zero),
        .act (.inl (.spawn (.derived 1 (fun n => .ok (Nat.succ n)) 0))) (2 : Nat),
        .act (.inl (.spawn (.derived 2 (fun n => .ok (Nat.succ n)) 0))) (3 : Nat)] ++ rest ∧
      (h.all fun e => !e.isInterruption) = true ∧ m.turns = [] ∧ .finish 1 (.ok Nat.zero) ∈ h ∧
      h = g ++ .finish 2 r :: g' ∧ History.Cancelled g 0 := by
    -- the first derived query ends as the eighteenth thing that happens, after the token has been
    -- set
    refine ⟨_, _, _, _, _, _, hrun, rfl, (List.take_append_drop 6 _).symm, rfl, rfl,
      List.mem_of_getElem? (i := 5) rfl, (List.take_append_drop 17 _).symm, ?_⟩
    exact ⟨_, 0, [], _, (List.take_append_drop 12 _).symm, by decide⟩
  have hp := hr.possible
  -- the places where the root is issued and the other queries are derived
  obtain ⟨g₁, q₁, h₁, hof₁, -⟩ := History.exists_split_of (l := [_]) hof
  obtain ⟨g₂, q₂, h₂, hof₂, -⟩ := History.exists_split_of (l := [_, _, _, _]) hof
  obtain ⟨g₃, q₃, h₃, hof₃, -⟩ := History.exists_split_of (l := [_, _, _, _, _]) hof
  have hbegin : Regime.cancellingLate.Performs h 0 [] Query.cancellingLate :=
    ⟨.plain true, by rw [hjobs]; rfl, .refl _⟩
  have hissue : Regime.cancellingLate.Performs h 0 (g₁.of 0)
      (Query.issueUnder (S := Setting.numbers) 0 false) := by
    rw [hof₁]
    exact (hbegin.comes Fiber.comes_bind).comes
      (Fiber.Ends.comes (Fiber.ends_act_iff.mpr ⟨(0 : Nat), rfl, rfl⟩))
  have hissued : Fiber.Ends (Query.issue (S := Setting.numbers) (O := Interface.nothing)
      fun _ => false) [.act (.inl .newToken) (0 : Nat),
        .act (.inl (.spawn (.query false 0))) (1 : Nat)] (.ok ⟨1, 0⟩) :=
    Fiber.ends_act_bind_iff.mpr ⟨(0 : Nat), _, rfl,
      Fiber.ends_act_bind_iff.mpr ⟨(1 : Nat), _, rfl, Fiber.ends_pure_iff.mpr ⟨rfl, rfl⟩⟩⟩
  have hcome := (hbegin.comes hissued.comes).comes
    (Fiber.Ends.comes (a := Nat.zero) (Fiber.ends_await_iff.mpr rfl))
  have hderive : Regime.cancellingLate.Performs h 0 (g₂.of 0)
      (Query.derive (S := Setting.numbers) ⟨1, 0⟩ fun n => .ok (Nat.succ n)) := by
    rw [hof₂]
    exact hcome.comes Fiber.comes_bind
  have hderive' : Regime.cancellingLate.Performs h 0 (g₃.of 0)
      (Query.derive (S := Setting.numbers) ⟨2, 0⟩ fun n => .ok (Nat.succ n)) := by
    rw [hof₃]
    exact (hcome.comes (Fiber.Ends.comes (Fiber.ends_act_bind_iff.mpr ⟨(2 : Nat), _, rfl,
      Fiber.ends_pure_iff.mpr ⟨rfl, rfl⟩⟩))).comes Fiber.comes_bind
  have hroot := hissue.returned (f := fun i => Query.mk i 0) hp h₁
  have hsecond := hderive.returned (f := fun i => Query.mk i 0) hp h₂
  have hthird := hderive'.returned (f := fun i => Query.mk i 0) hp h₃
  have hsecond := Regime.Tree.derived (.root hroot)
    (Nat.lt_of_lt_of_eq (by decide) (h₂ ▸ hp).eq_length_of_spawn) hsecond
  have hthird := hsecond.derived
    (Nat.lt_of_lt_of_eq (by decide) (h₃ ▸ hp).eq_length_of_spawn) hthird
  -- neither the computation nor a function raises anything
  have hraises : ∀ q e, Regime.cancellingLate.Raises h q e → e.isError = true := by
    intro q e hraised
    induction hraised with
    | @computation _ q body _ _ hq _ hends =>
      have hjob := (hq.issue hp).2
      obtain rfl : body = false := by
        obtain ⟨i, t⟩ := q
        rw [hjobs] at hjob
        dsimp only at hjob
        match i, hjob with
        | 1, rfl => rfl
        | 0, hjob | 2, hjob | 3, hjob | _ + 4, hjob => cases hjob
      cases (Fiber.ends_pure_iff.mp hends).2
    | @function _ q q' f _ v hq' _ hf =>
      have hjob := (hq'.derive hp).2.2
      obtain rfl : f = fun n => .ok (Nat.succ n) := by
        obtain ⟨base, t⟩ := q
        obtain ⟨i, _⟩ := q'
        rw [hjobs] at hjob
        dsimp only at hjob
        match i, hjob with
        | 2, rfl | 3, rfl => rfl
        | 0, hjob | 1, hjob | _ + 4, hjob => cases hjob
      cases hf
    | base _ _ ih => exact ih
  have hquiet : ∀ i, .interrupt i ∉ h := fun i hmem =>
    Bool.noConfusion (List.all_eq_true.mp hall _ hmem)
  obtain ⟨hcancelled, hkept, -, -, hended⟩ :=
    hr.settled_of_tree (fun q _ => hquiet q.task) fun q e _ => hraises q e
  obtain ⟨e, rfl, he, -⟩ := hcancelled g g' ⟨2, 0⟩ r hsecond htwo hset
  exact ⟨h, m, hr, hthird, htwo ▸ hset.mono, (hkept ⟨1, 0⟩ _ (.root hroot) hone).1,
    ⟨e, by simp [htwo], he⟩, hended hturns ⟨_, hone⟩ _ hthird⟩

end PooledSql
