import PooledSql.Proofs.Database.Execution

/-!
# Traffic

What passes on a connection, in order: the statements that are run on it, and its return, by
whatever task. On a connection with an open scope, what passes does so on behalf of a query that is
not over, or it is the return, which has one place (`Regime.Possible.passing_cases`,
`Regime.Possible.place_of_return`).
-/

namespace PooledSql

variable {c : Client} {α : Type} {D : Surroundings c} {g g' h : History c.setting c.requests}
  {i j t : TaskId} {k : LeaseId} {scope : ScopeId} {token : TokenId}

/-- A task starts a query on a connection. -/
abbrev Happening.issue (i : TaskId) (k : LeaseId) (statement : Statement) (token : TokenId)
    (t : TaskId) : Happening c.setting c.requests :=
  .deed i (.does (.spawn (.query (.scoped k statement token) token)) t)

/-- Whether a happening passes on a connection. -/
def Happening.passesOn (k : LeaseId) : Happening c.setting c.requests → Bool
  | .deed _ x => x.lease? == some k
  | _ => false

namespace History

/-- What passes on a connection, in order. -/
def traffic (h : History c.setting c.requests) (k : LeaseId) : History c.setting c.requests :=
  h.filter (Happening.passesOn k)

/-- Whether all queries that have been started on a connection are over. -/
def Rests (h : History c.setting c.requests) (k : LeaseId) : Prop :=
  ∀ j statement token, h.jobs[j]? = some (.query (.scoped k statement token) token) → h.Finished j

/-- Whether a happening starts a query on a connection. -/
def Starts (k : LeaseId) (e : Happening c.setting c.requests) : Prop :=
  ∃ statement token, e.job? = some (.query (.scoped k statement token) token)

@[simp]
theorem traffic_nil : traffic ([] : History c.setting c.requests) k = [] := rfl

@[simp]
theorem traffic_append : traffic (g ++ g') k = traffic g k ++ traffic g' k := List.filter_append ..

/-- What passes on a connection does so between a task and its surroundings. -/
theorem mem_traffic_iff {e : Happening c.setting c.requests} :
    e ∈ traffic h k ↔ e ∈ h ∧ ∃ j x, e = .deed j x ∧ x.lease? = some k := by
  rw [traffic, List.mem_filter]
  refine and_congr_right fun _ => ?_
  cases e with
  | deed j x =>
    constructor
    · intro hx
      exact ⟨j, x, rfl, by simpa [Happening.passesOn] using hx⟩
    · rintro ⟨_, _, ⟨⟩, hx⟩
      simpa [Happening.passesOn] using hx
  | launch | finish | interrupt =>
    constructor
    · exact nofun
    · rintro ⟨_, _, he, _⟩
      cases he

/-- Nothing passes on a connection if nothing does. -/
theorem traffic_eq_nil (hnone : ∀ j x, .deed j x ∈ h → x.lease? ≠ some k) : traffic h k = [] := by
  rw [List.eq_nil_iff_forall_not_mem]
  intro e he
  obtain ⟨hmem, j, x, rfl, hx⟩ := mem_traffic_iff.mp he
  exact hnone j x hmem hx

/-- What passes on a connection while only one task does something on it. -/
theorem traffic_eq_map (honly : ∀ j x, .deed j x ∈ h → x.lease? = some k → j = t) :
    traffic h k = ((h.of t).filter (·.lease? == some k)).map (.deed t) := by
  induction h with
  | nil => rfl
  | cons e h ih =>
    have ih := ih fun j x hx => honly j x (List.mem_cons_of_mem _ hx)
    rw [traffic, List.filter_cons, History.of_cons]
    cases e with
    | deed j x =>
      -- another task does nothing on the connection
      by_cases hj : j = t
      · subst hj
        rw [Happening.deed?, if_pos rfl, Option.toList_some, List.singleton_append,
          List.filter_cons]
        cases hx : (x.lease? == some k) with
        | true =>
          simp only [Happening.passesOn, hx, if_true, List.map_cons]
          exact congrArg _ ih
        | false =>
          simp only [Happening.passesOn, hx, Bool.false_eq_true, if_false]
          exact ih
      · have hx : (x.lease? == some k) = false := by
          rw [beq_eq_false_iff_ne]
          exact fun hx => hj (honly j x (List.mem_cons_self ..) hx)
        simp only [Happening.passesOn, hx, Happening.deed?, if_neg hj, Bool.false_eq_true, if_false]
        exact ih
    | launch | finish | interrupt => exact ih

end History

namespace Regime.Possible

/-- Whatever passes on a connection with an open scope passes on behalf of a query on it, or gives
the connection back. -/
theorem scoped_of_passing {b v : List (Deed c)} {pool : PoolId} {pid : Option Nat}
    {state : Option TransactionState} {x : Deed c} (hp : D.regime.Possible h)
    (hi : h.of i = b ++ (Scope.opening pool k pid state scope ++ v)) (hx : .deed j x ∈ h)
    (hlease : x.lease? = some k) :
    (∃ statement token, h.jobs[j]? = some (.query (.scoped k statement token) token)) ∨
      ∃ cause, x = .requests (.release k cause) ∨ ∃ ans, x = .served (.release k cause) ans := by
  -- a statement is run on behalf of a query in a scope, or of one that has been lent a connection
  have hexecute : ∀ {run statement}, .deed j (.requests (.execute k run statement)) ∈ h →
      ∃ statement token, h.jobs[j]? = some (.query (.scoped k statement token) token) := by
    intro run statement hcall
    obtain ⟨g, g', rfl⟩ := List.append_of_mem hcall
    obtain ⟨job, hjob, hlicensed⟩ := hp.licensed id
    cases hlicensed with
    | plain he => exact he.elim
    | executeScoped he => exact ⟨_, _, History.jobs_mono (he ▸ hjob)⟩
    | @executePooled b' l₁ _ _ _ pool' pid' source params token out he hl =>
      -- a query that has been lent the connection looks at its token next, and opens no scope
      exfalso
      have hi : History.of (g ++ .deed j (.requests (.execute k run statement)) :: g') i =
          b ++ (DatabaseM.lending pool k pid ++ .enters (.openScope k state) scope :: v) := by
        rw [hi, Scope.opening, List.append_assoc]
        rfl
      have hj : History.of (g ++ .deed j (.requests (.execute k run statement)) :: g') j =
          b' ++ (DatabaseM.lending pool' k pid' ++ .does (.isCancelled token) out ::
            (l₁ ++ .requests (.execute k run statement) :: History.of g' j)) := by
        simp [hl, Happening.deed?]
      have hrest := (hp.loan_unique hi hj).2.2.2.2
      cases (List.cons.inj hrest).1
  rcases Exchange.lease?_cases hlease with ⟨run, statement, rfl | ⟨ans, rfl⟩⟩ | hreturns
  · exact .inl (hexecute hx)
  · -- an answer comes after its request
    obtain ⟨g, g', rfl⟩ := List.append_of_mem hx
    exact .inl (hexecute (List.mem_append_left _ hp.mem_call_of_answer))
  · exact .inr hreturns

/-- What starts a query on a connection is a task that issues it. -/
theorem issues_of_starts {e : Happening c.setting c.requests}
    (hp : D.regime.Possible (g ++ e :: g')) (he : History.Starts k e) : ∃ i statement token j,
      e = .issue i k statement token j := by
  obtain ⟨statement, token, hjob⟩ := he
  rcases Happening.job?_eq_some_iff.mp hjob with rfl | ⟨i, j, rfl⟩
  · obtain ⟨task, hl⟩ := hp.launches
    cases hl
  · exact ⟨i, statement, token, j, rfl⟩

variable {b u v w : List (Deed c)} {pool : PoolId} {pid : Option Nat}
  {state : Option TransactionState} {cause : Option Failure} {x : Deed c}

/-- Whatever passes on a connection with an open scope passes on behalf of a query on it that is not
over, or gives the connection back. -/
theorem passing_cases (hp : D.regime.Possible h)
    (hopen : h.of i = b ++ (Scope.opening pool k pid state scope ++ u))
    (heq : h = g ++ .deed j x :: g') (hx : x.lease? = some k) :
    ((∃ statement token, g.jobs[j]? = some (.query (.scoped k statement token) token)) ∧
        ¬ g.Finished j) ∨
      ∃ cause, x = .requests (.release k cause) ∨ ∃ ans, x = .served (.release k cause) ans := by
  obtain ⟨⟨job, hjob⟩, hover⟩ := (heq ▸ hp).started_of_deed
  have hsame : h.jobs[j]? = some job := heq ▸ History.jobs_mono hjob
  have hmem : .deed j x ∈ h := by
    rw [heq]
    exact List.mem_append_right _ (List.mem_cons_self ..)
  refine (hp.scoped_of_passing hopen hmem hx).imp_left ?_
  rintro ⟨statement, token, hj⟩
  rw [hsame] at hj
  exact ⟨⟨statement, token, hj ▸ hjob⟩, hover⟩

end Regime.Possible

end PooledSql
