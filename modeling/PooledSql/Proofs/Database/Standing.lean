import PooledSql.Proofs.Database.Tenure

/-!
# Where a scope stands

Only the task that has opened a scope notes how far its transaction has got, and closes it. So the
entry of a scope follows from what has passed between that task and its surroundings
(`Regime.Possible.scope?_of_performed`), and the work in the scope leaves the entry as it is
(`Regime.Possible.stands_of_public`).
-/

namespace PooledSql

variable {c : Client} {α : Type} {D : Surroundings c} {g g' h : History c.setting c.requests}
  {i j : TaskId} {k : LeaseId} {scope : ScopeId} {state : Option TransactionState}

/-- The entry of a scope after some exchanges. -/
def Scope.after (scope : ScopeId) (entry : Scope) (l : List (Deed c)) : Scope :=
  l.foldl (amended scope) entry

/-- Whether exchanges leave the entry of a scope as it is. -/
def Scope.Stands (scope : ScopeId) (l : List (Deed c)) : Prop :=
  ∀ x ∈ l, ∀ entry, amended scope entry x = entry

namespace Scope

variable {entry : Scope} {l l₁ l₂ : List (Deed c)}

@[simp]
theorem after_nil : after scope entry ([] : List (Deed c)) = entry := rfl

@[simp]
theorem after_cons {x : Deed c} :
    after scope entry (x :: l) = after scope (amended scope entry x) l := rfl

@[simp]
theorem after_append : after scope entry (l₁ ++ l₂) = after scope (after scope entry l₁) l₂ :=
  List.foldl_append

/-- An entry is changed where its scope is closed, and where a state is noted for it. -/
theorem amended_ne_cases {x : Deed c} (hne : amended scope entry x ≠ entry) :
    (∃ out, x = .enters (.closeScope scope) out) ∨
      ∃ new out, x = .enters (.setState scope new) out := by
  unfold amended at hne
  split at hne
  next s out =>
    split at hne
    next hs => exact .inl ⟨out, hs ▸ rfl⟩
    next => exact absurd rfl hne
  next s new out =>
    split at hne
    next hs => exact .inr ⟨new, out, hs ▸ rfl⟩
    next => exact absurd rfl hne
  next => exact absurd rfl hne

/-- Exchanges that leave an entry as it is leave it as it is. -/
theorem Stands.after (hl : Stands scope l) : after scope entry l = entry := by
  induction l with
  | nil => rfl
  | cons x l ih =>
    rw [after_cons, hl x (List.mem_cons_self ..)]
    exact ih fun y hy => hl y (List.mem_cons_of_mem _ hy)

/-- A command leaves the entry of its scope as it is. -/
theorem stands_issuing {pid : Option Nat} {statement : Statement} {token : TokenId} {task : TaskId}
    {ans : Except Failure Reply} :
    Stands scope (issuing scope k state pid statement token task ++
      [.joins task, .joined task ans] : List (Deed c)) := by
  intro x hx entry
  simp only [issuing, consulting, List.cons_append, List.nil_append, List.mem_cons,
    List.not_mem_nil, or_false] at hx
  rcases hx with rfl | rfl | rfl | rfl | rfl | rfl <;> rfl

/-- A command leaves the entry of its scope as it is. -/
theorem stands_command {sql : String} {r : Except Failure Unit}
    (hl : Fiber.Ends (command scope sql : DatabaseM c Unit) l r) : Stands scope l := by
  -- a command that finds its scope closed only looks it up
  rcases ends_command hl with ⟨found, rfl, -⟩ | ⟨k, state, pid, token, task, ans, rfl, -⟩
  · rintro x hx entry
    rw [List.mem_singleton.mp hx]
    rfl
  · exact stands_issuing

/-- Inquiries and entries in the log leave the entries of scopes as they are. -/
theorem stands_idle (hl : ∀ d ∈ l, d.IsIdle) : Stands scope l := by
  intro x hx entry
  rcases (hl x hx).cases with ⟨r, out, rfl⟩ | ⟨entry, rfl⟩ <;> rfl

/-- Giving a connection back leaves the entries of scopes as they are. -/
theorem stands_giveBack {o r : Except Failure α} (hl : Fiber.Ends (DatabaseM.giveBack k o) l r) :
    Stands scope l := by
  obtain ⟨pid, ans, rest, rfl, hrest, -⟩ := DatabaseM.ends_giveBack hl
  intro x hx entry
  -- the entry in the log, the request, its answer and what follows
  rcases List.mem_append.mp hx with hx | hx
  · exact stands_idle DatabaseM.parting_idle x hx entry
  rcases List.mem_cons.mp hx with rfl | hx
  · rfl
  rcases List.mem_cons.mp hx with rfl | hx
  · rfl
  · exact stands_idle hrest x hx entry

/-- A note of where a transaction has got to is an entry of its scope. -/
@[simp]
theorem after_noting {found : Option Scope} {new : TransactionState} :
    after scope entry (noting scope found new : List (Deed c)) =
      { entry with state := some new } := by
  simp [noting, amended]

/-- A transaction that has begun is noted to have. -/
theorem after_begin (hl : Fiber.Ends (begin scope) l (.ok ())) :
    after scope entry l = { entry with state := some .inTransaction } := by
  rcases ends_begin hl with ⟨f, hf, -⟩ | ⟨-, lb, found, rfl, hb⟩
  · cases hf
  · rw [after_append, (stands_command hb).after, after_noting]

/-- When its connection has been given back, a scope is closed. -/
theorem after_closing {o r : Except Failure α} (hl : Fiber.Ends (DatabaseM.giveBack k o) l r) :
    after scope entry (Exchange.enters (.closeScope scope) () :: l) =
      { entry with closed := true } := by
  rw [after_cons, (stands_giveBack hl).after]
  simp [amended]

end Scope

namespace Regime.Possible

/-- No two scopes have the same name. -/
theorem opened_once {k' : LeaseId} {state' : Option TransactionState} {u u' v v' : List (Deed c)}
    (hp : D.regime.Possible h) (hi : h.of i = u ++ .enters (.openScope k state) scope :: v)
    (hj : h.of j = u' ++ .enters (.openScope k' state') scope :: v') :
    i = j ∧ u = u' ∧ k = k' ∧ v = v' := by
  obtain ⟨a, a', ha, rfl, rfl⟩ := History.exists_split_of hi
  obtain ⟨b, b', hb, rfl, rfl⟩ := History.exists_split_of hj
  obtain ⟨rfl, rfl, rfl, -, rfl⟩ := hp.open_unique ha hb
  simp

/-- Only the task that has opened a scope changes its entry. -/
theorem amended_by_opener {u v : List (Deed c)} {x : Deed c} {entry : Scope}
    (hp : D.regime.Possible h) (hi : h.of i = u ++ .enters (.openScope k state) scope :: v)
    (hx : .deed j x ∈ h) (hne : Scope.amended scope entry x ≠ entry) : j = i := by
  obtain ⟨a, a', rfl⟩ := List.append_of_mem hx
  -- a task with licence to change the entry has opened the scope itself
  have hopened : ∀ {k' state'}, Exchange.enters (.openScope k' state') scope ∈ History.of a j →
      j = i := by
    intro k' state' hmem
    obtain ⟨p, q, hpq⟩ := List.append_of_mem hmem
    have hj : History.of (a ++ .deed j x :: a') j = p ++
        .enters (.openScope k' state') scope :: (q ++ x :: History.of a' j) := by
      simp [hpq, Happening.deed?]
    exact (hp.opened_once hi hj).1.symm
  rcases Scope.amended_ne_cases hne with ⟨out, rfl⟩ | ⟨new, out, rfl⟩
  · obtain ⟨job, -, hl⟩ := hp.licensed id
    cases hl with
    | plain he => exact he.elim
    | closeScope hmem => exact hopened hmem
  · obtain ⟨job, -, hl⟩ := hp.licensed id
    cases hl with
    | plain he => exact he.elim
    | setState hmem => exact hopened hmem

/-- The entry of a scope follows from what has passed with the task that has opened it. -/
theorem scope?_of_performed {u v : List (Deed c)} (hp : D.regime.Possible h)
    (hi : h.of i = u ++ .enters (.openScope k state) scope :: v) :
    h.scope? scope = some (Scope.after scope { lease := k, state } v) := by
  obtain ⟨a, a', rfl, hu, rfl⟩ := History.exists_split_of hi
  rw [hp.scope?_of_opened]
  -- along what has happened since: only the exchanges of the opener count
  have hfold : ∀ {m : History c.setting c.requests} {entry : Scope}, (∀ e ∈ m, e ∈ a') →
      m.foldl (History.amend scope) entry = Scope.after scope entry (m.of i) := by
    intro m
    induction m with
    | nil => exact fun _ => rfl
    | cons e m ih =>
      intro entry hm
      rw [List.foldl_cons, ih fun e he => hm e (List.mem_cons_of_mem _ he), History.of_cons]
      match e with
      | .deed j x =>
        rw [History.amend]
        by_cases hj : j = i
        · subst hj
          simp [Happening.deed?]
        · have hstays : Scope.amended scope entry x = entry := by
            by_contra hne
            have hx : .deed j x ∈ a ++ .deed i (.enters (.openScope k state) scope) :: a' :=
              List.mem_append_right _ (List.mem_cons_of_mem _ (hm _ (List.mem_cons_self ..)))
            exact hj (hp.amended_by_opener hi hx hne)
          simp [Happening.deed?, hj, hstays]
      | .launch _ | .finish .. | .interrupt _ => rfl
  exact congrArg some (hfold fun _ he => he)

/-- The work in a scope leaves the entry of the scope as it is. -/
theorem stands_of_public {work : DatabaseM c α} {o : Except Failure α} {u v l rest : List (Deed c)}
    (hp : D.regime.Possible h)
    (hi : h.of i = u ++ .enters (.openScope k state) scope :: (v ++ (l ++ rest)))
    (hwork : Public work) (hl : Fiber.Ends work l o) : Scope.Stands scope l := by
  intro x hx entry
  obtain ⟨p, q, rfl⟩ := List.append_of_mem hx
  by_contra hne
  -- a task that changes the entry in the course of the work has opened the scope in that course
  have hagain : ∀ {k' state'}, Exchange.enters (.openScope k' state') scope ∉ p := by
    intro k' state' hmem
    obtain ⟨p₁, p₂, rfl⟩ := List.append_of_mem hmem
    have hj : h.of i = (u ++ .enters (.openScope k state) scope :: (v ++ p₁)) ++
        .enters (.openScope k' state') scope :: (p₂ ++ (x :: (q ++ rest))) := by
      rw [hi]
      simp
    have hlen := congrArg List.length (hp.opened_once hi hj).2.1
    simp only [List.length_append, List.length_cons] at hlen
    omega
  have hlicensed : ¬ x.IsAnswer → Licensed work (.plain (.cancelRequest k)) p x :=
    fun hx => hwork.licensed (hl.asks hx)
  rcases Scope.amended_ne_cases hne with ⟨out, rfl⟩ | ⟨new, out, rfl⟩
  · cases hlicensed id with
    | plain he => exact he.elim
    | closeScope hmem => exact hagain hmem
  · cases hlicensed id with
    | plain he => exact he.elim
    | setState hmem => exact hagain hmem

end Regime.Possible

end PooledSql
