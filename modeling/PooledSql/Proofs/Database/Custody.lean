import PooledSql.Proofs.Database.Pooled

/-!
# Custody

Every unit of work, a query on a pool, work with one connection or a transaction, asks its pool for
one connection and, once it has been lent that, gives it back once, with the failure that passes
through it if that one says so. Whatever fails on the way, nobody hears of the outcome of the unit
before that (`Regime.Possible.returnsOnce`).

* `DatabaseM.IsUnit`: the units of work, with the work that is done with their connections.
* `Surroundings.Custody`: how far a unit of work has got.
* `Surroundings.ReturnsOnce`: the way of all units of work.
-/

namespace PooledSql

variable {c : Client} {D : Surroundings c} {g g' h : History c.setting c.requests} {i j : TaskId}
  {k : LeaseId} {α : Type} {pool : PoolId} {token : Option TokenId} {work : LeaseId → DatabaseM c α}
  {x : DatabaseM c α} {l b : List (Deed c)}

/-- The units of work on a pool, with the token that stops them before they have begun, if there is
one, and the work with their connections. -/
inductive DatabaseM.IsUnit (pool : PoolId) :
    {α : Type} → Option TokenId → (LeaseId → DatabaseM c α) → DatabaseM c α → Prop
  | pooled (source : Source) (params : Value) (token : TokenId) :
      IsUnit pool (some token) (runOn source params token) (runPooled pool source params token)
  | connection {α : Type} {work : ScopeId → DatabaseM c α} : (∀ scope, Public (work scope)) →
      IsUnit pool none (Scope.inScope none work) (Scope.connection pool work)
  | transaction {α : Type} {work : ScopeId → DatabaseM c α} : (∀ scope, Public (work scope)) →
      IsUnit pool none
        (Scope.inScope (some .notStarted) fun scope => Scope.bracket scope (work scope))
        (Scope.transaction pool work)

/-- A unit of work is work with a connection. -/
theorem DatabaseM.IsUnit.eq (hx : IsUnit pool token work x) :
    x = withConnection pool token work := by
  cases hx with
  | pooled source params token => exact runPooled_eq pool source params token
  | connection => rfl
  | transaction => rw [Scope.transaction_eq, Scope.withScope_eq]

/-- The work of a unit gives back only what it has been lent on the way. -/
theorem DatabaseM.IsUnit.lending_of_release {cause : Option Failure} (hx : IsUnit pool token work x)
    (h : Fiber.Asks (unlessCancelled token (work k)) l (.requests (.release k cause))) :
    ∃ b pool pid v, l = b ++ (lending pool k pid ++ v) := by
  -- a query gives back nothing by itself; the work in a scope is public, and so it borrows before
  -- it gives back
  cases hx with
  | pooled source params token =>
    rcases asks_runOn h with he | ⟨_, -, he⟩ | ⟨_, he⟩ | ⟨_, _, _, -, -, he⟩
    · exact he.elim
    · cases he
    · cases he
    · cases he
  | connection hwork =>
    rcases Scope.asks_inScope h with ⟨-, _, he⟩ | ⟨scope, l', rfl, he | ⟨_, -, he⟩⟩
    · cases he
    · obtain ⟨b, pool, pid, v, rfl⟩ := (hwork scope).lending_of_release he
      exact ⟨_ :: b, pool, pid, v, rfl⟩
    · cases he
  | transaction hwork =>
    rcases Scope.asks_inScope h with ⟨-, _, he⟩ | ⟨scope, l', rfl, he | ⟨_, -, he⟩⟩
    · cases he
    · rcases Scope.asks_bracket he with he | ⟨lb, lw, rfl, -, he⟩
      · exact (he.not_requests rfl).elim
      · obtain ⟨b, pool, pid, v, rfl⟩ := (hwork scope).lending_of_release he
        exact ⟨_ :: (lb ++ b), pool, pid, v, by rw [← List.append_assoc]; rfl⟩
    · cases he

/-- Nobody but the unit of work that task `i` has come to by the exchanges `b` has asked the pool to
take its connection back, and it has done so after the work has ended with `o`. -/
def History.ReturnedAfter (h : History c.setting c.requests) (i : TaskId) (b : List (Deed c))
    (pool : PoolId) (k : LeaseId) (pid pid' : Option Nat) (lw : List (Deed c))
    (o : Except Failure α) : Prop :=
  ∀ (j : TaskId) (cause : Option Failure) (a a' : List (Deed c)),
    h.of j = a ++ .requests (.release k cause) :: a' → j = i ∧
      a = b ++ (DatabaseM.lending pool k pid ++ (lw ++ DatabaseM.parting k o pid')) ∧
        cause = DatabaseM.releaseCause o

/-- How far a unit of work has got that a task has come to by the exchanges `b`, in view of all that
has passed. -/
inductive Surroundings.Custody (h : History c.setting c.requests) (i : TaskId) (b : List (Deed c))
    (pool : PoolId) (token : Option TokenId) (work : LeaseId → DatabaseM c α) :
    List (Deed c) → Prop
  /-- The pool has been asked for a connection. -/
  | waiting : Custody h i b pool token work [.requests (.acquire pool)]
  /-- The pool has refused, which is the end of the unit. -/
  | refused (f : Failure) (rest : List (Deed c)) :
      Fiber.Ends (DatabaseM.withConnection pool token work)
        [.requests (.acquire pool), .served (.acquire pool) (.error f)] (.error f) →
      Custody h i b pool token work
        (.requests (.acquire pool) :: .served (.acquire pool) (.error f) :: rest)
  /-- The work is waiting for something, and nobody has asked the pool to take the connection
  back. -/
  | working {k : LeaseId} {pid : Option Nat} {lw : List (Deed c)}
      {w : (c.setting.interface.sum c.requests).Wait} :
      Fiber.Asks (DatabaseM.unlessCancelled token (work k)) lw (.call w) → ¬ h.Returned k →
      Custody h i b pool token work (DatabaseM.lending pool k pid ++ (lw ++ [.call w]))
  /-- The work has ended, and the pool has been asked to take the connection back. -/
  | returning {k : LeaseId} {pid pid' : Option Nat} {lw : List (Deed c)} {o : Except Failure α} :
      Fiber.Ends (DatabaseM.unlessCancelled token (work k)) lw o →
      h.ReturnedAfter i b pool k pid pid' lw o →
      Custody h i b pool token work (DatabaseM.lending pool k pid ++ (lw ++
        (DatabaseM.parting k o pid' ++ [.requests (.release k (DatabaseM.releaseCause o))])))
  /-- The pool has answered that, which is the end of the unit. -/
  | returned {k : LeaseId} {pid pid' : Option Nat} {lw after rest : List (Deed c)}
      {o : Except Failure α} {ans : Except Failure Unit} :
      Fiber.Ends (DatabaseM.unlessCancelled token (work k)) lw o →
      h.ReturnedAfter i b pool k pid pid' lw o →
      Fiber.Ends (DatabaseM.withConnection pool token work) (DatabaseM.lending pool k pid ++ (lw ++
        (DatabaseM.parting k o pid' ++ .requests (.release k (DatabaseM.releaseCause o)) ::
          .served (.release k (DatabaseM.releaseCause o)) ans :: after))) (ans.bind fun _ => o) →
      Custody h i b pool token work ((DatabaseM.lending pool k pid ++ (lw ++
        (DatabaseM.parting k o pid' ++ .requests (.release k (DatabaseM.releaseCause o)) ::
          .served (.release k (DatabaseM.releaseCause o)) ans :: after))) ++ rest)

namespace Regime.Possible

/-- Nobody gives back the connection of a unit of work while the work with it is under way. -/
theorem not_returned_of_working {pid : Option Nat} {w : (c.setting.interface.sum c.requests).Wait}
    (hp : D.regime.Possible h) (hx : DatabaseM.IsUnit pool token work x)
    (hof : h.of i = b ++ (DatabaseM.lending pool k pid ++ (l ++ [.call w])))
    (hw : Fiber.Asks (DatabaseM.unlessCancelled token (work k)) l (.call w)) : ¬ h.Returned k := by
  rintro ⟨j, cause, hmem⟩
  obtain ⟨g, g', rfl⟩ := List.append_of_mem hmem
  obtain ⟨_, b', u, lr, pool', pid', v, -, hg, -, hidle, rfl⟩ := hp.spent_of_returned
  have hj : History.of (g ++ .deed j (.requests (.release k cause)) :: g') j =
      b' ++ (DatabaseM.lending pool' k pid' ++
        ((v ++ lr) ++ .requests (.release k cause) :: History.of g' j)) := by
    simp [hg, Happening.deed?]
  -- whoever gives it back has been lent it, so that this is the unit itself, and in its work
  obtain ⟨rfl, rfl, rfl, rfl, hrest⟩ := hp.loan_unique hof hj
  have hasks : Fiber.Asks (DatabaseM.unlessCancelled token (work k)) (v ++ lr)
      (.requests (.release k cause)) := by
    rcases List.eq_nil_or_concat (History.of g' i) with hnil | ⟨m, y, hm⟩
    · rw [hnil] at hrest
      obtain ⟨rfl, hw'⟩ := List.append_inj' hrest rfl
      exact (List.cons.inj hw').1 ▸ hw
    · rw [hm, List.concat_eq_append, ← List.cons_append, ← List.append_assoc] at hrest
      obtain ⟨rfl, -⟩ := List.append_inj' hrest rfl
      exact hw.of_append id
  -- but what the work gives back it has been lent itself, and a connection is lent once
  obtain ⟨b₁, pool₁, pid₁, v₁, hinner⟩ := hx.lending_of_release hasks
  have hagain : History.of (g ++ .deed i (.requests (.release k cause)) :: g') i =
      (b ++ (DatabaseM.lending pool k pid ++ b₁)) ++ (DatabaseM.lending pool₁ k pid₁ ++
        (v₁ ++ .requests (.release k cause) :: History.of g' i)) := by
    rw [hj, hinner]
    simp
  have hb := (hp.loan_unique hof hagain).2.1
  simp [DatabaseM.lending] at hb

/-- Between turns, a unit of work that has begun waits for a connection, has been refused one, is at
work with it, or has given it back. -/
theorem custody (hp : D.regime.Possible h) (hrest : h.AtRest)
    (hx : DatabaseM.IsUnit pool token work x)
    (hy : D.regime.Performs h i b x) (hof : h.of i = b ++ l) (hl : l ≠ []) :
    Surroundings.Custody h i b pool token work l := by
  obtain rfl := hx.eq
  have hne : h.of i ≠ [] := by simp [hof, hl]
  -- the connection is given back once
  have hreturned : ∀ (k : LeaseId) (pid pid' : Option Nat) (lw rest : List (Deed c))
      (o : Except Failure α),
      l = DatabaseM.lending pool k pid ++ (lw ++ (DatabaseM.parting k o pid' ++
        .requests (.release k (DatabaseM.releaseCause o)) :: rest)) →
      h.ReturnedAfter i b pool k pid pid' lw o := by
    rintro k pid pid' lw rest o rfl j cause a a' hj
    have hi : h.of i =
        (b ++ (DatabaseM.lending pool k pid ++ (lw ++ DatabaseM.parting k o pid'))) ++
        .requests (.release k (DatabaseM.releaseCause o)) :: rest := by simp [hof]
    obtain ⟨hij, ha, hcause, -⟩ := hp.returned_once hi hj
    exact ⟨hij.symm, ha.symm, hcause.symm⟩
  -- the unit is over or waits
  rcases hy.ends_or_waits hp hrest hof hne with ⟨l₁, l₂, r, rfl, hends⟩ | ⟨l₁, w, rfl, hasks⟩
  · rcases DatabaseM.ends_withConnection hends with
      ⟨f, rfl, rfl⟩ | ⟨k, pid, lw, o, lr, rfl, hw, hr⟩
    · exact .refused f l₂ hends
    obtain ⟨pid', ans, after, rfl, -, rfl⟩ := DatabaseM.ends_giveBack hr
    exact .returned hw
      (hreturned k pid pid' lw (.served (.release k (DatabaseM.releaseCause o)) ans ::
      (after ++ l₂)) o (by simp)) hends
  · -- it waits for a connection, in its work, or for the pool to take the connection back
    rcases DatabaseM.asks_withConnection hasks with
      ⟨rfl, he⟩ | he | ⟨k, pid, l', rfl, hw | ⟨o, lw, lr, rfl, hw, hr⟩⟩
    · cases he
      exact .waiting
    · exact he.elim
    · rw [List.append_assoc] at hof ⊢
      exact .working hw (hp.not_returned_of_working hx hof hw)
    · rcases DatabaseM.asks_giveBack hr with he | ⟨he, pid', rfl⟩
      · exact he.elim
      cases he
      have hl : (DatabaseM.lending pool k pid ++ (lw ++ DatabaseM.parting k o pid') ++
          [.requests (.release k (DatabaseM.releaseCause o))] : List (Deed c)) =
          DatabaseM.lending pool k pid ++ (lw ++ (DatabaseM.parting k o pid' ++
            [.requests (.release k (DatabaseM.releaseCause o))])) := by simp
      exact hl ▸ .returning hw (hreturned k pid pid' lw [] o hl)

end Regime.Possible

/-- The way of all units of work in a history. -/
structure Surroundings.ReturnsOnce (D : Surroundings c)
    (h : History c.setting c.requests) : Prop where
  /-- A unit that has begun waits for a connection, has been refused one, is at work with it, or
  gives it back, once, and ends after that. -/
  custody : ∀ {α : Type} {i b l pool token work} {x : DatabaseM c α},
    DatabaseM.IsUnit pool token work x →
    D.regime.Performs h i b x → h.of i = b ++ l → l ≠ [] → Custody h i b pool token work l
  /-- A query on a pool is over after that, and so is every query that derives from it, unless an
  interruption reaches it before. -/
  finished : ∀ {g g' i j r pool source params token k},
    h.jobs[j]? = some (.query (.pooled pool source params token) token) → h.DerivesFrom j i →
    (∀ i' p p', h.DerivesFrom j i' → i' ≠ j → h = p ++ .interrupt i' :: p' → History.Finished p j) →
    h = g ++ .finish i r :: g' → .deed j (.served (.acquire pool) (.ok k)) ∈ h →
    ∃ cause ans, .deed j (.served (.release k cause) ans) ∈ g

/-- Between turns, all units of work give their connections back once. -/
theorem Regime.Possible.returnsOnce (hp : D.regime.Possible h) (hrest : h.AtRest) :
    D.ReturnsOnce h where
  custody := hp.custody hrest
  finished := by
    rintro g g' i j r pool source params token k hjob hderives hint rfl hlent
    exact hp.returned_of_derives hjob hint hderives hlent

end PooledSql
