import PooledSql.Proofs.Database.Unit

/-!
# The course of a transaction

What passes in a transaction between the opening of its scope and the end of it. There are five
courses: `BEGIN` fails; everything goes well; the work or `COMMIT` fails, and then `ROLLBACK` does
its duty, fails with an error, or is cut short by an interruption.
-/

namespace PooledSql

namespace Scope

variable {c : Client} {α : Type} {pool : PoolId} {scope : ScopeId} {work : DatabaseM c α}
  {l : List (Deed c)} {e : Deed c}

/-- The beginning of a transaction. -/
def begin (scope : ScopeId) : DatabaseM c Unit := do
  command scope "BEGIN"
  transition scope .inTransaction

/-- Work, and then `COMMIT`. -/
def committing (scope : ScopeId) (work : DatabaseM c α) : DatabaseM c α := do
  let a ← work
  command scope "COMMIT"
  return a

/-- The end of a transaction, in view of the outcome of work and `COMMIT`. -/
def conclude (scope : ScopeId) (outcome : Except Failure α) : DatabaseM c α :=
  match outcome with
  | .ok a => do
    transition scope .committed
    return a
  | .error f => do
    rollback scope f
    throw f

/-- Work between the beginning and the end of a transaction. -/
def bracket (scope : ScopeId) (work : DatabaseM c α) : DatabaseM c α := do
  begin scope
  let outcome ← Fiber.attempt (committing scope work)
  conclude scope outcome

/-- A transaction is a scope with a bracket around the work. -/
theorem transaction_eq (pool : PoolId) (work : ScopeId → DatabaseM c α) :
    transaction pool work =
      withScope pool (some .notStarted) fun scope => bracket scope (work scope) := by
  simp only [bracket, begin, bind_assoc]
  rfl

/-- The failure of a rollback after another failure. -/
def abandonment (first rollback : Failure) : Failure :=
  .mk (.abandoned first rollback) (some first) none []

/-- The exchanges by which a transaction has come to a failure: the work has failed, or `COMMIT`
has. -/
inductive Fails (scope : ScopeId) (work : DatabaseM c α) : List (Deed c) → Failure → Prop
  | work {l : List (Deed c)} {f : Failure} : Fiber.Ends work l (.error f) → Fails scope work l f
  | commit {lw lc : List (Deed c)} {a : α} {f : Failure} : Fiber.Ends work lw (.ok a) →
      Fiber.Ends (command scope "COMMIT") lc (.error f) → Fails scope work (lw ++ lc) f

/-- How a transaction may go, and its outcome. -/
inductive Course (scope : ScopeId) (work : DatabaseM c α) :
    List (Deed c) → Except Failure α → Prop
  | unbegun {lb : List (Deed c)} {f : Failure} :
      Fiber.Ends (command scope "BEGIN") lb (.error f) → Course scope work lb (.error f)
  | committed {lb lw lc : List (Deed c)} {a : α} {entry : Option Scope} :
      Fiber.Ends (begin scope) lb (.ok ()) → Fiber.Ends work lw (.ok a) →
      Fiber.Ends (command scope "COMMIT") lc (.ok ()) →
      Course scope work (lb ++ (lw ++ (lc ++ noting scope entry .committed))) (.ok a)
  | rolledBack {lb lf lr : List (Deed c)} {f : Failure} {entry : Option Scope} :
      Fiber.Ends (begin scope) lb (.ok ()) → Fails scope work lf f →
      Fiber.Ends (command scope "ROLLBACK") lr (.ok ()) →
      Course scope work (lb ++ (lf ++ (lr ++ noting scope entry .rolledBack))) (.error f)
  | abandoned {lb lf lr : List (Deed c)} {f g : Failure} {entry : Option Scope} :
      Fiber.Ends (begin scope) lb (.ok ()) → Fails scope work lf f →
      Fiber.Ends (command scope "ROLLBACK") lr (.error g) → g.isError →
      Course scope work (lb ++ (lf ++ (lr ++ (noting scope entry .abortedConnection ++
        [.does (.log (.rollbackFailed f g)) ()])))) (.error (abandonment f g))
  | interrupted {lb lf lr : List (Deed c)} {f g : Failure} :
      Fiber.Ends (begin scope) lb (.ok ()) → Fails scope work lf f →
      Fiber.Ends (command scope "ROLLBACK") lr (.error g) → g.isError = false →
      Course scope work (lb ++ (lf ++ lr)) (.error g)

/-- A transaction begins with `BEGIN`, and a note of it if it has not failed. -/
theorem ends_begin {r : Except Failure Unit} (h : Fiber.Ends (begin scope : DatabaseM c Unit) l r) :
    (∃ f, r = .error f ∧ Fiber.Ends (command scope "BEGIN") l (.error f)) ∨
      r = .ok () ∧ ∃ lb entry, l = lb ++ noting scope entry .inTransaction ∧
        Fiber.Ends (command scope "BEGIN") lb (.ok ()) := by
  rcases Fiber.ends_bind_iff.mp h with ⟨f, hb, rfl⟩ | ⟨⟨⟩, lb, lt, rfl, hb, ht⟩
  · exact .inl ⟨f, rfl, hb⟩
  · obtain ⟨entry, rfl, rfl⟩ := ends_transition ht
    exact .inr ⟨rfl, lb, entry, rfl, hb⟩

/-- Work and `COMMIT` fail, or both succeed. -/
theorem ends_committing {r : Except Failure α} (h : Fiber.Ends (committing scope work) l r) :
    (∃ f, r = .error f ∧ Fails scope work l f) ∨
      ∃ a lw lc, r = .ok a ∧ l = lw ++ lc ∧ Fiber.Ends work lw (.ok a) ∧
        Fiber.Ends (command scope "COMMIT") lc (.ok ()) := by
  rcases Fiber.ends_bind_iff.mp h with ⟨f, hw, rfl⟩ | ⟨a, lw, lt, rfl, hw, ht⟩
  · exact .inl ⟨f, rfl, .work hw⟩
  rcases Fiber.ends_bind_iff.mp ht with ⟨f, hc, rfl⟩ | ⟨⟨⟩, lc, _, rfl, hc, hr⟩
  · exact .inl ⟨f, rfl, .commit hw hc⟩
  · obtain ⟨rfl, rfl⟩ := Fiber.ends_pure_iff.mp hr
    exact .inr ⟨a, lw, lc, rfl, by simp, hw, hc⟩

/-- Noting where a transaction has got to takes no time. -/
theorem not_asks_transition_call {state : TransactionState}
    {w : (c.setting.interface.sum c.requests).Wait} :
    ¬ Fiber.Asks (transition scope state : DatabaseM c Unit) l (.call w) := by
  intro h
  rcases asks_transition h with ⟨_, he⟩ | he | he
  · cases he
  · exact he
  · cases he

/-- Leaving a transaction with its connection in an unknown state. -/
def abandon (scope : ScopeId) (first g : Failure) : DatabaseM c Unit := do
  transition scope .abortedConnection
  TaskM.log (.rollbackFailed first g)
  throw (abandonment first g)

/-- Undoing a transaction comes to leaving it when `ROLLBACK` has failed with an error. -/
theorem comes_abandon {first g : Failure} (h : Fiber.Ends (command scope "ROLLBACK") l (.error g))
    (hg : g.isError) :
    Fiber.Comes (rollback scope first : DatabaseM c Unit) l (abandon scope first g) := by
  have hcomes : Fiber.Comes (rollback scope first : DatabaseM c Unit) l
      (do
        if !g.isError then throw g
        abandon scope first g) := h.comes_attempt
  simp only [hg, Bool.not_true, Bool.false_eq_true, if_false] at hcomes
  exact hcomes

/-- Leaving a transaction ends with a note of it and a failure. -/
theorem ends_abandon {first g : Failure} {r : Except Failure Unit}
    (h : Fiber.Ends (abandon scope first g : DatabaseM c Unit) l r) :
    ∃ entry, l = noting scope entry .abortedConnection ++
      [.does (.log (.rollbackFailed first g)) ()] ∧
      r = .error (abandonment first g) := by
  rcases Fiber.ends_bind_iff.mp h with ⟨f, hf, -⟩ | ⟨⟨⟩, l₁, l₂, rfl, hn, hl⟩
  · obtain ⟨entry, -, hf⟩ := ends_transition hf
    cases hf
  · obtain ⟨entry, rfl, -⟩ := ends_transition hn
    obtain ⟨out, _, rfl, hthrow⟩ := Fiber.ends_act_bind_iff.mp hl
    obtain ⟨rfl, rfl⟩ := Fiber.ends_throw_iff.mp hthrow
    exact ⟨entry, rfl, rfl⟩

/-- Leaving a transaction takes no time. -/
theorem not_asks_abandon_call {first g : Failure} {w : (c.setting.interface.sum c.requests).Wait} :
    ¬ Fiber.Asks (abandon scope first g : DatabaseM c Unit) l (.call w) := by
  intro h
  rcases Fiber.asks_bind_iff.mp h with hn | ⟨⟨⟩, l₁, l₂, -, -, hl⟩
  · exact not_asks_transition_call hn
  · rcases Fiber.asks_act_bind_iff.mp hl with ⟨-, _, he⟩ | ⟨_, _, -, hthrow⟩
    · cases he
    · exact absurd hthrow Fiber.not_asks_throw

/-- A transaction that is left with its connection in an unknown state has failed. -/
theorem ends_rollback_of_abandon {first g : Failure} {lr la : List (Deed c)}
    {r : Except Failure Unit} (hr : Fiber.Ends (command scope "ROLLBACK") lr (.error g))
    (hg : g.isError) (ha : Fiber.Ends (abandon scope first g) la r) :
    Fiber.Ends (rollback scope first) (lr ++ la) r := by
  refine Fiber.ends_attempt_bind_iff.mpr ⟨.error g, lr, la, rfl, hr, ?_⟩
  simp only [hg, Bool.not_true, Bool.false_eq_true, if_false]
  exact ha

/-- Undoing a transaction: `ROLLBACK` succeeds, fails with an error, or is cut short. -/
theorem ends_rollback {first : Failure} {r : Except Failure Unit}
    (h : Fiber.Ends (rollback scope first : DatabaseM c Unit) l r) :
    (∃ lr entry, l = lr ++ noting scope entry .rolledBack ∧ r = .ok () ∧
        Fiber.Ends (command scope "ROLLBACK") lr (.ok ())) ∨
      (∃ lr entry g, l = lr ++ (noting scope entry .abortedConnection ++
          [.does (.log (.rollbackFailed first g)) ()]) ∧ r = .error (abandonment first g) ∧
        Fiber.Ends (command scope "ROLLBACK") lr (.error g) ∧ g.isError) ∨
      ∃ g, r = .error g ∧ Fiber.Ends (command scope "ROLLBACK") l (.error g) ∧
        g.isError = false := by
  obtain ⟨o, lr, lt, rfl, hr, ht⟩ := Fiber.ends_attempt_bind_iff.mp h
  cases o with
  | ok u =>
    obtain ⟨entry, rfl, rfl⟩ := ends_transition ht
    exact .inl ⟨lr, entry, rfl, rfl, hr⟩
  | error g =>
    -- an error is noted and reported, a cancellation passes on as it is
    cases hg : g.isError with
    | false =>
      simp only [hg, Bool.not_false, if_true] at ht
      obtain ⟨rfl, rfl⟩ := Fiber.ends_throw_iff.mp ht
      exact .inr (.inr ⟨g, rfl, by simpa using hr, hg⟩)
    | true =>
      simp only [hg, Bool.not_true, Bool.false_eq_true, if_false] at ht
      obtain ⟨entry, rfl, rfl⟩ := ends_abandon ht
      exact .inr (.inl ⟨lr, entry, g, rfl, rfl, hr, hg⟩)

/-- What passes in a transaction takes one of its courses. -/
theorem ends_bracket {r : Except Failure α} (h : Fiber.Ends (bracket scope work) l r) :
    Course scope work l r := by
  rcases Fiber.ends_bind_iff.mp h with ⟨f, hb, rfl⟩ | ⟨⟨⟩, lb, lt, rfl, hb, ht⟩
  · -- without a beginning there is nothing to undo
    rcases ends_begin hb with ⟨f', hf, hb⟩ | ⟨hf, -⟩
    · cases hf
      exact .unbegun hb
    · cases hf
  obtain ⟨o, lf, lz, rfl, hf, hz⟩ := Fiber.ends_attempt_bind_iff.mp ht
  rcases ends_committing hf with ⟨f, rfl, hfails⟩ | ⟨a, lw, lc, rfl, rfl, hw, hc⟩
  · -- the work or `COMMIT` has failed, and the transaction is undone
    rcases Fiber.ends_bind_iff.mp hz with ⟨g, hr, rfl⟩ | ⟨⟨⟩, l₁, l₂, rfl, hr, hthrow⟩
    · rcases ends_rollback hr with ⟨_, _, _, hg, -⟩ | ⟨lr, entry, g', rfl, hg, hlr, he⟩ |
        ⟨g', hg, hlr, he⟩
      · cases hg
      · cases hg
        exact .abandoned hb hfails hlr he
      · cases hg
        exact .interrupted hb hfails hlr he
    · obtain ⟨rfl, rfl⟩ := Fiber.ends_throw_iff.mp hthrow
      rcases ends_rollback hr with ⟨lr, entry, rfl, -, hlr⟩ | ⟨_, _, _, _, hg, -⟩ | ⟨_, hg, -⟩
      · rw [List.append_nil]
        exact .rolledBack hb hfails hlr
      · cases hg
      · cases hg
  · -- all has gone well, and that is noted
    rcases Fiber.ends_bind_iff.mp hz with ⟨g, hn, -⟩ | ⟨⟨⟩, l₁, l₂, rfl, hn, hr⟩
    · obtain ⟨entry, -, hg⟩ := ends_transition hn
      cases hg
    · obtain ⟨entry, rfl, -⟩ := ends_transition hn
      obtain ⟨rfl, rfl⟩ := Fiber.ends_pure_iff.mp hr
      rw [List.append_nil, List.append_assoc]
      exact .committed hb hw hc

/-- Work and `COMMIT` fail as the transaction does. -/
theorem Fails.ends {f : Failure} (h : Fails scope work l f) :
    Fiber.Ends (committing scope work) l (.error f) := by
  cases h with
  | work hw => exact Fiber.ends_bind_iff.mpr (.inl ⟨f, hw, rfl⟩)
  | @commit lw lc a _ hw hc =>
    exact Fiber.ends_bind_iff.mpr
      (.inr ⟨a, lw, lc, rfl, hw, Fiber.ends_bind_iff.mpr (.inl ⟨f, hc, rfl⟩)⟩)

/-- A transaction that has not begun has failed as `BEGIN` has. -/
theorem ends_bracket_of_unbegun {f : Failure}
    (hb : Fiber.Ends (command scope "BEGIN") l (.error f)) :
    Fiber.Ends (bracket scope work) l (.error f) :=
  Fiber.ends_bind_iff.mpr (.inl ⟨f, Fiber.ends_bind_iff.mpr (.inl ⟨f, hb, rfl⟩), rfl⟩)

/-- A transaction that has failed comes to its undoing. -/
theorem Fails.comes {lb lf : List (Deed c)} {f : Failure}
    (hb : Fiber.Ends (begin scope) lb (.ok ())) (hf : Fails scope work lf f) :
    Fiber.Comes (bracket scope work) (lb ++ lf) (rollback scope f) := by
  have hconclude : Fiber.Comes (bracket scope work) (lb ++ lf) (conclude scope (.error f)) :=
    hb.comes.trans hf.ends.comes_attempt
  rw [← List.append_nil (lb ++ lf)]
  exact hconclude.trans Fiber.comes_bind

/-- A transaction that has been undone has failed as the work did, or `COMMIT`. -/
theorem Fails.ends_ok {lb lf lr : List (Deed c)} {f : Failure}
    (hb : Fiber.Ends (begin scope) lb (.ok ())) (hf : Fails scope work lf f)
    (hr : Fiber.Ends (rollback scope f) lr (.ok ())) :
    Fiber.Ends (bracket scope work) (lb ++ (lf ++ lr)) (.error f) :=
  Fiber.ends_bind_iff.mpr (.inr ⟨(), lb, _, rfl, hb, Fiber.ends_attempt_bind_iff.mpr
    ⟨.error f, lf, lr, rfl, hf.ends, Fiber.ends_bind_iff.mpr
      (.inr ⟨(), lr, [], by simp, hr, Fiber.ends_throw_iff.mpr ⟨rfl, rfl⟩⟩)⟩⟩)

/-- A transaction whose undoing has failed has failed likewise. -/
theorem Fails.ends_error {lb lf lr : List (Deed c)} {f g : Failure}
    (hb : Fiber.Ends (begin scope) lb (.ok ())) (hf : Fails scope work lf f)
    (hr : Fiber.Ends (rollback scope f) lr (.error g)) :
    Fiber.Ends (bracket scope work) (lb ++ (lf ++ lr)) (.error g) :=
  Fiber.ends_bind_iff.mpr (.inr ⟨(), lb, _, rfl, hb, Fiber.ends_attempt_bind_iff.mpr
    ⟨.error f, lf, lr, rfl, hf.ends, Fiber.ends_bind_iff.mpr (.inl ⟨g, hr, rfl⟩)⟩⟩)

/-- What a transaction asks for in its scope by itself. -/
inductive Controls (scope : ScopeId) (l : List (Deed c)) : Deed c → Prop
  | command {sql : String} {b l₁ : List (Deed c)} {e : Deed c} : l = b ++ l₁ →
      Fiber.Asks (command scope sql) l₁ e → Controls scope l e
  | transition {state : TransactionState} {b l₁ : List (Deed c)} {e : Deed c} : l = b ++ l₁ →
      Fiber.Asks (transition scope state) l₁ e → Controls scope l e
  | log (entry : LogEntry) : Controls scope l (.does (.log entry) ())

/-- Controls of a scope do not depend on what was before. -/
theorem Controls.mono (h : Controls scope l e) (l' : List (Deed c)) :
    Controls scope (l' ++ l) e := by
  cases h with
  | command hl he => exact .command (by rw [hl, List.append_assoc]) he
  | transition hl he => exact .transition (by rw [hl, List.append_assoc]) he
  | log entry => exact .log entry

/-- Controls of a scope ask nothing of a pool. -/
theorem Controls.not_requests (h : Controls scope l e) {w : Pool.Wait} : e ≠ .requests w := by
  rintro rfl
  cases h with
  | command _ he =>
    rcases asks_command he with ⟨_, he⟩ | he | ⟨_, he⟩ | ⟨_, _, _, _, _, -, he⟩ | ⟨_, he⟩
    · cases he
    · exact he
    · cases he
    · cases he
    · cases he
  | transition _ he =>
    rcases asks_transition he with ⟨_, he⟩ | he | he
    · cases he
    · exact he
    · cases he

/-- Undoing a transaction takes controls only. -/
theorem asks_rollback {first : Failure}
    (h : Fiber.Asks (rollback scope first : DatabaseM c Unit) l e) : Controls scope l e := by
  rcases Fiber.asks_attempt_bind_iff.mp h with hr | ⟨o, lr, lt, rfl, hr, ht⟩
  · exact .command (b := []) rfl hr
  -- what is behind the command depends on how that has ended
  cases o with
  | ok u => exact .transition rfl ht
  | error g =>
    cases hg : g.isError with
    | false =>
      simp only [hg, Bool.not_false, if_true] at ht
      exact absurd ht Fiber.not_asks_throw
    | true =>
      simp only [hg, Bool.not_true, Bool.false_eq_true, if_false] at ht
      rcases Fiber.asks_bind_iff.mp ht with hn | ⟨⟨⟩, l₁, l₂, rfl, hn, hl⟩
      · exact .transition rfl hn
      · rcases Fiber.asks_act_bind_iff.mp hl with ⟨-, out, rfl⟩ | ⟨out, _, -, hthrow⟩
        · exact .log _
        · exact absurd hthrow Fiber.not_asks_throw

/-- A transaction asks for what its work asks for, between controls of its scope. -/
theorem asks_bracket (h : Fiber.Asks (bracket scope work) l e) :
    Controls scope l e ∨
      ∃ lb lw, l = lb ++ lw ∧ Fiber.Ends (begin scope) lb (.ok ()) ∧ Fiber.Asks work lw e := by
  rcases Fiber.asks_bind_iff.mp h with hb | ⟨⟨⟩, lb, lt, rfl, hb, ht⟩
  · -- `BEGIN`, and noting it
    rcases Fiber.asks_bind_iff.mp hb with hb | ⟨⟨⟩, lb, lt, rfl, hb, ht⟩
    · exact .inl (.command (b := []) rfl hb)
    · exact .inl (.transition rfl ht)
  rcases Fiber.asks_attempt_bind_iff.mp ht with hf | ⟨o, lf, lz, rfl, hf, hz⟩
  · rcases Fiber.asks_bind_iff.mp hf with hw | ⟨a, lw, lc, rfl, hw, hc⟩
    · exact .inr ⟨lb, lt, rfl, hb, hw⟩
    rcases Fiber.asks_bind_iff.mp hc with hc | ⟨⟨⟩, _, _, rfl, hc, hr⟩
    · exact .inl ((Controls.command (b := lw) rfl hc).mono lb)
    · exact absurd hr Fiber.not_asks_pure
  refine .inl (Controls.mono (Controls.mono ?_ lf) lb)
  -- noting the end, or undoing the transaction
  cases o with
  | ok a =>
    rcases Fiber.asks_bind_iff.mp hz with hn | ⟨⟨⟩, _, _, rfl, hn, hr⟩
    · exact .transition (b := []) rfl hn
    · exact absurd hr Fiber.not_asks_pure
  | error f =>
    rcases Fiber.asks_bind_iff.mp hz with hr | ⟨⟨⟩, _, _, rfl, hr, ht⟩
    · exact asks_rollback hr
    · exact absurd ht Fiber.not_asks_throw

/-- A transaction comes to its work when it has begun. -/
theorem comes_bracket {lb : List (Deed c)} (hb : Fiber.Ends (begin scope) lb (.ok ())) :
    Fiber.Comes (bracket scope work) lb work := by
  rw [← List.append_nil lb]
  exact hb.comes.trans (Fiber.comes_bind.trans (Fiber.comes_attempt.trans Fiber.comes_bind))

end Scope

end PooledSql
