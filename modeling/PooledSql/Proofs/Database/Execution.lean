import PooledSql.Proofs.Database.Tenure

/-!
# Executions of statements

What passes when a statement is run on behalf of a token, and what is reported. A statement is run
once or, if the token has been set before, not at all. A success is reported only if there has been
one; and unless the token is set, what is reported is what the connection has answered, a rejection
being a failure of the statement (`DatabaseM.reported`).
-/

namespace PooledSql

/-- What concerns the failure of a token is not about a connection. -/
theorem Exchange.lease?_of_settles {c : Client} {token : TokenId} {e : Deed c}
    (h : TaskM.Settles token e) : e.lease? = none := by
  rcases h with ⟨out, rfl⟩ | ⟨f, rfl⟩ <;> rfl

namespace DatabaseM

variable {c : Client} {k : LeaseId} {statement : Statement} {token : TokenId}
  {site : Option CallSite} {l : List (Deed c)} {r : Except Failure Result}

/-- How the answer of a connection to a statement is reported: a rejection is a failure of the
statement, if its parameters can be spelled. -/
def reported (statement : Statement) (site : Option CallSite) (ans : Except Failure Result) :
    Except Failure Result :=
  match ans with
  | .ok result => .ok result
  | .error f => .error (if f.isDriver then rejection statement site f else f)

/-- What may be reported of the answer of a connection to a statement, with what becomes of a
rejection: a failure that says which statement it was and with which parameters, or the want of a
numeral for one of these. -/
inductive Reports (statement : Statement) (site : Option CallSite) :
    Except Failure Result → Except Failure Result → Prop
  | result {result : Result} : Reports statement site (.ok result) (.ok result)
  | passed {f : Failure} (hf : f.isDriver = false) : Reports statement site (.error f) (.error f)
  | rejected {f : Failure} (hf : f.isDriver = true)
      (hparams : ∀ v ∈ statement.params, v.isSpelled = true) :
      Reports statement site (.error f) (.error
        (.mk (.rejected f.message statement.sql statement.lineage statement.params site) (some f)
          none []))
  | unspelled {f : Failure} {v : Value} (hf : f.isDriver = true) (hv : v ∈ statement.params)
      (hspelled : v.isSpelled = false) :
      Reports statement site (.error f) (.error (.mk (.number .overlong) none (some f) []))

/-- A success is reported only if there has been one. -/
theorem ok_of_reported {ans : Except Failure Result} {v : Reply}
    (h : (reported statement site ans).map .result = .ok v) : ∃ result, ans = .ok result := by
  cases ans with
  | ok result => exact ⟨result, rfl⟩
  | error f => cases h

/-- The outcome of a run is reported in view of the token. -/
theorem ends_report {outcome : Except Failure Result}
    (h : Fiber.Ends (report statement token site outcome : DatabaseM c Result) l r) :
    TaskM.Settling token (reported statement site outcome) l r := by
  cases outcome with
  | ok result =>
    obtain ⟨rfl, rfl⟩ := Fiber.ends_pure_iff.mp h
    exact .unasked
  | error f =>
    unfold report at h
    unfold reported
    dsimp only at h ⊢
    -- a failure of the driver is looked at in view of the token, any other one is passed on
    cases hdriver : f.isDriver with
    | false =>
      simp only [hdriver, Bool.not_false, if_true] at h
      obtain ⟨rfl, rfl⟩ := Fiber.ends_throw_iff.mp h
      exact .unasked
    | true =>
      simp only [hdriver, Bool.not_true, Bool.false_eq_true, if_false] at h
      obtain ⟨out, lt, rfl, hout⟩ := Fiber.ends_act_bind_iff.mp h
      cases out with
      | true =>
        rcases Fiber.ends_bind_iff.mp hout with ⟨f', hb, rfl⟩ | ⟨a, _, _, -, hb, -⟩
        · obtain ⟨rfl, hf'⟩ := TaskM.ends_raiseCancelledFor hb
          cases hf'
          exact .asked true fun e he => ⟨f, List.mem_singleton.mp he⟩
        · cases (TaskM.ends_raiseCancelledFor hb).2
      | false =>
        obtain ⟨rfl, rfl⟩ := Fiber.ends_throw_iff.mp hout
        exact .asked false (List.forall_mem_nil _)

/-- Waiting for a request to have been dealt with. -/
def waiting (request : TaskId) (ans : Except Failure Reply) : List (Deed c) :=
  [.call (.inl (.joinShielded request)), .answer (.inl (.joinShielded request)) ans]

/-- What passes when it is asked for the request to stop a run, and that is waited for if there is
one. -/
inductive Awaits (run : RunId) : List (Deed c) → Except Failure Unit → Prop
  | none : Awaits run [.enters (.request run) none] (.ok ())
  | some (request : TaskId) (ans : Except Failure Reply) :
      Awaits run (.enters (.request run) (some request) :: waiting request ans)
        (ans.map fun _ => ())

/-- Whether, among some exchanges, it has been asked for the request to stop a run, and that has
been waited for if there is one. -/
def Awaited (run : RunId) (l : List (Deed c)) : Prop := ∃ lw u, Awaits run lw u ∧ lw ⊆ l

/-- What passes after a statement has run: the request to stop the run is waited for, if there is
one, and the outcome is given in view of the token. -/
theorem ends_afterwards {run : RunId} {o : Except Failure Result}
    (h : Fiber.Ends (do
      if let some request ← ledger (.request run) then
        discard (TaskM.joinShielded request)
      let result ← Fiber.ofExcept o
      TaskM.raiseIfCancelled token
      return result : DatabaseM c Result) l r) :
    (∃ f, Awaits run l (.error f) ∧ r = .error f) ∨
      ∃ lw lz, l = lw ++ lz ∧ Awaits run lw (.ok ()) ∧ TaskM.Settling token o lz r := by
  obtain ⟨request, l', rfl, hrequest⟩ := Fiber.ends_act_bind_iff.mp h
  -- what follows the wait, or its absence
  have hend : ∀ {l : List (Deed c)}, Fiber.Ends (do
      let result ← Fiber.ofExcept o
      TaskM.raiseIfCancelled token
      return result : DatabaseM c Result) l r → TaskM.Settling token o l r := by
    intro l h
    rcases Fiber.ends_bind_iff.mp h with ⟨f, ho, rfl⟩ | ⟨result, l₁, l₂, rfl, ho, ht⟩
    · obtain ⟨rfl, rfl⟩ := Fiber.ends_ofExcept_iff.mp ho
      exact .unasked
    obtain ⟨rfl, rfl⟩ := Fiber.ends_ofExcept_iff.mp ho
    rcases TaskM.ends_raiseIfCancelled_bind ht with ⟨rfl, rfl⟩ | ⟨_, rfl, hpure⟩
    · exact .asked true (List.forall_mem_nil _)
    · obtain ⟨rfl, rfl⟩ := Fiber.ends_pure_iff.mp hpure
      exact .asked false (List.forall_mem_nil _)
  cases request with
  | none => exact .inr ⟨[.enters (.request run) none], l', rfl, .none, hend hrequest⟩
  | some request =>
    -- the wait comes right behind the look for the request
    have hjoin : ∀ {l : List (Deed c)} {u : Except Failure Unit},
        Fiber.Ends (discard (TaskM.joinShielded request) : DatabaseM c Unit) l u →
        Awaits run (.enters (.request run) (some request) :: l) u := by
      intro l u hj
      obtain ⟨ans, hans, rfl⟩ := Fiber.ends_map_iff.mp hj
      obtain rfl := Fiber.ends_await_iff.mp hans
      exact .some request ans
    rcases Fiber.ends_bind_iff.mp hrequest with ⟨f, hj, rfl⟩ | ⟨⟨⟩, l₁, l₂, rfl, hj, hrest⟩
    · exact .inl ⟨f, hjoin hj, rfl⟩
    · exact .inr ⟨_, l₂, rfl, hjoin hj, hend hrest⟩

/-- What passes when a statement is run on behalf of a token, and the outcome. -/
inductive Executes (k : LeaseId) (statement : Statement) (token : TokenId)
    (site : Option CallSite) : List (Deed c) → Except Failure Result → Prop
  /-- The token has been set before. -/
  | refused : Executes k statement token site [.does (.isCancelled token) true]
      (.error (.cancelled token))
  /-- The wait for the request to stop the run has failed. -/
  | disturbed {run : RunId} {ans o : Except Failure Result} {lr lw : List (Deed c)} {f : Failure} :
      TaskM.Settling token (reported statement site ans) lr o → Awaits run lw (.error f) →
      Executes k statement token site (preparing k run statement token ++
        (running k run statement ans ++
          (lr ++ .does (.unregister token (Interrupt.mk k run)) () :: lw))) (.error f)
  | done {run : RunId} {ans o r : Except Failure Result} {lr lw lz : List (Deed c)} :
      TaskM.Settling token (reported statement site ans) lr o → Awaits run lw (.ok ()) →
      TaskM.Settling token o lz r →
      Executes k statement token site (preparing k run statement token ++
        (running k run statement ans ++
          (lr ++ .does (.unregister token (Interrupt.mk k run)) () :: (lw ++ lz)))) r

/-- A statement is left alone if its token has been set before, and otherwise runs once. -/
theorem ends_execute (h : Fiber.Ends (execute k statement token site : DatabaseM c Result) l r) :
    Executes k statement token site l r := by
  rcases TaskM.ends_raiseIfCancelled_bind h with ⟨rfl, rfl⟩ | ⟨_, rfl, hrest⟩
  · exact .refused
  -- step by step: the run, its registration, the entry in the log, the request, the report, and
  -- taking the registration back
  obtain ⟨run, _, rfl, hrun⟩ := Fiber.ends_act_bind_iff.mp hrest
  obtain ⟨⟨⟩, _, rfl, hregister⟩ := Fiber.ends_act_bind_iff.mp hrun
  obtain ⟨⟨⟩, _, rfl, hlog⟩ := Fiber.ends_act_bind_iff.mp hregister
  obtain ⟨ans, _, l₃, rfl, hans, hreport⟩ := Fiber.ends_attempt_bind_iff.mp hlog
  obtain rfl := Fiber.ends_await_iff.mp hans
  obtain ⟨o, l₄, l₅, rfl, ho, hunregister⟩ := Fiber.ends_attempt_bind_iff.mp hreport
  obtain ⟨⟨⟩, _, rfl, hlast⟩ := Fiber.ends_act_bind_iff.mp hunregister
  rcases ends_afterwards hlast with ⟨f, hw, rfl⟩ | ⟨lw, lz, rfl, hw, hz⟩
  · exact .disturbed (ends_report ho) hw
  · exact .done (ends_report ho) hw hz

/-- Raising the failure of a token takes no time. -/
theorem not_asks_raise_call {w : (c.setting.interface.sum c.requests).Wait} :
    ¬ Fiber.Asks (TaskM.raiseIfCancelled token : DatabaseM c Unit) l (.call w) := by
  intro h
  rcases TaskM.asks_raiseIfCancelled h with ⟨out, he⟩ | ⟨f, he⟩ <;> cases he

/-- Running a statement waits for the connection to run it, and then for the request to stop the
run, if there is one. -/
theorem asks_execute_call {w : (c.setting.interface.sum c.requests).Wait}
    (h : Fiber.Asks (execute k statement token site : DatabaseM c Result) l (.call w)) :
    (∃ run, l = preparing k run statement token ∧ w = .inr (.inl (.execute k run statement))) ∨
      ∃ run ans lr o request, l = preparing k run statement token ++
        (running k run statement ans ++ (lr ++ [.does (.unregister token (Interrupt.mk k run)) (),
          .enters (.request run) (some request)])) ∧
        TaskM.Settling token (reported statement site ans) lr o ∧
        w = .inl (.joinShielded request) := by
  rcases Fiber.asks_bind_iff.mp h with hr | ⟨⟨⟩, l₁, _, rfl, hunset, hr⟩
  · exact absurd hr not_asks_raise_call
  obtain rfl := TaskM.unset_of_raiseIfCancelled hunset
  -- nothing is waited for up to the request
  rcases Fiber.asks_act_bind_iff.mp hr with ⟨-, _, he⟩ | ⟨run, _, rfl, hrun⟩
  · cases he
  rcases Fiber.asks_act_bind_iff.mp hrun with ⟨-, _, he⟩ | ⟨⟨⟩, _, rfl, hregister⟩
  · cases he
  rcases Fiber.asks_act_bind_iff.mp hregister with ⟨-, _, he⟩ | ⟨⟨⟩, _, rfl, hlog⟩
  · cases he
  rcases Fiber.asks_attempt_bind_iff.mp hlog with hw | ⟨ans, _, _, rfl, hw, ho⟩
  · obtain ⟨rfl, he⟩ := Fiber.asks_await_iff.mp hw
    cases he
    exact .inl ⟨run, rfl, rfl⟩
  obtain rfl := Fiber.ends_await_iff.mp hw
  -- nor while the answer is reported
  rcases Fiber.asks_attempt_bind_iff.mp ho with hp | ⟨o, lr, _, rfl, hp, ho'⟩
  · rcases asks_report hp with ⟨out, he⟩ | ⟨f, he⟩ <;> cases he
  rcases Fiber.asks_act_bind_iff.mp ho' with ⟨-, _, he⟩ | ⟨⟨⟩, _, rfl, hun⟩
  · cases he
  rcases Fiber.asks_act_bind_iff.mp hun with ⟨-, _, he⟩ | ⟨request, _, rfl, hrequest⟩
  · cases he
  -- once the request has been dealt with there is nothing more to wait for
  have hend : ∀ {l : List (Deed c)}, ¬ Fiber.Asks (do
      let result ← Fiber.ofExcept o
      TaskM.raiseIfCancelled token
      return result : DatabaseM c Result) l (.call w) := by
    intro l h
    rcases Fiber.asks_bind_iff.mp h with h | ⟨result, _, _, -, -, h⟩
    · exact absurd h Fiber.not_asks_ofExcept
    rcases Fiber.asks_bind_iff.mp h with h | ⟨⟨⟩, _, _, -, -, h⟩
    · exact not_asks_raise_call h
    · exact absurd h Fiber.not_asks_pure
  cases request with
  | none => exact absurd hrequest hend
  | some request =>
    rcases Fiber.asks_bind_iff.mp hrequest with hj | ⟨⟨⟩, _, _, -, -, h⟩
    · obtain ⟨rfl, he⟩ := Fiber.asks_await_iff.mp (Fiber.asks_map_iff.mp hj)
      cases he
      exact .inr ⟨run, ans, lr, o, request, rfl, ends_report hp, rfl⟩
    · exact absurd h hend

/-- What an outcome is given as, after some exchanges on behalf of a token and a run that may
replace it. -/
inductive Replaces {α : Type} (token : TokenId) (run : RunId) (l : List (Deed c))
    (o : Except Failure α) : Except Failure α → Prop
  | same : Replaces token run l o o
  /-- The token has been found set. -/
  | cancelled : .does (.isCancelled token) true ∈ l →
      Replaces token run l o (.error (.cancelled token))
  /-- A wait for the request to stop the run has failed. -/
  | disturbed {request : TaskId} {f : Failure} : .enters (.request run) (some request) ∈ l →
      .answer (.inl (.joinShielded request)) (.error f) ∈ l → Replaces token run l o (.error f)

namespace Replaces

variable {α β : Type} {run : RunId} {l' : List (Deed c)} {o o' r : Except Failure α}

/-- More exchanges give more ways to replace an outcome. -/
theorem mono (h : Replaces token run l o r) (hl : l ⊆ l') : Replaces token run l' o r := by
  cases h with
  | same => exact .same
  | cancelled hset => exact .cancelled (hl hset)
  | disturbed hrequest hf => exact .disturbed (hl hrequest) (hl hf)

/-- What has been given in view of the token is the outcome or the failure of the token. -/
theorem of_settling (h : TaskM.Settling token o l r) : Replaces token run l o r := by
  rcases h.eq_or_cancelled with rfl | ⟨hset, rfl⟩
  · exact .same
  · exact .cancelled hset

/-- What replaces an outcome may be replaced in turn. -/
theorem trans (h : Replaces token run l o o') (h' : Replaces token run l o' r) :
    Replaces token run l o r := by
  cases h' with
  | same => exact h
  | cancelled hset => exact .cancelled hset
  | disturbed hrequest hf => exact .disturbed hrequest hf

/-- A function of the outcome is replaced in the same way. -/
theorem map {g : α → β} (h : Replaces token run l o r) :
    Replaces token run l (o.map g) (r.map g) := by
  cases h with
  | same => exact .same
  | cancelled hset => exact .cancelled hset
  | disturbed hrequest hf => exact .disturbed hrequest hf

/-- A success is not replaced. -/
theorem eq_of_ok {a : α} (h : Replaces token run l o (.ok a)) : o = .ok a := by
  cases h
  rfl

end Replaces

/-- The wait for a request takes place on no connection. -/
theorem lease?_of_awaits {run : RunId} {u : Except Failure Unit} (h : Awaits run l u) :
    ∀ e ∈ l, e.lease? = none := by
  cases h with
  | none => simp [Exchange.lease?]
  | some request ans => simp [waiting, Exchange.lease?]

/-- A wait for a request fails when that has failed. -/
theorem disturbed_of_awaits {run : RunId} {f : Failure} (h : Awaits run l (.error f)) :
    ∃ request, l = .enters (.request run) (some request) :: waiting request (.error f) := by
  generalize hu : (Except.error f : Except Failure Unit) = u at h
  cases h with
  | none => cases hu
  | some request ans =>
    cases ans with
    | ok v => cases hu
    | error g =>
      cases hu
      exact ⟨request, rfl⟩

/-- A statement is left alone if its token has been set before, and otherwise it runs once, the
request to stop the run is waited for, and the answer of the connection is reported unless something
takes its place. -/
theorem Executes.cases (h : Executes k statement token site l r) :
    (l = [.does (.isCancelled token) true] ∧ r = .error (.cancelled token)) ∨
      ∃ run ans after,
        l = preparing k run statement token ++ (running k run statement ans ++ after) ∧
        (∀ e ∈ after, e.lease? = none) ∧ Awaited run after ∧
        Replaces token run after (reported statement site ans) r := by
  have hidle : ∀ {o o' : Except Failure Result} {l : List (Deed c)}, TaskM.Settling token o l o' →
      ∀ e ∈ l, e.lease? = none :=
    fun hz e he => Exchange.lease?_of_settles (hz.settles e he)
  cases h with
  | refused => exact .inl ⟨rfl, rfl⟩
  | @disturbed run ans o lr lw f hr hw =>
    refine .inr ⟨run, ans, _, rfl, ?_, ⟨lw, _, hw, ?_⟩, ?_⟩
    · simp only [List.mem_append, List.mem_cons]
      rintro e (he | rfl | he)
      · exact hidle hr e he
      · rfl
      · exact lease?_of_awaits hw e he
    · exact fun e he => List.mem_append_right _ (List.mem_cons_of_mem _ he)
    · obtain ⟨request, rfl⟩ := disturbed_of_awaits hw
      have hmem : ∀ {x : Deed c}, x ∈ waiting request (.error f) →
          x ∈ lr ++ .does (.unregister token (Interrupt.mk k run)) () ::
            .enters (.request run) (some request) :: waiting request (.error f) :=
        fun hx => List.mem_append_right _ (List.mem_cons_of_mem _ (List.mem_cons_of_mem _ hx))
      -- the failure is that of the wait for the request
      refine .disturbed (List.mem_append_right _ ?_)
        (hmem (List.mem_cons_of_mem _ (List.mem_cons_self ..)))
      exact List.mem_cons_of_mem _ (List.mem_cons_self ..)
  | @done run ans o _ lr lw lz hr hw hz =>
    refine .inr ⟨run, ans, _, rfl, ?_, ⟨lw, _, hw, ?_⟩, ?_⟩
    · simp only [List.mem_append, List.mem_cons]
      rintro e (he | rfl | he | he)
      · exact hidle hr e he
      · rfl
      · exact lease?_of_awaits hw e he
      · exact hidle hz e he
    · exact fun e he => List.mem_append_right _ (List.mem_cons_of_mem _ (List.mem_append_left _ he))
    · -- the answer may be replaced when it is reported, and again at the end
      refine Replaces.trans ((Replaces.of_settling hr).mono ?_) ((Replaces.of_settling hz).mono ?_)
      · exact List.subset_append_left ..
      · intro e he
        simp [he]

/-- A query of a scope runs its statement as it is run, and what concerns its token passes
afterwards. -/
theorem ends_scoped {client : c.Task → DatabaseM c Reply} {r : Except Failure Reply}
    (h : Fiber.Ends (TaskM.settle token (Work.meaning client (.scoped k statement token))) l r) :
    (.does (.isCancelled token) true ∈ l ∧ (∀ e ∈ l, e.lease? = none) ∧ ∀ v, r ≠ .ok v) ∨
      ∃ run ans after,
        l = preparing k run statement token ++ (running k run statement ans ++ after) ∧
        (∀ e ∈ after, e.lease? = none) ∧
        Replaces token run after ((reported statement (some .here) ans).map .result) r := by
  obtain ⟨o, lw, lz, rfl, hw, hz, -⟩ := TaskM.ends_settle h
  obtain ⟨o', hexecute, rfl⟩ := Fiber.ends_map_iff.mp hw
  have hlz : ∀ e ∈ lz, e.lease? = none := fun e he => Exchange.lease?_of_settles (hz.settles e he)
  -- the statement has been left alone, or it has run
  rcases (ends_execute hexecute).cases with ⟨rfl, rfl⟩ | ⟨run, ans, after, rfl, hidle, -, hr⟩
  · refine .inl ⟨List.mem_append_left _ (List.mem_singleton_self _), ?_, ?_⟩
    · intro e he
      rcases List.mem_append.mp he with he | he
      · rw [List.mem_singleton.mp he]
        rfl
      · exact hlz e he
    · rintro v rfl
      rcases hz.eq_or_cancelled with hv | ⟨-, hv⟩ <;> cases hv
  · refine .inr ⟨run, ans, after ++ lz, by simp, ?_, ?_⟩
    · exact fun e he => (List.mem_append.mp he).elim (hidle e) (hlz e)
    · exact (hr.map.mono (List.subset_append_left ..)).trans
        ((Replaces.of_settling hz).mono (List.subset_append_right ..))

end DatabaseM

end PooledSql
