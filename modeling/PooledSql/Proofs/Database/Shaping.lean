import PooledSql.Proofs.Database.Dealing
import PooledSql.Proofs.Task.Tree

/-!
# Parts of results

Whoever asks for a part of a query's result waits for a task that derives from the query, or for the
query itself if all of the result is asked for (`DatabaseM.Shaping`).

* `Regime.Possible.finish_of_issued`: the part is what its shape names of the result of the query.
* `Regime.Possible.dealings_of_issued`: what derives from the query asks the pools for nothing, and
  whoever waits deals with them before the query does, or after.
* `Regime.Run.waits_of_issued`: whoever waits for ever waits for a query that waits itself.
-/

namespace PooledSql

variable {c : Client} {D : Surroundings c} {g g₀ g' h : History c.setting c.requests}
  {i j t : TaskId} {token : TokenId} {shape : Shape} {q : Query} {u ls rest : List (Deed c)}
  {r : Except Failure Reply} {body : Work c}

namespace DatabaseM

variable {l : List (Deed c)}

/-- Naming the part of a query's result that is to be waited for, and the task that ends with it. -/
inductive Shaping (shape : Shape) (q : Query) : List (Deed c) → TaskId → Prop
  | whole : shape = .result → Shaping shape q [] q.task
  | part (d : TaskId) : shape ≠ .result →
      Shaping shape q [.does (.spawn (.derived q.task shape.ofReply q.token)) d] d

/-- Naming a part of a result is not seen by a pool. -/
theorem Shaping.unseen (hs : Shaping shape q ls t) :
    Exchange.dealings ls = [] := by cases hs <;> rfl

/-- Naming a part of a result does not take time. -/
theorem Shaping.acts (hs : Shaping shape q ls t) : ∀ x ∈ ls, ¬ x.IsAnswer := by
  cases hs with
  | whole => exact List.forall_mem_nil _
  | part d => exact List.forall_mem_singleton.mpr id

/-- The task that ends with a part of a query's result is the query, or is started for it. -/
theorem Shaping.mem_crew {i : TaskId} (hs : Shaping shape q ls t) :
    t ∈ i :: q.task :: Exchange.starts ls := by
  cases hs with
  | whole => exact List.mem_cons_of_mem _ (List.mem_cons_self ..)
  | part => exact List.mem_cons_of_mem _ (List.mem_cons_of_mem _ (List.mem_singleton_self _))

/-- A shape names a part of a query's result at once. -/
theorem shaping_of_ends {o : Except Failure Query}
    (h : Fiber.Ends (shaped shape q : DatabaseM c Query) l o) :
    ∃ q' : Query, o = .ok q' ∧ Shaping shape q l q'.task := by
  have hderived : ∀ {f : Reply → Except Failure Reply},
      Fiber.Ends (q.derive (S := c.setting) f : DatabaseM c Query) l o → ∃ d,
        o = .ok { task := d, token := q.token } ∧
        l = [.does (.spawn (.derived q.task f q.token)) d] := by
    intro f hf
    obtain ⟨d, _, rfl, hd⟩ := Fiber.ends_act_bind_iff.mp hf
    obtain ⟨rfl, rfl⟩ := Fiber.ends_pure_iff.mp hd
    exact ⟨d, rfl, rfl⟩
  -- every shape but the whole result starts a task that derives from the query
  cases shape with
  | result =>
    obtain ⟨rfl, rfl⟩ := Fiber.ends_pure_iff.mp h
    exact ⟨q, rfl, .whole rfl⟩
  | rows | row | value | column =>
    obtain ⟨d, rfl, rfl⟩ := hderived h
    exact ⟨_, rfl, .part d nofun⟩

/-- Naming a part of a result asks for nothing that takes time. -/
theorem not_asks_shaped_call {w : (c.setting.interface.sum c.requests).Wait} :
    ¬ Fiber.Asks (shaped shape q : DatabaseM c Query) l (.call w) := by
  intro h
  have hderived : ∀ {f : Reply → Except Failure Reply},
      ¬ Fiber.Asks (q.derive (S := c.setting) f : DatabaseM c Query) l (.call w) := by
    intro f hf
    rcases Fiber.asks_act_bind_iff.mp hf with ⟨-, d, he⟩ | ⟨d, _, -, hd⟩
    · cases he
    · exact Fiber.not_asks_pure hd
  cases shape with
  | result => exact Fiber.not_asks_pure h
  | rows | row | value | column => exact hderived h

/-- A part of a query's result comes with the task that ends with it. -/
theorem ends_shaped (h : Fiber.Ends (do (← shaped shape q).result : DatabaseM c Reply) l r) :
    ∃ ls t, Shaping shape q ls t ∧ l = ls ++ [.joins t, .joined t r] := by
  -- naming the part does not fail, so what is left is the wait for the task
  rcases Fiber.ends_bind_iff.mp h with ⟨f, hf, -⟩ | ⟨q', ls, _, rfl, hs, hjoin⟩
  · obtain ⟨q', hq', -⟩ := shaping_of_ends hf
    cases hq'
  · obtain ⟨_, hq', hs⟩ := shaping_of_ends hs
    cases hq'
    obtain rfl := Fiber.ends_await_iff.mp hjoin
    exact ⟨ls, _, hs, rfl⟩

/-- All that is waited for is the task that ends with the part of the result. -/
theorem asks_shaped {w : (c.setting.interface.sum c.requests).Wait}
    (h : Fiber.Asks (do (← shaped shape q).result : DatabaseM c Reply) l (.call w)) :
    ∃ t, Shaping shape q l t ∧ w = .inl (.join t) := by
  rcases Fiber.asks_bind_iff.mp h with hs | ⟨q', ls, _, rfl, hs, hjoin⟩
  · exact absurd hs not_asks_shaped_call
  · obtain ⟨_, hq', hs⟩ := shaping_of_ends hs
    cases hq'
    obtain ⟨rfl, he⟩ := Fiber.asks_await_iff.mp hjoin
    cases he
    exact ⟨_, by simpa using hs, rfl⟩

end DatabaseM

/-- What a shape names of a result is what it names of the reply with that result. -/
theorem Shape.bind_ofReply {o : Except Failure Result} :
    (o.map .result).bind shape.ofReply = o.bind shape.ofResult := by cases o <;> rfl

namespace Regime.Possible

/-- The wait for a task is over with the end of the task if no interruption reaches the one who
waits. -/
theorem finish_of_joined (hp : D.regime.Possible (g ++ .deed i (.joined t r) :: g'))
    (hcalm : .interrupt i ∉ g) : .finish t r ∈ g := by
  exact hp.resolves.resolve_right fun hint => hcalm hint.2

/-- A task does not start itself. -/
theorem ne_of_spawn {job : Job c.setting}
    (hp : D.regime.Possible (g ++ .deed i (.does (.spawn job) j) :: g')) : i ≠ j := by
  obtain ⟨⟨job', hjob'⟩, -⟩ := hp.started_of_deed
  rw [hp.eq_length_of_spawn]
  exact Nat.ne_of_lt (List.getElem?_eq_some_iff.mp hjob').1

/-- A query that derives from another one asks the pools for nothing. -/
theorem unseen_of_derived {f : Reply → Except Failure Reply} (hp : D.regime.Possible h)
    (hjob : h.jobs[t]? = some (.derived j f token)) : Exchange.dealings (h.of t) = [] := by
  -- it waits for the other query, and looks at the token
  have hasks : ∀ {l : List (Deed c)} {e : Deed c}, Fiber.Asks (TaskM.settle token do
      Fiber.ofExcept (f (← TaskM.join j)) : DatabaseM c Reply) l e →
        e = .joins j ∨ TaskM.Settles token e := by
    intro l e h
    refine (TaskM.asks_settle h).imp_left fun h => ?_
    rcases Fiber.asks_await_bind_iff.mp h with ⟨-, he⟩ | ⟨v, _, -, hv⟩
    · exact he
    · exact absurd hv Fiber.not_asks_ofExcept
  -- neither is seen by the pools
  refine List.filterMap_eq_nil_iff.mpr fun e he => ?_
  obtain ⟨p, p', rfl⟩ := List.append_of_mem (History.mem_of_iff.mp he)
  cases e with
  | answer w ans =>
    obtain ⟨l, -, hw⟩ := hp.asks_of_answer (hp.job_before hjob)
    rcases hasks hw with he | ⟨_, he⟩ | ⟨_, he⟩
    · cases he
      rfl
    · cases he
    · cases he
  | act r out =>
    rcases hasks (hp.asks_of_job hjob id) with he | ⟨_, he⟩ | ⟨_, he⟩
    · cases he
    · cases he
      rfl
    · cases he
      rfl
  | call w =>
    rcases hasks (hp.asks_of_job hjob id) with he | ⟨_, he⟩ | ⟨_, he⟩
    · cases he
      rfl
    · cases he
    · cases he

/-- A part of a query's result is had after the query has ended, and is what the shape names of the
result. -/
theorem finish_of_shaping (hp : D.regime.Possible h) (hs : DatabaseM.Shaping shape q ls t)
    (hls : ∀ x ∈ ls, .deed i x ∈ h) (hcalm : .interrupt t ∉ h) (hfree : ¬ h.Cancelled q.token)
    (hfinish : .finish t r ∈ h) :
    ∃ r', .finish q.task r' ∈ h ∧
      ∀ o : Except Failure Result, r' = o.map .result → r = o.bind shape.ofResult := by
  -- the whole result is what the query itself ends with; a part comes from the task that derives
  -- from it
  cases hs with
  | whole hshape =>
    subst hshape
    refine ⟨r, hfinish, ?_⟩
    rintro o rfl
    cases o <;> rfl
  | part d hshape =>
    obtain ⟨p, p', rfl⟩ := List.append_of_mem hfinish
    obtain ⟨s, s', hs⟩ := List.append_of_mem (hls _ (List.mem_singleton_self _))
    have hjob := hs ▸ (hs ▸ hp).job_of_spawned
    obtain ⟨r', hr', hz⟩ :=
      hp.finish_of_derived hjob fun hint => hcalm (List.mem_append_left _ hint)
    refine ⟨r', List.mem_append_left _ hr', ?_⟩
    rintro o rfl
    -- the outcome of the derived task is replaced only if the token has been set
    cases hz with
    | unset _ => exact Shape.bind_ofReply
    | own hset => exact absurd hset.mono hfree
    | kept hset _ _ => exact absurd hset.mono hfree

/-- What ends with a part of a query's result derives from the query, and asks the pools for nothing
unless it is the query itself. -/
theorem tree_of_shaping (hs : DatabaseM.Shaping shape { task := j, token } ls t)
    (hp : D.regime.Possible (g ++ .deed i (.does (.spawn (.query body token)) j) ::
      (ls.map (.deed i) ++ g'))) :
    History.Tree (g ++ .deed i (.does (.spawn (.query body token)) j) ::
      (ls.map (.deed i) ++ g')) token j t ∧
      ∀ t' ∈ Exchange.starts ls, Exchange.dealings
        (History.of (g ++ .deed i (.does (.spawn (.query body token)) j) ::
          (ls.map (.deed i) ++ g')) t') = [] := by
  have hroot := History.Tree.root hp.job_of_spawned
  cases hs with
  | whole => exact ⟨hroot, List.forall_mem_nil _⟩
  | part _ hshape =>
    have hlast : D.regime.Possible ((g ++ [.deed i (.does (.spawn (.query body token)) j)]) ++
        .deed i (.does (.spawn (.derived j shape.ofReply token)) t) :: g') := by
      simpa using hp
    have hjob : (History.jobs (g ++ .deed i (.does (.spawn (.query body token)) j) ::
        ([.does (.spawn (.derived j shape.ofReply token)) t].map (.deed i) ++ g')))[t]? =
          some (.derived j shape.ofReply token) := by
      simpa using hlast.job_of_spawned
    -- the derived task is started after the query, and tasks are named in order
    have hlt : j < t := by
      rw [hlast.eq_length_of_spawn, hp.eq_length_of_spawn]
      simp [Happening.job?]
    exact ⟨hroot.derived hjob hlt, List.forall_mem_singleton.mpr (hp.unseen_of_derived hjob)⟩

/-- A query that has been issued, and the part of its result that is waited for: the query has done
nothing before the wait begins, and what derives from it asks the pools for nothing. -/
theorem issued_shaping (hp : D.regime.Possible (g₀ ++ g))
    (hs : DatabaseM.Shaping shape { task := j, token } ls t)
    (hof : g.of i = u ++ .does (.spawn (.query body token)) j :: (ls ++ .joins t :: rest)) :
    (History.jobs (g₀ ++ g))[j]? = some (.query body token) ∧ History.Tree (g₀ ++ g) token j t ∧
      (∀ t' ∈ Exchange.starts ls, Exchange.dealings ((g₀ ++ g).of t') = []) ∧
      ∃ a b : History c.setting c.requests, g = a ++ .deed i (.joins t) :: b ∧
        a.of i = u ++ .does (.spawn (.query body token)) j :: ls ∧ b.of i = rest ∧
        (g₀ ++ a).of j = [] := by
  obtain ⟨a, b, rfl, ha, hb⟩ :=
    History.exists_split_of (l := u ++ .does (.spawn (.query body token)) j :: ls)
      (by simpa using hof)
  have hpa : D.regime.Possible ((g₀ ++ a) ++ .deed i (.joins t) :: b) := by simpa using hp
  -- from the start of the query until the wait begins, nobody else has a turn
  have hissued : (g₀ ++ a).of i = (g₀.of i ++ u) ++ .does (.spawn (.query body token)) j :: ls := by
    simp [ha]
  obtain ⟨p, hpeq, -⟩ := hpa.stretch id (List.forall_mem_cons.mpr ⟨id, hs.acts⟩) hissued
  have hall : g₀ ++ (a ++ .deed i (.joins t) :: b) =
      p ++ .deed i (.does (.spawn (.query body token)) j) ::
      (ls.map (.deed i) ++ .deed i (.joins t) :: b) := by
    rw [← List.append_assoc, hpeq]
    simp
  have hps := hall ▸ hp
  have hnil : (g₀ ++ a).of j = [] := by
    rw [hpeq, History.of_append, hps.of_eq_nil_of_spawn, List.nil_append]
    exact History.of_map_deed_of_ne hps.ne_of_spawn
  obtain ⟨htree, hunseen⟩ := tree_of_shaping hs hps
  exact ⟨hall ▸ hps.job_of_spawned, hall ▸ htree, hall ▸ hunseen, a, b, rfl, ha, hb, hnil⟩

/-- Where the wait for a part of a query's result is over, the query has ended, and the part is what
the shape names of the result. -/
theorem finish_of_issued (hp : D.regime.Possible (g₀ ++ g))
    (hs : DatabaseM.Shaping shape { task := j, token } ls t)
    (hof : g.of i = u ++ .does (.spawn (.query body token)) j ::
      (ls ++ .joins t :: .joined t r :: rest))
    (hcalm : .interrupt i ∉ g₀ ++ g) (hcalmt : .interrupt t ∉ g₀ ++ g)
    (hfree : ¬ History.Cancelled (g₀ ++ g) token) :
    ∃ r', .finish j r' ∈ g₀ ++ g ∧
      ∀ o : Except Failure Result, r' = o.map .result → r = o.bind shape.ofResult := by
  have hmem : ∀ {x : Deed c}, x ∈ g.of i → .deed i x ∈ g₀ ++ g := fun hx =>
    List.mem_append_right _ (History.mem_of_iff.mp hx)
  have hls : ∀ x ∈ ls, .deed i x ∈ g₀ ++ g := fun x hx => hmem (by simp [hof, hx])
  -- the wait is answered with the end of the task
  obtain ⟨p, p', hpeq⟩ := List.append_of_mem (hmem (x := .joined t r) (by simp [hof]))
  rw [hpeq] at hp hcalm hcalmt hfree hls ⊢
  have hfinish := hp.finish_of_joined fun hint => hcalm (List.mem_append_left _ hint)
  exact hp.finish_of_shaping hs hls hcalmt hfree (List.mem_append_left _ hfinish)

/-- A query does nothing any more when the wait for a part of its result is over. -/
theorem of_eq_nil_after_joined (hp : D.regime.Possible (g ++ .deed i (.joined t r) :: g'))
    (hs : DatabaseM.Shaping shape q ls t) (hls : ∀ x ∈ ls, .deed i x ∈ g) (hcalm : .interrupt i ∉ g)
    (hcalmt : .interrupt t ∉ g) (hfree : ¬ g.Cancelled q.token) : g'.of q.task = [] := by
  obtain ⟨r', hr', -⟩ :=
    hp.of_append.finish_of_shaping hs hls hcalmt hfree (hp.finish_of_joined hcalm)
  rw [List.append_cons] at hp
  exact hp.of_eq_nil_of_finished (History.Finished.mono ⟨r', hr'⟩)

/-- From when a part of a query's result is waited for, the pools get to see what the query does,
and then what the one who waits does when the wait is over. -/
theorem dealings_of_joins (hp : D.regime.Possible (g ++ .deed i (.joins t) :: g'))
    (hs : DatabaseM.Shaping shape { task := j, token } ls t) (hls : ∀ x ∈ ls, .deed i x ∈ g)
    (hunseen : ∀ t' ∈ Exchange.starts ls, Exchange.dealings (g'.of t') = [])
    (hcalm : .interrupt i ∉ g ++ .deed i (.joins t) :: g')
    (hcalmt : .interrupt t ∉ g ++ .deed i (.joins t) :: g')
    (hfree : ¬ History.Cancelled (g ++ .deed i (.joins t) :: g') token) :
    g'.dealings (i :: j :: Exchange.starts ls) =
      Exchange.dealings (g'.of j) ++ Exchange.dealings (g'.of i) := by
  cases hi : g'.of i with
  | nil => rw [History.dealings_right hunseen hi, Exchange.dealings_nil, List.append_nil]
  | cons x rest =>
    have hanswer : History.of (g ++ .deed i (.joins t) :: g') i =
        g.of i ++ .call (.inl (.join t)) :: x :: rest := by simp [Happening.deed?, hi]
    obtain ⟨r, rfl⟩ := hp.answered hanswer
    obtain ⟨b₁, b₂, rfl, hb₁, hb₂⟩ := History.exists_split_of (l := []) hi
    -- the wait is over when the query is, and not before
    rw [← List.cons_append, ← List.append_assoc] at hp hcalm hcalmt hfree
    have hover : History.of b₂ j = [] := hp.of_eq_nil_after_joined hs
      (fun x hx => List.mem_append_left _ (hls x hx))
      (fun hint => hcalm (List.mem_append_left _ hint))
      (fun hint => hcalmt (List.mem_append_left _ hint)) fun hset => hfree hset.mono
    -- what derives from the query is not seen by the pools, neither before the end of the wait nor
    -- after
    have hparts : ∀ t' ∈ Exchange.starts ls, Exchange.dealings (b₁.of t') = [] ∧
        Exchange.dealings (History.of b₂ t') = [] := fun t' ht' => by
      have hboth := hunseen t' ht'
      rw [History.of_append, Exchange.dealings_append, History.dealings_of_unseen rfl] at hboth
      exact List.append_eq_nil_iff.mp hboth
    rw [History.of_append, Exchange.dealings_append, History.dealings_of_unseen rfl, hover,
      History.dealings_append, History.dealings_cons_of_unseen rfl,
      History.dealings_right (fun t' ht' => (hparts t' ht').1) hb₁,
      History.dealings_left (fun t' ht' => (hparts t' ht').2) hover, hb₂]
    simp [Exchange.dealing?]

/-- The pools get to see of a query that has been issued what the one who issues it does before and
afterwards, and what the query does in between. -/
theorem dealings_of_issued (hp : D.regime.Possible (g₀ ++ g))
    (hs : DatabaseM.Shaping shape { task := j, token } ls t)
    (hof : g.of i = u ++ .does (.spawn (.query body token)) j :: (ls ++ .joins t :: rest))
    (hu : Exchange.starts u = []) (hrest : Exchange.starts rest = [])
    (hcalm : ∀ t' ∈ g.crew i, .interrupt t' ∉ g₀ ++ g)
    (hfree : ¬ History.Cancelled (g₀ ++ g) token) :
    g.dealings (g.crew i) =
      Exchange.dealings u ++ Exchange.dealings ((g₀ ++ g).of j) ++ Exchange.dealings rest := by
  have hcrew : g.crew i = i :: j :: Exchange.starts ls := by
    simp [History.crew, hof, hu, hrest, Exchange.started?]
  obtain ⟨-, -, hderived, a, b, rfl, ha, hb, hnil⟩ := hp.issued_shaping hs hof
  rw [hcrew] at hcalm ⊢
  obtain ⟨-, hj⟩ := List.append_eq_nil_iff.mp (History.of_append ▸ hnil)
  -- the wait splits the history: before it only the issuer has been seen, after it the query and
  -- then the issuer
  have hunseen : ∀ t' ∈ Exchange.starts ls, Exchange.dealings (a.of t') = [] ∧
      Exchange.dealings (b.of t') = [] := fun t' ht' => by
    have hall := hderived t' ht'
    rw [History.of_append, Exchange.dealings_append, History.of_append, Exchange.dealings_append,
      History.dealings_of_unseen rfl] at hall
    exact List.append_eq_nil_iff.mp (List.append_eq_nil_iff.mp hall).2
  have hbefore : a.dealings (i :: j :: Exchange.starts ls) = Exchange.dealings u := by
    rw [History.dealings_left (fun t' ht' => (hunseen t' ht').1) hj, ha]
    simp [hs.unseen, Exchange.dealing?]
  have hquery : Exchange.dealings (History.of (g₀ ++ (a ++ .deed i (.joins t) :: b)) j) =
      Exchange.dealings (b.of j) := by
    rw [← List.append_assoc, History.of_append, hnil, List.nil_append,
      History.dealings_of_unseen rfl]
  have hls : ∀ x ∈ ls, .deed i x ∈ g₀ ++ a := fun x hx =>
    List.mem_append_right _ (History.mem_of_iff.mp (by simp [ha, hx]))
  rw [← List.append_assoc] at hp hcalm hfree
  have hafter := hp.dealings_of_joins hs hls (fun t' ht' => (hunseen t' ht').2)
    (hcalm i (List.mem_cons_self ..)) (hcalm t hs.mem_crew) hfree
  rw [History.dealings_append, hbefore, History.dealings_cons_of_unseen rfl, hafter, hquery, hb,
    List.append_assoc]

end Regime.Possible

/-- When there are no more turns, a query waits that somebody waits for a part of the result of. -/
theorem Regime.Run.waits_of_issued {m : Machine c.setting c.requests (Ledger × D.World)}
    (hr : D.regime.Run (g₀ ++ g) m) (hturns : m.turns = [])
    (hs : DatabaseM.Shaping shape { task := j, token } ls t)
    (hof : g.of i = u ++ .does (.spawn (.query body token)) j :: (ls ++ [.joins t]))
    (hcalm : .interrupt i ∉ g₀ ++ g) : ∃ l w, (g₀ ++ g).of j = l ++ [.call w] := by
  obtain ⟨hjob, htree, -⟩ := hr.possible.issued_shaping hs hof
  have hmem : ∀ {x : Deed c}, x ∈ g.of i → .deed i x ∈ g₀ ++ g := fun hx =>
    List.mem_append_right _ (History.mem_of_iff.mp hx)
  have hwaits : History.of (g₀ ++ g) i =
      (g₀.of i ++ (u ++ .does (.spawn (.query body token)) j :: ls)) ++ [.joins t] := by
    rw [History.of_append, hof]
    simp
  -- the task that is waited for has been started by the one who waits, so the wait is not in vain:
  -- the task has not finished
  obtain ⟨job, hspawned⟩ : ∃ job, Exchange.does (.spawn job) t ∈ g.of i := by
    cases hs with
    | whole => exact ⟨.query body token, by simp [hof]⟩
    | part => exact ⟨.derived j shape.ofReply token, by simp [hof]⟩
  have hunfinished := hr.unfinished_of_joins hturns hcalm (hmem hspawned) hwaits
  -- if the query had finished, all that derives from it would have
  refine (hr.begun hturns hjob).resolve_right fun hfinished => hunfinished ?_
  exact hr.finished_of_tree hturns hfinished htree

end PooledSql
