import PooledSql.Proofs.Task.Run

/-!
# What a machine keeps of its history

The state of the machine agrees with the history by which it has come about: each task has got as
far as its exchanges say, outcomes and tokens are as the history has them, and so is the world.

* `Machine.standing`, `Machine.phase?`: how far tasks have got.
* `Machine.Records R m h busy`: what the state `m` keeps of the history `h`, while the task `busy`
  has its turn.

It follows that every history of the machine is possible (`Regime.Run.possible`), and that between
turns every task has not begun, is in the middle of a wait or has ended (`Regime.Run.atRest`).
-/

namespace PooledSql

variable {S : Setting} {O : Interface} {W : Type}

/-- A task has ended when its phase says so. -/
theorem Task.outcome?_eq_some_iff {t : Task S O} {r : Except Failure S.Value} :
    t.outcome? = some r ↔ t.phase = .ended r := by
  obtain ⟨phase, interrupted, waiters⟩ := t
  cases phase <;> simp [outcome?]

namespace Machine

variable {m m' : Machine S O W} {i j : TaskId}

/-- How far each task has got, and whether its next turn begins with an interruption. -/
def standing (m : Machine S O W) : List (Phase S O × Bool) :=
  m.tasks.map fun t => (t.phase, t.interrupted)

/-- The outcome of a task that has ended is in its phase. -/
theorem outcome?_eq_some_iff {r : Except Failure S.Value} :
    m.outcome? i = some r ↔ ∃ b, m.standing[i]? = some (.ended r, b) := by
  unfold outcome? standing
  rw [List.getElem?_map]
  cases m.tasks[i]? with
  | none => simp
  | some t => simp [Task.outcome?_eq_some_iff]

/-- How far a task has got. -/
def phase? (m : Machine S O W) (i : TaskId) : Option (Phase S O) := m.tasks[i]?.map (·.phase)

/-- A task has ended when its phase says so. -/
theorem outcome?_eq_some_iff_phase? {r : Except Failure S.Value} :
    m.outcome? i = some r ↔ m.phase? i = some (.ended r) := by
  unfold outcome? phase?
  cases m.tasks[i]? with
  | none => simp
  | some t => simp [Task.outcome?_eq_some_iff]

/-- The outcome of a task is in its phase. -/
theorem outcome?_congr (h : m'.phase? i = m.phase? i) : m'.outcome? i = m.outcome? i :=
  Option.ext fun r => by
    rw [outcome?_eq_some_iff_phase?, outcome?_eq_some_iff_phase?, h]

/-- The phase of a task is in its standing. -/
theorem phase?_congr (hs : m'.standing = m.standing) : m'.phase? i = m.phase? i := by
  have hphase : ∀ n : Machine S O W, n.phase? i = n.standing[i]?.map Prod.fst := fun n => by
    unfold phase? standing
    rw [List.getElem?_map, Option.map_map]
    rfl
  rw [hphase, hphase, hs]

/-- A change that leaves phases alone leaves the standing of tasks alone. -/
theorem standing_modifyTask {f : Task S O → Task S O}
    (hf : ∀ t, (f t).phase = t.phase ∧ (f t).interrupted = t.interrupted) :
    (m.modifyTask i f).standing = m.standing := by
  unfold standing modifyTask
  refine List.ext_getElem? fun j => ?_
  simp only [List.getElem?_map, List.getElem?_modify]
  cases m.tasks[j]? with
  | none => rfl
  | some t => by_cases hij : i = j <;> simp [hij, hf]

@[simp]
theorem standing_fire {signal : SignalId} : (m.fire signal).standing = m.standing := by
  unfold fire
  split <;> rfl

@[simp]
theorem world_fire {signal : SignalId} : (m.fire signal).world = m.world := by
  unfold fire
  split <;> rfl

@[simp]
theorem tokens_fire {signal : SignalId} : (m.fire signal).tokens = m.tokens := by
  unfold fire
  split <;> rfl

@[simp]
theorem standing_await {w : (S.interface.sum O).Wait} : (m.await i w).standing = m.standing := by
  unfold await
  split
  · exact standing_modifyTask fun _ => ⟨rfl, rfl⟩
  · exact standing_modifyTask fun _ => ⟨rfl, rfl⟩
  · rfl
  · rfl

@[simp]
theorem world_await {w : (S.interface.sum O).Wait} : (m.await i w).world = m.world := by
  unfold await
  split <;> rfl

@[simp]
theorem tokens_await {w : (S.interface.sum O).Wait} : (m.await i w).tokens = m.tokens := by
  unfold await
  split <;> rfl

/-- The phases of tasks after a change to one of them. -/
theorem phase?_modifyTask {f : Task S O → Task S O} :
    (m.modifyTask i f).phase? j =
      if i = j then m.tasks[j]?.map fun t => (f t).phase else m.phase? j := by
  unfold phase? modifyTask
  simp only [List.getElem?_modify]
  cases m.tasks[j]? with
  | none => simp
  | some t => by_cases hij : i = j <;> simp [hij]

/-- A change to a task that leaves its phase alone. -/
theorem phase?_modifyTask_of_phase {f : Task S O → Task S O} (hf : ∀ t, (f t).phase = t.phase) :
    (m.modifyTask i f).phase? j = m.phase? j := by
  rw [phase?_modifyTask]
  split
  · simp only [hf]
    rfl
  · rfl

/-- Nobody gets any further by beginning to wait. -/
theorem phase?_await {w : (S.interface.sum O).Wait} : (m.await i w).phase? j = m.phase? j :=
  phase?_congr standing_await

/-- The standing of tasks after a change to one of them. -/
theorem getElem?_standing_modifyTask {f : Task S O → Task S O}
    {g : Phase S O × Bool → Phase S O × Bool}
    (hf : ∀ t, ((f t).phase, (f t).interrupted) = g (t.phase, t.interrupted)) :
    (m.modifyTask i f).standing[j]? =
      if i = j then m.standing[j]?.map g else m.standing[j]? := by
  unfold standing modifyTask
  simp only [List.getElem?_map, List.getElem?_modify]
  cases m.tasks[j]? with
  | none => simp
  | some t => by_cases hij : i = j <;> simp [hij, hf]

/-- The standing of tasks after one of them has begun to wait. -/
theorem getElem?_standing_suspend {w : (S.interface.sum O).Wait}
    {next : Except Failure ((S.interface.sum O).Answer w) →
      Program (S.interface.sum O) (Except Failure S.Value)} :
    ((m.await i w).modifyTask i fun t => { t with phase := .waiting w next }).standing[j]? =
      if i = j then m.standing[j]?.map fun s => (.waiting w next, s.2) else m.standing[j]? := by
  rw [getElem?_standing_modifyTask (g := fun s => (.waiting w next, s.2)) fun _ => rfl,
    standing_await]

/-- A task that has not ended changes no outcome as it begins to wait. -/
theorem outcome?_suspend {w : (S.interface.sum O).Wait}
    {next : Except Failure ((S.interface.sum O).Answer w) →
      Program (S.interface.sum O) (Except Failure S.Value)} (hi : m.outcome? i = none) :
    ((m.await i w).modifyTask i fun t => { t with phase := .waiting w next }).outcome? j =
      m.outcome? j := by
  by_cases hij : i = j
  · subst hij
    rw [hi, Option.eq_none_iff_forall_ne_some]
    intro r hr
    rw [outcome?_eq_some_iff_phase?, phase?_modifyTask, if_pos rfl] at hr
    obtain ⟨t, -, ht⟩ := Option.map_eq_some_iff.mp hr
    cases ht
  · exact outcome?_congr ((phase?_modifyTask.trans (if_neg hij)).trans phase?_await)

/-- The standing of tasks after one of them has ended. -/
theorem getElem?_standing_finish {r : Except Failure S.Value} :
    (m.finish i r).standing[j]? =
      if i = j then m.standing[j]?.map fun _ => (.ended r, false) else m.standing[j]? := by
  unfold finish
  cases hi : m.tasks[i]? with
  | none =>
    by_cases hij : i = j
    · subst hij
      simp [standing, hi]
    · simp [hij]
  | some t => exact getElem?_standing_modifyTask (g := fun _ => (.ended r, false)) fun _ => rfl

@[simp]
theorem world_finish {r : Except Failure S.Value} : (m.finish i r).world = m.world := by
  unfold finish
  split <;> rfl

@[simp]
theorem tokens_finish {r : Except Failure S.Value} : (m.finish i r).tokens = m.tokens := by
  unfold finish
  split <;> rfl

/-- The phases of tasks after one of them has been started. -/
theorem phase?_spawn {job : Job S} {p : Phase S O} (hp : (m.spawn job).2.phase? i = some p) :
    m.phase? i = some p ∨ i = m.tasks.length ∧ p = .fresh job := by
  unfold phase? at hp ⊢
  simp only [spawn, enqueue, List.getElem?_append] at hp
  split at hp
  · exact .inl hp
  · next hge =>
    rw [List.getElem?_singleton] at hp
    split at hp
    · next hzero =>
      cases hp
      exact .inr ⟨Nat.le_antisymm (Nat.le_of_sub_eq_zero hzero) (Nat.le_of_not_lt hge), rfl⟩
    · cases hp

/-- A task that has been started before keeps its phase. -/
theorem phase?_spawn_of_some {job : Job S} {p : Phase S O} (hp : m.phase? i = some p) :
    (m.spawn job).2.phase? i = some p := by
  obtain ⟨t, ht, rfl⟩ := Option.map_eq_some_iff.mp hp
  have hlt := (List.getElem?_eq_some_iff.mp ht).1
  simp [phase?, spawn, enqueue, List.getElem?_append_left hlt, ht]

/-- Nobody ends when a task is started. -/
theorem outcome?_spawn {job : Job S} : (m.spawn job).2.outcome? i = m.outcome? i :=
  Option.ext fun r => by
    rw [outcome?_eq_some_iff_phase?, outcome?_eq_some_iff_phase?]
    refine ⟨fun hp => ?_, phase?_spawn_of_some⟩
    rcases phase?_spawn hp with hp | ⟨-, hp⟩
    · exact hp
    · cases hp

/-- A change to a token that does not set it. -/
theorem isCancelled_modifyToken {token t : TokenId} {f : Token S.Action → Token S.Action}
    (hf : ∀ t, (f t).cancelled = t.cancelled) :
    (m.modifyToken token f).isCancelled t = m.isCancelled t := by
  unfold isCancelled modifyToken
  simp only [List.getElem?_modify]
  cases m.tokens[t]? with
  | none => rfl
  | some tk => by_cases ht : token = t <;> simp [ht, hf]

/-- A token after a change to one of them. -/
theorem getElem?_tokens_modifyToken {token t : TokenId} {f : Token S.Action → Token S.Action}
    {tk : Token S.Action} (ht : (m.modifyToken token f).tokens[t]? = some tk) :
    ∃ tk', m.tokens[t]? = some tk' ∧ (tk = tk' ∨ token = t ∧ tk = f tk') := by
  simp only [modifyToken, List.getElem?_modify, Option.map_eq_map, Option.map_eq_some_iff] at ht
  obtain ⟨tk', htk', rfl⟩ := ht
  by_cases heq : token = t
  · exact ⟨tk', htk', .inr ⟨heq, if_pos heq⟩⟩
  · exact ⟨tk', htk', .inl (if_neg heq)⟩

variable [BEq S.Action]

/-- An act of a task leaves the standing of tasks alone, but for a task that it starts. -/
theorem standing_act (r : TaskAct S) :
    (m.act r).2.standing = m.standing ++
      ((Happening.deed i (.act (.inl r) (m.act r).1) : Happening S O).job?.toList.map
        fun job => (.fresh job, false)) := by
  cases r with
  | spawn job => simp [act, spawn, standing, enqueue, Happening.job?]
  | fire signal => simp [act, Happening.job?]
  | _ => simp [act, Happening.job?, newToken, newSignal, modifyToken, standing]

/-- Nobody ends by an act of a task. -/
theorem outcome?_act (r : TaskAct S) : (m.act r).2.outcome? i = m.outcome? i := by
  cases r with
  | spawn job => exact outcome?_spawn
  | fire signal =>
    change (m.fire signal).outcome? i = m.outcome? i
    unfold fire
    split <;> rfl
  | _ => rfl

/-- An act of a task leaves the world alone. -/
theorem world_act (r : TaskAct S) : (m.act r).2.world = m.world := by
  cases r with
  | fire signal => exact world_fire
  | _ => rfl

/-- An act of a task leaves the number of tokens alone, unless it makes one. -/
theorem length_tokens_act (r : TaskAct S) :
    (m.act r).2.tokens.length = m.tokens.length +
      if (Happening.deed i (.act (.inl r) (m.act r).1) : Happening S O).makesToken then 1
      else 0 := by
  cases r with
  | fire signal => simp [act, Happening.makesToken]
  | _ => simp [act, Happening.makesToken, spawn, enqueue, newToken, newSignal, modifyToken]

/-- The tokens after an act of a task. -/
theorem tokens_act (r : TaskAct S) : (m.act r).2.tokens = r.onTokens m.tokens := by
  cases r with
  | fire signal => exact tokens_fire
  | _ => rfl

/-- A token is set after an act of a task if it was before, or if the act sets it. -/
theorem isCancelled_act (r : TaskAct S) (t : TokenId) :
    (m.act r).2.isCancelled t = true ↔
      m.isCancelled t = true ∨ t < m.tokens.length ∧ r = .trip t := by
  -- to change anything else about a token does not set it
  have hmodify : ∀ {token : TokenId} {f : Token S.Action → Token S.Action},
      (∀ t, (f t).cancelled = t.cancelled) →
      ((m.modifyToken token f).isCancelled t = true ↔ m.isCancelled t = true) :=
    fun hf => by rw [isCancelled_modifyToken hf]
  cases r with
  | trip token =>
    unfold act isCancelled modifyToken
    simp only [List.getElem?_modify]
    by_cases hlt : t < m.tokens.length
    · rw [List.getElem?_eq_getElem hlt]
      by_cases ht : token = t
      · cases hc : m.tokens[t].cancelled <;> simp [ht, hlt, hc, Token.trip]
      · simp [ht]
    · simp [hlt]
  | register token a => simpa [act] using hmodify (f := Token.register a) fun _ => rfl
  | unregister token a => simpa [act] using hmodify (f := Token.unregister a) fun _ => rfl
  | blame token f => simpa [act] using hmodify (f := Token.blame f) fun _ => rfl
  | fire signal => simp [act, isCancelled]
  | newToken =>
    simp only [act, newToken, isCancelled, reduceCtorEq, and_false, or_false]
    -- the new token comes last, and is not set
    rcases Nat.lt_trichotomy t m.tokens.length with hlt | rfl | hlt
    · rw [List.getElem?_append_left hlt]
    · simp
    · rw [List.getElem?_eq_none_iff.mpr (by simp; omega), List.getElem?_eq_none_iff.mpr (by omega)]
  | _ => simp [act, spawn, enqueue, newSignal, isCancelled]

/-- The actions of a token after an act of a task are among those it had before, or the act
registers them. -/
theorem registered_act (r : TaskAct S) {h : History S O} {t : TokenId} {token : Token S.Action}
    (hreg : ∀ t token, m.tokens[t]? = some token → h.Registered t token.actions)
    (ht : (m.act r).2.tokens[t]? = some token) :
    History.Registered (h ++ [.deed i (.act (.inl r) (m.act r).1)]) t token.actions := by
  have hmono : ∀ {tk : Token S.Action}, m.tokens[t]? = some tk → ∀ a ∈ tk.actions,
      ∃ j, .deed j (.act (.inl (.register t a)) ()) ∈
        h ++ [.deed i (.act (.inl r) (m.act r).1)] := by
    intro tk htk a ha
    obtain ⟨j, hj⟩ := hreg t tk htk a ha
    exact ⟨j, List.mem_append_left _ hj⟩
  -- most changes of a token leave it with no other actions than it had
  have hshrink : ∀ {t' : TokenId} {f : Token S.Action → Token S.Action},
      (∀ tk, (f tk).actions ⊆ tk.actions) → (m.modifyToken t' f).tokens[t]? = some token →
      ∀ a ∈ token.actions, ∃ j, .deed j (.act (.inl (.register t a)) ()) ∈
        h ++ [.deed i (.act (.inl r) (m.act r).1)] := by
    intro t' f hf ht a ha
    obtain ⟨tk, htk, rfl | ⟨-, rfl⟩⟩ := getElem?_tokens_modifyToken ht
    · exact hmono htk a ha
    · exact hmono htk a (hf tk ha)
  cases r with
  | register t' a' =>
    intro a ha
    obtain ⟨tk, htk, rfl | ⟨rfl, rfl⟩⟩ := getElem?_tokens_modifyToken ht
    · exact hmono htk a ha
    · rcases List.mem_append.mp ha with ha | ha
      · exact hmono htk a ha
      · rw [List.mem_singleton.mp ha]
        exact ⟨i, List.mem_append_right _ (List.mem_singleton.mpr rfl)⟩
  | unregister t' a' => exact hshrink (fun _ => List.erase_subset) ht
  | trip t' =>
    refine hshrink (fun tk => ?_) ht
    unfold Token.trip
    split
    · exact List.Subset.refl _
    · exact List.nil_subset _
  | blame t' f => exact hshrink (f := Token.blame f) (fun _ => List.Subset.refl _) ht
  | newToken =>
    intro a ha
    simp only [act, newToken, List.getElem?_append] at ht
    split at ht
    · exact hmono ht a ha
    · cases List.mem_singleton.mp (List.mem_of_getElem? ht)
      cases ha
  | fire signal =>
    simp only [act, tokens_fire] at ht
    exact hmono ht
  | _ => exact hmono ht

end Machine

/-- Whether the phase of a task is what the history says of it. -/
def Phase.Fits (R : Regime S O W) (h : History S O) (i : TaskId) : Phase S O → Prop
  | .fresh job => h.jobs[i]? = some job ∧ h.of i = [] ∧ ¬ h.Finished i
  | .waiting w next => ∃ job l, h.jobs[i]? = some job ∧ h.of i = l ++ [.call w] ∧
      Program.Leads (R.program job).run l (.await w next) ∧ ¬ h.Finished i
  | .ended r => .finish i r ∈ h

/-- What a phase says of a task stays true while others do something. -/
theorem Phase.Fits.snoc {R : Regime S O W} {h : History S O} {j : TaskId} {p : Phase S O}
    {e : Happening S O} (hp : p.Fits R h j) (he : e.deed? j = none)
    (hfin : ∀ r, e ≠ .finish j r) : p.Fits R (h ++ [e]) j := by
  have hof : History.of (h ++ [e]) j = h.of j := by simp [he]
  have hfinished : History.Finished (h ++ [e]) j → h.Finished j := fun hj =>
    hj.of_append fun r hr => hfin r (List.mem_singleton.mp hr).symm
  cases p with
  | fresh job =>
    obtain ⟨hj, hnil, hn⟩ := hp
    exact ⟨History.jobs_mono hj, by rw [hof, hnil], mt hfinished hn⟩
  | waiting w next =>
    obtain ⟨job, l, hj, hl, hx, hn⟩ := hp
    exact ⟨job, l, History.jobs_mono hj, by rw [hof, hl], hx, mt hfinished hn⟩
  | ended r => exact List.mem_append_left _ hp

/-- The task `i` has its turn, with the program `x` left to do. -/
structure Regime.OnTurn (R : Regime S O W) (h : History S O) (i : TaskId)
    (x : Program (S.interface.sum O) (Except Failure S.Value)) : Prop where
  unfinished : ¬ h.Finished i
  inTurn : h.InTurn i
  way : ∃ job, h.jobs[i]? = some job ∧ Program.Leads (R.program job).run (h.of i) x

namespace Regime.OnTurn

variable {R : Regime S O W} {h : History S O} {i : TaskId}

/-- The turn of a task goes on after it has done something. -/
theorem snoc {x y : Program (S.interface.sum O) (Except Failure S.Value)}
    {e : Exchange (S.interface.sum O)} {g : History S O} (hx : R.OnTurn h i x)
    (hg : ∀ e ∈ g, ∃ d, e = .deed i d)
    (hy : ∀ l job, Program.Leads (R.program job).run l x →
      Program.Leads (R.program job).run (l ++ History.of (g ++ [.deed i e]) i) y) :
    R.OnTurn (h ++ g ++ [.deed i e]) i y := by
  obtain ⟨hn, hturn, job, hj, hl⟩ := hx
  -- the other tasks stay where they are
  have hothers : ∀ j, j ≠ i → History.Idle (h ++ g ++ [.deed i e]) j := by
    intro j hj
    rw [List.append_assoc]
    refine (hturn.2 j hj).mono (List.eq_nil_iff_forall_not_mem.mpr fun x hx => ?_)
    rcases List.mem_append.mp (History.mem_of_iff.mp hx) with hx | hx
    · obtain ⟨d, hd⟩ := hg _ hx
      cases hd
      exact hj rfl
    · cases List.mem_singleton.mp hx
      exact hj rfl
  refine ⟨?_, ⟨.inr ⟨h ++ g, e, rfl⟩, hothers⟩, job, ?_, ?_⟩
  · rw [List.append_assoc]
    refine mt (fun hi => hi.of_append fun r hr => ?_) hn
    rcases List.mem_append.mp hr with hr | hr
    · obtain ⟨d, hd⟩ := hg _ hr
      cases hd
    · cases List.mem_singleton.mp hr
  · rw [List.append_assoc]
    exact History.jobs_mono hj
  · have := hy _ _ hl
    simpa [List.append_assoc] using this

end Regime.OnTurn

variable [BEq S.Action]

/-- What a state of the machine keeps of the history, while a task may have its turn. -/
structure Machine.Records (R : Regime S O W) (m : Machine S O W) (h : History S O)
    (busy : Option TaskId) : Prop where
  possible : R.Possible h
  agrees : R.Agrees h m.world
  tasks_eq : m.standing.length = h.jobs.length
  tokens_eq : m.tokens.length = h.tokenCount
  tokens_history : m.tokens = h.tokens
  cancelled_iff : ∀ t, m.isCancelled t = true ↔ h.Cancelled t
  registered : ∀ t token, m.tokens[t]? = some token → h.Registered t token.actions
  interrupted : ∀ i p, m.standing[i]? = some (p, true) → .interrupt i ∈ h
  fits : ∀ i p b, m.standing[i]? = some (p, b) → busy ≠ some i → p.Fits R h i
  outcome : ∀ i r, m.outcome? i = some r → .finish i r ∈ h
  finished : ∀ i, h.Finished i → ∃ r, m.outcome? i = some r

namespace Machine.Records

variable {R : Regime S O W} {m m' : Machine S O W} {h : History S O} {busy : Option TaskId}
  {i : TaskId} {job : Job S}

/-- What a task has done, unless it has its turn, ends in the middle of a wait or with its end. -/
theorem idle (hm : m.Records R h busy) (hi : busy ≠ some i) : h.Idle i := by
  cases hs : m.standing[i]? with
  | none =>
    have hstart : h.jobs[i]? = none := by
      rw [List.getElem?_eq_none_iff, ← hm.tasks_eq]
      exact List.getElem?_eq_none_iff.mp hs
    exact .inl (hm.possible.of_eq_nil_of_not_started hstart)
  | some s =>
    obtain ⟨p, b⟩ := s
    have hfits := hm.fits i p b hs hi
    cases p with
    | fresh job => exact .inl hfits.2.1
    | waiting w next =>
      obtain ⟨job, l, -, hl, -⟩ := hfits
      exact .inr (.inl ⟨l, w, hl⟩)
    | ended r => exact .inr (.inr ⟨r, hfits⟩)

/-- A happening other than the end of a task, with the changes to the state that it brings about. -/
theorem snoc {e : Happening S O} (hm : m.Records R h busy) (hf : R.Fits h e)
    (hdeed : ∀ j, busy ≠ some j → e.deed? j = none) (hfin : ∀ j r, e ≠ .finish j r)
    (hs : m'.standing = m.standing ++ e.job?.toList.map fun job => (.fresh job, false))
    (hw : R.Agrees (h ++ [e]) m'.world)
    (ht : m'.tokens.length = m.tokens.length + if e.makesToken then 1 else 0)
    (hts : m'.tokens = e.onTokens m.tokens)
    (hc : ∀ t, m'.isCancelled t = true ↔
      m.isCancelled t = true ∨
        t < m.tokens.length ∧ ∃ i out, e = .deed i (.act (.inl (.trip t)) out))
    (hr : ∀ t token, m'.tokens[t]? = some token →
      History.Registered (h ++ [e]) t token.actions) :
    m'.Records R (h ++ [e]) busy := by
  -- the tasks are those before and the one that has just been started, if any
  have hold : ∀ {j p b}, m'.standing[j]? = some (p, b) →
      m.standing[j]? = some (p, b) ∨
        j = h.jobs.length ∧ b = false ∧ ∃ job, e.job? = some job ∧ p = .fresh job := by
    intro j p b hj
    rw [hs, List.getElem?_append] at hj
    split at hj
    · exact .inl hj
    · cases hjob : e.job? with
      | none => simp [hjob] at hj
      | some job =>
        rw [hjob, Option.toList_some, List.map_singleton, List.getElem?_singleton] at hj
        split at hj
        · cases hj
          exact .inr ⟨by rw [← hm.tasks_eq]; omega, rfl, job, rfl, rfl⟩
        · cases hj
  -- and none of them ends
  have hfinished : ∀ {j}, History.Finished (h ++ [e]) j → h.Finished j := fun {j} hj =>
    hj.of_append fun r hr => hfin j r (List.mem_singleton.mp hr).symm
  constructor
  case possible => exact hm.possible.snoc hf
  case agrees => exact hw
  case tasks_eq => simp [hs, hm.tasks_eq]
  case tokens_eq => simp [ht, hm.tokens_eq]
  case tokens_history => rw [hts, History.tokens_snoc, hm.tokens_history]
  case cancelled_iff =>
    intro t
    rw [hc, History.cancelled_snoc_iff, hm.cancelled_iff, hm.tokens_eq]
  case registered => exact hr
  case interrupted =>
    intro j p hj
    rcases hold hj with hj | ⟨-, hb, -⟩
    · exact List.mem_append_left _ (hm.interrupted j p hj)
    · cases hb
  case fits =>
    intro j p b hj hne
    rcases hold hj with hj | ⟨rfl, -, job, hjob, rfl⟩
    · exact (hm.fits j p b hj hne).snoc (hdeed j hne) (hfin j)
    · -- the new task has not begun, and cannot have ended
      have hstart : h.jobs[h.jobs.length]? = none := List.getElem?_eq_none (Nat.le_refl _)
      refine ⟨by simp [hjob], ?_, ?_⟩
      · simp [hm.possible.of_eq_nil_of_not_started hstart, hdeed _ hne]
      · intro hn
        obtain ⟨r, hr⟩ := hfinished hn
        obtain ⟨job, hj, -⟩ := hm.possible.finish_cases hr
        rw [hstart] at hj
        cases hj
  case outcome =>
    intro j r hj
    obtain ⟨b, hj⟩ := outcome?_eq_some_iff.mp hj
    rcases hold hj with hj | ⟨-, -, job, -, hp⟩
    · exact List.mem_append_left _ (hm.outcome j r (outcome?_eq_some_iff.mpr ⟨b, hj⟩))
    · cases hp
  case finished =>
    intro j hj
    obtain ⟨r, hr⟩ := hm.finished j (hfinished hj)
    obtain ⟨b, hb⟩ := outcome?_eq_some_iff.mp hr
    refine ⟨r, outcome?_eq_some_iff.mpr ⟨b, ?_⟩⟩
    rw [hs, List.getElem?_append_left (List.getElem?_eq_some_iff.mp hb).1, hb]

/-- Nothing but the world has changed. -/
theorem congr (hm : m.Records R h busy) (hs : m'.standing = m.standing)
    (ht : m'.tokens = m.tokens) (hw : R.Agrees h m'.world) : m'.Records R h busy := by
  have hc : ∀ t, m'.isCancelled t = m.isCancelled t := fun t => by simp only [isCancelled, ht]
  have ho : ∀ {j}, m'.outcome? j = m.outcome? j := outcome?_congr (phase?_congr hs)
  exact
    { possible := hm.possible
      agrees := hw
      tasks_eq := hs ▸ hm.tasks_eq
      tokens_eq := ht ▸ hm.tokens_eq
      tokens_history := ht ▸ hm.tokens_history
      cancelled_iff := fun t => by rw [hc, hm.cancelled_iff]
      registered := ht ▸ hm.registered
      interrupted := hs ▸ hm.interrupted
      fits := hs ▸ hm.fits
      outcome := fun j r hj => hm.outcome j r (ho ▸ hj)
      finished := fun j hj => (hm.finished j hj).imp fun _ hr => ho.trans hr }

/-- A happening that changes neither tasks nor tokens. -/
theorem snoc_idle {e : Happening S O} (hm : m.Records R h busy) (hf : R.Fits h e)
    (hdeed : ∀ j, busy ≠ some j → e.deed? j = none) (hfin : ∀ j r, e ≠ .finish j r)
    (hact : ∀ j r out, e ≠ .deed j (.act (.inl r) out)) (hjob : e.job? = none)
    (hs : m'.standing = m.standing) (ht : m'.tokens = m.tokens)
    (hw : R.Agrees (h ++ [e]) m'.world) : m'.Records R (h ++ [e]) busy := by
  -- only acts of tasks change tokens
  have hsame : e.onTokens m.tokens = m.tokens := by
    cases e with
    | deed j x =>
      cases x with
      | act r out =>
        cases r with
        | inl r => exact absurd rfl (hact j r out)
        | inr r => rfl
      | _ => rfl
    | _ => rfl
  refine hm.snoc hf hdeed hfin (by simp [hs, hjob]) hw ?_ (by rw [ht, hsame]) ?_ ?_
  · have hmakes : e.makesToken = false := by
      cases e with
      | deed j x =>
        cases x with
        | act r out =>
          cases r with
          | inl r => exact absurd rfl (hact j r out)
          | inr r => rfl
        | _ => rfl
      | _ => rfl
    simp [ht, hmakes]
  · intro t
    have hc : m'.isCancelled t = m.isCancelled t := by simp only [isCancelled, ht]
    rw [hc]
    refine ⟨.inl, ?_⟩
    rintro (hc | ⟨-, j, out, rfl⟩)
    · exact hc
    · exact absurd rfl (hact j _ out)
  · intro t token htoken a ha
    obtain ⟨j, hj⟩ := hm.registered t token (ht ▸ htoken) a ha
    exact ⟨j, List.mem_append_left _ hj⟩

/-- A wait that is over at once is over as the history says. -/
theorem resolves (hm : m.Records R h busy) {w : (S.interface.sum O).Wait}
    {ans : Except Failure ((S.interface.sum O).Answer w)} (hans : m.answer? w = some ans) :
    R.Resolves h i w ans := by
  match w with
  | .inl (.join j) => exact .inl (hm.outcome j ans hans)
  | .inl (.joinShielded j) => exact .inl (hm.outcome j ans hans)
  | .inl (.signal s) =>
    simp only [answer?] at hans
    split at hans
    · cases hans
      exact .inl rfl
    · cases hans
  | .inr w => cases hans

/-- The end of the turn of a task: it has ended. -/
theorem finish {r : Except Failure S.Value} (hm : m.Records R h (some i))
    (hf : R.Fits h (.finish i r)) (hi : h.jobs[i]? = some job) :
    (m.finish i r).Records R (h ++ [.finish i r]) none := by
  have hlt : i < m.standing.length := by
    rw [hm.tasks_eq]
    exact (List.getElem?_eq_some_iff.mp hi).1
  -- the task itself is recorded as ended, the others keep their places
  have hother : ∀ {j}, i ≠ j → (m.finish i r).standing[j]? = m.standing[j]? := fun hij => by
    rw [getElem?_standing_finish, if_neg hij]
  have hself : (m.finish i r).standing[i]? = some (.ended r, false) := by
    rw [getElem?_standing_finish, if_pos rfl, List.getElem?_eq_getElem hlt, Option.map_some]
  have hmem : (Happening.finish i r : Happening S O) ∈ h ++ [.finish i r] := by simp
  constructor
  case possible => exact hm.possible.snoc hf
  case agrees => exact world_finish (m := m) ▸ R.agrees_other (by simp) hm.agrees
  case tasks_eq =>
    have hlength : (m.finish i r).standing.length = m.standing.length := by
      unfold Machine.finish
      split
      · rfl
      · simp [standing, modifyTask, enqueue]
    simp [hlength, hm.tasks_eq, Happening.job?]
  case tokens_eq => simp [hm.tokens_eq, Happening.makesToken]
  case tokens_history => simp [hm.tokens_history, Happening.onTokens]
  case cancelled_iff =>
    intro t
    rw [History.cancelled_snoc_iff, ← hm.cancelled_iff]
    simp [isCancelled]
  case registered =>
    intro t token ht a ha
    obtain ⟨j, hj⟩ := hm.registered t token (by simpa using ht) a ha
    exact ⟨j, List.mem_append_left _ hj⟩
  case interrupted =>
    intro j p hj
    by_cases hij : i = j
    · rw [← hij, hself] at hj
      cases hj
    · exact List.mem_append_left _ (hm.interrupted j p (hother hij ▸ hj))
  case fits =>
    intro j p b hj _
    by_cases hij : i = j
    · rw [← hij, hself] at hj
      cases hj
      exact hij ▸ hmem
    · refine (hm.fits j p b (hother hij ▸ hj) (by simpa using hij)).snoc rfl fun r' heq => ?_
      cases heq
      exact hij rfl
  case outcome =>
    intro j r' hj
    obtain ⟨b, hj⟩ := outcome?_eq_some_iff.mp hj
    by_cases hij : i = j
    · rw [← hij, hself] at hj
      cases hj
      exact hij ▸ hmem
    · rw [hother hij] at hj
      exact List.mem_append_left _ (hm.outcome j r' (outcome?_eq_some_iff.mpr ⟨b, hj⟩))
  case finished =>
    rintro j ⟨r', hr⟩
    by_cases hij : i = j
    · exact ⟨r, outcome?_eq_some_iff.mpr ⟨false, hij ▸ hself⟩⟩
    · have hr : .finish j r' ∈ h := by
        rcases List.mem_append.mp hr with hr | hr
        · exact hr
        · cases List.mem_singleton.mp hr
          exact absurd rfl hij
      obtain ⟨r', hr⟩ := hm.finished j ⟨r', hr⟩
      obtain ⟨b, hb⟩ := outcome?_eq_some_iff.mp hr
      exact ⟨r', outcome?_eq_some_iff.mpr ⟨b, hother hij ▸ hb⟩⟩

/-- The end of the turn of a task: it begins to wait. -/
theorem suspend {w : (S.interface.sum O).Wait}
    {next : Except Failure ((S.interface.sum O).Answer w) →
      Program (S.interface.sum O) (Except Failure S.Value)}
    (hm : m.Records R h (some i)) (hf : R.Fits h (.deed i (.call w)))
    (hp : (Phase.waiting w next).Fits R (h ++ [.deed i (.call w)]) i) :
    ((m.await i w).modifyTask i fun t => { t with phase := .waiting w next }).Records R
      (h ++ [.deed i (.call w)]) none := by
  -- to register with what is waited for changes no task; then the phase of this one does
  have hcall : (m.await i w).Records R (h ++ [.deed i (.call w)]) (some i) :=
    hm.snoc_idle hf (fun j hij => if_neg (by simpa using hij)) (by simp)
      (by simp) rfl standing_await tokens_await
      (world_await (m := m) ▸ R.agrees_other (by simp) hm.agrees)
  -- a task that begins to wait has not ended before
  have hnone : m.outcome? i = none := by
    obtain ⟨job, l, -, -, -, hn⟩ := hp
    exact Option.eq_none_iff_forall_ne_some.mpr fun r hr =>
      hn ⟨r, List.mem_append_left _ (hm.outcome i r hr)⟩
  have houtcome : ∀ {j}, ((m.await i w).modifyTask i
      fun t => { t with phase := .waiting w next }).outcome? j = (m.await i w).outcome? j :=
    (outcome?_suspend hnone).trans (outcome?_congr phase?_await).symm
  exact
    { possible := hcall.possible
      agrees := hcall.agrees
      tasks_eq := by
        rw [← hcall.tasks_eq]
        simp [standing, modifyTask]
      tokens_eq := hcall.tokens_eq
      tokens_history := hcall.tokens_history
      cancelled_iff := hcall.cancelled_iff
      registered := hcall.registered
      interrupted := fun j p hj => by
        rw [getElem?_standing_suspend] at hj
        split at hj
        · obtain ⟨⟨p', b⟩, hs, hb⟩ := Option.map_eq_some_iff.mp hj
          cases hb
          exact hcall.interrupted j p' (by rw [standing_await, hs])
        · exact hcall.interrupted j p (by rw [standing_await, hj])
      fits := fun j p b hj _ => by
        rw [getElem?_standing_suspend] at hj
        split at hj
        next hij =>
          obtain ⟨s, -, hs⟩ := Option.map_eq_some_iff.mp hj
          cases hs
          exact hij ▸ hp
        next hij => exact hcall.fits j p b (by rw [standing_await, hj]) (by simpa using hij)
      outcome := fun j r hj => hcall.outcome j r (houtcome ▸ hj)
      finished := fun j hj => (hcall.finished j hj).imp fun _ hr => houtcome.trans hr }

/-- What passes between a task and its surroundings and is no act of a task. -/
theorem deed {e : Exchange (S.interface.sum O)} (hm : m.Records R h (some i))
    (hf : R.Fits h (.deed i e)) (hact : ∀ r out, e ≠ .act (.inl r) out) {w : W}
    (hw : R.Agrees (h ++ [.deed i e]) w) :
    ({ m with world := w } : Machine S O W).Records R (h ++ [.deed i e]) (some i) := by
  refine hm.snoc_idle hf (fun j hij => if_neg (by simpa using hij)) (by simp) ?_ ?_ rfl rfl
    hw
  · intro j r out heq
    cases heq
    exact hact r out rfl
  · cases e with
    | act r out =>
      cases r with
      | inl r => exact absurd rfl (hact r out)
      | inr r => rfl
    | _ => rfl

/-- A task gets to have its turn. -/
theorem wake (hm : m.Records R h none) (i : TaskId) : m.Records R h (some i) :=
  { hm with fits := fun j p b hj _ => hm.fits j p b hj nofun }

/-- A task is started from outside. -/
theorem launch (hm : m.Records R h none) (hjob : R.Launches job) :
    (m.spawn job).2.Records R (h ++ [.launch job]) none := by
  refine hm.snoc (.launch hjob) (fun _ _ => rfl) (by simp) ?_
    (R.agrees_other (by simp) hm.agrees) rfl rfl (fun t => ?_) fun t token ht a ha => ?_
  · simp [spawn, standing, enqueue, Happening.job?]
  · refine (or_iff_left ?_).symm
    rintro ⟨-, i, out, heq⟩
    cases heq
  · obtain ⟨j, hj⟩ := hm.registered t token ht a ha
    exact ⟨j, List.mem_append_left _ hj⟩

/-- An interruption that has reached a task awaits its next turn, or does so no more. -/
theorem flag {b : Bool} (hm : m.Records R h none) (hb : b = true → .interrupt i ∈ h) :
    (m.modifyTask i fun t => { t with interrupted := b }).Records R h none := by
  have hs : ∀ {j}, (m.modifyTask i fun t => { t with interrupted := b }).standing[j]? =
      if i = j then m.standing[j]?.map fun s => (s.1, b) else m.standing[j]? := fun {j} =>
    getElem?_standing_modifyTask (g := fun s => (s.1, b)) fun _ => rfl
  -- the flag is no part of a phase
  have hp : ∀ {j p c}, (m.modifyTask i fun t => { t with interrupted := b }).standing[j]? =
      some (p, c) → ∃ c', m.standing[j]? = some (p, c') ∧ (i = j ∧ c = b ∨ c = c') := by
    intro j p c hj
    rw [hs] at hj
    split at hj
    next hij =>
      obtain ⟨⟨p', c'⟩, hj', heq⟩ := Option.map_eq_some_iff.mp hj
      cases heq
      exact ⟨c', hj', .inl ⟨hij, rfl⟩⟩
    next => exact ⟨c, hj, .inr rfl⟩
  have ho : ∀ {j}, (m.modifyTask i fun t => { t with interrupted := b }).outcome? j =
      m.outcome? j := outcome?_congr (phase?_modifyTask_of_phase fun _ => rfl)
  constructor
  case possible => exact hm.possible
  case agrees => exact hm.agrees
  case tasks_eq => simpa [standing, modifyTask] using hm.tasks_eq
  case tokens_eq => exact hm.tokens_eq
  case tokens_history => exact hm.tokens_history
  case cancelled_iff => exact hm.cancelled_iff
  case registered => exact hm.registered
  case interrupted =>
    intro j p hj
    obtain ⟨c, hj', ⟨rfl, hc⟩ | rfl⟩ := hp hj
    · exact hb hc.symm
    · exact hm.interrupted j p hj'
  case fits =>
    intro j p c hj _
    obtain ⟨c', hj', -⟩ := hp hj
    exact hm.fits j p c' hj' nofun
  case outcome => exact fun j r hr => hm.outcome j r (ho ▸ hr)
  case finished => exact fun j hj => (hm.finished j hj).imp fun _ hr => ho.trans hr

/-- An interruption reaches a task. -/
theorem interruptHere (hm : m.Records R h none) (i : TaskId) :
    (m.interruptHere i).Records R (h ++ [.interrupt i]) none := by
  have hinterrupt : m.Records R (h ++ [.interrupt i]) none :=
    hm.snoc_idle (.interrupt i) (fun _ _ => rfl) (by simp) (by simp) rfl rfl rfl
      (R.agrees_other (by simp) hm.agrees)
  exact hinterrupt.flag fun _ => by simp

/-- An interruption from outside reaches the task that it is passed on to. -/
theorem interruptWithin (hm : m.Records R h none) (n : Nat) (i : TaskId) :
    (m.interruptWithin n i).Records R (h ++ (reachedWithin n i m).toList.map .interrupt) none := by
  have hhere : ∀ {m' : Machine S O W}, m'.standing = m.standing → m'.tokens = m.tokens →
      m'.world = m.world → ∀ i, (m'.interruptHere i).Records R (h ++ [.interrupt i]) none :=
    fun hs ht hw i => (hm.congr hs ht (hw ▸ hm.agrees)).interruptHere i
  have henqueue : ∀ {m' : Machine S O W} {h' turns}, m'.Records R h' none →
      (m'.enqueue turns).Records R h' none := fun hm' => hm'.congr rfl rfl hm'.agrees
  -- along the tasks that wait for one another, as far as the interruption is passed on
  induction n generalizing i with
  | zero => exact hhere rfl rfl rfl i
  | succ n ih =>
    simp only [Machine.interruptWithin, reachedWithin]
    cases m.tasks[i]? with
    | none => simpa using hm
    | some t =>
      obtain ⟨phase, b, waiters⟩ := t
      match phase with
      | .ended r => simpa using hm
      | .fresh job => exact hhere rfl rfl rfl i
      | .waiting (.inl (.join j)) next =>
        dsimp only
        split
        · exact hhere rfl rfl rfl i
        · exact ih j
      | .waiting (.inl (.joinShielded j)) next =>
        dsimp only
        split
        · exact hhere rfl rfl rfl i
        · have hforget : (m.forgetRelayed i j).standing = m.standing :=
            standing_modifyTask fun _ => ⟨rfl, rfl⟩
          exact henqueue (hhere hforget rfl rfl i)
      | .waiting (.inl (.signal s)) next =>
        dsimp only
        split
        · exact hhere rfl rfl rfl i
        · have hforget : (m.forgetSignal i s).standing = m.standing := rfl
          exact henqueue (hhere hforget rfl rfl i)
      | .waiting (.inr w) next => exact henqueue (hhere rfl rfl rfl i)

/-- An act of a task comes to what it may come to in view of the history. -/
theorem yields (hm : m.Records R h busy) (r : TaskAct S) : R.Yields h (.inl r) (m.act r).1 := by
  have hlength : m.tasks.length = h.jobs.length := by rw [← hm.tasks_eq, standing, List.length_map]
  cases r with
  | spawn job => exact hlength
  | isDone j =>
    refine Option.isSome_iff_exists.trans ⟨?_, hm.finished j⟩
    rintro ⟨r, hr⟩
    exact ⟨r, hm.outcome j r hr⟩
  | newToken => exact hm.tokens_eq
  | isCancelled t => exact hm.cancelled_iff t
  | trip t =>
    refine ⟨fun a ha => ?_, by rw [← hm.tokens_history]; rfl⟩
    change a ∈ (m.tokens[t]?.map (·.trip.1)).getD [] at ha
    -- what is found under a token is what has been registered
    cases htoken : m.tokens[t]? with
    | none => simp [htoken] at ha
    | some token =>
      refine hm.registered t token htoken a ?_
      simp only [htoken, Option.map_some, Option.getD_some, Token.trip] at ha
      split at ha
      · cases ha
      · exact ha
  | _ => trivial

/-- An act of a task, upon which its turn goes on. -/
theorem act {r : TaskAct S} (hm : m.Records R h (some i))
    (hf : R.Fits h (.deed i (.act (.inl r) (m.act r).1))) :
    (m.act r).2.Records R (h ++ [.deed i (.act (.inl r) (m.act r).1)]) (some i) := by
  refine hm.snoc hf (fun j hij => if_neg (by simpa using hij)) (by simp) (standing_act r)
    ?_ (length_tokens_act r) (tokens_act r) (fun t => ?_) fun t token =>
      registered_act r hm.registered
  · rw [world_act]
    exact R.agrees_other (fun _ _ _ he => by cases he) hm.agrees
  · rw [isCancelled_act]
    refine or_congr Iff.rfl (and_congr Iff.rfl ⟨?_, ?_⟩)
    · rintro rfl
      exact ⟨i, _, rfl⟩
    · rintro ⟨j, out, heq⟩
      cases heq
      rfl

/-- A turn of a task. -/
theorem run {x : Program (S.interface.sum O) (Except Failure S.Value)}
    (hm : m.Records R h (some i)) (hx : R.OnTurn h i x) :
    (Machine.run R.engine i x m).Records R (h ++ m.happenings R.engine i x) none := by
  -- along the program, one happening for each exchange, until it waits or ends
  induction x generalizing h m with
  | done r =>
    obtain ⟨hn, ht, job, hj, hl⟩ := hx
    exact hm.finish (.finish hj hn ht hl) hj
  | act r next ih =>
    cases r with
    | inl r =>
      have hfits : R.Fits h (.deed i (.act (.inl r) (m.act r).1)) := by
        obtain ⟨hn, ht, job, hj, hl⟩ := hx
        exact .act hj hn ht hl (hm.yields r)
      have hnext : R.OnTurn (h ++ [] ++ [.deed i (.act (.inl r) (m.act r).1)]) i
          (next (m.act r).1) := hx.snoc (List.forall_mem_nil _) fun l job hl => by
        simpa [Happening.deed?] using hl.snoc_act _
      have := ih (m.act r).1 (hm.act hfits) (by simpa using hnext)
      simpa [Machine.run, happenings] using this
    | inr r =>
      have hfits : R.Fits h (.deed i (.act (.inr r) (R.engine.perform r m.world).1)) := by
        obtain ⟨hn, ht, job, hj, hl⟩ := hx
        exact .act hj hn ht hl ⟨m.world, hm.agrees, rfl⟩
      have hnext : R.OnTurn (h ++ [] ++ [.deed i (.act (.inr r) (R.engine.perform r m.world).1)]) i
          (next (R.engine.perform r m.world).1) :=
        hx.snoc (List.forall_mem_nil _) fun l job hl => by
          simpa [Happening.deed?] using hl.snoc_act _
      have := ih (R.engine.perform r m.world).1
        (hm.deed hfits (fun _ _ he => by cases he) (R.agrees_act i r hm.agrees))
        (by simpa using hnext)
      simpa [Machine.run, happenings] using this
  | await w next ih =>
    -- a wait is recorded when it begins; if its answer is there, the turn goes on
    have hfits : R.Fits h (.deed i (.call w)) := by
      obtain ⟨hn, ht, job, hj, hl⟩ := hx
      exact .call hj hn ht hl
    have hn : ¬ History.Finished (h ++ [.deed i (.call w)]) i :=
      mt (fun hi => hi.of_append (by simp)) hx.unfinished
    obtain ⟨job, hj, hl⟩ := hx.way
    cases hans : m.answer? w with
    | none =>
      have hwaiting : (Phase.waiting w next).Fits R (h ++ [.deed i (.call w)]) i :=
        ⟨job, h.of i, History.jobs_mono hj, by simp [Happening.deed?], hl, hn⟩
      simpa [Machine.run, happenings, hans] using hm.suspend hfits hwaiting
    | some ans =>
      have hcall : m.Records R (h ++ [.deed i (.call w)]) (some i) :=
        hm.deed hfits (by simp) (R.agrees_other (by simp) hm.agrees)
      have hanswer : m.Records R (h ++ [.deed i (.call w)] ++ [.deed i (.answer w ans)])
          (some i) :=
        hcall.deed
          (.answer (l := h.of i) (History.jobs_mono hj) hn (by simp [Happening.deed?]) hl
            (hcall.resolves hans))
          (by simp) (R.agrees_other (by simp) hcall.agrees)
      have hnext : R.OnTurn (h ++ [.deed i (.call w)] ++ [.deed i (.answer w ans)]) i (next ans) :=
        hx.snoc (fun e he => ⟨_, List.mem_singleton.mp he⟩) fun l job hl => by
          simpa [Happening.deed?] using hl.snoc_await ans
      have := ih ans hanswer hnext
      simpa [Machine.run, happenings, hans] using this

/-- A task goes on after an answer to its wait. -/
theorem answer {w : (S.interface.sum O).Wait}
    {next : Except Failure ((S.interface.sum O).Answer w) →
      Program (S.interface.sum O) (Except Failure S.Value)}
    {ans : Except Failure ((S.interface.sum O).Answer w)} (hm : m.Records R h none)
    (hp : (Phase.waiting w next).Fits R h i) (hans : R.Resolves h i w ans) :
    (Machine.run R.engine i (next ans) m).Records R
      (h ++ .deed i (.answer w ans) :: m.happenings R.engine i (next ans)) none := by
  obtain ⟨job, l, hj, hl, hx, hn⟩ := hp
  have hanswer : m.Records R (h ++ [.deed i (.answer w ans)]) (some i) :=
    (hm.wake i).deed (.answer hj hn hl hx hans) (by simp)
      (R.agrees_other (by simp) hm.agrees)
  have hturn : R.OnTurn (h ++ [.deed i (.answer w ans)]) i (next ans) := by
    have hothers : ∀ j, j ≠ i → History.Idle (h ++ [.deed i (.answer w ans)]) j := by
      intro j hne
      refine (hm.idle nofun).mono ?_
      simp [Happening.deed?, hne.symm]
    refine ⟨?_, ⟨.inr ⟨h, _, rfl⟩, hothers⟩, job, History.jobs_mono hj, ?_⟩
    · exact mt (fun hi => hi.of_append (by simp)) hn
    · simpa [Happening.deed?, hl] using hx.snoc_await ans
  simpa using hanswer.run hturn

/-- A task goes on after a wait, or for the first time. -/
theorem resume (hm : m.Records R h none) (i : TaskId) :
    (m.resume R.engine i).Records R (h ++ m.resumeHappenings R.engine i) none := by
  unfold Machine.resume resumeHappenings
  cases hi : m.tasks[i]? with
  | none => simpa using hm
  | some t =>
    have hstanding : m.standing[i]? = some (t.phase, t.interrupted) := by simp [standing, hi]
    have hfits := hm.fits i _ _ hstanding nofun
    obtain ⟨phase, b, waiters⟩ := t
    dsimp only at hstanding hfits ⊢
    cases phase with
    | ended r => simpa using hm
    | fresh job =>
      obtain ⟨hj, hnil, hn⟩ := hfits
      -- an interruption before the first turn leaves the task without one
      cases b with
      | true =>
        exact (hm.wake i).finish (.stillborn hj hn hnil (hm.interrupted i _ hstanding)) hj
      | false =>
        have hturn : h.InTurn i := ⟨.inl hnil, fun j _ => hm.idle nofun⟩
        exact (hm.wake i).run ⟨hn, hturn, job, hj, by rw [hnil]; exact .nil _⟩
    | waiting w next =>
      -- an interruption comes before any answer
      cases b with
      | true =>
        have hinterrupt : .interrupt i ∈ h := hm.interrupted i _ hstanding
        have hresolves : R.Resolves h i w (.error .interrupted) := by
          match w with
          | .inl (.join j) => exact .inr ⟨rfl, hinterrupt⟩
          | .inl (.joinShielded j) => exact .inr ⟨rfl, hinterrupt⟩
          | .inl (.signal s) => exact .inr ⟨rfl, hinterrupt⟩
          | .inr w => exact .inr ⟨rfl, hinterrupt⟩
        exact answer (hm.flag nofun) hfits hresolves
      | false =>
        cases hans : m.answer? w with
        | none => simpa [hans] using hm
        | some ans => simpa [hans] using hm.answer hfits (hm.resolves hans)

/-- What happens at a turn. -/
theorem turn (hm : m.Records R h none) (t : Turn) :
    (Machine.turn R.engine t m).Records R (h ++ m.turnHappenings R.engine t) none := by
  cases t with
  | resume i => exact hm.resume i
  | relay i =>
    rw [turnHappenings, List.append_nil]
    exact hm.congr rfl rfl hm.agrees

/-- The answer to a wait beyond tasks. -/
theorem reply (hm : m.Records R h none) {ans : (w : O.Wait) → Except Failure (O.Answer w)}
    (hans : ∀ t w next, m.tasks[i]? = some t → t.phase = .waiting (.inr w) next →
      R.Answers h w (ans w)) :
    (m.reply R.engine i ans).Records R (h ++ m.replyHappenings R.engine i ans) none := by
  unfold Machine.reply
  split
  next w next waiters hi =>
    have hstanding : m.standing[i]? = some (.waiting (.inr w) next, false) := by
      simp [standing, hi]
    simpa [replyHappenings, hi] using
      hm.answer (hm.fits i _ _ hstanding nofun) (.inl (hans _ w next hi rfl))
  next hother =>
    have hsilent : m.replyHappenings R.engine i ans = [] := by
      unfold replyHappenings
      split
      next w next waiters hi => exact absurd hi (hother w next waiters)
      next => rfl
    simpa [hsilent] using hm

end Machine.Records

namespace Regime.Run

variable {R : Regime S O W} {m : Machine S O W} {h : History S O}

/-- The state of the machine keeps what has happened. -/
theorem records (hr : R.Run h m) : m.Records R h none := by
  induction hr with
  | start hw =>
    exact
      { possible := .nil
        agrees := hw
        tasks_eq := rfl
        tokens_eq := rfl
        tokens_history := rfl
        cancelled_iff := fun t => by simp [Machine.isCancelled, History.Cancelled]
        registered := nofun
        interrupted := nofun
        fits := nofun
        outcome := nofun
        finished := nofun }
  | launch _ hjob ih =>
    exact ih.launch hjob
  | @turn h m t before after _ ht ih =>
    have hm : ({ m with turns := before ++ after } : Machine S O W).Records R h none :=
      ih.congr rfl rfl ih.agrees
    exact hm.turn t
  | reply i _ _ hans ih => exact ih.reply hans
  | interrupt i _ ih => exact ih.interruptWithin _ i
  | fire signal _ ih =>
    refine ih.congr Machine.standing_fire Machine.tokens_fire ?_
    rw [Machine.world_fire]
    exact ih.agrees
  | drift _ hw ih => exact ih.congr rfl rfl hw

/-- Everything that happens on a machine is possible. -/
theorem possible (hr : R.Run h m) : R.Possible h := hr.records.possible

/-- Between turns every task that has done something is in the middle of a wait or has ended. -/
theorem atRest (hr : R.Run h m) : h.AtRest := fun _ => hr.records.idle nofun

end Regime.Run

end PooledSql
