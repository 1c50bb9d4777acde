import PooledSql.Proofs.Database.Keeping

/-!
# Default databases that are kept

What becomes of the databases that are opened by starts of the default database, among clients that
leave the default to starts and stops.

* `Surroundings.Opened`: a start has opened a database.
* `Surroundings.Stopped`: a stop has found it to be the default, and closes it or has closed it.
* `Surroundings.Overtaken`: another start, which had looked for a default before there was this one,
  has put its own database in the place of it.

Between turns, each database that has been opened by a start is the default, or stopped, or
overtaken; and if it is overtaken, it is neither the default nor ever closed by a stop
(`Regime.Run.kept_or_overtaken`). A start looks for a default only before it opens its database, so
that two of them that are under way at a time may both succeed (`DefaultDatabase.starting_run`).
-/

namespace PooledSql

variable {c : Client} {D : Surroundings c} {g g' d d' h : History c.setting c.requests}
  {i j : TaskId} {p : PoolId} {q : Option PoolId}

/-- What a happening makes the default database. -/
def Happening.default? : Happening c.setting c.requests → Option (Option PoolId)
  | .deed _ (.act (.inr (.inr (.inl (.setDefault q)))) _) => some q
  | _ => none

/-- The default is made what a task makes it. -/
theorem Happening.default?_eq_some_iff {e : Happening c.setting c.requests} :
    e.default? = some q ↔ ∃ i, e = .deed i (.enters (.setDefault q) ()) := by
  constructor
  · intro he
    unfold default? at he
    split at he <;> cases he
    exact ⟨_, rfl⟩
  · rintro ⟨i, rfl⟩
    rfl

namespace History

/-- Whether the default database is left as it is. -/
def Steady (h : History c.setting c.requests) : Prop := ∀ e ∈ h, e.default? = none

/-- The default is changed for the first time, or never. -/
theorem steady_or_changes (h : History c.setting c.requests) :
    Steady h ∨ ∃ d i q d', h = d ++ .deed i (.enters (.setDefault q) ()) :: d' ∧ Steady d := by
  cases hdefaults : h.filterMap Happening.default? with
  | nil => exact .inl (List.filterMap_eq_nil_iff.mp hdefaults)
  | cons q _ =>
    obtain ⟨d, e, d', rfl, hd, he, -⟩ := List.filterMap_eq_cons_iff.mp hdefaults
    obtain ⟨i, rfl⟩ := Happening.default?_eq_some_iff.mp he
    exact .inr ⟨d, i, q, d', rfl, hd⟩

/-- The default is changed for the last time, or never. -/
theorem steady_or_changed (h : History c.setting c.requests) :
    Steady h ∨ ∃ g i q d, h = g ++ .deed i (.enters (.setDefault q) ()) :: d ∧ Steady d := by
  rcases List.eq_nil_or_concat (h.filterMap Happening.default?) with hnil | ⟨qs, q, hdefaults⟩
  · exact .inl (List.filterMap_eq_nil_iff.mp hnil)
  · rw [List.concat_eq_append] at hdefaults
    obtain ⟨g, g', rfl, -, hlast⟩ := List.filterMap_eq_append_iff.mp hdefaults
    obtain ⟨a, e, d, rfl, -, he, hd⟩ := List.filterMap_eq_cons_iff.mp hlast
    obtain ⟨i, rfl⟩ := Happening.default?_eq_some_iff.mp he
    exact .inr ⟨g ++ a, i, q, d, by simp, List.filterMap_eq_nil_iff.mp hd⟩

/-- A history by what is made the default in it: two databases, and nothing else. -/
theorem exists_split_of_defaults {p' : PoolId}
    (hdefaults : h.filterMap Happening.default? = [some p, some p']) :
    ∃ g i d j d', h = g ++ .deed i (.enters (.setDefault (some p)) ()) ::
      (d ++ .deed j (.enters (.setDefault (some p')) ()) :: d') ∧ Steady d ∧ Steady d' := by
  obtain ⟨g, e, g', rfl, -, he, hrest⟩ := List.filterMap_eq_cons_iff.mp hdefaults
  obtain ⟨d, e', d', rfl, hd, he', hd'⟩ := List.filterMap_eq_cons_iff.mp hrest
  obtain ⟨i, rfl⟩ := Happening.default?_eq_some_iff.mp he
  obtain ⟨j, rfl⟩ := Happening.default?_eq_some_iff.mp he'
  exact ⟨g, i, d, j, d', rfl, hd, List.filterMap_eq_nil_iff.mp hd'⟩

/-- What changes the default is not among what leaves it as it is. -/
theorem Steady.not_mem (hd : Steady d) : .deed i (.enters (.setDefault q) ()) ∉ d := fun hmem => by
  cases hd _ hmem

/-- The default is changed for the first time only once. -/
theorem changes_unique {d₁ d₁' : History c.setting c.requests} {q₁ : Option PoolId}
    (heq : d ++ .deed i (.enters (.setDefault q) ()) :: d' =
      d₁ ++ .deed j (.enters (.setDefault q₁) ()) :: d₁') (hd : Steady d) (hd₁ : Steady d₁) :
    q = q₁ := by
  rcases place_cases rfl heq with ⟨-, he, -⟩ | ⟨m, rfl, -⟩ | ⟨m, rfl, -⟩
  · cases he
    rfl
  · exact absurd (by simp) (hd₁.not_mem (i := i) (q := q))
  · exact absurd (by simp) (hd.not_mem (i := j) (q := q₁))

/-- The default is what it is made. -/
theorem record_default {l : Ledger} {e : Happening c.setting c.requests} :
    (record l e).default = e.default?.getD l.default := by
  match e with
  | .deed _ (.act (.inr (.inr (.inl (.setDefault _)))) _)
  | .deed _ (.act (.inr (.inr (.inl .newRun))) _)
  | .deed _ (.act (.inr (.inr (.inl (.noteRequest ..)))) _)
  | .deed _ (.act (.inr (.inr (.inl (.request _)))) _)
  | .deed _ (.act (.inr (.inr (.inl (.openScope ..)))) _)
  | .deed _ (.act (.inr (.inr (.inl (.closeScope _)))) _)
  | .deed _ (.act (.inr (.inr (.inl (.setState ..)))) _)
  | .deed _ (.act (.inr (.inr (.inl (.scope _)))) _)
  | .deed _ (.act (.inr (.inr (.inl .default))) _)
  | .deed _ (.act (.inr (.inr (.inr _))) _) | .deed _ (.act (.inr (.inl _)) _)
  | .deed _ (.act (.inl _) _) | .deed _ (.call _) | .deed _ (.answer ..) | .launch _
  | .finish .. | .interrupt _ => rfl

/-- The default stays what it is while it is left so. -/
theorem Steady.default_eq (hd : Steady d) : (ledger (g ++ d)).default = g.ledger.default := by
  induction d using List.reverseRecOn with
  | nil => rw [List.append_nil]
  | append_singleton d e ih =>
    obtain ⟨hd, he⟩ := List.forall_mem_append.mp hd
    rw [← List.append_assoc, ledger_snoc, record_default, he e (List.mem_singleton_self e)]
    exact ih hd

/-- The default is what it was made last. -/
theorem Steady.default_of_set (hd : Steady d) :
    (ledger (g ++ .deed i (.enters (.setDefault q) ()) :: d)).default = q := by
  rw [List.append_cons, hd.default_eq, ledger_snoc]
  rfl

/-- A database is the default by having been made so. -/
theorem exists_set_of_default (hp : h.ledger.default = some p) :
    ∃ g i d, h = g ++ .deed i (.enters (.setDefault (some p)) ()) :: d ∧ Steady d := by
  rcases steady_or_changed h with hsteady | ⟨g, i, q, d, rfl, hd⟩
  · rw [← List.nil_append h, hsteady.default_eq] at hp
    cases hp
  · rw [hd.default_of_set] at hp
    subst hp
    exact ⟨g, i, d, rfl, hd⟩

/-- Once there has been a default, there is one while none is forgotten. -/
theorem default_of_not_forgotten (hnone : ∀ k, .deed k (.enters (.setDefault none) ()) ∉ d) :
    (ledger (g ++ .deed i (.enters (.setDefault (some p)) ()) :: d)).default ≠ none := by
  rcases steady_or_changed d with hsteady | ⟨a, k, q, d, rfl, hd⟩
  · rw [hsteady.default_of_set]
    nofun
  · rw [← List.cons_append, ← List.append_assoc, hd.default_of_set]
    rintro rfl
    exact hnone k (by simp)

/-- The name of the database that a happening opens. -/
def opened? : Happening c.setting c.requests → Option PoolId
  | .deed _ (.answer (.inr (.inl (.openPool _))) (.ok p)) => some p
  | _ => none

/-- Whether the databases that are opened all have names of their own. -/
def OpensApart (h : History c.setting c.requests) : Prop := (h.filterMap opened?).Nodup

/-- A database is opened at one place, if all have names of their own. -/
theorem OpensApart.place_unique {a a' b b' : History c.setting c.requests}
    {e e' : Happening c.setting c.requests} (hapart : h.OpensApart) (ha : h = a ++ e :: a')
    (hb : h = b ++ e' :: b') (he : opened? e = some p) (he' : opened? e' = some p) : a = b := by
  -- a database that is opened again has the name of one that has been opened before
  have hagain : ∀ {a m b' : History c.setting c.requests} {e e' : Happening c.setting c.requests},
      h = a ++ e :: (m ++ e' :: b') → opened? e = some p → opened? e' = some p → False := by
    intro a m b' e e' heq he he'
    subst heq
    simp [OpensApart, List.nodup_append, he, he'] at hapart
  rcases place_cases ha hb with ⟨hsame, -, -⟩ | ⟨m, -, rfl⟩ | ⟨m, -, rfl⟩
  · exact hsame
  · exact (hagain ha he he').elim
  · exact (hagain hb he' he).elim

end History

namespace DefaultDatabase

/-- A start uses a database by what it offers. -/
theorem start_public (target : Target) : Public (start target : DatabaseM c PoolId) := by
  have hopen : Public (DatabaseM.openDatabase target : DatabaseM c PoolId) :=
    .bind (.ofExcept _) fun _ => .bind (.act _ trivial) fun _ => .await _ trivial
  refine .bind (.act _ trivial) fun q => ?_
  cases q with
  | some q => exact .ofExcept (.error _)
  | none =>
    exact .bind hopen fun p => .bind (.act _ trivial) fun _ => .bind (.act _ trivial) fun _ =>
      .ofExcept (.ok p)

end DefaultDatabase

namespace Surroundings

variable (D : Surroundings c) (h : History c.setting c.requests) (p : PoolId)

/-- Whether a database has been opened by a start of the default database. -/
def Opened : Prop :=
  ∃ i b target settings l,
    D.regime.Performs h i b (DefaultDatabase.start target : DatabaseM c PoolId) ∧
      target.poolSettings = .ok settings ∧ h.of i = b ++ (DefaultDatabase.opening settings p ++ l)

/-- Whether a stop has found a database to be the default and has forgotten it, and closes it or has
closed it. -/
def Stopped : Prop :=
  ∃ i b l, D.regime.Performs h i b (DefaultDatabase.stop : DatabaseM c Unit) ∧
    h.of i = b ++ (DefaultDatabase.forgetting p ++ .requests (.close p) :: l)

/-- Whether a database has been made the default after another start had found none, and has been
the default until that start put its own database in the place of it. -/
def Overtaken : Prop :=
  ∃ (g g' d d' : History c.setting c.requests) (i j : TaskId) (q : PoolId) (target : Target)
      (settings : PoolSettings),
    h = g ++ .deed i (.enters .default none) ::
      (g' ++ .deed j (.enters (.setDefault (some p)) ()) ::
      (d ++ .deed i (.enters (.setDefault (some q)) ()) :: d')) ∧ d.Steady ∧
    D.regime.Performs h i (g.of i) (DefaultDatabase.start target : DatabaseM c PoolId) ∧
    target.poolSettings = .ok settings ∧
    History.of (g ++ .deed i (.enters .default none) :: (g' ++
      .deed j (.enters (.setDefault (some p)) ()) :: d)) i =
        g.of i ++ DefaultDatabase.opening settings q

end Surroundings

namespace Regime.Possible

open DefaultDatabase

/-- The default is changed where a start or a stop does it. -/
theorem sets (hp : D.regime.Possible h) (hkeeps : ∀ task, Keeping (D.client task))
    (heq : h = g ++ .deed i (.enters (.setDefault q) ()) :: g') :
    ∃ job, h.jobs[i]? = some job ∧ Sets (D.regime.program job) (g.of i) q := by
  subst heq
  obtain ⟨job, hj, hasks⟩ := hp.asks (fun hx => hx)
  exact ⟨job, History.jobs_mono hj,
    (Keeping.program hkeeps (hp.of_append.lawful hj)).asks_setDefault hasks⟩

/-- A database is made the default by the start that has just opened it. -/
theorem start_of_set (hp : D.regime.Possible h) (hkeeps : ∀ task, Keeping (D.client task))
    (heq : h = g ++ .deed i (.enters (.setDefault (some p)) ()) :: g') :
    ∃ b target settings, D.regime.Performs h i b (start target : DatabaseM c PoolId) ∧
      target.poolSettings = .ok settings ∧ g.of i = b ++ opening settings p := by
  obtain ⟨job, hj, hsets⟩ := hp.sets hkeeps heq
  cases hsets with
  | start hcomes hsettings hof => exact ⟨_, _, _, ⟨job, hj, hcomes⟩, hsettings, hof⟩

/-- A database is forgotten by a stop, which has just found it. -/
theorem stop_of_set (hp : D.regime.Possible h) (hkeeps : ∀ task, Keeping (D.client task))
    (heq : h = g ++ .deed i (.enters (.setDefault none) ()) :: g') :
    ∃ (b : List (Deed c)) (p : PoolId) (g₀ : History c.setting c.requests),
      D.regime.Performs h i b (stop : DatabaseM c Unit) ∧
      g = g₀ ++ [.deed i (.enters .default (some p))] ∧ g₀.of i = b ∧
      g₀.ledger.default = some p := by
  obtain ⟨job, hj, hsets⟩ := hp.sets hkeeps heq
  cases hsets with
  | @stop b p hcomes hof =>
    subst heq
    obtain ⟨g₀, rfl, hb⟩ := hp.directly (fun hx => hx) hof
    have hp : D.regime.Possible (g₀ ++ .deed i (.enters .default (some p)) :: []) := hp.of_append
    have hfound : some p = g₀.ledger.default := hp.ledger_outcome
    exact ⟨b, p, g₀, ⟨job, hj, hcomes⟩, rfl, hb, hfound.symm⟩

/-- A start that looks for a default while there is one fails. -/
theorem fails_of_default {target : Target}
    (hp : D.regime.Possible (g ++ .deed i (.enters .default q) :: g'))
    (hdefault : g.ledger.default ≠ none) : Fiber.Ends (start target : DatabaseM c PoolId)
      [.enters .default q] (.error Fault.alreadyInitialized.failure) := by
  obtain rfl : q = g.ledger.default := hp.ledger_outcome
  obtain ⟨p, hp⟩ := Option.ne_none_iff_exists'.mp hdefault
  rw [hp]
  exact Fiber.ends_act_bind_iff.mpr ⟨_, _, rfl, Fiber.ends_throw_iff.mpr ⟨rfl, rfl⟩⟩

/-- Between turns, a database that a start has opened has been made the default. -/
theorem set_of_opened (hp : D.regime.Possible h) (hrest : h.AtRest) (hopened : D.Opened h p) :
    ∃ g i g', h = g ++ .deed i (.enters (.setDefault (some p)) ()) :: g' := by
  obtain ⟨i, b, target, settings, l, hy, hsettings, hof⟩ := hopened
  suffices hset : ∃ l', l = .enters (.setDefault (some p)) () :: l' by
    obtain ⟨l', rfl⟩ := hset
    rw [← List.append_assoc] at hof
    obtain ⟨g, g', rfl, -, -⟩ := History.exists_split_of hof
    exact ⟨g, i, g', rfl⟩
  -- a start that has been told of its database has nothing more to wait for, so it has ended
  have hne : h.of i ≠ [] := by simp [hof, opening]
  rcases hy.ends_or_waits hp hrest hof hne with ⟨l₁, l₂, r, hl, hends⟩ | ⟨l₁, w, hl, hasks⟩
  · -- of all the ways in which a start ends, only success goes with an opened database
    rcases ends_start hends with ⟨q, rfl, -⟩ | ⟨f, hf, -, -⟩ | ⟨_, f, rfl, -⟩ | ⟨_, _, rfl, -⟩
    · cases hl
    · rw [hsettings] at hf
      cases hf
    · obtain ⟨-, hf, -⟩ := DatabaseM.requesting_append_inj (List.cons.inj hl).2
      cases hf
    · rw [List.append_assoc] at hl
      obtain ⟨-, hsame, rfl⟩ := DatabaseM.requesting_append_inj (List.cons.inj hl).2
      cases hsame
      exact ⟨_, rfl⟩
  · rcases asks_start hasks with ⟨_, hw⟩ | ⟨_, _, hw⟩ | ⟨_, rfl, -⟩ | ⟨_, _, -, -, hw⟩
    · cases hw
    · cases hw
    · simp [opening, DatabaseM.requesting] at hl
    · cases hw

/-- A database that has been made the default has been opened by a start. -/
theorem opened_of_set (hp : D.regime.Possible h) (hkeeps : ∀ task, Keeping (D.client task))
    (heq : h = g ++ .deed i (.enters (.setDefault (some p)) ()) :: g') : D.Opened h p := by
  obtain ⟨b, target, settings, hy, hsettings, hof⟩ := hp.start_of_set hkeeps heq
  exact ⟨i, b, target, settings, .enters (.setDefault (some p)) () :: g'.of i, hy, hsettings,
    by simp [heq, hof, Happening.deed?]⟩

/-- A default whose place is taken by another database is overtaken: the start that opens the other
one has found no default, and so has looked before. -/
theorem overtaken_of_set {q : PoolId} (hp : D.regime.Possible h)
    (hkeeps : ∀ task, Keeping (D.client task))
    (heq : h = g ++ .deed j (.enters (.setDefault (some p)) ()) ::
      (d ++ .deed i (.enters (.setDefault (some q)) ()) :: d')) (hd : d.Steady) :
    D.Overtaken h p := by
  have hset : h = (g ++ .deed j (.enters (.setDefault (some p)) ()) :: d) ++
      .deed i (.enters (.setDefault (some q)) ()) :: d' := by simp [heq]
  obtain ⟨b, target, settings, hy, hsettings, hof⟩ := hp.start_of_set hkeeps hset
  have hlook : History.of (g ++ .deed j (.enters (.setDefault (some p)) ()) :: d) i =
      b ++ .enters .default none :: DatabaseM.requesting settings (.ok q) := hof
  obtain ⟨a, a', ha, rfl, -⟩ := History.exists_split_of hlook
  have hpa : D.regime.Possible (a ++ .deed i (.enters .default none) :: a') :=
    ha ▸ (hset ▸ hp).of_append
  have hnone : none = a.ledger.default := hpa.ledger_outcome
  -- had it looked after `p` was made the default, it would have found `p`
  rcases History.place_cases rfl ha with ⟨-, he, -⟩ | ⟨m, rfl, rfl⟩ | ⟨m, rfl, rfl⟩
  · cases he
  · rw [History.Steady.default_of_set (List.forall_mem_append.mp hd).1] at hnone
    cases hnone
  · exact ⟨a, m, d, d', i, j, q, target, settings, by simp [heq], hd, hy,
      hsettings, by simpa using hof⟩

/-- Between turns, a default that has been forgotten is being closed, or has been. -/
theorem stopped_of_set (hp : D.regime.Possible h) (hrest : h.AtRest)
    (hkeeps : ∀ task, Keeping (D.client task))
    (heq : h = g ++ .deed j (.enters (.setDefault (some p)) ()) ::
      (d ++ .deed i (.enters (.setDefault none) ()) :: d')) (hd : d.Steady) : D.Stopped h p := by
  have hset : h = (g ++ .deed j (.enters (.setDefault (some p)) ()) :: d) ++
      .deed i (.enters (.setDefault none) ()) :: d' := by simp [heq]
  obtain ⟨b, p', g₀, hy, hg₀, hb, hfound⟩ := hp.stop_of_set hkeeps hset
  -- the stop has found what was set last
  obtain rfl : p = p' := by
    rcases List.eq_nil_or_concat d with rfl | ⟨d, e, rfl⟩
    · cases (List.append_inj' hg₀ rfl).2
    rw [List.concat_eq_append] at hd hg₀
    rw [← List.cons_append, ← List.append_assoc] at hg₀
    obtain ⟨rfl, -⟩ := List.append_inj' hg₀ rfl
    rw [History.Steady.default_of_set (List.forall_mem_append.mp hd).1] at hfound
    exact Option.some.inj hfound
  have hof : h.of i = b ++ (forgetting p ++ d'.of i) := by
    rw [hset, hg₀]
    simp [hb, forgetting, Happening.deed?]
  -- all that a stop waits for is that the database it has forgotten be closed
  have hne : h.of i ≠ [] := by simp [hof, forgetting]
  rcases hy.ends_or_waits hp hrest hof hne with ⟨l₁, l₂, r, hl, hends⟩ | ⟨l₁, w, hl, hasks⟩
  · rcases ends_stop hends with rfl | ⟨p', ans, rfl⟩
    · cases hl
    · rw [List.append_assoc] at hl
      obtain ⟨hsame, hrest⟩ := List.append_inj hl rfl
      cases hsame
      exact ⟨i, b, _, hy, by rw [hof, hrest]; rfl⟩
  · rcases asks_stop hasks with ⟨_, hw⟩ | ⟨_, -, hw⟩ | ⟨p', rfl, hw⟩
    · cases hw
    · cases hw
    · obtain ⟨hsame, hrest⟩ := List.append_inj hl rfl
      cases hsame
      cases hw
      exact ⟨i, b, [], hy, by rw [hof, hrest]⟩

/-- A database is stopped after it has been made the default, and nothing has been put in its
place. -/
theorem set_of_stopped (hp : D.regime.Possible h) (hstopped : D.Stopped h p) :
    ∃ (g d d' : History c.setting c.requests) (j i : TaskId),
      h = g ++ .deed j (.enters (.setDefault (some p)) ()) :: (d ++
        .deed i (.enters (.setDefault none) ()) :: d') ∧ d.Steady := by
  obtain ⟨i, b, l, -, hof⟩ := hstopped
  have hforget : h.of i = (b ++ [.enters .default (some p)]) ++
      .enters (.setDefault none) () :: .requests (.close p) :: l := by simp [hof, forgetting]
  obtain ⟨a, d', rfl, ha, -⟩ := History.exists_split_of hforget
  obtain ⟨a, rfl, rfl⟩ := hp.directly (fun hx => hx) ha
  have hpa : D.regime.Possible (a ++ .deed i (.enters .default (some p)) :: []) := hp.of_append
  have hfound : some p = a.ledger.default := hpa.ledger_outcome
  obtain ⟨g, j, d, rfl, hd⟩ := History.exists_set_of_default hfound.symm
  refine ⟨g, d ++ [.deed i (.enters .default (some p))], d', j, i, by simp, ?_⟩
  exact List.forall_mem_append.mpr ⟨hd, List.forall_mem_singleton.mpr rfl⟩

/-- A database is made the default once, if all have names of their own. -/
theorem set_unique {a a' b b' : History c.setting c.requests} (hp : D.regime.Possible h)
    (hkeeps : ∀ task, Keeping (D.client task)) (hapart : h.OpensApart)
    (ha : h = a ++ .deed i (.enters (.setDefault (some p)) ()) :: a')
    (hb : h = b ++ .deed j (.enters (.setDefault (some p)) ()) :: b') : a = b ∧ a' = b' := by
  -- whoever makes `p` the default has just been told that it is open
  have hserved : ∀ {g g' : History c.setting c.requests} {i},
      h = g ++ .deed i (.enters (.setDefault (some p)) ()) :: g' →
      ∃ (g₀ : History c.setting c.requests) (e : _),
        g = g₀ ++ [e] ∧ History.opened? e = some p := by
    intro g g' i heq
    obtain ⟨b, target, settings, -, -, hof⟩ := hp.start_of_set hkeeps heq
    have hlast : g.of i =
        (b ++ [.enters .default none, .does (.log (.openingPool settings.maxSize)) (),
        .requests (.openPool settings)]) ++ [.served (.openPool settings) (.ok p)] := by
      rw [hof, List.append_assoc]
      rfl
    obtain ⟨g₀, rfl, -⟩ := (heq ▸ hp).directly (fun hx => hx) hlast
    exact ⟨g₀, _, rfl, rfl⟩
  obtain ⟨a₀, e, rfl, he⟩ := hserved ha
  obtain ⟨b₀, e', rfl, he'⟩ := hserved hb
  have ha₀ : h = a₀ ++ e :: .deed i (.enters (.setDefault (some p)) ()) :: a' := by simp [ha]
  have hb₀ : h = b₀ ++ e' :: .deed j (.enters (.setDefault (some p)) ()) :: b' := by simp [hb]
  -- a database is told of once, and so both are the same place
  obtain rfl := hapart.place_unique ha₀ hb₀ he he'
  rw [ha₀] at hb₀
  cases List.append_cancel_left hb₀
  exact ⟨rfl, rfl⟩

end Regime.Possible

/-- Between turns, each database that has been opened by a start is the default, or is being closed
by a stop, or has been, or has been overtaken. A database that has been overtaken is lost: if all
databases have names of their own, it is not the default, and no stop closes it. Of two starts that
succeed with no stop between, one overtakes the other, having looked for a default before; those
that look afterwards fail. -/
theorem Regime.Run.kept_or_overtaken {m : Machine c.setting c.requests (Ledger × D.World)}
    (hr : D.regime.Run h m) (hkeeps : ∀ task, Keeping (D.client task)) :
    (∀ p, D.Opened h p → m.world.1.default = some p ∨ D.Stopped h p ∨ D.Overtaken h p) ∧
    (∀ p, D.Overtaken h p →
      D.Opened h p ∧ (h.OpensApart → m.world.1.default ≠ some p ∧ ¬ D.Stopped h p)) ∧
    ∀ (g d d' : History c.setting c.requests) i p,
      h = g ++ .deed i (.enters (.setDefault (some p)) ()) :: (d ++ d') →
      (∀ k, .deed k (.enters (.setDefault none) ()) ∉ d) →
      (∀ j q, .deed j (.enters (.setDefault (some q)) ()) ∈ d → D.Overtaken h p) ∧
      ∀ j q e target, d' = .deed j (.enters .default q) :: e →
        Fiber.Ends (DefaultDatabase.start target : DatabaseM c PoolId) [.enters .default q]
          (.error Fault.alreadyInitialized.failure) := by
  have hp : D.regime.Possible h := hr.possible
  have hworld : m.world.1 = h.ledger := hr.records.agrees
  refine ⟨fun p hopened => ?_, fun p hovertaken => ?_, fun g d d' i p heq hnone => ⟨?_, ?_⟩⟩
  · -- what is made the default after `p` decides what becomes of it
    obtain ⟨g, i, g', heq⟩ := hp.set_of_opened hr.atRest hopened
    rcases History.steady_or_changes g' with hsteady | ⟨d, j, q, d', rfl, hd⟩
    · exact .inl (by rw [hworld, heq, hsteady.default_of_set])
    cases q with
    | none => exact .inr (.inl (hp.stopped_of_set hr.atRest hkeeps heq hd))
    | some q => exact .inr (.inr (hp.overtaken_of_set hkeeps heq hd))
  · -- what has taken its place is no other time at which it was made the default
    obtain ⟨g, g', d, d', i, j, q, -, -, heq, hd, -⟩ := hovertaken
    rw [← List.cons_append, ← List.append_assoc] at heq
    refine ⟨hp.opened_of_set hkeeps heq, fun hapart => ⟨fun hdefault => ?_, fun hstopped => ?_⟩⟩
    · rw [hworld] at hdefault
      obtain ⟨a, k, a', ha, hsteady⟩ := History.exists_set_of_default hdefault
      obtain ⟨-, rfl⟩ := hp.set_unique hkeeps hapart ha heq
      exact absurd (by simp) (hsteady.not_mem (i := i) (q := some q))
    · obtain ⟨a, e, e', k, i', ha, he⟩ := hp.set_of_stopped hstopped
      obtain ⟨-, hsame⟩ := hp.set_unique hkeeps hapart ha heq
      cases History.changes_unique hsame he hd
  · -- the first default that is set afterwards is a database, as nothing is forgotten
    rintro j q hmem
    rcases History.steady_or_changes d with hd | ⟨e, k, q', e', rfl, he⟩
    · exact absurd hmem hd.not_mem
    cases q' with
    | none => exact absurd (by simp) (hnone k)
    | some q' =>
      rw [List.append_assoc, List.cons_append] at heq
      exact hp.overtaken_of_set hkeeps heq he
  · -- whoever looks before the default is forgotten finds one
    rintro j q e target rfl
    rw [← List.cons_append, ← List.append_assoc] at heq
    exact (heq ▸ hp).fails_of_default (History.default_of_not_forgotten hnone)

/-- A pool that is opened under a given name, and grants what it is asked for. -/
def Pool.opening (p : PoolId) :
    (w : Client.silent.requests.Wait) → Except Failure (Client.silent.requests.Answer w)
  | .inl (.openPool _) => .ok p
  | w => Pool.granting 0 w

/-- A pool may be opened under any name. -/
theorem Surroundings.answers_opening {h : History Client.silent.setting Client.silent.requests}
    {w : Client.silent.requests.Wait} (hk : ¬ h.Lent 0) : Answers h w (Pool.opening p w) := by
  match w with
  | .inl (.openPool _) => trivial
  | .inl (.acquire pool) => exact answers_granting (w := .inl (.acquire pool)) hk
  | .inl (.execute ..) | .inl (.release ..) | .inl (.cancelRunning _) | .inl (.close _) => trivial
  | .inr (.inl w) => nomatch w
  | .inr (.inr w) => nomatch w

namespace DefaultDatabase

/-- Settings that leave all as it is. -/
def settings : PoolSettings where
  dsn := none
  minSize := 1
  maxSize := PoolSettings.defaultMaxSize
  idleTimeout := PoolSettings.defaultIdleTimeout
  connectTimeout := PoolSettings.defaultConnectTimeout

/-- Starting the default database. -/
def starting : DatabaseM .silent Reply := do
  discard (start (.settings settings))
  return .value .null

/-- Starting the default database uses a database by what it offers. -/
theorem starting_public : Public starting :=
  .bind (.bind (start_public _) fun _ => .ofExcept (.ok ())) fun _ => .ofExcept (.ok _)

/-- Starting the default database leaves the default to starts. -/
theorem keeping_starting : Keeping starting :=
  .bind (.bind (.start _) fun _ => .pure _) fun _ => .pure _

/-- There is a run in which two starts that are under way at a time both succeed, and nothing is
stopped. -/
theorem starting_run :
    ∃ (h : History Client.silent.setting Client.silent.requests)
      (m : Machine Client.silent.setting Client.silent.requests (Ledger × Unit)),
      (Surroundings.solo starting starting_public).regime.Run h m ∧ h.OpensApart ∧
        h.filterMap Happening.default? = [some 0, some 1] := by
  have hstart : (Surroundings.solo starting starting_public).regime.Run [] { world := ({}, ()) } :=
    .start rfl
  have hboth := ((hstart.launch ⟨(), rfl⟩).launch ⟨(), rfl⟩).runTurns 2
  have hfirst :=
    hboth.reply 0 (Pool.opening 0) fun _ _ _ _ _ => Surroundings.answers_opening (by decide)
  have hsecond :=
    hfirst.reply 1 (Pool.opening 1) fun _ _ _ _ _ => Surroundings.answers_opening (by decide)
  obtain ⟨h, m, hr, hopened, hdefaults⟩ : ∃ h m,
      (Surroundings.solo starting starting_public).regime.Run h m ∧
        h.filterMap History.opened? = [0, 1] ∧ h.filterMap Happening.default? = [some 0, some 1] :=
    ⟨_, _, hsecond, rfl, rfl⟩
  exact ⟨h, m, hr, by simp [History.OpensApart, hopened], hdefaults⟩

/-- A start that is overtaken by another one: its database is neither the default nor closed by a
stop. -/
theorem kept_or_overtaken_starting :
    ∃ (h : History Client.silent.setting Client.silent.requests)
      (m : Machine Client.silent.setting Client.silent.requests (Ledger × Unit)),
      (Surroundings.solo starting starting_public).regime.Run h m ∧ h.OpensApart ∧
        (Surroundings.solo starting starting_public).Opened h 0 ∧
        (Surroundings.solo starting starting_public).Overtaken h 0 ∧ m.world.1.default ≠ some 0 ∧
        ¬ (Surroundings.solo starting starting_public).Stopped h 0 := by
  obtain ⟨h, m, hr, hapart, hdefaults⟩ := starting_run
  obtain ⟨g, i, d, j, d', heq, hd, -⟩ := History.exists_split_of_defaults hdefaults
  obtain ⟨-, hlost, hnext⟩ := hr.kept_or_overtaken fun _ => keeping_starting
  have hchange : h = g ++ .deed i (.enters (.setDefault (some 0)) ()) ::
      ((d ++ [.deed j (.enters (.setDefault (some 1)) ())]) ++ d') := by
        rw [heq, List.append_assoc]; rfl
  -- the second default is set with no stop in between
  have hovertaken : (Surroundings.solo starting starting_public).Overtaken h 0 := by
    refine (hnext g _ d' i 0 hchange fun k hmem => ?_).1 j 1 (by simp)
    rcases List.mem_append.mp hmem with hmem | hmem
    · exact hd.not_mem hmem
    · cases List.mem_singleton.mp hmem
  obtain ⟨hopened, hends⟩ := hlost 0 hovertaken
  exact ⟨h, m, hr, hapart, hopened, hovertaken, (hends hapart).1, (hends hapart).2⟩

/-- It is not so that each database that has been opened by a start is the default, or is being
closed by a stop, or has been; nor that two starts succeed only with a stop between. -/
theorem not_kept :
    (¬ ∀ {c : Client} {D : Surroundings c} {h : History c.setting c.requests}
      {m : Machine c.setting c.requests (Ledger × D.World)}, D.regime.Run h m →
      (∀ task, Keeping (D.client task)) → h.OpensApart →
      ∀ p, D.Opened h p → m.world.1.default = some p ∨ D.Stopped h p) ∧
    ¬ ∀ {c : Client} {D : Surroundings c} {h : History c.setting c.requests}
      {m : Machine c.setting c.requests (Ledger × D.World)}, D.regime.Run h m →
      (∀ task, Keeping (D.client task)) → h.OpensApart →
      ∀ (g d d' : History c.setting c.requests) i j p q,
        h = g ++ .deed i (.enters (.setDefault (some p)) ()) ::
          (d ++ .deed j (.enters (.setDefault (some q)) ()) :: d') →
        ∃ k, .deed k (.enters (.setDefault none) ()) ∈ d := by
  obtain ⟨h, m, hr, hapart, hdefaults⟩ := starting_run
  obtain ⟨g, i, d, j, d', heq, hd, hd'⟩ := History.exists_split_of_defaults hdefaults
  have hkeeps : ∀ task, Keeping ((Surroundings.solo starting starting_public).client task) :=
    fun _ => keeping_starting
  refine ⟨fun hall => ?_, fun hall => ?_⟩
  · rcases hall hr hkeeps hapart 0 (hr.possible.opened_of_set hkeeps heq) with hdefault | hstopped
    · have hworld : m.world.1 = h.ledger := hr.records.agrees
      rw [hworld, heq, ← List.cons_append, ← List.append_assoc, hd'.default_of_set] at hdefault
      cases hdefault
    · obtain ⟨a, e, e', k, i', ha, -⟩ := hr.possible.set_of_stopped hstopped
      have hforgets : none ∈ h.filterMap Happening.default? :=
        List.mem_filterMap.mpr ⟨.deed i' (.enters (.setDefault none) ()), by simp [ha], rfl⟩
      simp [hdefaults] at hforgets
  · obtain ⟨k, hmem⟩ := hall hr hkeeps hapart g d d' i j 0 1 heq
    exact hd.not_mem hmem

end DefaultDatabase

end PooledSql
