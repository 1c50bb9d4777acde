import PooledSql.Proofs.Task.History
import PooledSql.Task.Settlement

/-!
# Settlement under a token

How work on behalf of a token comes to an end. Its outcome is given as it is or, after a look at the
token, as the failure of the token (`TaskM.Settling`, `TaskM.ends_settle`). That look is the last
thing in the turn in which the work ends, so that it finds the token as it is then
(`Regime.Possible.finish_of_settle`).
-/

namespace PooledSql

namespace TaskM

variable {S : Setting} {O : Interface} {α : Type} {token : TokenId}
  {l : List (Exchange (S.interface.sum O))} {e : Exchange (S.interface.sum O)}

/-- Whether an exchange is an act of a task that concerns the failure of a token. -/
def Settles (token : TokenId) (e : Exchange (S.interface.sum O)) : Prop :=
  (∃ out, e = .act (.inl (.isCancelled token)) out) ∨ ∃ f, e = .act (.inl (.blame token f)) ()

/-- Raising the failure of a token that has been set asks whether it has been. -/
theorem asks_raiseIfCancelled
    (h : Fiber.Asks (raiseIfCancelled token : TaskM S O Unit) l e) : Settles token e := by
  rcases Fiber.asks_act_bind_iff.mp h with ⟨-, out, rfl⟩ | ⟨out, _, -, hout⟩
  · exact .inl ⟨out, rfl⟩
  split at hout
  · exact absurd hout Fiber.not_asks_throw
  · exact absurd hout Fiber.not_asks_pure

/-- The failure of a token is not raised only when the token has been found not to be set. -/
theorem unset_of_raiseIfCancelled
    (h : Fiber.Ends (raiseIfCancelled token : TaskM S O Unit) l (.ok ())) :
    l = [.act (.inl (.isCancelled token)) false] := by
  obtain ⟨out, l', rfl, hout⟩ := Fiber.ends_act_bind_iff.mp h
  cases out with
  | false =>
    obtain ⟨rfl, -⟩ := Fiber.ends_pure_iff.mp hout
    rfl
  | true => cases (Fiber.ends_throw_iff.mp hout).2

/-- Raising the failure of a token on account of another one says so. -/
theorem asks_raiseCancelledFor {f : Failure}
    (h : Fiber.Asks (raiseCancelledFor token f : TaskM S O α) l e) : Settles token e := by
  rcases Fiber.asks_act_bind_iff.mp h with ⟨-, out, rfl⟩ | ⟨out, _, -, hout⟩
  · exact .inr ⟨f, rfl⟩
  · exact absurd hout Fiber.not_asks_throw

/-- Work on behalf of a token comes at once. -/
theorem comes_settle {work : TaskM S O α} : Fiber.Comes (settle token work) [] work :=
  Fiber.comes_bind.trans Fiber.comes_attempt

/-- Work on behalf of a token asks for the same, and then about the token. -/
theorem asks_settle {work : TaskM S O α} (h : Fiber.Asks (settle token work) l e) :
    Fiber.Asks work l e ∨ Settles token e := by
  rcases Fiber.asks_attempt_bind_iff.mp h with hw | ⟨o, _, _, -, -, ho⟩
  · exact .inl hw
  refine .inr ?_
  -- what comes after the work depends on how that has ended
  cases o with
  | ok a =>
    rcases Fiber.asks_bind_iff.mp ho with ho | ⟨⟨⟩, _, _, -, -, ha⟩
    · exact asks_raiseIfCancelled ho
    · exact absurd ha Fiber.not_asks_pure
  | error f =>
    dsimp only at ho
    -- an error asks for the token; a cancellation or an interruption passes on as it is
    split at ho
    · rcases Fiber.asks_act_bind_iff.mp ho with ⟨-, out, rfl⟩ | ⟨out, _, -, hout⟩
      · exact .inl ⟨out, rfl⟩
      split at hout
      · rcases Fiber.asks_bind_iff.mp hout with hb | ⟨a, _, _, -, -, ht⟩
        · exact asks_raiseCancelledFor hb
        · exact absurd ht Fiber.not_asks_throw
      · exact absurd hout Fiber.not_asks_throw
    · exact absurd ho Fiber.not_asks_throw

/-- All that is waited for on behalf of a token is what the work waits for. -/
theorem asks_settle_call {work : TaskM S O α} {w : (S.interface.sum O).Wait}
    (h : Fiber.Asks (settle token work) l (.call w)) : Fiber.Asks work l (.call w) := by
  rcases asks_settle h with h | ⟨_, he⟩ | ⟨_, he⟩
  · exact h
  · cases he
  · cases he

/-- What is done unless a token has been set begins with a look at the token. -/
theorem ends_raiseIfCancelled_bind {x : TaskM S O α} {r : Except Failure α}
    (h : Fiber.Ends (do raiseIfCancelled token; x) l r) :
    (l = [.act (.inl (.isCancelled token)) true] ∧ r = .error (.cancelled token)) ∨
      ∃ l', l = .act (.inl (.isCancelled token)) false :: l' ∧ Fiber.Ends x l' r := by
  rcases Fiber.ends_bind_iff.mp h with ⟨f, hraise, rfl⟩ | ⟨⟨⟩, _, l', rfl, hraise, hx⟩
  · obtain ⟨out, _, rfl, hout⟩ := Fiber.ends_act_bind_iff.mp hraise
    cases out with
    | false => cases (Fiber.ends_pure_iff.mp hout).2
    | true =>
      obtain ⟨rfl, hf⟩ := Fiber.ends_throw_iff.mp hout
      cases hf
      exact .inl ⟨rfl, rfl⟩
  · exact .inr ⟨l', by rw [unset_of_raiseIfCancelled hraise]; rfl, hx⟩

/-- Raising the failure of a token on account of another one is a failure. -/
theorem ends_raiseCancelledFor {f : Failure} {r : Except Failure α}
    (h : Fiber.Ends (raiseCancelledFor token f : TaskM S O α) l r) :
    l = [.act (.inl (.blame token f)) ()] ∧ r = .error (.cancelled token) := by
  obtain ⟨⟨⟩, l', rfl, hout⟩ := Fiber.ends_act_bind_iff.mp h
  obtain ⟨rfl, rfl⟩ := Fiber.ends_throw_iff.mp hout
  exact ⟨rfl, rfl⟩

/-- How an outcome is given in view of a token: as it is, or after a look at the token, if that is
set, as the failure of the token. -/
inductive Settling (token : TokenId) (o : Except Failure α) :
    List (Exchange (S.interface.sum O)) → Except Failure α → Prop
  | unasked : Settling token o [] o
  | asked {lb : List (Exchange (S.interface.sum O))} (out : Bool) :
      (∀ e ∈ lb, ∃ f, e = .act (.inl (.blame token f)) ()) →
      Settling token o (.act (.inl (.isCancelled token)) out :: lb)
        (if out then .error (.cancelled token) else o)

namespace Settling

variable {o r : Except Failure α}

/-- What passes then concerns the failure of the token. -/
theorem settles (h : Settling token o l r) : ∀ e ∈ l, Settles token e := by
  cases h with
  | unasked => exact List.forall_mem_nil _
  | asked out hlb =>
    intro e he
    rcases List.mem_cons.mp he with rfl | he
    · exact .inl ⟨out, rfl⟩
    · exact .inr (hlb e he)

/-- The outcome is given as it is unless the token is found set. -/
theorem eq_or_cancelled (h : Settling token o l r) :
    r = o ∨ (.act (.inl (.isCancelled token)) true ∈ l ∧ r = .error (.cancelled token)) := by
  cases h with
  | unasked => exact .inl rfl
  | asked out _ =>
    cases out with
    | false => exact .inl rfl
    | true => exact .inr ⟨List.mem_cons_self .., rfl⟩

end Settling

/-- Work on behalf of a token ends, and its outcome is given in view of the token. There is no look
at the token only when the work has failed by a cancellation or an interruption. -/
theorem ends_settle {work : TaskM S O α} {r : Except Failure α}
    (h : Fiber.Ends (settle token work) l r) :
    ∃ o lw lz, l = lw ++ lz ∧ Fiber.Ends work lw o ∧ Settling token o lz r ∧
      (lz = [] → ∃ f, o = .error f ∧ (f.isError && !f.isCancel) = false) := by
  obtain ⟨o, lw, lz, rfl, hw, hz⟩ := Fiber.ends_attempt_bind_iff.mp h
  refine ⟨o, lw, lz, rfl, hw, ?_⟩
  -- after a value there is one look at the token
  cases o with
  | ok a =>
    rcases ends_raiseIfCancelled_bind hz with ⟨rfl, rfl⟩ | ⟨_, rfl, ha⟩
    · exact ⟨.asked true (List.forall_mem_nil _), nofun⟩
    · obtain ⟨rfl, rfl⟩ := Fiber.ends_pure_iff.mp ha
      exact ⟨.asked false (List.forall_mem_nil _), nofun⟩
  | error f =>
    dsimp only at hz
    split at hz
    · obtain ⟨out, lt, rfl, hout⟩ := Fiber.ends_act_bind_iff.mp hz
      refine ⟨?_, nofun⟩
      -- an error of the work gives way to the failure of the token if that is set, and is kept as
      -- its cause
      cases out with
      | true =>
        rcases Fiber.ends_bind_iff.mp hout with ⟨f', hb, rfl⟩ | ⟨a, _, _, -, hb, -⟩
        · obtain ⟨rfl, hf'⟩ := ends_raiseCancelledFor hb
          cases hf'
          exact .asked true fun e he => ⟨f, List.mem_singleton.mp he⟩
        · cases (ends_raiseCancelledFor hb).2
      | false =>
        obtain ⟨rfl, rfl⟩ := Fiber.ends_throw_iff.mp hout
        exact .asked false (List.forall_mem_nil _)
    · next hcivil =>
      obtain ⟨rfl, rfl⟩ := Fiber.ends_throw_iff.mp hz
      exact ⟨.unasked, fun _ => ⟨f, rfl, by simpa using hcivil⟩⟩

end TaskM

variable {S : Setting} {O : Interface} {W : Type} {token : TokenId}

/-- Looks at a token do not set it. -/
theorem History.cancelled_append_settles {g : History S O} {j : TaskId}
    {lz : List (Exchange (S.interface.sum O))} (hz : ∀ e ∈ lz, TaskM.Settles token e) :
    Cancelled (g ++ lz.map (.deed j)) token ↔ g.Cancelled token := by
  induction lz using List.reverseRecOn with
  | nil => simp
  | append_singleton lz x ih =>
    have hbefore := ih fun y hy => hz y (List.mem_append_left _ hy)
    rw [List.map_append, ← List.append_assoc, List.map_singleton, cancelled_snoc_iff]
    refine (or_iff_left ?_).trans hbefore
    rintro ⟨-, i, out, he⟩
    cases he
    rcases hz _ (List.mem_append_right _ (List.mem_singleton_self _)) with ⟨_, he⟩ | ⟨_, he⟩ <;>
      cases he

/-- What the outcome of work on behalf of a token becomes in view of the token, which has been set
or not. A token that has been set leaves alone a failure that is a cancellation or an interruption,
and turns everything else into its own failure. -/
inductive TaskM.Settled {α : Type} (token : TokenId) (o : Except Failure α) (set : Prop) :
    Except Failure α → Prop
  | unset : ¬ set → Settled token o set o
  | own : set → Settled token o set (.error (.cancelled token))
  | kept {f : Failure} : set → o = .error f → (f.isError && !f.isCancel) = false →
      Settled token o set o

namespace Regime

variable [BEq S.Action] {R : Regime S O W} {g g' : History S O} {j : TaskId}

/-- A task whose work is on behalf of a token ends with the outcome of the work, in view of the
token as it is then. -/
theorem Possible.finish_of_settle {r : Except Failure S.Value} {job : Job S}
    {work : TaskM S O S.Value} (hp : R.Possible (g ++ .finish j r :: g'))
    (hjob : (History.jobs (g ++ .finish j r :: g'))[j]? = some job)
    (hprogram : R.program job = TaskM.settle token work) (hint : g.of j = [] → .interrupt j ∉ g) :
    ∃ o lw lz, g.of j = lw ++ lz ∧ Fiber.Ends work lw o ∧
      TaskM.Settled token o (g.Cancelled token) r := by
  cases hp.fits with
  | stillborn _ _ hnil hstill => exact absurd hstill (hint hnil)
  | finish hj _ hturn hx =>
    rw [History.jobs_mono hj] at hjob
    cases hjob
    rw [hprogram] at hx
    obtain ⟨o, lw, lz, hof, hw, hz, hnone⟩ := TaskM.ends_settle hx
    refine ⟨o, lw, lz, hof, hw, ?_⟩
    -- the last look at the token is in the turn in which the work ends: nothing comes between
    have hacts : ∀ y ∈ lz, ¬ y.IsAnswer := by
      intro y hy
      rcases hz.settles y hy with ⟨_, rfl⟩ | ⟨_, rfl⟩ <;> exact id
    obtain ⟨g₀, hg₀, -⟩ := hp.of_append.stretch_of_inTurn hturn hacts hof
    cases hz with
    | unasked =>
      obtain ⟨f, hf, hcivil⟩ := hnone rfl
      by_cases hset : g.Cancelled token
      · exact .kept hset hf hcivil
      · exact .unset hset
    | @asked lb out hlb =>
      have hbefore : g.Cancelled token ↔ g₀.Cancelled token := by
        rw [hg₀]
        exact History.cancelled_append_settles (TaskM.Settling.asked (o := o) out hlb).settles
      have hp₀ : R.Possible (g₀ ++ .deed j (.act (.inl (.isCancelled token)) out) ::
          lb.map (.deed j)) := hg₀ ▸ hp.of_append
      -- what the look finds is how the token is at the time
      have hlook : out = true ↔ g₀.Cancelled token := hp₀.yields
      rw [← hbefore] at hlook
      cases out with
      | true => exact .own (hlook.mp rfl)
      | false => exact .unset fun hset => Bool.noConfusion (hlook.mpr hset)

end Regime

end PooledSql
