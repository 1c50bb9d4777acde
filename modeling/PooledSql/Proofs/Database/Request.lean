import PooledSql.Proofs.Database.Solitude
import PooledSql.Proofs.Rendering

/-!
# Requests to stop a run

A request to stop a run is a task of its own, which is noted in the ledger for the run that it is to
stop. It is a matter of best effort: an error of the pool is no failure of the request
(`DatabaseM.ends_cancelRequest`), so that those who wait for the request go on as if there had been
none (`Regime.Possible.ok_of_requested`).
-/

namespace PooledSql

variable {c : Client} {D : Surroundings c} {g g' h : History c.setting c.requests} {i j : TaskId}
  {k : LeaseId} {run : RunId} {request : TaskId}

/-- Whether no interruption reaches a task, and a pool refuses what it asks for with ordinary
failures only. -/
structure History.Untroubled (h : History c.setting c.requests) (i : TaskId) : Prop where
  not_interrupted : .interrupt i ∉ h
  ordinary : ∀ {w : Pool.Wait} {f : Failure}, .deed i (.served w (.error f)) ∈ h → f.IsOrdinary

namespace DatabaseM

variable {l : List (Deed c)}

/-- What passes until a request to stop a run has been sent. -/
def sending (k : LeaseId) (pid : Option Nat) : List (Deed c) :=
  [.inquires (.pid k) pid, .does (.log (.sendingCancel pid)) (), .requests (.cancelRunning k)]

/-- A request to stop a run is sent once, and it fails only with what is no error. -/
theorem ends_cancelRequest {u : Except Failure Unit}
    (h : Fiber.Ends (cancelRequest k : DatabaseM c Unit) l u) :
    ∃ pid ans after, l = sending k pid ++ .served (.cancelRunning k) ans :: after ∧
      (∀ d ∈ after, d.IsIdle) ∧
      (u = .ok () ∨ ∃ f, u = .error f ∧ f.isError = false ∧ ans = .error f) := by
  obtain ⟨pid, _, rfl, hpid⟩ := Fiber.ends_act_bind_iff.mp h
  obtain ⟨⟨⟩, _, rfl, hlog⟩ := Fiber.ends_act_bind_iff.mp hpid
  obtain ⟨ans, _, after, rfl, hw, ho⟩ := Fiber.ends_attempt_bind_iff.mp hlog
  obtain rfl := Fiber.ends_await_iff.mp hw
  refine ⟨pid, ans, after, by simp [sending], ?_⟩
  -- an error is logged; anything else that fails is passed on
  cases ans with
  | ok _ =>
    obtain ⟨rfl, rfl⟩ := Fiber.ends_pure_iff.mp ho
    exact ⟨List.forall_mem_nil _, .inl rfl⟩
  | error f =>
    dsimp only at ho
    split at ho
    · obtain ⟨out, rfl, rfl⟩ := Fiber.ends_act_iff.mp ho
      exact ⟨List.forall_mem_singleton.mpr trivial, .inl rfl⟩
    next herror =>
      obtain ⟨rfl, rfl⟩ := Fiber.ends_throw_iff.mp ho
      exact ⟨List.forall_mem_nil _, .inr ⟨f, rfl, by simpa using herror, rfl⟩⟩

/-- A request to stop a run waits for nothing but the answer to it. -/
theorem asks_cancelRequest_call {w : (c.setting.interface.sum c.requests).Wait}
    (h : Fiber.Asks (cancelRequest k : DatabaseM c Unit) l (.call w)) :
    ∃ pid, l ++ [.call w] = sending k pid := by
  rcases Fiber.asks_act_bind_iff.mp h with ⟨-, pid, he⟩ | ⟨pid, _, rfl, hpid⟩
  · cases he
  rcases Fiber.asks_act_bind_iff.mp hpid with ⟨-, out, he⟩ | ⟨⟨⟩, _, rfl, hlog⟩
  · cases he
  rcases Fiber.asks_attempt_bind_iff.mp hlog with hw | ⟨o, _, _, rfl, -, ho⟩
  · obtain ⟨rfl, he⟩ := Fiber.asks_await_iff.mp hw
    cases he
    exact ⟨pid, rfl⟩
  -- behind the answer there is nothing left to wait for
  cases o with
  | ok u => exact absurd ho Fiber.not_asks_pure
  | error f =>
    dsimp only at ho
    split at ho
    · obtain ⟨-, out, he⟩ := Fiber.asks_act_iff.mp ho
      cases he
    · exact absurd ho Fiber.not_asks_throw

end DatabaseM

namespace Regime.Possible

/-- A request to stop a run that no interruption reaches does not fail if it is refused with errors
only. -/
theorem ok_of_request {ans : Except Failure Reply} (hp : D.regime.Possible h)
    (hrequest : h.jobs[request]? = some (.plain (.cancelRequest k)))
    (hcalm : .interrupt request ∉ h) (hfinish : .finish request ans ∈ h)
    (herrors : ∀ f, .deed request (.served (.cancelRunning k) (.error f)) ∈ h → f.isError) :
    ∃ v, ans = .ok v := by
  rcases hp.finish_cases_of_job hrequest hfinish with hends | ⟨-, -, hint⟩
  · rcases Fiber.ends_bind_iff.mp hends with ⟨f, hf, rfl⟩ | ⟨u, l₁, l₂, -, -, hv⟩
    · obtain ⟨pid, served, after, hl, -, hu | ⟨f', hf', herror, rfl⟩⟩ :=
        DatabaseM.ends_cancelRequest hf
      · cases hu
      · cases hf'
        have hserved : Exchange.served (.cancelRunning k) (.error f) ∈ h.of request := by
          rw [hl]
          simp
        rw [herrors f (History.mem_of_iff.mp hserved)] at herror
        cases herror
    · exact ⟨_, (Fiber.ends_pure_iff.mp hv).2⟩
  · exact absurd hint hcalm

end Regime.Possible

end PooledSql
