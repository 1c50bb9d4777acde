import PooledSql.Proofs.Database.Custody
import PooledSql.Proofs.Database.Eviction
import PooledSql.Proofs.Wire.Leases

/-!
# Custody over the wire

Every unit of work gives its connection back once, whatever pool it is on
(`Regime.Run.released_once`). Over the wire, that hands the raw connection back to its raw pool
once, and whoever asks for more does nothing.
-/

namespace PooledSql

variable {c : Client}

/-- Units of work give their connections back once, and pools over the wire hand raw connections
back once. -/
theorem Regime.Run.released_once :
    (∀ {D : Surroundings c} {h : History c.setting c.requests}
      {m : Machine c.setting c.requests (Ledger × D.World)}, D.regime.Run h m → D.ReturnsOnce h) ∧
    ∀ {N : Network c} {h' : History c.setting c.wired}
      {m : Machine c.setting c.wired (Holdings × Ledger × N.World)}, N.regime.Run h' m →
      ∃ h, N.Account h h' ∧
        (∀ hclient : ∀ task, Public (N.client task), (N.surroundings hclient).ReturnsOnce h) ∧
        ∀ (i : TaskId) (pool : PoolId) (k : LeaseId),
          .deed i (.served (.acquire pool) (.ok k)) ∈ h →
          ∃ opened link, N.TakesBackOnce h h' i pool k opened link := by
  refine ⟨fun hr => hr.possible.returnsOnce hr.atRest, ?_⟩
  intro N h' m hr
  obtain ⟨h, ha, hrest, hpossible⟩ := hr.account
  refine ⟨h, ha, fun hclient => (hpossible hclient).returnsOnce hrest, ?_⟩
  intro i pool k hloan
  exact Network.taken_back_once hr ha hloan

/-- One program that uses a database, over a network that tells as little as it may. -/
def Network.solo (program : DatabaseM .silent Reply) : Network .silent where
  World := Unit
  client _ := program
  perform := nofun
  tell
    | .pid _, w => (none, w)
    | .terminate _, w => ((), w)
    | .statusTag _, w => (.ok none, w)

/-- A network that grants what it is asked for. -/
def Wire.granting : (w : Client.silent.wired.Wait) → Except Failure (Client.silent.wired.Answer w)
  | .inl (.openPool _) => .ok (0 : RawPoolId)
  | .inl (.acquire _) => .ok (0 : LinkId)
  | .inl (.release ..) => .ok ()
  | .inl (.prepare ..) => .ok (0 : PreparedId)
  | .inl (.fetch ..) => .ok ([] : List (List (String × Value)))
  | .inl (.connect ..) => .ok (0 : SiblingId)
  | .inl (.request ..) => .ok ()
  | .inl (.hangUp _) => .ok ()
  | .inl (.closePool _) => .ok ()
  | .inr (.inl w) => nomatch w
  | .inr (.inr (.inl w)) => nomatch w
  | .inr (.inr (.inr w)) => nomatch w

/-- Opening a pool, and borrowing a connection that is given up. -/
def Scope.givingUp : DatabaseM .silent Reply := do
  let settings ← Fiber.ofExcept (PoolSettings.ofFields [])
  let pool ← DatabaseM.poolWait (.openPool settings)
  let first := (Fault.raised .value none).failure
  connection pool fun _ => throw (Fault.abandoned first first).failure

/-- Whoever gives a connection up uses a database by what it offers. -/
theorem Scope.givingUp_public : Public givingUp :=
  .bind (.ofExcept _) fun settings => .bind (.await (.inr (.inl (.openPool settings))) trivial)
    fun pool => .connection pool fun _ => .ofExcept (.error _)

/-- A connection that is given up is broken off and handed back once. -/
theorem released_once_givingUp :
    (∃ (h : History Client.silent.setting Client.silent.requests)
        (m : Machine Client.silent.setting Client.silent.requests (Ledger × Unit)),
      (Surroundings.solo _ Scope.givingUp_public).regime.Run h m ∧ History.Evicted h 0 ∧
        (Surroundings.solo _ Scope.givingUp_public).ReturnsOnce h) ∧
    ∃ (h' : History Client.silent.setting Client.silent.wired)
        (m : Machine Client.silent.setting Client.silent.wired (Holdings × Ledger × Unit)),
      (Network.solo Scope.givingUp).regime.Run h' m ∧
        .deed 0 (.tells (.terminate 0) ()) ∈ h' ∧ .deed 0 (.sends (.release 0 0)) ∈ h' ∧
        ∃ h, (Network.solo Scope.givingUp).Account h h' := by
  have hstart : (Surroundings.solo _ Scope.givingUp_public).regime.Run []
      { world := ({}, ()) } := .start rfl
  have hback := (((hstart.launch ⟨(), rfl⟩).runTurns 1).grant 0 0 (by decide)).grant 0 0 (by decide)
  -- the same run over the wire, where the network grants what it is asked for
  have hwired : (Network.solo Scope.givingUp).regime.Run [] { world := ({}, {}, ()) } :=
    .start ⟨rfl, rfl⟩
  have hanswers : ∀ {h : History Client.silent.setting Client.silent.wired}
      {m : Machine Client.silent.setting Client.silent.wired (Holdings × Ledger × Unit)},
      (Network.solo Scope.givingUp).regime.Run h m →
      (Network.solo Scope.givingUp).regime.Run
        (h ++ m.replyHappenings (Network.solo Scope.givingUp).regime.engine 0 Wire.granting)
        (m.reply (Network.solo Scope.givingUp).regime.engine 0 Wire.granting) :=
    fun hr => hr.reply 0 _ fun _ _ _ _ _ => trivial
  have hhanded := hanswers (hanswers ((hwired.launch ⟨(), rfl⟩).runTurns 1))
  obtain ⟨h, ha, -⟩ := Regime.Run.released_once.2 hhanded
  exact ⟨⟨_, _, hback, by decide +kernel, Regime.Run.released_once.1 hback⟩, _, _, hhanded,
    List.mem_of_getElem? (i := 21) rfl, List.mem_of_getElem? (i := 22) rfl, h, ha⟩

end PooledSql
