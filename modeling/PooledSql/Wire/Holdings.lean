import PooledSql.Pool
import PooledSql.Wire

/-!
# Holdings

Which raw pools have been opened with which settings, and which links have been lent out. A lease
comes back once; later returns change nothing.
-/

namespace PooledSql

/-- A raw pool and the settings that it was opened with. -/
structure OpenedPool where
  raw : RawPoolId
  settings : PoolSettings

/-- A link that has been lent out. -/
structure Lease where
  pool : PoolId
  link : LinkId
  /-- Whether the link has been given back. -/
  released : Bool := false
  /-- What runs on the link. -/
  running : Option (RunId × Statement) := none

/-- All pools and leases. -/
structure Holdings where
  pools : List OpenedPool := []
  leases : List Lease := []

namespace Holdings

/-- Entries about pools and leases. -/
inductive Act
  | addPool (pool : OpenedPool)
  | pool (pool : PoolId)
  | addLease (pool : PoolId) (link : LinkId)
  | lease (lease : LeaseId)
  | markReleased (lease : LeaseId)
  | setRunning (lease : LeaseId) (running : Option (RunId × Statement))

/-- What is given back. -/
def Act.Outcome : Act → Type
  | addPool _ => PoolId
  | pool _ => Option OpenedPool
  | addLease .. => LeaseId
  | lease _ => Option Lease
  | markReleased _ => Unit
  | setRunning .. => Unit

/-- What the holdings are used for. -/
def interface : Interface := ⟨Act, Act.Outcome, Empty, nofun⟩

/-- The effect of an entry. -/
def perform (h : Holdings) : (r : Act) → r.Outcome × Holdings
  | .addPool pool => (h.pools.length, { h with pools := h.pools ++ [pool] })
  | .pool pool => (h.pools[pool]?, h)
  | .addLease pool link =>
    (h.leases.length, { h with leases := h.leases ++ [{ pool, link }] })
  | .lease lease => (h.leases[lease]?, h)
  | .markReleased lease =>
    ((), { h with leases := h.leases.modify lease fun l => { l with released := true } })
  | .setRunning lease running =>
    ((), { h with leases := h.leases.modify lease fun l => { l with running } })

end Holdings

end PooledSql
