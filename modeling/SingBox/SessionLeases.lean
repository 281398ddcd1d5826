import SingBox.Maps
import SingBox.Runs
import SingBox.Values

namespace SingBox.SessionLeases

open Maps Runs Values

abbrev SessionKey := BitVec 128

structure SessionLease where
  key : SessionKey
  nodeID : NodeID
  nodeSlot : Nat
  nodeVersion : Nat
  serviceID : String
  mode : PolicyMode
  expiresAt : Time
  updatedAt : Time
  deriving DecidableEq

/-- `closed` counts the calls of `close` on the wait channel. -/
structure PendingRecord where
  generation : Nat
  token : Nat
  waiters : Nat := 0
  closed : Nat := 0
  deriving DecidableEq

/-- `finished` says that the `sync.Once` of the reservation was used. -/
structure LeaseReservation where
  key : SessionKey
  generation : Nat
  token : Nat
  finished : Bool := false
  deriving DecidableEq

/-- A call of `Reserve` that waits for the channel of a pending record. -/
structure ReserveCall where
  key : SessionKey
  now : Time
  record : Nat
  waiting : Bool := true
  deriving DecidableEq

/-- `records` and `pendings` are all records ever allocated, and a pointer to
one is its place among them. The element of a record in `lru` is known by the
record, as each record is made with one element. The reservations and the calls
that waited are those ever made. -/
structure SessionLeaseManager where
  leases : GoMap SessionKey Nat
  pending : GoMap SessionKey Nat
  lru : List Nat
  maxEntries : Int
  generation : Nat
  nextToken : Nat
  records : List SessionLease
  pendings : List PendingRecord
  reservations : List LeaseReservation
  calls : List ReserveCall

def newSessionLeaseManager (maxEntries : Int) : SessionLeaseManager where
  leases := ∅
  pending := ∅
  lru := []
  maxEntries := if maxEntries ≤ 0 then 8192 else maxEntries
  generation := 0
  nextToken := 0
  records := []
  pendings := []
  reservations := []
  calls := []

def defaultTTL (ttl : Duration) : Duration := if ttl ≤ 0 then 600 * second else ttl

variable (m : SessionLeaseManager) (key : SessionKey)

def recordOf : Option (Nat × SessionLease) :=
  (m.leases.lookup key).bind fun i => m.records[i]?.map fun lease => (i, lease)

def moveToFront (i : Nat) : SessionLeaseManager :=
  { m with lru := i :: m.lru.erase i }

def rewrite (i : Nat) (lease : SessionLease) : SessionLeaseManager :=
  { m with records := m.records.set i lease }

def install (lease : SessionLease) : SessionLeaseManager :=
  { m with
    leases := m.leases.insert lease.key m.records.length
    lru := m.records.length :: m.lru
    records := m.records ++ [lease] }

def removeLocked (i : Nat) : SessionLeaseManager :=
  match m.records[i]? with
  | none => m
  | some lease => { m with leases := m.leases.erase lease.key, lru := m.lru.erase i }

def removeOldestLocked : SessionLeaseManager :=
  match m.lru.getLast? with
  | none => m
  | some i => removeLocked m i

/-- `for len(m.leases) > m.maxEntries`, at most as often as the list has elements. -/
def evictFrom : Nat → SessionLeaseManager → SessionLeaseManager
  | 0, m => m
  | n + 1, m => if (m.leases.keys.length : Int) > m.maxEntries then evictFrom n (removeOldestLocked m) else m

def evictExcess : SessionLeaseManager := evictFrom m.lru.length m

def pendingOwnedByLocked (generation token : Nat) : Bool :=
  match (m.pending.lookup key).bind fun p => m.pendings[p]? with
  | none => false
  | some pending => pending.generation == generation && pending.token == token

/-- Takes a record out of the pending map and closes its channel. -/
def closePending : SessionLeaseManager :=
  match m.pending.lookup key with
  | none => m
  | some p =>
    { m with
      pending := m.pending.erase key
      pendings := m.pendings.modify p fun pending => { pending with closed := pending.closed + 1 } }

def finishPendingLocked (generation token : Nat) : SessionLeaseManager :=
  if pendingOwnedByLocked m key generation token then closePending m key else m

inductive Reserved
  | lease (lease : SessionLease)
  | wait (record : Nat)
  | reservation (i : Nat)
  deriving DecidableEq

def reservePending : SessionLeaseManager × Reserved :=
  match m.pending.lookup key with
  | some p =>
    ({ m with pendings := m.pendings.modify p fun pending => { pending with waiters := pending.waiters + 1 } },
      .wait p)
  | none =>
    ({ m with
       nextToken := m.nextToken + 1
       pending := m.pending.insert key m.pendings.length
       pendings := m.pendings ++ [{ generation := m.generation, token := m.nextToken + 1 }]
       reservations := m.reservations ++
         [{ key := key, generation := m.generation, token := m.nextToken + 1 }] },
      .reservation m.reservations.length)

def reserveRound (now : Time) : SessionLeaseManager × Reserved :=
  match recordOf m key with
  | none => reservePending m key
  | some (i, lease) =>
    if lease.expiresAt > now then (moveToFront m i, .lease lease)
    else reservePending (removeLocked m i) key

def reserve (now : Time) : SessionLeaseManager :=
  match reserveRound m key now with
  | (m, .wait p) => { m with calls := m.calls ++ [{ key := key, now := now, record := p }] }
  | (m, _) => m

def wake (c : Nat) : SessionLeaseManager :=
  match m.calls[c]? with
  | none => m
  | some call =>
    if call.waiting && (m.pendings[call.record]?.any fun pending => pending.closed > 0) then
      match reserveRound m call.key call.now with
      | (m, .wait p) => { m with calls := m.calls.set c { call with record := p } }
      | (m, _) => { m with calls := m.calls.set c { call with waiting := false } }
    else m

def giveUp (c : Nat) : SessionLeaseManager :=
  { m with calls := m.calls.modify c fun call => { call with waiting := false } }

def peek (now : Time) : SessionLeaseManager × Option SessionLease :=
  match recordOf m key with
  | none => (m, none)
  | some (i, lease) =>
    if lease.expiresAt > now then (moveToFront m i, some lease) else (removeLocked m i, none)

def finishReservation (i : Nat) : SessionLeaseManager :=
  { m with reservations := m.reservations.modify i fun r => { r with finished := true } }

def commitHandle (i : Nat) (handle : NodeHandle) (serviceID : String) (mode : PolicyMode)
    (ttl : Duration) (now : Time) : SessionLeaseManager × Option SessionLease :=
  match m.reservations[i]? with
  | none => (m, none)
  | some r =>
    if r.finished then (m, none)
    else
      let m := finishReservation m i
      if r.generation ≠ m.generation ∨ !pendingOwnedByLocked m r.key r.generation r.token then (m, none)
      else
        let committed : SessionLease :=
          { key := r.key, nodeID := handle.nodeID, nodeSlot := handle.slot, nodeVersion := handle.version,
            serviceID := serviceID, mode := mode, expiresAt := now + defaultTTL ttl, updatedAt := now }
        (finishPendingLocked (evictExcess (install m committed)) r.key r.generation r.token, some committed)

def abort (i : Nat) : SessionLeaseManager :=
  match m.reservations[i]? with
  | none => m
  | some r => if r.finished then m else finishPendingLocked (finishReservation m i) r.key r.generation r.token

def invalidate (expected : NodeID) : SessionLeaseManager :=
  match recordOf m key with
  | none => m
  | some (i, lease) => if expected = 0 ∨ lease.nodeID = expected then removeLocked m i else m

def leaseMatches (lease : SessionLease) (handle : NodeHandle) : Bool :=
  lease.nodeID == handle.nodeID && lease.nodeSlot == handle.slot && lease.nodeVersion == handle.version

def replaceHandle (expected next : NodeHandle) (serviceID : String)
    (mode : PolicyMode) (ttl : Duration) (now : Time) : SessionLeaseManager × Option SessionLease :=
  let lease : SessionLease :=
    { key := key, nodeID := next.nodeID, nodeSlot := next.slot, nodeVersion := next.version,
      serviceID := serviceID, mode := mode, expiresAt := now + defaultTTL ttl, updatedAt := now }
  match recordOf m key with
  | some (i, old) =>
    if expected.nodeID ≠ 0 ∧ !leaseMatches old expected then (m, some old)
    else
      let lease := { lease with key := old.key }
      (moveToFront (rewrite m i lease) i, some lease)
  | none => if expected.nodeID ≠ 0 then (m, none) else (evictExcess (install m lease), some lease)

def renewHandle (expected : NodeHandle) (ttl : Duration) (now : Time) :
    SessionLeaseManager × Option SessionLease :=
  match recordOf m key with
  | none => (m, none)
  | some (i, old) =>
    if !leaseMatches old expected then (m, none)
    else
      let lease := { old with expiresAt := now + defaultTTL ttl, updatedAt := now }
      (moveToFront (rewrite m i lease) i, some lease)

def retireRecord (handle : NodeHandle) (m : SessionLeaseManager) (key : SessionKey) : SessionLeaseManager :=
  match recordOf m key with
  | none => m
  | some (i, lease) => if leaseMatches lease handle then removeLocked m i else m

def retireNodeHandle (handle : NodeHandle) (order : RangeOrder SessionKey) : SessionLeaseManager :=
  run (retireRecord handle) m (order.visit m.leases.keys)

def clear (order : RangeOrder SessionKey) : SessionLeaseManager :=
  run closePending { m with generation := m.generation + 1, leases := ∅, lru := [] }
    (order.visit m.pending.keys)

def restoreLease (now : Time) (m : SessionLeaseManager) (lease : SessionLease) : SessionLeaseManager :=
  if lease.key = 0 ∨ lease.nodeID = 0 ∨ lease.nodeSlot = 0 ∨ lease.nodeVersion = 0 ∨ ¬ lease.expiresAt > now then m
  else match recordOf m lease.key with
    | none => install m lease
    | some (i, existing) =>
      if existing.updatedAt > lease.updatedAt then m else install (removeLocked m i) lease

def restorePersistence (leases : List SessionLease) (now : Time) : SessionLeaseManager :=
  evictExcess (run (restoreLease now) m leases)

/-- The operations, each one critical section. `wake` and `giveUp` go on with a
call of `reserve` that waits. -/
inductive Op
  | reserve (key : SessionKey) (now : Time)
  | wake (call : Nat)
  | giveUp (call : Nat)
  | peek (key : SessionKey) (now : Time)
  | commitHandle (reservation : Nat) (handle : NodeHandle) (serviceID : String) (mode : PolicyMode)
      (ttl : Duration) (now : Time)
  | abort (reservation : Nat)
  | invalidate (key : SessionKey) (expected : NodeID)
  | replaceHandle (key : SessionKey) (expected next : NodeHandle) (serviceID : String) (mode : PolicyMode)
      (ttl : Duration) (now : Time)
  | renewHandle (key : SessionKey) (expected : NodeHandle) (ttl : Duration) (now : Time)
  | retireNodeHandle (handle : NodeHandle) (order : RangeOrder SessionKey)
  | clear (order : RangeOrder SessionKey)
  | restorePersistence (leases : List SessionLease) (now : Time)

def step : Op → SessionLeaseManager
  | .reserve key now => reserve m key now
  | .wake call => wake m call
  | .giveUp call => giveUp m call
  | .peek key now => (peek m key now).1
  | .commitHandle i handle serviceID mode ttl now => (commitHandle m i handle serviceID mode ttl now).1
  | .abort i => abort m i
  | .invalidate key expected => invalidate m key expected
  | .replaceHandle key expected next serviceID mode ttl now =>
    (replaceHandle m key expected next serviceID mode ttl now).1
  | .renewHandle key expected ttl now => (renewHandle m key expected ttl now).1
  | .retireNodeHandle handle order => retireNodeHandle m handle order
  | .clear order => clear m order
  | .restorePersistence leases now => restorePersistence m leases now

def after (maxEntries : Int) (ops : List Op) : SessionLeaseManager :=
  run step (newSessionLeaseManager maxEntries) ops

end SingBox.SessionLeases
