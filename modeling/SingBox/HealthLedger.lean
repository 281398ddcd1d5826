import SingBox.BreakerRecord
import SingBox.HealthTransport
import SingBox.Maps

namespace SingBox.HealthLedger

open Values Maps BreakerRecord HealthTransport

/-- `lru` lists the keys of the records from the most to the least recently
used. `draws` counts the samples taken from the jitter source and `allocated`
the records made so far. -/
structure HealthStore where
  entries : GoMap HealthKey HealthRecord
  lru : List HealthKey
  retention : Duration
  maxEntries : Int
  evictions : Nat
  breaker : BreakerConfig
  nextToken : Nat
  draws : Nat
  allocated : Nat

def newHealthStoreWithClock (retention : Duration) (maxEntries : Int) (breaker : BreakerConfig) : HealthStore :=
  let defaults := defaultBreakerConfig breaker.jitter
  let base := if breaker.baseCooldown ≤ 0 then defaults.baseCooldown else breaker.baseCooldown
  { entries := ∅
    lru := []
    retention := if retention ≤ 0 then 7 * 24 * 3600 * second else retention
    maxEntries := if maxEntries ≤ 0 then 4096 else maxEntries
    evictions := 0
    breaker := {
      failureThreshold := if breaker.failureThreshold ≤ 0 then defaults.failureThreshold else breaker.failureThreshold
      baseCooldown := base
      maxCooldown := if breaker.maxCooldown < base then defaults.maxCooldown else breaker.maxCooldown
      jitter := breaker.jitter }
    nextToken := 0
    draws := 0
    allocated := 0 }

variable (s : HealthStore) (key : HealthKey)

def save (r : HealthRecord) : HealthStore :=
  { s with entries := s.entries.insert key r }

def moveToFront : HealthStore := { s with lru := key :: s.lru.erase key }

def create (r : HealthRecord) : HealthStore :=
  { s with entries := s.entries.insert key r, lru := key :: s.lru, allocated := s.allocated + 1 }

def removeLocked (r : HealthRecord) : HealthStore :=
  { s with entries := s.entries.erase r.key, lru := s.lru.erase r.key, evictions := s.evictions + 1 }

/-- The loop of `pruneExpiredLocked` over the list read from its back. The
element of a key is the record stored under it. -/
def pruneFrom (now : Time) : List HealthKey → HealthStore → HealthStore
  | [], s => s
  | key :: keys, s =>
    match s.entries.lookup key with
    | none => s
    | some r => if sub now r.status.lastUpdated ≤ s.retention then s else pruneFrom now keys (removeLocked s r)

def pruneExpiredLocked (now : Time) : HealthStore := pruneFrom now s.lru.reverse s

def removeOldestLocked : HealthStore :=
  match s.lru.getLast? with
  | none => s
  | some key => match s.entries.lookup key with
    | none => s
    | some r => removeLocked s r

/-- `for len(s.entries) > s.maxEntries`, at most as often as the list has elements. -/
def evictFrom : Nat → HealthStore → HealthStore
  | 0, s => s
  | n + 1, s => if (s.entries.keys.length : Int) > s.maxEntries then evictFrom n (removeOldestLocked s) else s

def evictExcess : HealthStore := evictFrom s.lru.length s

/-- The part of `observeLocked` after the record was found or made. -/
def observeRecord (r : HealthRecord) (outcome : ObservationOutcome)
    (time : Time) (delay : Duration) (reason : String) (version token : Nat) (active : Bool) : HealthStore :=
  if admits r version token active then
    let saved := save s key (report s.breaker s.draws r outcome time delay reason)
    if outcome = .success ∧ firstRecovery r then saved
    else evictExcess { saved with
      draws := if outcome ≠ .success ∧ opensOnFailure s.breaker r then s.draws + 1 else s.draws }
  else s

def observeLocked (outcome : ObservationOutcome) (time : Time)
    (delay : Duration) (reason : String) (version token : Nat) (active : Bool) : HealthStore :=
  let s := pruneExpiredLocked s time
  match s.entries.lookup key with
  | none =>
    if active && version != 0 then s
    else
      let r : HealthRecord := { addr := s.allocated, key := key }
      observeRecord (create s key r) key r outcome time delay reason version token active
  | some r =>
    if stale r time then s
    else observeRecord (moveToFront s key) key r outcome time delay reason version token active

structure Observation where
  nodeID : NodeID
  nodeSlot : Nat
  nodeVersion : Nat
  scope : FailureDomain
  transport : String
  service : String
  outcome : ObservationOutcome
  delay : Duration
  time : Time
  reason : String

def observeQualityLocked (o : Observation) (weight : ℚ) : HealthStore :=
  let s := pruneExpiredLocked s o.time
  match s.entries.lookup key with
  | none =>
    let r : HealthRecord := { addr := s.allocated, key := key, status := { breaker := .closed } }
    evictExcess (save (create s key r) key (reportQuality s.breaker r o.outcome o.time o.delay o.reason weight))
  | some r =>
    if stale r o.time then s
    else evictExcess (save (moveToFront s key) key
      (reportQuality s.breaker r o.outcome o.time o.delay o.reason weight))

def observationKey (o : Observation) : HealthKey :=
  { nodeID := o.nodeID
    nodeSlot := o.nodeSlot
    nodeVersion := o.nodeVersion
    domain := o.scope
    transport :=
      if o.scope = .transport ∧ normalizeHealthTransportPath o.transport ≠ "" then
        normalizeHealthTransportPath o.transport
      else o.transport
    service := o.service }

/-- `now` is the reading of the store clock, used when the observation has no time. -/
def observeEvidence (now : Time) (o : Observation) (breakerEligible : Bool) (weight : ℚ) :
    HealthStore :=
  if o.outcome = .deferred then s
  else
    let o := if isZero o.time then { o with time := now } else o
    if breakerEligible then observeLocked s (observationKey o) o.outcome o.time o.delay o.reason 0 0 false
    else observeQualityLocked s (observationKey o) o weight

def belongsTo (handle : NodeHandle) (key : HealthKey) : Bool :=
  key.nodeID == handle.nodeID && key.nodeSlot == handle.slot && key.nodeVersion == handle.version

/-- The removals of one `range` loop commute, so its order is not a parameter. -/
def retireNodeHandle (handle : NodeHandle) : HealthStore :=
  s.entries.keys.foldl (fun s key =>
    match s.entries.lookup key with
    | none => s
    | some r => if belongsTo handle key then removeLocked s r else s) s

end SingBox.HealthLedger
