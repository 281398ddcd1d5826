import SingBox.HealthLedger
import SingBox.Runs

namespace SingBox.AttemptPermits

open Values Maps BreakerRecord HealthTransport HealthLedger

structure PermitEntry where
  key : HealthKey
  version : Nat := 0
  halfOpenToken : Nat := 0
  deriving DecidableEq

variable (s : HealthStore) (handle : NodeHandle)

def healthKey (domain : FailureDomain) (transport service : String) : HealthKey :=
  ⟨handle.nodeID, handle.slot, handle.version, domain, transport, service⟩

def endpointKey : HealthKey := healthKey handle .endpoint "" ""

def transportKey (transport : String) : HealthKey := healthKey handle .transport transport ""

def serviceKey (service : String) : HealthKey := healthKey handle .service "" service

/-- The record stored under the key or, for a qualified transport, under the
legacy ledger of its class, with the key it was found under. -/
def recordForKeyLocked (key : HealthKey) : Option HealthRecord × HealthKey :=
  match s.entries.lookup key with
  | some r => (some r, key)
  | none =>
    if key.domain ≠ .transport then (none, key)
    else match legacyTransport key.transport with
      | none => (none, key)
      | some legacy => match s.entries.lookup { key with transport := legacy } with
        | some r => (some r, { key with transport := legacy })
        | none => (none, key)

def healthTransportStatusRank (status : HealthStatus) : Nat :=
  match status.breaker with
  | .halfOpen => 4
  | .opened => 3
  | .cooldown => 2
  | _ => if status.health = .unreachable then 1 else 0

def outranks (candidate selected : HealthStatus) : Bool :=
  decide (healthTransportStatusRank candidate > healthTransportStatusRank selected) ||
    (healthTransportStatusRank candidate == healthTransportStatusRank selected &&
      decide (candidate.lastUpdated > selected.lastUpdated))

def selectRestrictive (wanted : HealthKey → Bool) (order : RangeOrder HealthKey) :
    Option (HealthKey × HealthRecord) :=
  (order.visit s.entries.keys).foldl (fun selected key =>
    match s.entries.lookup key with
    | none => selected
    | some r =>
      if !wanted key then selected
      else match selected with
        | none => some (key, r)
        | some current => if outranks r.status current.2.status then some (key, r) else selected) none

def mostRestrictiveTransportRecordLocked (transport : String)
    (order : RangeOrder HealthKey) : Option (HealthKey × HealthRecord) :=
  let (cls, family) := splitHealthTransport transport
  if cls = "" then none
  else if family ≠ "" ∧ family ≠ "any" then none
  else
    match selectRestrictive s (fun key => belongsTo handle key && key.domain == .transport &&
        hasPrefix key.transport (cls ++ "/")) order with
    | none => none
    | some found => if healthTransportStatusRank found.2.status = 0 then none else some found

def statusHandle (domain : FailureDomain) (transport service : String)
    (order : RangeOrder HealthKey) : HealthStatus :=
  match (recordForKeyLocked s (healthKey handle domain transport service)).1 with
  | some r => r.status
  | none =>
    let selected :=
      if domain = .transport ∧ !containsSlash transport then
        selectRestrictive s (fun key => belongsTo handle key && key.domain == domain &&
          key.service == service && hasPrefix key.transport (transport ++ "/")) order
      else none
    match selected with
    | some found => found.2.status
    | none => { health := .unknown, breaker := .closed }

structure PathCapability where
  available : Bool
  known : Bool
  deriving DecidableEq

def classifyPathCapability (status : HealthStatus) (now : Time) : Bool :=
  match status.breaker with
  | .opened | .cooldown => !(isZero status.cooldownUntil || decide (now < status.cooldownUntil))
  | .halfOpen => true
  | _ => status.health ≠ .unreachable

def pathCapability (path : String) (now : Time) (order : RangeOrder HealthKey) : PathCapability :=
  let status := if path = "" then statusHandle s handle .endpoint "" "" order
    else statusHandle s handle .transport path "" order
  { available := classifyPathCapability status now
    known := status.health != .unknown || decide (status.successes > 0) || decide (status.failures > 0) ||
      (status.breaker != .closed && status.breaker != .unset) }

def transportPathEligible (path : String) (now : Time) (orders : Nat → RangeOrder HealthKey) : Bool :=
  let own := pathCapability s handle path now (orders 2)
  match dualStackFamilyPaths path with
  | none => !own.known || own.available
  | some (familyA, familyB) =>
    let a := pathCapability s handle familyA now (orders 0)
    let b := pathCapability s handle familyB now (orders 1)
    if a.known && !a.available && b.known && !b.available then false
    else if (a.known && a.available) || (b.known && b.available) then true
    else !own.known || own.available

/-- The transport ledger a dial reserves: the one of its path or, when that is
blocked, the one of a family known to be good. -/
def dialTransportKey (transport : String) (now : Time)
    (orders : Nat → RangeOrder HealthKey) : String :=
  match dualStackFamilyPaths (transportLedgerKey transport) with
  | none => transportLedgerKey transport
  | some (familyA, familyB) =>
    let own := pathCapability s handle transport now (orders 3)
    let a := pathCapability s handle familyA now (orders 4)
    let b := pathCapability s handle familyB now (orders 5)
    if own.known && !own.available then
      if a.known && a.available then familyA
      else if b.known && b.available then familyB
      else transportLedgerKey transport
    else transportLedgerKey transport

def dialKeys (transport : String) (service : Option String) : List HealthKey :=
  [endpointKey handle] ++ (if transport ≠ "" then [transportKey handle transport] else []) ++
    (service.map (serviceKey handle)).toList

def releaseTokenLocked (e : PermitEntry) : HealthStore :=
  match s.entries.lookup e.key with
  | none => s
  | some r =>
    if r.version = e.version ∧ r.halfOpenToken = e.halfOpenToken ∧ e.halfOpenToken ≠ 0 ∧
        r.status.breaker = .halfOpen then save s e.key (giveBack r)
    else s

def releasePermit (entries : List PermitEntry) : HealthStore :=
  entries.foldl releaseTokenLocked s

/-- One round of an acquisition on the record found for a key. A refusal can
still relabel an open breaker as cooling down. -/
def acquireResolved (found : Option HealthRecord) (key : HealthKey) (now : Time) :
    HealthStore × Option PermitEntry :=
  match found with
  | none => (s, some { key := key })
  | some r =>
    if !(available r now).2 then (save s key (available r now).1, none)
    else if tripped r then
      ({ save s key (reserve r (s.nextToken + 1)) with nextToken := s.nextToken + 1 },
        some { key := key, version := r.version, halfOpenToken := s.nextToken + 1 })
    else (s, some { key := key, version := r.version })

/-- The loop of `tryAcquirePermit`. A refusal gives back what the earlier
rounds reserved. -/
def acquireLoop (now : Time) : List HealthKey → HealthStore → List PermitEntry →
    HealthStore × Option (List PermitEntry)
  | [], s, entries => (s, some entries)
  | key :: keys, s, entries =>
    match acquireResolved s (recordForKeyLocked s key).1 (recordForKeyLocked s key).2 now with
    | (s', none) => (releasePermit s' entries, none)
    | (s', some e) => acquireLoop now keys s' (entries ++ [e])

def tryAcquirePermit (keys : List HealthKey) (now : Time) :
    HealthStore × Option (List PermitEntry) := acquireLoop now keys s []

/-- The locked part of `TryAcquireDomainPermitHandle`. -/
def tryAcquireDomainPermit (domain : FailureDomain)
    (transport service : String) (now : Time) (order : RangeOrder HealthKey) :
    HealthStore × Option (List PermitEntry) :=
  let ledger := if domain = .transport then transportLedgerKey transport else transport
  let resolved := recordForKeyLocked s (healthKey handle domain ledger service)
  let pinned := if resolved.1.isNone ∧ domain = .transport then
    mostRestrictiveTransportRecordLocked s handle resolved.2.transport order else none
  let (found, key) := match pinned with
    | some p => (some p.2, p.1)
    | none => resolved
  let acquired := acquireResolved s found key now
  (acquired.1, acquired.2.map fun e => [e])

def fallbackEntry (key : HealthKey) : Option PermitEntry :=
  match s.entries.lookup key with
  | none => some { key := key }
  | some r => if r.status.breaker = .halfOpen then none else some { key := key, version := r.version }

def tryAcquireConnectionFallbackPermitHandle (transport : String) : Option (List PermitEntry) :=
  [endpointKey handle, transportKey handle (transportLedgerKey transport)].mapM (fallbackEntry s)

/-- `time` is the effective time: the source replaces a zero time by the clock. -/
def completePermitDomains (entries : List PermitEntry)
    (outcomes : FailureDomain → Option ObservationOutcome) (time : Time) (delay : Duration) (reason : String) :
    HealthStore :=
  entries.foldl (fun s e =>
    match outcomes e.key.domain with
    | none | some .deferred => releaseTokenLocked s e
    | some outcome => observeLocked s e.key outcome time delay reason e.version e.halfOpenToken true) s

/-- The locked part of `CanAttemptHandle`, which may relabel an open breaker. -/
def canAttemptLocked (service : String) (now : Time) : HealthStore × Bool :=
  let probe (s : HealthStore) (key : HealthKey) : HealthStore × Bool :=
    match recordForKeyLocked s key with
    | (none, _) => (s, true)
    | (some r, key) => (save s key (available r now).1, (available r now).2)
  let first := probe s (endpointKey handle)
  if first.2 then probe first.1 (serviceKey handle service) else (first.1, false)

end SingBox.AttemptPermits
