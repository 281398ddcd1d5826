import SingBox.AttemptPermits

namespace SingBox.BreakerRuns

open Values Maps BreakerRecord HealthTransport HealthLedger AttemptPermits Runs

inductive PermitKind
  | normal
  | fallback
  deriving DecidableEq

/-- A permit that was handed out. `kind` and `issuedIn`, the store as the
acquisition left it, record the history of the permit; no operation reads them. -/
structure AttemptPermit where
  entries : List PermitEntry
  completed : Bool
  kind : PermitKind
  issuedIn : HealthStore

/-- A store with all permits it ever issued, in the order of their issue. -/
structure World where
  store : HealthStore
  permits : List AttemptPermit

/-- One critical section of the store, with the times it uses after a zero time
was replaced by the clock. `dial` is the locked part of the attempt and
connection acquisitions: what they read before it only picks the ledger. -/
inductive Op
  | dial (handle : NodeHandle) (transport : String) (service : Option String) (time : Time)
  | domain (handle : NodeHandle) (domain : FailureDomain) (transport service : String) (time : Time)
      (order : RangeOrder HealthKey)
  | fallback (handle : NodeHandle) (transport : String)
  | complete (permit : Nat) (outcomes : FailureDomain → Option ObservationOutcome) (time : Time)
      (delay : Duration) (reason : String)
  | release (permit : Nat)
  | observe (observation : Observation) (breakerEligible : Bool) (weight : ℚ) (now : Time)
  | canAttempt (handle : NodeHandle) (service : String) (time : Time)
  | retire (handle : NodeHandle)

def issue (w : World) (kind : PermitKind) (result : HealthStore × Option (List PermitEntry)) : World :=
  match result.2 with
  | none => { w with store := result.1 }
  | some entries => ⟨result.1, w.permits ++ [⟨entries, false, kind, result.1⟩]⟩

def finish (w : World) (permit : Nat) (effect : HealthStore → List PermitEntry → HealthStore) : World :=
  match w.permits[permit]? with
  | none => w
  | some p =>
    if p.completed then w
    else ⟨effect w.store p.entries, w.permits.set permit { p with completed := true }⟩

def step (w : World) : Op → World
  | .dial handle transport service time =>
    issue w .normal (tryAcquirePermit w.store (dialKeys handle transport service) time)
  | .domain handle domain transport service time order =>
    issue w .normal (tryAcquireDomainPermit w.store handle domain transport service time order)
  | .fallback handle transport =>
    issue w .fallback (w.store, tryAcquireConnectionFallbackPermitHandle w.store handle transport)
  | .complete permit outcomes time delay reason =>
    finish w permit fun s entries => completePermitDomains s entries outcomes time delay reason
  | .release permit => finish w permit releasePermit
  | .observe o breakerEligible weight now =>
    { w with store := observeEvidence w.store now o breakerEligible weight }
  | .canAttempt handle service time => { w with store := (canAttemptLocked w.store handle service time).1 }
  | .retire handle => { w with store := retireNodeHandle w.store handle }

def start (retention : Duration) (maxEntries : Int) (breaker : BreakerConfig) : World :=
  ⟨newHealthStoreWithClock retention maxEntries breaker, []⟩

def after (retention : Duration) (maxEntries : Int) (breaker : BreakerConfig) (ops : List Op) : World :=
  run step (start retention maxEntries breaker) ops

def tryAcquirePathPermit (s : HealthStore) (handle : NodeHandle) (path : String) (service : Option String)
    (time clock dialClock : Time) (orders : Nat → RangeOrder HealthKey) : HealthStore × Option (List PermitEntry) :=
  let now := if isZero time then clock else time
  if transportPathEligible s handle path now orders then
    tryAcquirePermit s (dialKeys handle (dialTransportKey s handle path dialClock orders) service) now
  else (s, none)

def tryAcquireAttemptPermitHandle (s : HealthStore) (handle : NodeHandle) (service : ServiceContext) :=
  tryAcquirePathPermit s handle (serviceHealthTransport service) (some service.id)

def tryAcquireConnectionPermitHandle (s : HealthStore) (handle : NodeHandle) (transport : String) :=
  tryAcquirePathPermit s handle transport none

/-- A permit for a path is a dial, or nothing happens. -/
theorem path_is_dial (w handle path service time clock dialClock orders) :
    issue w .normal (tryAcquirePathPermit w.store handle path service time clock dialClock orders) = w ∨
      ∃ ledger now, issue w .normal (tryAcquirePathPermit w.store handle path service time clock dialClock orders) =
        step w (.dial handle ledger service now) := by
  by_cases h : transportPathEligible w.store handle path (if isZero time then clock else time) orders = true
  · exact .inr ⟨_, _, by rw [tryAcquirePathPermit, if_pos h]; rfl⟩
  · exact .inl (by rw [tryAcquirePathPermit, if_neg h]; rfl)

def plainBreaker (failureThreshold : Int) : BreakerConfig :=
  ⟨failureThreshold, 10, 40, fun _ backoff => backoff⟩

def firstNode : NodeHandle := ⟨1, 1, 1, 1⟩

def secondNode : NodeHandle := ⟨2, 2, 1, 1⟩

def endpointObservation (handle : NodeHandle) (outcome : ObservationOutcome) (time : Time) : Observation :=
  ⟨handle.nodeID, handle.slot, handle.version, .endpoint, "", "", outcome, 0, time, ""⟩

def endpointOutcome (outcome : ObservationOutcome) : FailureDomain → Option ObservationOutcome
  | .endpoint => some outcome
  | _ => none

/-- A failure that opens the breaker of the first node, and a probe admitted
after its cooldown. -/
def openAndProbe : List Op := [
  .observe (endpointObservation firstNode .failure 100) true 1 0,
  .domain firstNode .endpoint "" "" 110 (.stored _)]

end SingBox.BreakerRuns
