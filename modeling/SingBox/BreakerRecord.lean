import Mathlib.Algebra.Order.Ring.Rat
import Mathlib.Data.List.Sort
import SingBox.Values

namespace SingBox.BreakerRecord

open Values

inductive FailureDomain
  | endpoint
  | transport
  | service
  deriving DecidableEq

inductive ObservationOutcome
  | success
  | failure
  | blocked
  | deferred
  deriving DecidableEq

/-- `unset` is the empty string of a record that was just allocated. -/
inductive BreakerState
  | unset
  | unknown
  | closed
  | opened
  | cooldown
  | halfOpen
  deriving DecidableEq

inductive HealthState
  | unset
  | unknown
  | healthy
  | degraded
  | unreachable
  deriving DecidableEq

structure HealthStatus where
  health : HealthState := .unset
  breaker : BreakerState := .unset
  lastUpdated : Time := 0
  lastDelay : Duration := 0
  smoothedDelay : Duration := 0
  delaySamples : Nat := 0
  successes : Nat := 0
  failures : Nat := 0
  nonBreakerSuccesses : Nat := 0
  nonBreakerFailures : Nat := 0
  consecutiveFailures : Nat := 0
  recoverySuccesses : Nat := 0
  cooldownUntil : Time := 0
  backoff : Duration := 0
  halfOpen : Bool := false
  reason : String := ""
  deriving DecidableEq

structure HealthKey where
  nodeID : NodeID
  nodeSlot : Nat
  nodeVersion : Nat
  domain : FailureDomain
  transport : String := ""
  service : String := ""
  deriving DecidableEq

def healthDelayRingSize : Nat := 10

/-- `addr` is the address the record was allocated at: two records stored one
after the other under one key are told apart by it, as their pointers are. -/
structure HealthRecord where
  addr : Nat
  key : HealthKey
  status : HealthStatus := {}
  consecutiveFailure : Nat := 0
  reopenCount : Nat := 0
  recoverySuccesses : Nat := 0
  openUntil : Time := 0
  halfOpenToken : Nat := 0
  version : Nat := 0
  delaySamples : List Duration := List.replicate healthDelayRingSize 0
  delayCount : Nat := 0
  delayNext : Nat := 0
  deriving DecidableEq

/-- `jitter n` is what `applyBackoffJitter` makes of a backoff at the `n`-th
draw of the store's random source. Its arithmetic is that of `float64`, and no
statement here depends on the value. -/
structure BreakerConfig where
  failureThreshold : Int
  baseCooldown : Duration
  maxCooldown : Duration
  jitter : Nat → Duration → Duration

def defaultBreakerConfig (jitter : Nat → Duration → Duration) : BreakerConfig :=
  ⟨3, 5 * second, 300 * second, jitter⟩

variable (r : HealthRecord)

def tripped : Bool :=
  r.status.breaker == .opened || r.status.breaker == .cooldown || r.status.breaker == .halfOpen

def medianHealthDelay (samples : List Duration) : Duration :=
  let ordered := samples.insertionSort (· ≤ ·)
  let mid := ordered.length / 2
  if ordered.length = 0 then 0
  else if ordered.length % 2 = 1 then ordered.getD mid 0
  else (ordered.getD (mid - 1) 0 + ordered.getD mid 0).tdiv 2

def recordHealthDelay (delay : Duration) : HealthRecord :=
  if delay ≤ 0 then r
  else
    let samples := r.delaySamples.set r.delayNext delay
    let count := if r.delayCount < healthDelayRingSize then r.delayCount + 1 else r.delayCount
    { r with
      delaySamples := samples
      delayNext := (r.delayNext + 1) % healthDelayRingSize
      delayCount := count
      status := { r.status with
        lastDelay := delay
        delaySamples := count
        smoothedDelay := medianHealthDelay (samples.take count) } }

/-- The doubling loop of `openBreakerRecordLocked`, run `n` times. -/
def doubleBackoff (cfg : BreakerConfig) : Nat → Duration → Duration
  | 0, backoff => backoff
  | n + 1, backoff =>
    if backoff ≥ cfg.maxCooldown.tdiv 2 then cfg.maxCooldown else doubleBackoff cfg n (backoff * 2)

def openBackoff (cfg : BreakerConfig) (draw reopenCount : Nat) : Duration :=
  let backoff := min (doubleBackoff cfg (reopenCount - 1) cfg.baseCooldown) cfg.maxCooldown
  let backoff := min (cfg.jitter draw backoff) cfg.maxCooldown
  if backoff < cfg.baseCooldown.tdiv 2 ∧ cfg.baseCooldown > 0 then cfg.baseCooldown.tdiv 2 else backoff

def openBreakerRecord (cfg : BreakerConfig) (draw : Nat) (r : HealthRecord) (now : Time) : HealthRecord :=
  let backoff := openBackoff cfg draw r.reopenCount
  { r with
    openUntil := now + backoff
    version := r.version + 1
    halfOpenToken := 0
    recoverySuccesses := 0
    status := { r.status with
      breaker := .opened
      halfOpen := false
      cooldownUntil := now + backoff
      backoff := backoff
      recoverySuccesses := 0 } }

def noteReport (outcome : ObservationOutcome) (time : Time) (delay : Duration)
    (reason : String) : HealthRecord :=
  let r := { r with status := { r.status with lastUpdated := time, reason := reason } }
  if outcome = .success ∧ delay > 0 then recordHealthDelay r delay else r

/-- The first of the two successes a half-open breaker needs. The source
returns from inside this branch. -/
def firstRecovery : Bool :=
  r.status.breaker == .halfOpen && decide (r.recoverySuccesses + 1 < 2)

def reportSuccess : HealthRecord :=
  if firstRecovery r then
    { r with
      consecutiveFailure := 0
      recoverySuccesses := r.recoverySuccesses + 1
      halfOpenToken := 0
      status := { r.status with
        successes := r.status.successes + 1
        recoverySuccesses := r.recoverySuccesses + 1
        health := .degraded
        breaker := .halfOpen
        halfOpen := true
        cooldownUntil := 0
        consecutiveFailures := 0 } }
  else
    { r with
      consecutiveFailure := 0
      reopenCount := 0
      recoverySuccesses := 0
      openUntil := 0
      halfOpenToken := 0
      status := { r.status with
        successes := r.status.successes + 1
        health := .healthy
        breaker := .closed
        halfOpen := false
        cooldownUntil := 0
        backoff := 0
        recoverySuccesses := 0
        consecutiveFailures := 0 } }

/-- A failure opens the breaker when it is half open or the threshold is
reached, and otherwise leaves it closed, whatever it was. -/
def opensOnFailure (cfg : BreakerConfig) (r : HealthRecord) : Bool :=
  r.status.breaker == .halfOpen || decide (cfg.failureThreshold ≤ (r.consecutiveFailure + 1 : Nat))

def reportFailure (cfg : BreakerConfig) (draw : Nat) (r : HealthRecord) (time : Time) : HealthRecord :=
  let counted := { r with
    consecutiveFailure := r.consecutiveFailure + 1
    recoverySuccesses := 0
    status := { r.status with failures := r.status.failures + 1, recoverySuccesses := 0 } }
  let settled :=
    if opensOnFailure cfg r then
      openBreakerRecord cfg draw { counted with
        reopenCount := counted.reopenCount + 1
        status := { counted.status with health := .unreachable } } time
    else { counted with status := { counted.status with health := .degraded, breaker := .closed } }
  { settled with status := { settled.status with consecutiveFailures := settled.consecutiveFailure } }

/-- The part of `observeLocked` below its guards. Every outcome but success
takes the failure branch. -/
def report (cfg : BreakerConfig) (draw : Nat) (r : HealthRecord) (outcome : ObservationOutcome)
    (time : Time) (delay : Duration) (reason : String) : HealthRecord :=
  let noted := noteReport r outcome time delay reason
  if outcome = .success then reportSuccess noted else reportFailure cfg draw noted time

def stale (time : Time) : Bool :=
  !isZero r.status.lastUpdated && decide (time < r.status.lastUpdated)

/-- The guards of `observeLocked` below the one on time. An active report
belongs to a permit and brings the version and the token of its entry. -/
def admits (version token : Nat) (active : Bool) : Bool :=
  !(active && r.version != version)
    && !(!active && r.status.breaker != .closed && r.status.breaker != .unset)
    && !(r.status.breaker == .halfOpen && token != r.halfOpenToken)

/-- The part of `observeQualityLocked` that writes to the record. The weight is
only compared with `0` and `0.5`. -/
def reportQuality (cfg : BreakerConfig) (r : HealthRecord) (outcome : ObservationOutcome) (time : Time)
    (delay : Duration) (reason : String) (weight : ℚ) : HealthRecord :=
  let weight := if weight < 0 then 0 else weight
  let noted := noteReport r outcome time delay reason
  let metricsOnly := decide (weight > 0) && decide (weight < 1 / 2)
  let judges := !metricsOnly && noted.status.breaker == .closed
  let status := noted.status
  { noted with status :=
    if outcome = .success then
      if judges then { status with
        nonBreakerSuccesses := status.nonBreakerSuccesses + 1, nonBreakerFailures := 0, health := .healthy }
      else { status with nonBreakerSuccesses := status.nonBreakerSuccesses + 1 }
    else
      let status := { status with nonBreakerFailures := status.nonBreakerFailures + 1 }
      let threshold := if cfg.failureThreshold ≤ 0 then 3 else cfg.failureThreshold
      if !judges then status
      else if threshold ≤ (status.nonBreakerFailures : Int) then { status with health := .unreachable }
      else if status.health ≠ .unreachable then { status with health := .degraded }
      else status }

def available (now : Time) : HealthRecord × Bool :=
  match r.status.breaker with
  | .opened =>
    if now < r.openUntil then
      ({ r with status := { r.status with breaker := .cooldown, cooldownUntil := r.openUntil } }, false)
    else (r, true)
  | .cooldown => (r, !decide (now < r.openUntil))
  | .halfOpen => (r, r.halfOpenToken == 0)
  | _ => (r, true)

def availableReadOnly (now : Time) : Bool :=
  match r.status.breaker with
  | .opened | .cooldown => !decide (now < r.openUntil)
  | .halfOpen => r.halfOpenToken == 0
  | _ => true

def reserve (token : Nat) : HealthRecord :=
  { r with halfOpenToken := token, status := { r.status with breaker := .halfOpen, halfOpen := true } }

def giveBack : HealthRecord :=
  { r with
    halfOpenToken := 0
    status := { r.status with breaker := .cooldown, halfOpen := false, cooldownUntil := r.openUntil } }

end SingBox.BreakerRecord
