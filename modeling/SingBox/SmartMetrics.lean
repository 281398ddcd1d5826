import Mathlib.Data.List.Sort
import SingBox.Maps
import SingBox.Runs
import SingBox.Values

namespace SingBox.SmartMetrics

open Maps Values Runs

structure SmartMetricKey where
  network : String
  site : String
  candidate : String
  transport : String
  deriving DecidableEq

structure SmartCandidateKey where
  network : String
  candidate : String
  transport : String
  deriving DecidableEq

structure SmartFailureBurst where
  first : Time
  total : Int
  sites : GoMap String Unit

/-- The fields that repeat the key are left out. -/
structure SmartMetric where
  successes : Float := 0
  failures : Float := 0
  connectMS : Float := 0
  connectP95MS : Float := 0
  firstByteMS : Float := 0
  firstByteP95MS : Float := 0
  throughputLog : Float := 0
  jitterMS : Float := 0
  connectSamples : Float := 0
  firstByteSamples : Float := 0
  throughputSamples : Float := 0
  retransmitRatio : Float := 0
  retransmitSamples : Float := 0
  consecutiveFailures : Int := 0
  circuitUntil : Time := 0
  lastUpdated : Time := 0

structure SmartStore where
  metrics : GoMap SmartMetricKey SmartMetric := ∅
  failureBursts : GoMap SmartCandidateKey SmartFailureBurst := ∅
  halfLife : Duration
  breakerFailures : Int
  breakerCooldown : Duration
  retention : Duration := 0
  maxEntries : Int := 0

/-- The functions of `math` that are not arithmetic. Nothing is assumed of them. -/
class MathFunctions where
  exp : Float → Float
  log1p : Float → Float

variable (s : SmartStore) (now : Time) (key : SmartMetricKey)

def SmartMetricKey.ofAll : SmartMetricKey := { key with site := "" }

def SmartMetricKey.candidateKey : SmartCandidateKey := ⟨key.network, key.candidate, key.transport⟩

def SmartCandidateKey.metricKey (key : SmartCandidateKey) (site : String) : SmartMetricKey :=
  ⟨key.network, site, key.candidate, key.transport⟩

def minute : Duration := 60 * second

def seconds (d : Duration) : Float := Float.ofInt (d.tdiv second) + Float.ofInt (d.tmod second) / 1e9

def milliseconds (d : Duration) : Float := Float.ofInt (d.tdiv 1000) / 1000

/-- `math.Min` on values that are not both zero. -/
def mathMin (x y : Float) : Float := if x != x then x else if y != y then y else if x < y then x else y

def updateEWMA (current value samples : Float) : Float :=
  if samples ≤ 0 then value else current + 2.0 / (mathMin samples 9 + 2) * (value - current)

def unusable (x : Float) : Bool := decide (x ≤ 0) || x.isNaN || x.isInf

def updateTailEWMA (current value : Float) : Float :=
  if unusable value then current
  else if unusable current then value
  else current + (if value > current then 0.80 else 0.02) * (value - current)

section

variable [MathFunctions]

/-- An evidence class with less than a quarter of a sample left is dropped. -/
def SmartMetric.decay (m : SmartMetric) (now : Time) (halfLife : Duration) : SmartMetric :=
  if isZero m.lastUpdated || !decide (m.lastUpdated < now) || decide (halfLife ≤ 0) then m
  else
    let factor := MathFunctions.exp (-0.6931471805599453 * seconds (sub now m.lastUpdated) / seconds halfLife)
    let connect := m.connectSamples * factor
    let firstByte := m.firstByteSamples * factor
    let throughput := m.throughputSamples * factor
    let retransmit := m.retransmitSamples * factor
    { m with
      successes := m.successes * factor
      failures := m.failures * factor
      connectMS := if connect < 0.25 then 0 else m.connectMS
      connectP95MS := if connect < 0.25 then 0 else m.connectP95MS
      jitterMS := if connect < 0.25 then 0 else m.jitterMS
      connectSamples := if connect < 0.25 then 0 else connect
      firstByteMS := if firstByte < 0.25 then 0 else m.firstByteMS
      firstByteP95MS := if firstByte < 0.25 then 0 else m.firstByteP95MS
      firstByteSamples := if firstByte < 0.25 then 0 else firstByte
      throughputLog := if throughput < 0.25 then 0 else m.throughputLog
      throughputSamples := if throughput < 0.25 then 0 else throughput
      retransmitRatio := if retransmit < 0.25 then 0 else m.retransmitRatio
      retransmitSamples := if retransmit < 0.25 then 0 else retransmit }

end

def SmartMetric.updateConnect (m : SmartMetric) (value : Float) : SmartMetric :=
  let fresh := m.connectSamples == 0
  { m with
    connectMS := if fresh then value else updateEWMA m.connectMS value m.connectSamples
    connectP95MS := if fresh then value else updateTailEWMA m.connectP95MS value
    jitterMS := if fresh then 0 else updateEWMA m.jitterMS (value - m.connectMS).abs m.connectSamples
    connectSamples := m.connectSamples + 1 }

def SmartMetric.updateFirstByte (m : SmartMetric) (value : Float) : SmartMetric :=
  { m with
    firstByteMS := updateEWMA m.firstByteMS value m.firstByteSamples
    firstByteP95MS := updateTailEWMA m.firstByteP95MS value
    firstByteSamples := m.firstByteSamples + 1 }

def newSmartStore (halfLife : Duration) (breakerFailures : Int) (breakerCooldown : Duration) : SmartStore where
  halfLife := if halfLife ≤ 0 then 30 * minute else halfLife
  breakerFailures := if breakerFailures ≤ 0 then 3 else breakerFailures
  breakerCooldown := if breakerCooldown ≤ 0 then 2 * minute else breakerCooldown

def expired (retention : Duration) (m : SmartMetric) : Bool :=
  !isZero m.lastUpdated && decide (sub now m.lastUpdated > retention)

/-- The first loop of `pruneLocked`. -/
def dropExpired (metrics : GoMap SmartMetricKey SmartMetric) (now : Time) (retention : Duration) :
    GoMap SmartMetricKey SmartMetric :=
  metrics.keys.foldl (fun kept key => if (metrics.lookup key).any (expired now retention) then kept.erase key else kept)
    metrics

def updatedAt (metrics : GoMap SmartMetricKey SmartMetric) (key : SmartMetricKey) : Time :=
  ((metrics.lookup key).map (·.lastUpdated)).getD 0

/-- `sort.Slice` may order equal times in any way, as the loop over the map may: the order stands for both. -/
def pruneLocked (retention : Duration) (maxEntries : Int)
    (order : RangeOrder SmartMetricKey) : SmartStore :=
  let kept := if 0 < retention then dropExpired s.metrics now retention else s.metrics
  if maxEntries ≤ 0 ∨ (kept.keys.length : Int) ≤ maxEntries then { s with metrics := kept }
  else
    let ages := (order.visit kept.keys).insertionSort fun key key' => updatedAt kept key' ≤ updatedAt kept key
    { s with metrics := (ages.drop maxEntries.toNat).foldl (fun metrics key => metrics.erase key) kept }

def olderKey (metrics : GoMap SmartMetricKey SmartMetric) (oldest : Option SmartMetricKey) (key : SmartMetricKey) :
    Option SmartMetricKey :=
  match oldest with
  | none => some key
  | some found => if updatedAt metrics key < updatedAt metrics found then some key else some found

def removeOldestLocked (order : RangeOrder SmartMetricKey) : SmartStore :=
  match (order.visit s.metrics.keys).foldl (olderKey s.metrics) none with
  | none => s
  | some key => { s with metrics := s.metrics.erase key }

def makeRoom (orders : Nat → RangeOrder SmartMetricKey) : SmartStore :=
  if 0 < s.maxEntries ∧ s.maxEntries ≤ s.metrics.keys.length then
    let pruned := pruneLocked s now s.retention (max 1 (s.maxEntries - s.maxEntries.tdiv 10)) (orders 0)
    if s.maxEntries ≤ pruned.metrics.keys.length then removeOldestLocked pruned (orders 1) else pruned
  else s

def updateMetric (now : Time) (orders : Nat → RangeOrder SmartMetricKey)
    (change : SmartMetric → SmartMetric) : SmartStore :=
  match s.metrics.lookup key with
  | some m => { s with metrics := s.metrics.insert key (change m) }
  | none =>
    let roomy := makeRoom s now orders
    { roomy with metrics := roomy.metrics.insert key (change {}) }

section

variable [MathFunctions]

def dialed (success : Bool) (elapsed : Duration) (weight : Float) (updateBreaker : Bool)
    (metric : SmartMetric) : SmartMetric :=
  let m := metric.decay now s.halfLife
  if success then
    let cleared := { m with successes := m.successes + weight, consecutiveFailures := 0, circuitUntil := 0 }
    { (if 0 < elapsed then cleared.updateConnect (milliseconds elapsed) else cleared) with lastUpdated := now }
  else
    let failed := { m with failures := m.failures + weight, lastUpdated := now }
    if updateBreaker then
      let consecutive := m.consecutiveFailures + 1
      { failed with
        consecutiveFailures := consecutive
        circuitUntil := if s.breakerFailures ≤ consecutive then
            now + s.breakerCooldown * 2 ^ (min (consecutive - s.breakerFailures) 4).toNat
          else m.circuitUntil }
    else failed

def observeDialLocked (success : Bool) (elapsed : Duration)
    (weight : Float) (updateBreaker : Bool) (orders : Nat → RangeOrder SmartMetricKey) : SmartStore :=
  updateMetric s key now orders (dialed s now success elapsed weight updateBreaker)

def burstWindow : Duration := if s.breakerCooldown < 30 * second then 30 * second else s.breakerCooldown

def joinBurst (key : SmartCandidateKey) (site : String) : SmartFailureBurst :=
  let burst : SmartFailureBurst :=
    match s.failureBursts.lookup key with
    | none => ⟨now, 0, ∅⟩
    | some burst => if sub now burst.first > burstWindow s then ⟨now, 0, ∅⟩ else burst
  { burst with total := burst.total + 1, sites := burst.sites.insert site () }

def promoted (m : SmartMetric) : SmartMetric :=
  { m with
    consecutiveFailures := if m.consecutiveFailures < s.breakerFailures then s.breakerFailures else m.consecutiveFailures
    circuitUntil := now + s.breakerCooldown
    lastUpdated := now }

def observeCrossSiteFailureLocked (key : SmartCandidateKey) (site : String)
    (orders : Nat → RangeOrder SmartMetricKey) : SmartStore :=
  let burst := joinBurst s now key site
  let joined := { s with failureBursts := s.failureBursts.insert key burst }
  if burst.total < s.breakerFailures ∨ burst.sites.keys.length < 2 then joined
  else updateMetric joined (key.metricKey "") now orders (promoted s now)

def circuitOpen : Bool :=
  (s.metrics.lookup key).any fun m => !isZero m.circuitUntil

/-- The three updates of one call make room one after the other. -/
def turn (orders : Nat → RangeOrder SmartMetricKey) (n : Nat) : Nat → RangeOrder SmartMetricKey := fun i => orders (2 * n + i)

def observeDial (success : Bool) (elapsed : Duration)
    (orders : Nat → RangeOrder SmartMetricKey) : SmartStore :=
  let weight : Float := if success = false ∧ key.site ≠ "" then 0.25 else 1.0
  let first := observeDialLocked s now key.ofAll success elapsed weight (key.site == "") (turn orders 0)
  if key.site ≠ "" then
    let second := observeDialLocked first now key success elapsed 1 true (turn orders 1)
    if success then
      if circuitOpen s key.ofAll then { second with failureBursts := second.failureBursts.erase key.candidateKey }
      else second
    else observeCrossSiteFailureLocked second now key.candidateKey key.site (turn orders 2)
  else if success then { first with failureBursts := first.failureBursts.erase key.candidateKey }
  else first

/-- The record of the candidate and, where there is a site, that of the site are updated in the same way. -/
def updateBoth (orders : Nat → RangeOrder SmartMetricKey)
    (change : SmartMetric → SmartMetric) : SmartStore :=
  let first := updateMetric s key.ofAll now (turn orders 0) change
  if key.site ≠ "" then updateMetric first key now (turn orders 1) change else first

def advised (success : Bool) (elapsed : Duration) (metric : SmartMetric) : SmartMetric :=
  let m := metric.decay now s.halfLife
  if success then
    let counted := { m with successes := m.successes + 1 }
    { (if 0 < elapsed then counted.updateConnect (milliseconds elapsed) else counted) with lastUpdated := now }
  else { m with failures := m.failures + 1, lastUpdated := now }

def observeDialAdvisory (success : Bool) (elapsed : Duration)
    (orders : Nat → RangeOrder SmartMetricKey) : SmartStore :=
  updateBoth s now key orders (advised s now success elapsed)

def observeFirstByte (elapsed : Duration) (orders : Nat → RangeOrder SmartMetricKey) : SmartStore :=
  if elapsed ≤ 0 then s
  else updateBoth s now key orders fun metric =>
    { (metric.decay now s.halfLife).updateFirstByte (milliseconds elapsed) with lastUpdated := now }

def observeThroughput (bytes : Int) (elapsed : Duration)
    (orders : Nat → RangeOrder SmartMetricKey) : SmartStore :=
  let bps := Float.ofInt bytes / seconds elapsed
  if bytes < 64 * 1024 ∨ elapsed < second ∨ bps ≤ 0 then s
  else updateBoth s now key orders fun metric =>
    let m := metric.decay now s.halfLife
    { m with
      throughputLog := updateEWMA m.throughputLog (MathFunctions.log1p bps) m.throughputSamples
      throughputSamples := m.throughputSamples + 1
      lastUpdated := now }

def observeRetransmit (ratio : Float) (orders : Nat → RangeOrder SmartMetricKey) : SmartStore :=
  if ratio < 0 ∨ ratio.isNaN ∨ ratio.isInf then s
  else updateBoth s now key orders fun metric =>
    let m := metric.decay now s.halfLife
    { m with
      retransmitRatio := updateEWMA m.retransmitRatio (if ratio > 1 then 1 else ratio) m.retransmitSamples
      retransmitSamples := m.retransmitSamples + 1
      lastUpdated := now }

def quarantined (duration : Duration) (metric : SmartMetric) : SmartMetric :=
  let m := metric.decay now s.halfLife
  { m with
    circuitUntil := if m.circuitUntil < now + duration then now + duration else m.circuitUntil
    consecutiveFailures := if m.consecutiveFailures < 1 then 1 else m.consecutiveFailures
    lastUpdated := now }

def quarantineDataPlaneFailure (duration : Duration)
    (orders : Nat → RangeOrder SmartMetricKey) : SmartStore :=
  if key.candidate = "" ∨ duration ≤ 0 then s else updateMetric s key now orders (quarantined s now duration)

end

def pruneCandidates (keep : List String) : SmartStore :=
  { s with
    metrics := (s.metrics.keys.filter fun key => !decide (key.candidate ∈ keep)).foldl (fun m key => m.erase key) s.metrics
    failureBursts := (s.failureBursts.keys.filter fun key => !decide (key.candidate ∈ keep)).foldl
      (fun bursts key => bursts.erase key) s.failureBursts }

def setBounds (clock : Time) (retention : Duration) (maxEntries : Int)
    (order : RangeOrder SmartMetricKey) : SmartStore :=
  pruneLocked { s with retention := retention, maxEntries := maxEntries } clock retention maxEntries order

def clear : SmartStore := { s with metrics := ∅, failureBursts := ∅ }

/-- One call, under the lock of the store. The policy is fixed: `setPolicy` is not among them. -/
inductive Op
  | observeDial (now : Time) (key : SmartMetricKey) (success : Bool) (elapsed : Duration)
      (orders : Nat → RangeOrder SmartMetricKey)
  | observeDialAdvisory (now : Time) (key : SmartMetricKey) (success : Bool) (elapsed : Duration)
      (orders : Nat → RangeOrder SmartMetricKey)
  | observeFirstByte (now : Time) (key : SmartMetricKey) (elapsed : Duration) (orders : Nat → RangeOrder SmartMetricKey)
  | observeThroughput (now : Time) (key : SmartMetricKey) (bytes : Int) (elapsed : Duration)
      (orders : Nat → RangeOrder SmartMetricKey)
  | observeRetransmit (now : Time) (key : SmartMetricKey) (ratio : Float) (orders : Nat → RangeOrder SmartMetricKey)
  | quarantine (now : Time) (key : SmartMetricKey) (duration : Duration) (orders : Nat → RangeOrder SmartMetricKey)
  | pruneCandidates (keep : List String)
  | setBounds (clock : Time) (retention : Duration) (maxEntries : Int) (order : RangeOrder SmartMetricKey)
  | clear

def step [MathFunctions] (s : SmartStore) : Op → SmartStore
  | .observeDial now key success elapsed orders => observeDial s now key success elapsed orders
  | .observeDialAdvisory now key success elapsed orders => observeDialAdvisory s now key success elapsed orders
  | .observeFirstByte now key elapsed orders => observeFirstByte s now key elapsed orders
  | .observeThroughput now key bytes elapsed orders => observeThroughput s now key bytes elapsed orders
  | .observeRetransmit now key ratio orders => observeRetransmit s now key ratio orders
  | .quarantine now key duration orders => quarantineDataPlaneFailure s now key duration orders
  | .pruneCandidates keep => pruneCandidates s keep
  | .setBounds clock retention maxEntries order => setBounds s clock retention maxEntries order
  | .clear => clear s

def after [MathFunctions] (halfLife : Duration) (breakerFailures : Int) (breakerCooldown : Duration) (ops : List Op) :
    SmartStore := run step (newSmartStore halfLife breakerFailures breakerCooldown) ops

end SingBox.SmartMetrics
