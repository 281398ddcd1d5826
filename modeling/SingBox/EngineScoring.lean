import SingBox.Machine

namespace SingBox.EngineScoring

open Machine

/-- A line as the host describes it. `state` and `eligible` are bytes of the
foreign interface, so any value can stand in them. -/
structure Candidate where
  id : UInt64
  reliability : Float
  connectMs : Float
  firstByteMs : Float
  jitterMs : Float
  throughputBps : Float
  samples : Float
  weight : Float
  state : UInt8
  eligible : UInt8

structure Config where
  exploration : Float
  switchMargin : Float
  switchConfirmSamples : UInt32
  switchConfirmMs : UInt64
  switchCooldownMs : UInt64
  affinitySeed : UInt64 := 0
  selectionMode : UInt8 := 0
  siteStickinessMs : UInt64 := 0
  switchMinImprovementMs : UInt64 := 0
  minSamples : UInt32 := 3

inductive DecisionReason
  | best
  | retained
  | confirmed
  | noCandidate
  deriving DecidableEq

structure Decision where
  selectedID : UInt64
  score : Float
  switched : UInt8
  reason : DecisionReason

inductive TrafficProfile
  | interactive
  | bulk
  | udp
  deriving DecidableEq

variable [MathLibrary]

def normalizedCost (value ceiling : Float) : Float :=
  if value != value || value == -inf then 0.5
  else if value == inf then 1.0
  else if !(value > 0.0) then 0.5
  else clamp (MathLibrary.log1p value / MathLibrary.log1p ceiling) 0.0 1.0

def normalizedReliability (value : Float) : Float :=
  if !isFinite value then 0.5 else clamp value 0.0 1.0

structure Weights where
  reliability : Float
  connect : Float
  firstByte : Float
  throughput : Float
  jitter : Float

def weights : TrafficProfile → Weights
  | .interactive => ⟨0.30, 0.25, 0.30, 0.0, 0.10⟩
  | .bulk => ⟨0.30, 0.15, 0.20, 0.30, 0.00⟩
  | .udp => ⟨0.50, 0.25, 0.0, 0.0, 0.20⟩

def jitterCost (candidate : Candidate) : Float :=
  if candidate.connectMs > 0.0 && isFinite candidate.connectMs &&
      candidate.jitterMs ≥ 0.0 && isFinite candidate.jitterMs then
    clamp (candidate.jitterMs / 1000.0) 0.0 1.0
  else 0.5

def throughputCost (candidate : Candidate) : Float :=
  let throughputCeiling : Float := 64.0 * 1024.0 * 1024.0
  if candidate.throughputBps > 0.0 && isFinite candidate.throughputBps then
    1.0 - clamp (MathLibrary.log1p candidate.throughputBps / MathLibrary.log1p throughputCeiling) 0.0 1.0
  else 0.60

def explorationBonus (config : Config) (sampleCount totalSamples : Float) : Float :=
  let explorationBudget :=
    if config.exploration > 0.0 && isFinite config.exploration then config.exploration else 0.0
  if sampleCount > 0.0 && totalSamples > 0.0 && isFinite totalSamples then
    explorationBudget * Float.sqrt (Float.log (totalSamples + 2.0) / (sampleCount + 1.0))
  else explorationBudget

def score (config : Config) (candidate : Candidate) (totalSamples : Float) (profile : TrafficProfile) : Float :=
  let sampleCount :=
    if candidate.samples > 0.0 && isFinite candidate.samples then candidate.samples else 0.0
  let weight :=
    if candidate.weight > 0.0 && isFinite candidate.weight then fmax candidate.weight 0.01 else 1.0
  let w := weights profile
  let confidenceWeight : Float := 0.05
  let confidenceCost := if sampleCount < 3.0 then 1.0 - sampleCount / 3.0 else 0.0
  let base := w.reliability * (1.0 - normalizedReliability candidate.reliability) +
    w.connect * normalizedCost candidate.connectMs 5000.0 +
    w.firstByte * normalizedCost candidate.firstByteMs 10000.0 +
    w.throughput * throughputCost candidate + w.jitter * jitterCost candidate +
    confidenceWeight * confidenceCost
  let base := if candidate.state = 5 then base + 0.20 else base
  fmax 0.0 (base - explorationBonus config sampleCount totalSamples) / weight

end SingBox.EngineScoring
