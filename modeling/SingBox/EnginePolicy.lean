import SingBox.EngineMetrics

namespace SingBox.EnginePolicy

open Machine EngineScoring EngineMetrics

structure State where
  selectedID : UInt64 := 0
  deferredID : UInt64 := 0
  challengeID : UInt64 := 0
  challengeCount : UInt32 := 0
  challengeSince : UInt64 := 0
  cooldownUntil : UInt64 := 0
  stickyUntil : UInt64 := 0
  deriving DecidableEq

def healthTier : UInt8 → Nat
  | 1 => 0
  | 2 => 1
  | 0 => 1
  | 3 => 2
  | 5 => 3
  | 4 => 4
  | _ => 2

def usable (candidate : Candidate) : Bool :=
  candidate.id != 0 && candidate.eligible != 0 && candidate.state != 4

def lowestTier (candidates : List Candidate) : Nat :=
  candidates.foldl (fun tier c => if healthTier c.state < tier then healthTier c.state else tier) 255

variable (state : State) (config : Config)

/-- A recovered primary stays out of the ranking while its replacement is usable. -/
def deferRecovered (listed : List Candidate) : Bool :=
  state.deferredID != 0 && state.selectedID != 0 &&
    (listed.any fun c => usable c && c.id == state.selectedID) &&
    listed.any fun c => usable c && c.id != state.deferredID

def bestTier (listed : List Candidate) : Nat :=
  if deferRecovered state listed then
    let tier := lowestTier (listed.filter fun c => usable c && c.id != state.deferredID)
    if tier ≠ 255 then tier else lowestTier (listed.filter usable)
  else lowestTier (listed.filter usable)

def contenders (listed : List Candidate) (tier : Nat) : List Candidate :=
  listed.filter fun c =>
    usable c && healthTier c.state == tier && !(deferRecovered state listed && c.id == state.deferredID)

def countSamples (candidates : List Candidate) : Float :=
  candidates.foldl (fun total c => if c.samples > 0.0 && isFinite c.samples then total + c.samples else total) 0.0

def rendezvousHash (seed id : UInt64) : UInt64 :=
  let value := seed ^^^ (id + 0x9e3779b97f4a7c15)
  let value := (value ^^^ (value >>> 30)) * 0xbf58476d1ce4e5b9
  let value := (value ^^^ (value >>> 27)) * 0x94d049bb133111eb
  value ^^^ (value >>> 31)

def candidateLatencyMS (candidate : Candidate) : Float :=
  if candidate.firstByteMs > 0.0 && isFinite candidate.firstByteMs then candidate.firstByteMs
  else if candidate.connectMs > 0.0 && isFinite candidate.connectMs then candidate.connectMs
  else 0.0

def absoluteImprovement (best current : Candidate) (minimumMs : UInt64) : Bool :=
  if minimumMs = 0 then true
  else
    let bestLatency := candidateLatencyMS best
    let currentLatency := candidateLatencyMS current
    if !(bestLatency > 0.0) || !isFinite bestLatency || !(currentLatency > 0.0) || !isFinite currentLatency then
      false
    else currentLatency - bestLatency ≥ minimumMs.toFloat

def switchMargin : Float :=
  if config.switchMargin ≥ 0.0 && isFinite config.switchMargin then fmin config.switchMargin 0.95 else 0.0

def findIncumbent (listed : List Candidate) : Option Candidate :=
  if state.selectedID = 0 then none else listed.find? fun c => c.id == state.selectedID

/-- Whether every usable candidate of the tier, the deferred one as well, has
the samples that stable affinity asks for. -/
def affinityReady (listed : List Candidate) (tier : Nat) : Bool :=
  let minSamples : Float := if config.minSamples > 0 then config.minSamples.toFloat else 3.0
  listed.all fun c =>
    !(usable c && healthTier c.state == tier) || (c.samples ≥ minSamples && isFinite c.samples)

variable [MathLibrary]

section

variable (config : Config) (totalSamples : Float) (profile : TrafficProfile)

/-- One round of the ranking loop. A later candidate has to be strictly better. -/
def rankRound (best : Option (Candidate × Float)) (c : Candidate) : Option (Candidate × Float) :=
  let value := score config c totalSamples profile
  if isFinite value && best.all (fun b => value < b.2) then some (c, value) else best

/-- One round of the affinity loop: among the candidates within the threshold
the one of the greatest hash. -/
def hashRound (threshold : Float) (found : Option (Candidate × Float)) (c : Candidate) :
    Option (Candidate × Float) :=
  let value := score config c totalSamples profile
  if !isFinite value || value > threshold then found
  else if found.all fun f => rendezvousHash config.affinitySeed c.id > rendezvousHash config.affinitySeed f.1.id then
    some (c, value)
  else found

def affine (best : Candidate × Float) (incumbent : Option Candidate) (ranked : List Candidate) (tier : Nat) :
    Candidate × Float :=
  let threshold := if best.2 > 0.0 then best.2 * (1.0 + switchMargin config) else 0.05
  let retained := incumbent.filter fun current =>
    let currentScore := score config current totalSamples profile
    usable current && healthTier current.state == tier && isFinite currentScore && currentScore ≤ threshold
  match retained with
  | some current => (current, score config current totalSamples profile)
  | none => (ranked.foldl (hashRound config totalSamples profile threshold) none).getD best

end

structure Ranking where
  tier : Nat
  totalSamples : Float
  selected : Candidate
  selectedScore : Float
  incumbent : Option Candidate

def rank (listed : List Candidate) (profile : TrafficProfile) : Option Ranking :=
  if lowestTier (listed.filter usable) = 255 then none
  else
    let tier := bestTier state listed
    let ranked := contenders state listed tier
    let totalSamples := countSamples ranked
    match ranked.foldl (rankRound config totalSamples profile) none with
    | none => none
    | some best =>
      let incumbent := findIncumbent state listed
      let (selected, selectedScore) :=
        if affinityReady config listed tier then
          affine config totalSamples profile best incumbent ranked tier
        else best
      some ⟨tier, totalSamples, selected, selectedScore, incumbent⟩

/-- Which return of `chooseProfile` a ranking leads to, in the order in which
the source tries them. -/
inductive Verdict
  | held (current : Candidate) (currentScore : Float)
  | best
  | failover (current : Candidate)
  | adopted
  | retained (current : Candidate) (currentScore : Float)
  | contested

section

variable (state : State) (config : Config) (r : Ranking) (now : UInt64) (profile : TrafficProfile)

def sticky : Option (Candidate × Float) :=
  match r.incumbent with
  | none => none
  | some current =>
    let currentScore := score config current r.totalSamples profile
    if config.siteStickinessMs > 0 && now < state.stickyUntil && current.state != 4 &&
        current.eligible != 0 && healthTier current.state == r.tier && isFinite currentScore then
      some (current, currentScore)
    else none

def improvement (current : Candidate) : Float :=
  let currentScore := score config current r.totalSamples profile
  if currentScore > 0.0 then (currentScore - r.selectedScore) / currentScore else 0.0

def verdict : Verdict :=
  match sticky state config r now profile with
  | some (current, currentScore) => .held current currentScore
  | none =>
    if state.selectedID = 0 ∨ state.selectedID = r.selected.id then .best
    else
      match r.incumbent with
      | none => .adopted
      | some current =>
        if current.state = 4 then .failover current
        else if improvement config r profile current < switchMargin config ∨
            absoluteImprovement r.selected current config.switchMinImprovementMs = false ∨
            now < state.cooldownUntil then
          .retained current (score config current r.totalSamples profile)
        else .contested

end

def clearChallenge : State :=
  { state with challengeID := 0, challengeCount := 0, challengeSince := 0 }

/-- The state in which every decided switch leaves the engine. It is for the
host to say later which candidate it has really connected. -/
def startCooldown (now : UInt64) : State :=
  clearChallenge { state with cooldownUntil := satAdd now config.switchCooldownMs }

/-- A margin-beating choice is counted, and decided when it has been counted
often and long enough. -/
def challenge (decision : Decision) (now : UInt64) : State × Decision :=
  if state.challengeID ≠ decision.selectedID ∨ state.challengeSince = 0 then
    ({ state with challengeID := decision.selectedID, challengeCount := 1, challengeSince := now },
      { decision with selectedID := state.selectedID, reason := .retained })
  else
    let state := { state with challengeCount := satSucc state.challengeCount }
    if state.challengeCount < config.switchConfirmSamples ∨
        satSub now state.challengeSince < config.switchConfirmMs then
      (state, { decision with selectedID := state.selectedID, reason := .retained })
    else (startCooldown state config now, { decision with switched := 1, reason := .confirmed })

def noCandidate : Decision := ⟨0, 100.0, 0, .noCandidate⟩

def conclude (r : Ranking) (now : UInt64) : Verdict → State × Decision
  | .held current currentScore | .retained current currentScore =>
    (state, ⟨current.id, currentScore, 0, .retained⟩)
  | .best => (state, ⟨r.selected.id, r.selectedScore, 0, .best⟩)
  | .failover current =>
    (startCooldown { state with deferredID := current.id } config now,
      ⟨r.selected.id, r.selectedScore, 1, .confirmed⟩)
  | .adopted => (startCooldown state config now, ⟨r.selected.id, r.selectedScore, 1, .confirmed⟩)
  | .contested => challenge state config ⟨r.selected.id, r.selectedScore, 0, .noCandidate⟩ now

def chooseProfile (observations : Store) (candidates : List Candidate)
    (now : UInt64) (profile : TrafficProfile) : State × Decision :=
  match rank state config (candidates.map (enrich observations)) profile with
  | none => (state, noCandidate)
  | some r => conclude state config r now (verdict state config r now profile)

def choose (observations : Store) (candidates : List Candidate) (now : UInt64) : State × Decision :=
  chooseProfile state config observations candidates now .interactive

end SingBox.EnginePolicy
