import SingBox.Machine
import SingBox.OrderFree

namespace SingBox.AdaptiveKernel

open Machine OrderFree

def maxCandidates : Nat := 8192

structure Candidate where
  id : UInt64
  sortKeyHi : UInt64 := 0
  sortKeyLo : UInt64 := 0
  healthPriority : Int32
  weightedDelayMs : Float
  throughputBps : Float
  throughputSamples : Float
  supported : UInt8
  eligible : UInt8
  pinned : UInt8
  leased : UInt8

/-- Mode 0 is strict affinity, 1 adaptive, 2 latency, 3 bulk, 4 manual. A
`manualFailure` of 0 allows the fallback, 1 fails closed. -/
structure Config where
  switchMargin : Float
  switchCooldownMs : UInt64
  mode : UInt8
  manualFailure : UInt8

/-- The scratch array `bulk_order` is left out: each choice fills it anew. -/
structure State where
  selectedID : UInt64 := 0
  stickyID : UInt64 := 0
  stickyUntil : UInt64 := 0
  bulkSequence : UInt64 := 0
  deriving DecidableEq

/-- The reasons are 0 ranked, 1 retained, 2 lease, 3 manual, 4 fallback, 5 no
candidate, 6 bulk spread, 7 bulk throughput, 8 cooldown. -/
structure Decision where
  selectedID : UInt64
  switched : UInt8
  reason : UInt8
  score : Float

def normalizedDelay (value : Float) : Float := if !isFinite value then 0.0 else value

def throughputKnown (c : Candidate) : Bool :=
  c.throughputSamples ≥ 2.0 && isFinite c.throughputSamples && c.throughputBps > 0.0 && isFinite c.throughputBps

def better (mode : UInt8) (left right : Candidate) : Bool :=
  if left.healthPriority ≠ right.healthPriority then left.healthPriority < right.healthPriority
  else if mode = 3 ∧ throughputKnown left ≠ throughputKnown right then throughputKnown left
  else if mode = 3 ∧ throughputKnown left = true ∧ left.throughputBps != right.throughputBps then
    left.throughputBps > right.throughputBps
  else
    let leftDelay := normalizedDelay left.weightedDelayMs
    let rightDelay := normalizedDelay right.weightedDelayMs
    if leftDelay != rightDelay then
      if leftDelay ≤ 0.0 then false
      else if rightDelay ≤ 0.0 then true
      else leftDelay < rightDelay
    else if left.sortKeyHi ≠ right.sortKeyHi then left.sortKeyHi < right.sortKeyHi
    else if left.sortKeyLo ≠ right.sortKeyLo then left.sortKeyLo < right.sortKeyLo
    else left.id < right.id

def isEligible (c : Candidate) : Bool := c.eligible != 0

variable (state : State) (config : Config) (candidates : List Candidate)

def findByID (id : UInt64) : Option Candidate :=
  if id = 0 then none else candidates.find? fun c => c.id == id

/-- The eligible candidates in `bulk_order`, from its front. The loop of the
source moves a candidate forward from the end of the order built so far. -/
def buildOrder (mode : UInt8) : List Candidate :=
  (sortFromEnd (better mode) (candidates.filter isEligible)).reverse

abbrev Choice := Candidate × UInt8

def pinnedChoice : Option Choice :=
  (candidates.find? fun c => c.pinned != 0 && isEligible c).map (·, 3)

def leasedChoice : Option Choice :=
  (candidates.find? fun c => config.mode != 3 && c.leased != 0 && isEligible c).map (·, 2)

def bulkChoice : Option Choice :=
  if config.mode ≠ 3 then none
  else
    let order := buildOrder candidates config.mode
    if order.isEmpty then none
    else if candidates.any fun c => isEligible c && throughputKnown c then
      if state.bulkSequence % 5 = 0 then (order[(state.bulkSequence / 5).toNat % order.length]?).map (·, 6)
      else order[0]?.map (·, 7)
    else
      let offset := if state.bulkSequence > 0 then (state.bulkSequence - 1).toNat % order.length else 0
      order[offset]?.map (·, 6)

def rankedChoice : Option Choice :=
  (scan (better config.mode) (candidates.filter isEligible)).map (·, 0)

def fallbackChoice : Option Choice :=
  if config.manualFailure = 0 then (candidates.find? fun c => c.supported != 0).map (·, 4) else none

def propose : Option Choice :=
  (pinnedChoice candidates).or <| (leasedChoice config candidates).or <|
    (bulkChoice state config candidates).or <| (rankedChoice config candidates).or <|
      fallbackChoice config candidates

def cooling (now : UInt64) : Bool := state.stickyUntil != 0 && now < state.stickyUntil

def withinMargin (challenger incumbent : Candidate) : Bool :=
  challenger.healthPriority = incumbent.healthPriority &&
    isFinite incumbent.weightedDelayMs && incumbent.weightedDelayMs > 0.0 &&
    isFinite challenger.weightedDelayMs && challenger.weightedDelayMs > 0.0 &&
    challenger.weightedDelayMs > incumbent.weightedDelayMs * (1.0 - clamp config.switchMargin 0.0 0.95)

/-- Keep the incumbent during cooldown or until the challenger is clearly better. -/
def retain (now : UInt64) (choice : Choice) : Choice :=
  if (config.mode = 0 ∨ config.mode = 1) ∧ choice.2 = 0 then
    match findByID candidates state.stickyID with
    | none => choice
    | some incumbent =>
      if isEligible incumbent ∧ incumbent.pinned = 0 ∧ incumbent.leased = 0 ∧ choice.1.id ≠ incumbent.id then
        if cooling state now then (incumbent, 8)
        else if withinMargin config choice.1 incumbent then (incumbent, 1)
        else choice
      else choice
  else choice

def noCandidate : Decision := { selectedID := 0, switched := 0, reason := 5, score := 0.0 }

def decisionOf (choice : Choice) : Decision :=
  { selectedID := choice.1.id
    switched := if state.selectedID ≠ 0 ∧ state.selectedID ≠ choice.1.id then 1 else 0
    reason := choice.2
    score := Float.ofInt (max choice.1.healthPriority 0).toInt * 1000000000000.0 +
      fmax (normalizedDelay choice.1.weightedDelayMs) 0.0 }

def cooldownEnd (now cooldown : UInt64) : UInt64 := if cooldown > 0 then satAdd now cooldown else 0

def commit (now id : UInt64) : State :=
  if state.stickyID ≠ id then
    { state with selectedID := id, stickyID := id, stickyUntil := cooldownEnd now config.switchCooldownMs }
  else { state with selectedID := id }

def choose (now : UInt64) : State × Decision :=
  if candidates.length = 0 ∨ candidates.length > maxCandidates then (state, noCandidate)
  else
    match propose state config candidates with
    | none => (state, noCandidate)
    | some choice =>
      let choice := retain state config candidates now choice
      (commit state config now choice.1.id, decisionOf state choice)

end SingBox.AdaptiveKernel
