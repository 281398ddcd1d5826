import SingBox.AdaptiveKernel
import SingBox.PolicyPlan

namespace SingBox.KernelBinding

open Maps Machine Values PolicyPlan
open SessionLeases (SessionLease)

def word (value : Int) : UInt64 := UInt64.ofNat (value % 2 ^ 64).toNat

def millisecond : Duration := 1000000

def unixEpoch : Time := 62135596800 * second

def kernelNowMS (now : Time) : UInt64 := word ((now - unixEpoch) / millisecond)

def maxDurationMS (value : Duration) : UInt64 := if value ≤ 0 then 0 else word (value / millisecond)

def kernelCandidateSortKey (id : NodeID) : UInt64 × UInt64 :=
  (UInt64.ofNat (id.toNat / 2 ^ 64), UInt64.ofNat (id.toNat % 2 ^ 64))

def boolByte (value : Bool) : UInt8 := if value then 1 else 0

def delayMS (delay : Duration) : Float := Float.ofInt delay / Float.ofInt millisecond

def kernelCandidate (view : HealthView) (service : ServiceContext) (lease : Option SessionLease)
    (pinned : Option NodeID) (c : Candidate) : AdaptiveKernel.Candidate :=
  { id := kernelCandidateID c.id
    sortKeyHi := (kernelCandidateSortKey c.id).1
    sortKeyLo := (kernelCandidateSortKey c.id).2
    healthPriority := Int32.ofInt (view c).healthPriority
    weightedDelayMs := delayMS (view c).weightedDelay
    throughputBps := if service.id = "" then 0.0 else (view c).throughputBPS
    throughputSamples := if service.id = "" then 0.0 else Float.ofNat (view c).throughputSamples
    supported := 1
    eligible := 1
    pinned := boolByte (pinned = some c.id)
    leased := boolByte (leasedBy lease c) }

def policyKernelMode : PolicyMode → UInt8
  | .strictAffinity => 0
  | .latency => 2
  | .bulk => 3
  | .manual => 4
  | _ => 1

def adaptiveKernelMaxContexts : Nat := 128

/-- Each context has a state of the kernel. Its configuration is that of the
binding: every choice sets it first. -/
structure ZigAdaptivePolicyKernel where
  switchMargin : Float := 0.15
  switchCooldownMs : UInt64 := 120000
  manualFailure : UInt8 := 0
  engines : GoMap String AdaptiveKernel.State := ∅

variable (k : ZigAdaptivePolicyKernel) (order : RangeOrder String) (key : String)

def configure (margin : Float) (cooldown : Duration) (failClosed : Bool) : ZigAdaptivePolicyKernel :=
  { k with
    switchMargin := if margin < 0.0 then 0.15 else if margin > 0.95 then 0.95 else margin
    switchCooldownMs := maxDurationMS cooldown
    manualFailure := boolByte failClosed }

/-- `adaptive_engine_configure`. -/
def normalizedMargin (margin : Float) : Float :=
  let margin := if !(margin ≥ 0.0) || !isFinite margin then 0.15 else margin
  if margin > 0.95 then 0.95 else margin

def engineConfig (mode : PolicyMode) : AdaptiveKernel.Config :=
  { switchMargin := normalizedMargin k.switchMargin, switchCooldownMs := k.switchCooldownMs
    mode := policyKernelMode mode, manualFailure := k.manualFailure }

/-- A context for which there is no room takes the place of any other. -/
def engineLocked : ZigAdaptivePolicyKernel × AdaptiveKernel.State :=
  match k.engines.lookup key with
  | some state => (k, state)
  | none =>
    let engines :=
      if k.engines.keys.length ≥ adaptiveKernelMaxContexts then
        match order.visit k.engines.keys with
        | oldKey :: _ => k.engines.erase oldKey
        | [] => k.engines
      else k.engines
    ({ k with engines := engines.insert key {} }, {})

def choose (candidates : List AdaptiveKernel.Candidate) (mode : PolicyMode) (now : Time) :
    ZigAdaptivePolicyKernel × KernelDecision :=
  if key = "" ∨ candidates = [] ∨ candidates.length > AdaptiveKernel.maxCandidates then (k, ⟨0, 0⟩)
  else
    let (k, state) := engineLocked k order key
    let (state, decision) := AdaptiveKernel.choose state (engineConfig k mode) candidates (kernelNowMS now)
    ({ k with engines := k.engines.insert key state }, ⟨decision.selectedID, decision.reason⟩)

def remember (id : NodeID) (now : Time) (cooldown : Duration) : ZigAdaptivePolicyKernel :=
  if key = "" ∨ id = 0 then k
  else
    let (k, state) := engineLocked k order key
    let state :=
      { state with
        stickyID := kernelCandidateID id
        stickyUntil := AdaptiveKernel.cooldownEnd (kernelNowMS now) (maxDurationMS cooldown)
        selectedID := kernelCandidateID id }
    { k with engines := k.engines.insert key state }

def forget : ZigAdaptivePolicyKernel :=
  if key = "" then k
  else
    match k.engines.lookup key with
    | some state => { k with engines := k.engines.insert key { state with stickyID := 0, stickyUntil := 0 } }
    | none => k

def earlySwitchWindow : Duration := 20 * second

def maxStickyEntries : Nat := 4096

def outlived (now : Time) (pref : StickyPreference) : Bool :=
  if pref.until_ = 0 then sub now pref.updatedAt > 24 * hour else now > pref.until_ + 24 * hour

def dropOutlived (now : Time) (sticky : GoMap String StickyPreference) : GoMap String StickyPreference :=
  sticky.keys.foldl (fun m key => if (m.lookup key).any (outlived now) then m.erase key else m) sticky

def updatedAt (sticky : GoMap String StickyPreference) (key : String) : Time :=
  ((sticky.lookup key).map (·.updatedAt)).getD 0

def olderKey (sticky : GoMap String StickyPreference) (oldest : Option String) (key : String) : Option String :=
  match oldest with
  | none => some key
  | some oldestKey => if updatedAt sticky key < updatedAt sticky oldestKey then some key else some oldestKey

def dropOldest (order : RangeOrder String) : Nat → GoMap String StickyPreference → GoMap String StickyPreference
  | 0, sticky => sticky
  | rounds + 1, sticky =>
    if sticky.keys.length > maxStickyEntries then
      match (order.visit sticky.keys).foldl (olderKey sticky) none with
      | some key => dropOldest order rounds (sticky.erase key)
      | none => sticky
    else sticky

/-- Each round of the second loop takes a preference away. -/
def pruneStickyLocked (now : Time) (sticky : GoMap String StickyPreference) :
    GoMap String StickyPreference :=
  let sticky := dropOutlived now sticky
  dropOldest order sticky.keys.length sticky

def remembers (e : PolicyEngine) (key : String) (handle : NodeHandle) : Bool :=
  key ≠ "" && handle.nodeID ≠ 0 && !e.affinityDisabled

/-- A selection that is confirmed again keeps the end of its cooldown. -/
def nextPreference (e : PolicyEngine) (key : String) (handle : NodeHandle) (now : Time) : StickyPreference :=
  match e.sticky.lookup key with
  | some previous =>
    if previous.handle = handle then ⟨handle, previous.until_, now⟩
    else ⟨handle, if e.switchCooldown > 0 then now + e.switchCooldown else 0, now⟩
  | none => ⟨handle, if e.switchCooldown > 0 then now + e.switchCooldown else 0, now⟩

def rememberSelection (e : PolicyEngine) (order : RangeOrder String) (key : String) (handle : NodeHandle)
    (now : Time) : PolicyEngine :=
  if remembers e key handle then
    let sticky := e.sticky.insert key (nextPreference e key handle now)
    { e with
      sticky := if sticky.keys.length > maxStickyEntries then pruneStickyLocked order now sticky else sticky }
  else e

def forgetSelectionAfterEarlyFailure (e : PolicyEngine) (service : ServiceContext) (handle : NodeHandle)
    (now : Time) : Option PolicyEngine :=
  if handle.nodeID = 0 then none
  else
    match e.sticky.lookup (stickyKey e service) with
    | some pref =>
      let age := sub now pref.updatedAt
      if pref.handle ≠ handle ∨ age < 0 ∨ age > earlySwitchWindow then none
      else some { e with sticky := e.sticky.erase (stickyKey e service) }
    | none => none

def bindSwitchStability (e : PolicyEngine) (margin : Float) (cooldown : Duration) : PolicyEngine :=
  { e with
    switchMargin := if margin < 0.0 then 0.15 else if margin > 0.5 then 0.5 else margin
    switchCooldown := if cooldown < 0 then 0 else cooldown }

end SingBox.KernelBinding
