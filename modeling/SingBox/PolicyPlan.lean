import SingBox.OrderFree
import SingBox.SessionLeases

namespace SingBox.PolicyPlan

open Maps OrderFree Values
open SessionLeases (SessionLease)

def hour : Duration := 3600 * second

structure Candidate where
  id : NodeID
  handle : NodeHandle
  transport : List String
  deriving DecidableEq

structure ExecutionSnapshot where
  runtimeEpochID : Nat
  catalogRevision : Nat
  generation : Nat
  candidates : List Candidate
  byID : GoMap NodeID Int

/-- `session` is the text of the session key, empty for the zero key. -/
structure ServiceContext where
  id : String
  affinityID : String
  session : String
  mode : PolicyMode
  transport : String
  deriving DecidableEq

structure HealthReading where
  blocked : Bool
  healthPriority : Int
  weightedDelay : Duration
  throughputSamples : Nat
  throughputBPS : Float

abbrev HealthView := Candidate → HealthReading

inductive DecisionReason
  | manualPin
  | lease
  | ranked
  | fallback
  | strictNew
  | bulkSpread
  | bulkThroughput
  | warmingFallback
  | stickyMargin
  | switchCooldown
  deriving DecidableEq

structure DecisionPlan where
  runtimeEpochID : Nat
  catalogRevision : Nat
  generation : Nat
  mode : PolicyMode
  reason : DecisionReason
  candidates : List Candidate
  service : ServiceContext
  allowBlocked : Bool := false
  disableHedge : Bool := false
  deriving DecidableEq

/-- `panicked` is a slice index out of range. -/
inductive PlanError
  | noCandidates
  | noEligibleCandidates
  | modeInvalid
  | panicked
  deriving DecidableEq

structure StickyPreference where
  handle : NodeHandle
  until_ : Time
  updatedAt : Time
  deriving DecidableEq

/-- `NewPolicyEngine` leaves no engine without an attempt. -/
structure PolicyEngine where
  maxAttempts : Nat
  attempts_pos : 0 < maxAttempts
  failClosed : Bool
  affinityDisabled : Bool
  switchMargin : Float
  switchCooldown : Duration
  bulkSequence : UInt64
  sticky : GoMap String StickyPreference

def newPolicyEngine (maxAttempts : Int) (failClosed : Bool) : PolicyEngine :=
  { maxAttempts := if maxAttempts ≤ 0 then 3 else maxAttempts.toNat
    attempts_pos := by split <;> omega
    failClosed := failClosed
    affinityDisabled := false
    switchMargin := 0.15
    switchCooldown := 120 * second
    bulkSequence := 0
    sticky := ∅ }

structure KernelDecision where
  selectedID : UInt64
  reason : UInt8
  deriving DecidableEq

def fnvRound (hash : UInt64) (byte : UInt8) : UInt64 := (hash ^^^ byte.toUInt64) * 0x100000001b3

def fnv64a (bytes : List UInt8) : UInt64 := bytes.foldl fnvRound 0xcbf29ce484222325

def nodeIDBytes (id : NodeID) : List UInt8 :=
  (List.range 16).map fun i => UInt8.ofNat ((id.toNat >>> (8 * (15 - i))) % 256)

def kernelCandidateID (id : NodeID) : UInt64 :=
  let value := fnv64a ("sing-box/adaptive-policy/v1\x00".toUTF8.toList ++ nodeIDBytes id)
  if value = 0 then 1 else value

def kernelDecisionReason : UInt8 → DecisionReason
  | 1 => .stickyMargin
  | 8 => .switchCooldown
  | 2 => .lease
  | 3 => .manualPin
  | 4 => .warmingFallback
  | 6 => .bulkSpread
  | 7 => .bulkThroughput
  | _ => .ranked

variable (e : PolicyEngine) (view : HealthView) (snapshot : ExecutionSnapshot) (service : ServiceContext)

def lookupCandidate (id : NodeID) : Option Candidate :=
  match snapshot.byID.lookup id with
  | some index => if index < 0 then none else snapshot.candidates[index.toNat]?
  | none => none

def candidateSupports [NetworkNames] (candidate : Candidate) (transport : String) : Bool :=
  candidate.transport.any fun network =>
    NetworkNames.networkName network == NetworkNames.networkName transport

def leasedBy (lease : Option SessionLease) (candidate : Candidate) : Bool :=
  lease.any fun lease =>
    candidate.id == lease.nodeID && candidate.handle.slot == lease.nodeSlot &&
      candidate.handle.version == lease.nodeVersion

def moveCandidateFirst (candidates : List Candidate) (index : Nat) : List Candidate :=
  match candidates[index]? with
  | some candidate => candidate :: candidates.eraseIdx index
  | none => candidates

def limitCandidates (candidates : List Candidate) (limit : Nat) : List Candidate := candidates.take limit

/-- The remainder has the sign of the offset, and a negative one is no slice bound. -/
def rotateCandidates (candidates : List Candidate) (offset : Int) : Option (List Candidate) :=
  if candidates.length < 2 then some candidates
  else
    let offset := offset.tmod candidates.length
    if offset < 0 then none else some (candidates.drop offset.toNat ++ candidates.take offset.toNat)

def toInt64 (value : UInt64) : Int := if value.toNat < 2 ^ 63 then value.toNat else value.toNat - 2 ^ 64

def throughputTrusted (candidate : Candidate) : Bool := (view candidate).throughputSamples ≥ 2

def ranksBefore (mode : PolicyMode) (left right : Candidate) : Bool :=
  let l := view left
  let r := view right
  if l.healthPriority ≠ r.healthPriority then l.healthPriority < r.healthPriority
  else if mode = .bulk ∧ throughputTrusted view left ≠ throughputTrusted view right then throughputTrusted view left
  else if mode = .bulk ∧ throughputTrusted view left = true ∧ l.throughputBPS != r.throughputBPS then
    l.throughputBPS > r.throughputBPS
  else if l.weightedDelay ≠ r.weightedDelay then l.weightedDelay < r.weightedDelay
  else left.id < right.id

def sortStable (less : Candidate → Candidate → Bool) (candidates : List Candidate) : List Candidate :=
  (sortFromEnd less candidates).reverse

def stickyKey : String :=
  if e.affinityDisabled then ""
  else
    let base := if service.affinityID ≠ "" then service.affinityID else service.id
    if service.session ≠ "" then service.session ++ "\x00" ++ base else base

/-- The engine comes back without a preference that has expired. -/
def stickyPreferred (key : String) (now : Time) : PolicyEngine × Option StickyPreference :=
  if key = "" then (e, none)
  else
    match e.sticky.lookup key with
    | none => (e, none)
    | some pref =>
      if pref.handle.nodeID = 0 then (e, none)
      else if pref.until_ ≠ 0 ∧ now > pref.until_ + 24 * hour then
        ({ e with sticky := e.sticky.erase key }, none)
      else (e, some pref)

def significantlyFaster (challenger incumbent : Duration) (margin : Float) : Bool :=
  if incumbent ≤ 0 then true
  else if challenger ≤ 0 then false
  else if margin ≤ 0.0 then challenger < incumbent
  else Float.ofInt challenger ≤ Float.ofInt incumbent * (1.0 - margin)

def isIncumbent (pref : StickyPreference) (candidate : Candidate) : Bool :=
  candidate.handle = pref.handle ||
    candidate.id == pref.handle.nodeID && candidate.handle.slot == pref.handle.slot &&
      candidate.handle.version == pref.handle.version

/-- What stability says about the incumbent of the preference and the candidate
ranked first: the reason to keep the incumbent, or nothing. -/
def keepsIncumbent (pref : StickyPreference)
    (challenger incumbent : Candidate) (now : Time) : Option DecisionReason :=
  let c := view challenger
  let i := view incumbent
  if c.healthPriority < i.healthPriority then none
  else if e.switchCooldown > 0 ∧ pref.until_ ≠ 0 ∧ ¬now > pref.until_ then some .switchCooldown
  else if c.healthPriority > i.healthPriority then some .stickyMargin
  else if !significantlyFaster c.weightedDelay i.weightedDelay e.switchMargin then some .stickyMargin
  else none

def applyStickyStability (eligible : List Candidate)
    (service : ServiceContext) (now : Time) : PolicyEngine × List Candidate × Option DecisionReason :=
  match stickyPreferred e (stickyKey e service) now with
  | (e, none) => (e, eligible, none)
  | (e, some pref) =>
    match eligible.findIdx? (isIncumbent pref), eligible with
    | some (index + 1), challenger :: _ =>
      match eligible[index + 1]? with
      | some incumbent =>
        match keepsIncumbent e view pref challenger incumbent now with
        | some reason => (e, moveCandidateFirst eligible (index + 1), some reason)
        | none => (e, eligible, none)
      | none => (e, eligible, none)
    | _, _ => (e, eligible, none)

def makePlan (mode : PolicyMode) (reason : DecisionReason) (service : ServiceContext)
    (candidates : List Candidate) : DecisionPlan :=
  { runtimeEpochID := snapshot.runtimeEpochID, catalogRevision := snapshot.catalogRevision
    generation := snapshot.generation, mode := mode, reason := reason, candidates := candidates, service := service }

/-- The answer of the kernel, if one is built in: the eligible candidates with
the selected one first, and its reason. -/
def applyKernel (eligible : List Candidate) (decision : Option KernelDecision) :
    List Candidate × Option DecisionReason :=
  match decision with
  | none => (eligible, none)
  | some decision =>
    if decision.selectedID = 0 then (eligible, none)
    else
      match eligible.findIdx? fun c => kernelCandidateID c.id == decision.selectedID with
      | some index => (moveCandidateFirst eligible index, some (kernelDecisionReason decision.reason))
      | none => (eligible, none)

def sortRest (less : Candidate → Candidate → Bool) (kernelUsed : Bool) (eligible : List Candidate) : List Candidate :=
  if kernelUsed then eligible.take 1 ++ sortStable less (eligible.drop 1) else sortStable less eligible

def supportedCandidates [NetworkNames] (snapshot : ExecutionSnapshot) (service : ServiceContext) : List Candidate :=
  snapshot.candidates.filter fun c => candidateSupports c service.transport

def eligibleCandidates [NetworkNames] (view : HealthView) (snapshot : ExecutionSnapshot)
    (service : ServiceContext) : List Candidate :=
  snapshot.candidates.filter fun c => candidateSupports c service.transport && !(view c).blocked

/-- The plan of a pin, where there is one that can be used or that has to be. -/
def planPinned [NetworkNames] (e : PolicyEngine) (view : HealthView) (snapshot : ExecutionSnapshot)
    (service : ServiceContext) (pinned : Option NodeID) : Option (Except PlanError DecisionPlan) :=
  match pinned with
  | none => none
  | some id =>
    match lookupCandidate snapshot id with
    | some candidate =>
      if candidateSupports candidate service.transport && !(view candidate).blocked then
        some (.ok (makePlan snapshot .manual .manualPin service [candidate]))
      else if e.failClosed then some (.error .noEligibleCandidates)
      else none
    | none => if e.failClosed then some (.error .noEligibleCandidates) else none

def limitedPlan (mode : PolicyMode) (reason : DecisionReason)
    (service : ServiceContext) (candidates : List Candidate) : DecisionPlan :=
  makePlan snapshot mode reason service (limitCandidates candidates e.maxAttempts)

def rotatedPlan (eligible : List Candidate) (offset : Int) : Except PlanError DecisionPlan :=
  match rotateCandidates eligible offset with
  | some candidates => .ok (limitedPlan e snapshot .bulk .bulkSpread service candidates)
  | none => .error .panicked

def planBulk (kernelReason : Option DecisionReason) (sequence : UInt64) (eligible : List Candidate) :
    Except PlanError DecisionPlan :=
  match kernelReason with
  | some reason =>
    .ok (limitedPlan e snapshot .bulk (if reason = .bulkThroughput then .bulkThroughput else .bulkSpread) service
      eligible)
  | none =>
    if eligible.any (throughputTrusted view) then
      if sequence % 5 ≠ 0 then .ok (limitedPlan e snapshot .bulk .bulkThroughput service eligible)
      else rotatedPlan e snapshot service eligible (toInt64 (sequence / 5))
    else rotatedPlan e snapshot service eligible (toInt64 (sequence - 1))

def planMode (mode : PolicyMode) (lease : Option SessionLease) (kernelReason : Option DecisionReason)
    (reason : DecisionReason) (sequence : UInt64) (eligible : List Candidate) : Except PlanError DecisionPlan :=
  match mode with
  | .strictAffinity =>
    match eligible.find? (leasedBy lease) with
    | some candidate => .ok (makePlan snapshot mode .lease service [candidate])
    | none => .ok (limitedPlan e snapshot mode (if reason = .ranked then .strictNew else reason) service eligible)
  | .bulk => planBulk e view snapshot service kernelReason sequence eligible
  | .adaptive => .ok (limitedPlan e snapshot mode reason service eligible)
  | .latency => .ok (limitedPlan e snapshot mode reason service eligible)
  | .manual => .error .modeInvalid
  | .unset => .error .modeInvalid

/-- From the ranking on. `kernel` decides over the eligible candidates; a build
without one has none. -/
def planRanked (mode : PolicyMode) (lease : Option SessionLease) (pinned : Option NodeID)
    (kernel : Option (List Candidate → KernelDecision)) (now : Time) (eligible : List Candidate) :
    PolicyEngine × Except PlanError DecisionPlan :=
  let e := if mode = .bulk then { e with bulkSequence := e.bulkSequence + 1 } else e
  let (moved, kernelReason) := applyKernel eligible (kernel.map fun choose => choose eligible)
  let sorted := sortRest (ranksBefore view mode) kernelReason.isSome moved
  let reason := if pinned.isSome then .fallback else kernelReason.getD .ranked
  let (e, ordered, stickyReason) :=
    if kernelReason.isNone ∧ (mode = .adaptive ∨ mode = .strictAffinity) then
      applyStickyStability e view sorted service now
    else (e, sorted, none)
  (e, planMode e view snapshot service mode lease kernelReason (stickyReason.getD reason) e.bulkSequence ordered)

def warmingPlan (mode : PolicyMode) (service : ServiceContext)
    (supported : List Candidate) : DecisionPlan :=
  { makePlan snapshot mode .warmingFallback service (limitCandidates supported 1) with
    allowBlocked := true, disableHedge := true }

def modeOf : PolicyMode := if service.mode = .unset then .adaptive else service.mode

def plan [NetworkNames] (e : PolicyEngine) (view : HealthView) (snapshot : Option ExecutionSnapshot)
    (service : ServiceContext) (lease : Option SessionLease) (pinned : Option NodeID)
    (kernel : Option (List Candidate → KernelDecision)) (now : Time) :
    PolicyEngine × Except PlanError DecisionPlan :=
  match snapshot with
  | none => (e, .error .noCandidates)
  | some snapshot =>
    match planPinned e view snapshot service pinned with
    | some result => (e, result)
    | none =>
      let mode := modeOf service
      let eligible := eligibleCandidates view snapshot service
      let supported := supportedCandidates snapshot service
      if eligible.isEmpty then
        if !supported.isEmpty && (mode = .adaptive || mode = .latency || mode = .bulk) then
          (e, .ok (warmingPlan snapshot mode service supported))
        else (e, .error .noEligibleCandidates)
      else
        match if mode = .adaptive then eligible.findIdx? (leasedBy lease) else none with
        | some index =>
          (e, .ok (limitedPlan e snapshot mode .lease service (moveCandidateFirst eligible index)))
        | none => planRanked e view snapshot service mode lease pinned kernel now eligible

end SingBox.PolicyPlan
