import SingBox.SmartDial
import SingBox.Values

namespace SingBox.SmartSelection

open Maps Values
open SmartDial (CircuitState)

/-- The fields of a candidate's metadata by which endpoints are told apart. -/
structure SmartCandidateMetadata where
  identity : String
  dialIdentity : String
  profileID : String
  policyID : UInt64
  deriving DecidableEq

abbrev MetadataByTag := GoMap String SmartCandidateMetadata

structure SmartRank where
  tag : String
  identity : String
  policyID : UInt64
  eligible : Bool
  state : CircuitState
  score : Float
  samples : Float
  connectMS : Float
  connectP95MS : Float
  firstByteMS : Float
  firstByteP95MS : Float
  selectionGeneration : Nat

structure SmartAffinity where
  candidate : String
  expiresAt : Time
  deriving DecidableEq

structure SmartSwitchChallenge where
  candidate : String
  since : Time
  count : Int
  deriving DecidableEq

/-- `policyBackendRequired` is a constant of the build. -/
structure SmartOptions where
  siteStickiness : Duration
  switchMargin : Float
  switchMinImprovement : Duration
  switchConfirm : Duration
  switchConfirmSamples : Int
  switchCooldown : Duration
  maxHistoryEntries : Int
  minSamples : Int
  policyBackendRequired : Bool

structure Smart where
  lastSelected : GoMap String String := ∅
  lastSelectedAt : GoMap String Time := ∅
  selectionGeneration : GoMap String Nat := ∅
  zigSelectedEndpoint : GoMap String String := ∅
  switchChallenges : GoMap String SmartSwitchChallenge := ∅
  performanceCooldown : GoMap String Time := ∅
  affinity : GoMap String SmartAffinity := ∅

structure Context where
  networkKey : String
  siteKey : String
  siteDisplay : String
  transport : String
  deriving DecidableEq

def smartSelectionKey (c : Context) : String := c.networkKey ++ "\x00" ++ c.siteKey ++ "\x00" ++ c.transport

def smartStatusSelectionKey (c : Context) : String :=
  c.networkKey ++ "\x00" ++ c.siteDisplay ++ "\x00" ++ c.transport

def isDigit (char : Char) : Bool := '0' ≤ char && char ≤ '9'

def isLowerHex (value : List Char) : Bool :=
  value.length == 8 && value.all fun char => isDigit char || 'a' ≤ char && char ≤ 'f'

def isDecimal (value : List Char) : Bool := value.all isDigit && !value.isEmpty

def lastIndex (text pattern : List Char) : Option Nat :=
  (List.range text.length).reverse.find? fun i => pattern.isPrefixOf (text.drop i)

def smartLineFamily (tag : String) : String :=
  let text := tag.toList
  let n := text.length
  if n > 10 ∧ (text.drop (n - 10)).take 2 = [' ', '#'] ∧ isLowerHex (text.drop (n - 8)) then
    String.ofList (text.take (n - 10))
  else if text.getLast? = some ')' then
    match lastIndex text [' ', '('] with
    | some start =>
      if start + 2 < n - 1 ∧ isDecimal ((text.take (n - 1)).drop (start + 2)) then
        String.ofList (text.take start)
      else tag
    | none => tag
  else tag

def smartEquivalentLine (left right : String) : Bool := left ≠ right && smartLineFamily left = smartLineFamily right

def smartMetadataSameEndpoint (left right : SmartCandidateMetadata) : Bool :=
  if left.policyID ≠ 0 ∨ right.policyID ≠ 0 then left.policyID ≠ 0 && left.policyID = right.policyID
  else if left.profileID ≠ "" ∧ left.profileID = right.profileID then true
  else if left.dialIdentity ≠ "" ∨ right.dialIdentity ≠ "" then
    left.dialIdentity ≠ "" && left.dialIdentity = right.dialIdentity
  else left.identity ≠ "" && left.identity = right.identity

def smartSameEndpoint (metadataByTag : MetadataByTag) (left right : String) : Bool :=
  if left = right then true
  else
    match metadataByTag.lookup left, metadataByTag.lookup right with
    | some leftMetadata, some rightMetadata => smartMetadataSameEndpoint leftMetadata rightMetadata
    | _, _ => smartEquivalentLine left right

def smartEndpointID (identity : String) (policyID : UInt64) : String :=
  if "endpoint:".toList.isPrefixOf identity.toList then identity
  else if policyID ≠ 0 then "policy:" ++ String.ofList (Nat.toDigits 16 policyID.toNat)
  else ""

def endpointIDOf (metadataByTag : MetadataByTag) (tag : String) : String :=
  match metadataByTag.lookup tag with
  | some metadata => smartEndpointID metadata.identity metadata.policyID
  | none => smartEndpointID "" 0

def smartRankByTag (ranks : List SmartRank) (tag : String) : Option SmartRank := ranks.find? (·.tag == tag)

def smartRankLatencyMS (rank : SmartRank) : Float :=
  if rank.firstByteP95MS > 0.0 then rank.firstByteP95MS
  else if rank.connectP95MS > 0.0 then rank.connectP95MS
  else if rank.firstByteMS > 0.0 then rank.firstByteMS
  else rank.connectMS

def smartRelativeImprovement (bestScore currentScore margin : Float) : Bool :=
  if bestScore ≥ currentScore then false
  else if margin ≤ 0.0 then true
  else currentScore > bestScore / (1.0 - margin)

def smartAbsoluteImprovement (best current : SmartRank) (minimum : Duration) : Bool :=
  if minimum ≤ 0 then true
  else
    let bestLatency := smartRankLatencyMS best
    let currentLatency := smartRankLatencyMS current
    if bestLatency ≤ 0.0 ∨ currentLatency ≤ 0.0 then false
    else currentLatency - bestLatency ≥ Float.ofInt minimum / 1000000.0

structure PruneOrders where
  affinity : RangeOrder String
  endpoints : RangeOrder String
  generations : RangeOrder String

def pruneLimit (o : SmartOptions) : Int := min 10000 (max 1024 (o.maxHistoryEntries.tdiv 4))

def deleteIf {V : Type} (drop : V → Bool) (m : GoMap String V) : GoMap String V :=
  m.keys.foldl (fun m key => if (m.lookup key).any drop then m.erase key else m) m

def deleteOver {V : Type} (limit : Int) (keys : List String) (m : GoMap String V) : GoMap String V :=
  keys.foldl (fun m key => if (m.keys.length : Int) < limit then m else m.erase key) m

def pruneAffinityLocked (o : SmartOptions) (orders : PruneOrders) (now : Time) (s : Smart) : Smart :=
  if (s.affinity.keys.length : Int) < pruneLimit o then s
  else
    let live := deleteIf (fun entry => !(entry.expiresAt > now)) s.affinity
    { s with affinity := deleteOver (pruneLimit o) (orders.affinity.visit live.keys) live }

def pruneEndpoint (limit : Int) (s : Smart) (key : String) : Smart :=
  if (s.zigSelectedEndpoint.keys.length : Int) < limit ∧ (s.selectionGeneration.keys.length : Int) < limit then s
  else
    { s with
      zigSelectedEndpoint := s.zigSelectedEndpoint.erase key
      selectionGeneration := s.selectionGeneration.erase key }

def challengeMaxAge (o : SmartOptions) : Duration :=
  if o.switchConfirm * 8 ≤ 0 ∨ o.switchConfirm * 8 > 3600 * second then 3600 * second else o.switchConfirm * 8

def pruneExpired (o : SmartOptions) (now : Time) (s : Smart) : Smart :=
  { s with
    performanceCooldown := deleteIf (fun until_ => !(until_ > now)) s.performanceCooldown
    switchChallenges := deleteIf (fun c => sub now c.since > challengeMaxAge o) s.switchChallenges }

def pruneEndpoints (o : SmartOptions) (order : RangeOrder String) (s : Smart) : Smart :=
  if (s.zigSelectedEndpoint.keys.length : Int) ≥ pruneLimit o then
    (order.visit s.zigSelectedEndpoint.keys).foldl (pruneEndpoint (pruneLimit o)) s
  else s

def pruneGenerations (o : SmartOptions) (order : RangeOrder String) (s : Smart) : Smart :=
  if (s.selectionGeneration.keys.length : Int) ≥ pruneLimit o then
    { s with
      selectionGeneration :=
        deleteOver (pruneLimit o) (order.visit s.selectionGeneration.keys) s.selectionGeneration }
  else s

def pruneContextStateLocked (o : SmartOptions) (orders : PruneOrders) (now : Time) (s : Smart) : Smart :=
  pruneGenerations o orders.generations (pruneEndpoints o orders.endpoints (pruneExpired o now s))

def stored (s : Smart) (key : String) : String × Time :=
  ((s.lastSelected.lookup key).getD "", (s.lastSelectedAt.lookup key).getD 0)

def stickinessOver (o : SmartOptions) (now : Time) (selected : String × Time) : Bool :=
  selected.1 ≠ "" && !isZero selected.2 && o.siteStickiness > 0 && sub now selected.2 > o.siteStickiness

/-- A selection that has been kept for longer than the stickiness counts as none. -/
def inForce (o : SmartOptions) (now : Time) (selected : String × Time) : String × Time :=
  if stickinessOver o now selected then ("", 0) else selected

structure Completion where
  candidate : String
  context : Context
  snapshotSelected : String
  snapshotSelectedAt : Time
  snapshotValid : Bool
  ranks : List SmartRank
  attemptIndex : Int
  hadPriorFailure : Bool

inductive Verdict
  | unavailable
  | staleRetained
  | hedgeRetained
  | lateRetained
  | selected
  deriving DecidableEq

def isOpen (ranks : List SmartRank) (tag : String) : Bool :=
  (smartRankByTag ranks tag).any fun rank => rank.state = .circuitOpen

section

variable (o : SmartOptions) (metadataByTag : MetadataByTag) (usePolicyBackend : Bool) (now : Time)

def logicalSwitch (previous candidate : String) : Bool :=
  previous ≠ "" && previous ≠ candidate && !smartSameEndpoint metadataByTag previous candidate

def failureSwitch (previous : String) (c : Completion) : Bool := c.hadPriorFailure || isOpen c.ranks previous

def currentGeneration (s : Smart) (c : Completion) : Nat :=
  let generation := (s.selectionGeneration.lookup (smartStatusSelectionKey c.context)).getD 0
  if generation = 0 then 1 else generation

def staleSnapshot (current : String × Time) (c : Completion) : Bool :=
  c.snapshotValid && (current.1 ≠ c.snapshotSelected || current.2 ≠ c.snapshotSelectedAt)

def staleGeneration (s : Smart) (c : Completion) : Bool :=
  (smartRankByTag c.ranks c.candidate).any fun rank =>
    rank.selectionGeneration ≠ 0 && rank.selectionGeneration ≠ currentGeneration s c

def materiallyBetter (previous : String) (c : Completion) : Bool :=
  match smartRankByTag c.ranks previous, smartRankByTag c.ranks c.candidate with
  | some previousRank, some currentRank =>
    smartRelativeImprovement currentRank.score previousRank.score o.switchMargin &&
      smartAbsoluteImprovement currentRank previousRank o.switchMinImprovement
  | _, _ => false

def coolingDown (s : Smart) (key : String) : Bool := (s.performanceCooldown.lookup key).getD 0 > now

def verdict (s : Smart) (current : String × Time) (c : Completion) : Verdict :=
  let switches := logicalSwitch metadataByTag current.1 c.candidate
  let failed := failureSwitch current.1 c
  if (staleSnapshot current c || staleGeneration s c) && switches && !failed then .staleRetained
  else if usePolicyBackend && switches && c.attemptIndex > 0 && !c.hadPriorFailure then .hedgeRetained
  else if !usePolicyBackend && switches && !failed &&
      (coolingDown now s (smartSelectionKey c.context) || !materiallyBetter o current.1 c) then .lateRetained
  else .selected

def commit (s : Smart) (current : String × Time) (c : Completion) : Smart :=
  let key := smartSelectionKey c.context
  let statusKey := smartStatusSelectionKey c.context
  let switches := logicalSwitch metadataByTag current.1 c.candidate
  let failed := failureSwitch current.1 c
  let moved := switches &&
    (s.zigSelectedEndpoint.lookup statusKey).getD "" ≠ endpointIDOf metadataByTag c.candidate
  { s with
    lastSelected := s.lastSelected.insert key c.candidate
    lastSelectedAt := s.lastSelectedAt.insert key now
    selectionGeneration := s.selectionGeneration.insert statusKey
      (if moved then succ64 (currentGeneration s c) else currentGeneration s c)
    switchChallenges := s.switchChallenges.erase key
    performanceCooldown :=
      if !usePolicyBackend && switches && !failed then s.performanceCooldown.insert key (now + o.switchCooldown)
      else s.performanceCooldown
    affinity :=
      if c.context.siteKey ≠ "" then s.affinity.insert key ⟨c.candidate, now + o.siteStickiness⟩ else s.affinity }

def markSelectedWithSnapshot (orders : PruneOrders) (s : Smart) (c : Completion) : Smart × Verdict :=
  if o.policyBackendRequired && !usePolicyBackend then (s, .unavailable)
  else
    let s := pruneContextStateLocked o orders now (pruneAffinityLocked o orders now s)
    let current := inForce o now (stored s (smartSelectionKey c.context))
    match verdict o metadataByTag usePolicyBackend now s current c with
    | .selected => (commit o metadataByTag usePolicyBackend now s current c, .selected)
    | retained => (s, retained)

end

def recordZigSelectedEndpoint (s : Smart) (statusKey endpointID : String) : Smart :=
  if statusKey = "" ∨ endpointID = "" then s
  else
    let previous := (s.zigSelectedEndpoint.lookup statusKey).getD ""
    let generation := (s.selectionGeneration.lookup statusKey).getD 0
    { s with
      selectionGeneration :=
        if previous = endpointID then s.selectionGeneration
        else
          s.selectionGeneration.insert statusKey
            (if generation = 0 then 1 else if previous ≠ "" then succ64 generation else generation)
      zigSelectedEndpoint := s.zigSelectedEndpoint.insert statusKey endpointID }

def clearSwitchChallenge (s : Smart) (key : String) : Smart :=
  { s with switchChallenges := s.switchChallenges.erase key }

def confirmSwitchChallenge (o : SmartOptions) (s : Smart) (key candidate : String) (now : Time) : Smart × Bool :=
  let fresh := { s with switchChallenges := s.switchChallenges.insert key ⟨candidate, now, 1⟩ }
  match s.switchChallenges.lookup key with
  | none => (fresh, false)
  | some challenge =>
    if challenge.candidate ≠ candidate ∨ isZero challenge.since then (fresh, false)
    else
      let challenge := { challenge with count := challenge.count + 1 }
      if challenge.count < o.switchConfirmSamples ∨ sub now challenge.since < o.switchConfirm then
        ({ s with switchChallenges := s.switchChallenges.insert key challenge }, false)
      else (clearSwitchChallenge s key, true)

end SingBox.SmartSelection
