import Mathlib.Data.List.Sort
import SingBox.Maps
import SingBox.Runs
import SingBox.Values

namespace SingBox.IdentityState

open Values Maps Runs

structure IdentityNode where
  nodeID : NodeID
  identityStable : Bool
  deriving DecidableEq

structure IdentitySnapshot where
  sourceGeneration : Nat
  nodes : List IdentityNode
  deriving DecidableEq

structure VersionTransition where
  previous : NodeHandle
  current : NodeHandle
  deriving DecidableEq

structure RuntimeIdentity where
  epochID : Nat
  revision : Nat
  sourceGeneration : Nat
  handles : GoMap NodeID NodeHandle
  retiredHandles : List NodeHandle
  versionTransitions : List VersionTransition

structure StableNodeLineage where
  handle : NodeHandle
  presentInLatest : Bool
  deriving DecidableEq

structure RetiredLineageItem where
  nodeID : NodeID
  revision : Nat
  deriving DecidableEq

structure StableIdentityState where
  nextEpoch : Nat
  nextRevision : Nat
  nextSlot : Nat
  currentEpoch : Nat
  lineage : GoMap NodeID StableNodeLineage
  retired : List RetiredLineageItem
  retiredHead : Nat
  retiredQueued : GoMap NodeID Nat
  maxRetired : Nat

def newStableIdentityState : StableIdentityState := ⟨0, 0, 0, 0, ∅, [], 0, ∅, 16384⟩

def validateNodes (seen : List NodeID) : List IdentityNode → Except String Unit
  | [] => .ok ()
  | node :: nodes =>
    if node.nodeID = 0 then .error "adaptive identity contains empty node"
    else if node.nodeID ∈ seen then .error "adaptive identity contains duplicate node"
    else validateNodes (node.nodeID :: seen) nodes

def validateIdentitySnapshot (snapshot : IdentitySnapshot) : Except String Unit :=
  if snapshot.sourceGeneration = 0 then .error "adaptive source generation is required"
  else validateNodes [] snapshot.nodes

def renews (node : IdentityNode) (lineage : StableNodeLineage) : Bool :=
  !lineage.presentInLatest || !node.identityStable

def nextHandle (revision nextSlot : Nat) (node : IdentityNode) : Option StableNodeLineage → NodeHandle
  | none => ⟨node.nodeID, succ64 nextSlot, 1, revision⟩
  | some lineage =>
    if renews node lineage then
      { lineage.handle with version := succ64 lineage.handle.version, bornRevision := revision }
    else lineage.handle

def replacedHandle (node : IdentityNode) : Option StableNodeLineage → List NodeHandle
  | none => []
  | some lineage => if renews node lineage then [lineage.handle] else []

structure Publishing where
  state : StableIdentityState
  handles : GoMap NodeID NodeHandle
  retiredHandles : List NodeHandle
  transitions : List VersionTransition

def admitNode (revision : Nat) (p : Publishing) (node : IdentityNode) : Publishing :=
  let existing := p.state.lineage.lookup node.nodeID
  let handle := nextHandle revision p.state.nextSlot node existing
  { state := { p.state with
      nextSlot := if existing.isNone then succ64 p.state.nextSlot else p.state.nextSlot
      lineage := p.state.lineage.insert node.nodeID ⟨handle, true⟩
      retiredQueued := p.state.retiredQueued.erase node.nodeID }
    handles := p.handles.insert node.nodeID handle
    retiredHandles := p.retiredHandles ++ replacedHandle node existing
    transitions := p.transitions ++ (replacedHandle node existing).map fun previous => ⟨previous, handle⟩ }

def dropNode (revision : Nat) (seen : List NodeID) (p : Publishing) (id : NodeID) : Publishing :=
  match p.state.lineage.lookup id with
  | none => p
  | some lineage =>
    if id ∉ seen ∧ lineage.presentInLatest then
      { p with
        state := { p.state with
          lineage := p.state.lineage.insert id { lineage with presentInLatest := false }
          retired := p.state.retired ++ [⟨id, revision⟩]
          retiredQueued := p.state.retiredQueued.insert id revision }
        retiredHandles := p.retiredHandles ++ [lineage.handle] }
    else p

/-- `s.retired[s.retiredHead:]`. -/
def queue (s : StableIdentityState) : List RetiredLineageItem := s.retired.drop s.retiredHead

def evictItem (item : RetiredLineageItem) (s : StableIdentityState) : StableIdentityState :=
  let s := { s with retiredHead := s.retiredHead + 1 }
  if (s.retiredQueued.lookup item.nodeID).getD 0 ≠ item.revision then s
  else
    { s with
      retiredQueued := s.retiredQueued.erase item.nodeID
      lineage := match s.lineage.lookup item.nodeID with
        | none => s.lineage
        | some lineage => if !lineage.presentInLatest then s.lineage.erase item.nodeID else s.lineage }

def evictRetired : List RetiredLineageItem → StableIdentityState → StableIdentityState
  | [], s => s
  | item :: rest, s => if (item :: rest).length > s.maxRetired then evictRetired rest (evictItem item s) else s

def compactRetired (s : StableIdentityState) : StableIdentityState :=
  if s.retiredHead > 1024 ∧ s.retiredHead * 2 > s.retired.length then
    { s with retired := queue s, retiredHead := 0 }
  else s

def openPublish (s : StableIdentityState) (newEpoch : Bool) : Publishing :=
  { state := { s with
      nextRevision := succ64 s.nextRevision
      nextEpoch := if newEpoch then succ64 s.nextEpoch else s.nextEpoch
      currentEpoch := if newEpoch then succ64 s.nextEpoch else s.currentEpoch }
    handles := ∅
    retiredHandles := []
    transitions := [] }

def preparePublish (s : StableIdentityState) (snapshot : IdentitySnapshot) (newEpoch : Bool)
    (order : RangeOrder NodeID) : StableIdentityState × RuntimeIdentity :=
  let revision := succ64 s.nextRevision
  let admitted := run (admitNode revision) (openPublish s newEpoch) snapshot.nodes
  let seen := snapshot.nodes.map (·.nodeID)
  let dropped := run (dropNode revision seen) admitted (order.visit admitted.state.lineage.keys)
  let state := compactRetired (evictRetired (queue dropped.state) dropped.state)
  (state, {
    epochID := state.currentEpoch
    revision := revision
    sourceGeneration := snapshot.sourceGeneration
    handles := dropped.handles
    retiredHandles := dropped.retiredHandles
    versionTransitions := dropped.transitions })

structure PersistedIdentityLineage where
  nodeID : NodeID
  handle : NodeHandle
  presentInLatest : Bool
  deriving DecidableEq

structure PersistedIdentityState where
  nextEpoch : Nat
  nextRevision : Nat
  nextSlot : Nat
  lineage : List PersistedIdentityLineage
  deriving DecidableEq

/-- The copy of an identity state that is written to disk. The nodes are
distinct, so that the order of the loop over the map is lost in the sort. -/
def persistenceSnapshot (s : StableIdentityState) : PersistedIdentityState :=
  { nextEpoch := s.nextEpoch
    nextRevision := s.nextRevision
    nextSlot := s.nextSlot
    lineage := (s.lineage.keys.insertionSort (· ≤ ·)).filterMap fun id =>
      (s.lineage.lookup id).map fun lineage => ⟨id, lineage.handle, lineage.presentInLatest⟩ }

def invalidLineage (persisted : PersistedIdentityState) (item : PersistedIdentityLineage) : Bool :=
  item.nodeID = 0 ∨ item.handle.nodeID ≠ item.nodeID ∨ item.handle.slot = 0 ∨
    item.handle.slot > persisted.nextSlot ∨ item.handle.version = 0 ∨ item.handle.bornRevision = 0 ∨
    item.handle.bornRevision > persisted.nextRevision

def restoreItem (persisted : PersistedIdentityState) (s : StableIdentityState)
    (item : PersistedIdentityLineage) :
    StableIdentityState :=
  let s := { s with lineage := s.lineage.insert item.nodeID ⟨item.handle, item.presentInLatest⟩ }
  if item.presentInLatest then s
  else { s with
    retired := s.retired ++ [⟨item.nodeID, persisted.nextRevision⟩]
    retiredQueued := s.retiredQueued.insert item.nodeID persisted.nextRevision }

def restoreLineage (persisted : PersistedIdentityState) :
    List PersistedIdentityLineage → List Nat → StableIdentityState → Except String StableIdentityState
  | [], _, s => .ok s
  | item :: items, usedSlots, s =>
    if invalidLineage persisted item then .error "adaptive persisted identity lineage is invalid"
    else if (s.lineage.lookup item.nodeID).isSome then
      .error "adaptive persisted identity contains duplicate node"
    else if item.handle.slot ∈ usedSlots then .error "adaptive persisted identity contains duplicate slot"
    else if !item.presentInLatest ∧ s.retired.length ≥ s.maxRetired then
      .error "adaptive persisted retired lineage exceeds bound"
    else restoreLineage persisted items (item.handle.slot :: usedSlots) (restoreItem persisted s item)

def restoreStableIdentityState (persisted : PersistedIdentityState) : Except String StableIdentityState :=
  if persisted.nextEpoch = 0 ∨ persisted.nextRevision = 0 ∨ persisted.lineage.length > 2 ^ 20 then
    .error "adaptive persisted identity counters are invalid"
  else restoreLineage persisted persisted.lineage []
    { newStableIdentityState with
      nextEpoch := persisted.nextEpoch
      currentEpoch := persisted.nextEpoch
      nextRevision := persisted.nextRevision
      nextSlot := persisted.nextSlot }

theorem validateNodes_ok {seen nodes} (h : validateNodes seen nodes = .ok ()) :
    (∀ node ∈ nodes, node.nodeID ≠ 0) ∧ (nodes.map (·.nodeID)).Nodup ∧ ∀ node ∈ nodes, node.nodeID ∉ seen := by
  induction nodes generalizing seen with
  | nil => simp
  | cons node nodes ih =>
    rw [validateNodes] at h
    split at h
    · cases h
    rename_i hz
    split at h
    · cases h
    rename_i hs
    obtain ⟨hne, hf⟩ := ih h
    exact ⟨List.forall_mem_cons.mpr ⟨hz, hne⟩, nodup_cons_of_fresh hs hf⟩

theorem validateIdentitySnapshot_ok {snapshot} (h : validateIdentitySnapshot snapshot = .ok ()) :
    (∀ node ∈ snapshot.nodes, node.nodeID ≠ 0) ∧ (snapshot.nodes.map (·.nodeID)).Nodup := by
  rw [validateIdentitySnapshot] at h
  split at h
  · cases h
  · exact ⟨(validateNodes_ok h).1, (validateNodes_ok h).2.1⟩

structure Publication where
  snapshot : IdentitySnapshot
  newEpoch : Bool
  order : RangeOrder NodeID
  valid : validateIdentitySnapshot snapshot = .ok ()

def publish (s : StableIdentityState) (pub : Publication) : StableIdentityState :=
  (preparePublish s pub.snapshot pub.newEpoch pub.order).1

def identities : StableIdentityState → List Publication → List RuntimeIdentity
  | _, [] => []
  | s, pub :: pubs => (preparePublish s pub.snapshot pub.newEpoch pub.order).2 :: identities (publish s pub) pubs

end SingBox.IdentityState
