import SingBox.IdentityState

namespace SingBox.EpochManager

open Values Maps Runs IdentityState

inductive EpochLifecycle
  | active
  | retiring
  | retired
  deriving DecidableEq

structure StableEpoch where
  lifecycle : EpochLifecycle
  revision : Nat
  lastSourceGeneration : Nat
  refCount : Nat
  handles : GoMap NodeID NodeHandle

structure PublishedEpoch where
  revision : Nat
  lastSourceGeneration : Nat
  handles : GoMap NodeID NodeHandle

/-- A pointer to an identity state, which is never written to once it is
shared. `published` records the epochs published up to this state, each as it
was published last; no operation reads it. -/
structure IdentityRef where
  addr : Nat
  state : StableIdentityState
  published : GoMap Nat PublishedEpoch

structure SharedGroupState where
  identity : IdentityRef
  epochs : GoMap Nat StableEpoch

/-- A preparation for a new epoch has no base when the group had no state, and
one for a revision has a copy of the epoch it goes to. -/
inductive PreparedKind
  | newEpoch (base : Option IdentityRef)
  | revision (base : IdentityRef) (previousEpoch : StableEpoch)

structure PreparedIdentity where
  groupID : String
  kind : PreparedKind
  baseRevision : Nat
  next : IdentityRef
  identity : RuntimeIdentity
  committed : Bool := false
  rolledBack : Bool := false

def PreparedIdentity.baseState (p : PreparedIdentity) : Option IdentityRef :=
  match p.kind with
  | .newEpoch base => base
  | .revision base _ => some base

structure RuntimeEpochIdentityLease where
  groupID : String
  epochID : Nat
  released : Bool
  deriving DecidableEq

/-- The manager with all preparations and leases it ever gave out, and the
number of identity states allocated so far. -/
structure RuntimeManager where
  groups : GoMap String SharedGroupState
  groupUsers : GoMap String Nat
  prepared : List PreparedIdentity
  leases : List RuntimeEpochIdentityLease
  allocated : Nat

def newRuntimeManager : RuntimeManager := ⟨∅, ∅, [], [], 0⟩

def errPreparedIdentityStale : String := "adaptive prepared identity is stale"

variable (m : RuntimeManager) (groupID : String) (epochID : Nat)

def usersOf : Nat := (m.groupUsers.lookup groupID).getD 0

def tryCleanupGroupLocked : RuntimeManager :=
  if usersOf m groupID ≠ 0 then m
  else match m.groups.lookup groupID with
    | none => m
    | some state => if state.epochs.keys.length = 0 then { m with groups := m.groups.erase groupID } else m

def registerGroup : RuntimeManager :=
  if groupID = "" then m
  else { m with groupUsers := m.groupUsers.insert groupID (usersOf m groupID + 1) }

def unregisterGroup : RuntimeManager :=
  if groupID = "" then m
  else if usersOf m groupID > 1 then
    { m with groupUsers := m.groupUsers.insert groupID (usersOf m groupID - 1) }
  else tryCleanupGroupLocked { m with groupUsers := m.groupUsers.erase groupID } groupID

def restorePersistence (persisted : PersistedIdentityState) : Except String RuntimeManager :=
  if groupID = "" then .error "adaptive persisted identity dependency is invalid"
  else match m.groups.lookup groupID with
    | some _ => .ok m
    | none => match restoreStableIdentityState persisted with
      | .error e => .error e
      | .ok identity => .ok { m with
          groups := m.groups.insert groupID ⟨⟨m.allocated, identity, ∅⟩, ∅⟩
          allocated := m.allocated + 1 }

def prepare (kind : PreparedKind) (base : StableIdentityState)
    (published : GoMap Nat PublishedEpoch) (snapshot : IdentitySnapshot) (newEpoch : Bool)
    (order : RangeOrder NodeID) : PreparedIdentity :=
  let (state, identity) := preparePublish base snapshot newEpoch order
  { groupID := groupID
    kind := kind
    baseRevision := base.nextRevision
    next := ⟨m.allocated, state,
      published.insert identity.epochID ⟨identity.revision, identity.sourceGeneration, identity.handles⟩⟩
    identity := identity }

/-- The base is read under the lock here; the source reads the pointer of a
group that has one again after it. -/
def prepareEpoch (snapshot : IdentitySnapshot) (order : RangeOrder NodeID) :
    Except String PreparedIdentity :=
  if groupID = "" then .error "adaptive stable group id is required"
  else match validateIdentitySnapshot snapshot with
    | .error e => .error e
    | .ok () => match m.groups.lookup groupID with
      | none => .ok (prepare m groupID (.newEpoch none) newStableIdentityState ∅ snapshot true order)
      | some group => .ok (prepare m groupID (.newEpoch (some group.identity)) group.identity.state
          group.identity.published snapshot true order)

def prepareRevision (snapshot : IdentitySnapshot)
    (order : RangeOrder NodeID) : Except String PreparedIdentity :=
  match validateIdentitySnapshot snapshot with
  | .error e => .error e
  | .ok () => match m.groups.lookup groupID with
    | none => .error "adaptive runtime epoch is not current"
    | some group =>
      if group.identity.state.currentEpoch ≠ epochID then .error "adaptive runtime epoch is not current"
      else match group.epochs.lookup epochID with
        | none => .error "adaptive runtime epoch is not active"
        | some epoch =>
          if epoch.lifecycle ≠ .active then .error "adaptive runtime epoch is not active"
          else if snapshot.sourceGeneration ≤ epoch.lastSourceGeneration then
            .error "adaptive source generation is not newer"
          else .ok (prepare m groupID (.revision group.identity epoch) group.identity.state
            group.identity.published snapshot false order)

def committedTo (p : PreparedIdentity) : Except String SharedGroupState :=
  match p.baseState, m.groups.lookup p.groupID with
  | none, some _ => .error errPreparedIdentityStale
  | none, none => .ok ⟨p.next, ∅⟩
  | some _, none => .error errPreparedIdentityStale
  | some base, some group =>
    if group.identity.addr ≠ base.addr ∨ group.identity.state.nextRevision ≠ p.baseRevision then
      .error errPreparedIdentityStale
    else .ok group

def commit (p : PreparedIdentity) : Except String SharedGroupState :=
  if p.committed ∨ p.rolledBack then .error "adaptive identity preparation is no longer committable"
  else match committedTo m p with
    | .error e => .error e
    | .ok group => match p.kind with
      | .newEpoch _ => .ok ⟨p.next, group.epochs.insert p.identity.epochID
          ⟨.active, p.identity.revision, p.identity.sourceGeneration, 0, p.identity.handles⟩⟩
      | .revision _ _ => match group.epochs.lookup p.identity.epochID with
        | none => .error errPreparedIdentityStale
        | some epoch =>
          if epoch.lifecycle ≠ .active ∨ epoch.lastSourceGeneration ≥ p.identity.sourceGeneration then
            .error errPreparedIdentityStale
          else .ok ⟨p.next, group.epochs.insert p.identity.epochID { epoch with
            revision := p.identity.revision
            lastSourceGeneration := p.identity.sourceGeneration
            handles := p.identity.handles }⟩

def rollback (p : PreparedIdentity) : Except String (GoMap String SharedGroupState) :=
  match m.groups.lookup p.groupID with
  | none => .error errPreparedIdentityStale
  | some group =>
    if group.identity.addr ≠ p.next.addr then .error errPreparedIdentityStale
    else match p.kind with
      | .newEpoch none => .ok (m.groups.erase p.groupID)
      | .newEpoch (some base) => .ok (m.groups.insert p.groupID ⟨base, group.epochs.erase p.identity.epochID⟩)
      | .revision base previousEpoch =>
        .ok (m.groups.insert p.groupID ⟨base, group.epochs.insert p.identity.epochID previousEpoch⟩)

def setEpoch (group : SharedGroupState) (epochID : Nat) (epoch : StableEpoch) : RuntimeManager :=
  { m with groups := m.groups.insert groupID { group with epochs := group.epochs.insert epochID epoch } }

def deleteEpoch (group : SharedGroupState) (epochID : Nat) : RuntimeManager :=
  { m with groups := m.groups.insert groupID { group with epochs := group.epochs.erase epochID } }

def acquireEpoch : Except String RuntimeManager :=
  match m.groups.lookup groupID with
  | none => .error "adaptive runtime group is not published"
  | some group => match group.epochs.lookup epochID with
    | none => .error "adaptive runtime epoch is not active"
    | some epoch =>
      if epoch.lifecycle ≠ .active then .error "adaptive runtime epoch is not active"
      else
        let m := setEpoch m groupID group epochID { epoch with refCount := epoch.refCount + 1 }
        .ok { m with leases := m.leases ++ [⟨groupID, epochID, false⟩] }

def releaseEpoch : RuntimeManager :=
  match m.groups.lookup groupID with
  | none => m
  | some group => match group.epochs.lookup epochID with
    | none => m
    | some epoch =>
      let refCount := if epoch.refCount > 0 then epoch.refCount - 1 else epoch.refCount
      if epoch.lifecycle = .retiring ∧ refCount = 0 then
        tryCleanupGroupLocked (deleteEpoch m groupID group epochID) groupID
      else setEpoch m groupID group epochID { epoch with refCount := refCount }

def retireEpoch : RuntimeManager :=
  match m.groups.lookup groupID with
  | none => m
  | some group => match group.epochs.lookup epochID with
    | none => m
    | some epoch =>
      if epoch.lifecycle = .retired then m
      else if epoch.refCount = 0 then tryCleanupGroupLocked (deleteEpoch m groupID group epochID) groupID
      else setEpoch m groupID group epochID { epoch with lifecycle := .retiring }

inductive Op
  | register (groupID : String)
  | unregister (groupID : String)
  | restore (groupID : String) (persisted : PersistedIdentityState)
  | prepareEpoch (groupID : String) (snapshot : IdentitySnapshot) (order : RangeOrder NodeID)
  | prepareRevision (groupID : String) (epochID : Nat) (snapshot : IdentitySnapshot) (order : RangeOrder NodeID)
  | commit (preparation : Nat)
  | rollback (preparation : Nat)
  | acquire (groupID : String) (epochID : Nat)
  | release (lease : Nat)
  | retire (groupID : String) (epochID : Nat)

def keepPrepared : Except String PreparedIdentity → RuntimeManager
  | .error _ => m
  | .ok p => { m with prepared := m.prepared ++ [p], allocated := m.allocated + 1 }

def step : Op → RuntimeManager
  | .register groupID => registerGroup m groupID
  | .unregister groupID => unregisterGroup m groupID
  | .restore groupID persisted => match restorePersistence m groupID persisted with
    | .error _ => m
    | .ok m' => m'
  | .prepareEpoch groupID snapshot order => keepPrepared m (prepareEpoch m groupID snapshot order)
  | .prepareRevision groupID epochID snapshot order =>
    keepPrepared m (prepareRevision m groupID epochID snapshot order)
  | .commit i => match m.prepared[i]? with
    | none => m
    | some p => match commit m p with
      | .error _ => m
      | .ok group => { m with
          groups := m.groups.insert p.groupID group
          prepared := m.prepared.set i { p with committed := true } }
  | .rollback i => match m.prepared[i]? with
    | none => m
    | some p =>
      if !p.committed || p.rolledBack then m
      else { m with
        groups := match rollback m p with
          | .error _ => m.groups
          | .ok groups => groups
        prepared := m.prepared.set i { p with rolledBack := true } }
  | .acquire groupID epochID => match acquireEpoch m groupID epochID with
    | .error _ => m
    | .ok m' => m'
  | .release i => match m.leases[i]? with
    | none => m
    | some lease =>
      if lease.released then m
      else releaseEpoch { m with leases := m.leases.set i { lease with released := true } }
        lease.groupID lease.epochID
  | .retire groupID epochID => retireEpoch m groupID epochID

def after (ops : List Op) : RuntimeManager := run step newRuntimeManager ops

theorem after_append (xs ys) : after (xs ++ ys) = run step (after xs) ys := run_append step _ xs ys

theorem after_snoc (xs op) : after (xs ++ [op]) = step (after xs) op := after_append xs [op]

end SingBox.EpochManager
