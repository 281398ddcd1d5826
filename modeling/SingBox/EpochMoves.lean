import SingBox.Arena
import SingBox.EpochManager
import SingBox.IdentityInvariant

namespace SingBox.EpochMoves

open Option Arena Values Maps IdentityState EpochManager

def identityIn (groups : GoMap String SharedGroupState) (g : String) : Option IdentityRef :=
  (groups.lookup g).map (·.identity)

def epochIn (groups : GoMap String SharedGroupState) (g : String) (e : Nat) : Option StableEpoch :=
  (groups.lookup g).bind (·.epochs.lookup e)

variable {ep : StableEpoch} {epochs : GoMap Nat StableEpoch}

section

variable {groups : GoMap String SharedGroupState} {g : String} {group : SharedGroupState}

theorem identityIn_lookup (h : groups.lookup g = some group) : identityIn groups g = some group.identity := by
  rw [identityIn, h]
  rfl

theorem epochIn_lookup (h : groups.lookup g = some group) (e) : epochIn groups g e = group.epochs.lookup e := by
  rw [epochIn, h]
  rfl

theorem epochIn_of_none (h : groups.lookup g = none) (e) : epochIn groups g e = none := by
  rw [epochIn, h]
  rfl

theorem identityIn_of_epochIn {e} (h : epochIn groups g e = some ep) : ∃ r, identityIn groups g = some r := by
  obtain ⟨group, hgroup, _⟩ := bind_eq_some_iff.mp h
  exact ⟨group.identity, identityIn_lookup hgroup⟩

theorem identityIn_insert (g') : identityIn (groups.insert g group) g' =
    if g' = g then some group.identity else identityIn groups g' := by
  rw [identityIn, lookup_set]
  split <;> rfl

theorem epochIn_insert (g' e) : epochIn (groups.insert g group) g' e =
    if g' = g then group.epochs.lookup e else epochIn groups g' e := by
  rw [epochIn, lookup_set]
  split <;> rfl

theorem identityIn_erase (g') : identityIn (groups.erase g) g' =
    if g' = g then none else identityIn groups g' := by
  rw [identityIn, lookup_del]
  split <;> rfl

theorem epochIn_erase (g' e) : epochIn (groups.erase g) g' e =
    if g' = g then none else epochIn groups g' e := by
  rw [epochIn, lookup_del]
  split <;> rfl

theorem epochIn_write (h : ∀ e, epochIn groups g e = epochs.lookup e) (r e ep g' e') :
    epochIn (groups.insert g ⟨r, epochs.insert e ep⟩) g' e' =
      if g' = g ∧ e' = e then some ep else epochIn groups g' e' := by
  rw [epochIn_insert]
  by_cases hg : g' = g
  · simp [hg, lookup_set, h]
  · simp [hg]

theorem epochIn_delete (h : ∀ e, epochIn groups g e = epochs.lookup e) (r e g' e') :
    epochIn (groups.insert g ⟨r, epochs.erase e⟩) g' e' =
      if g' = g ∧ e' = e then none else epochIn groups g' e' := by
  rw [epochIn_insert]
  by_cases hg : g' = g
  · simp [hg, lookup_del, h]
  · simp [hg]

end

def UpdatedAt (m m' : RuntimeManager) (g : String) (e : Nat) (f : StableEpoch → Option StableEpoch) : Prop :=
  ∀ g' e', epochIn m'.groups g' e' =
    if g' = g ∧ e' = e then (epochIn m.groups g e).bind f else epochIn m.groups g' e'

/-- Only one epoch is changed; a group may be gone, which then had no epochs. -/
structure PointUpdate (m m' : RuntimeManager) (g : String) (e : Nat)
    (f : StableEpoch → Option StableEpoch) : Prop where
  epochs : UpdatedAt m m' g e f
  identity : ∀ g', identityIn m'.groups g' = identityIn m.groups g' ∨ identityIn m'.groups g' = none
  prepared : m'.prepared = m.prepared
  allocated : m'.allocated = m.allocated
  leases : m'.leases = m.leases

variable {m m' : RuntimeManager} {g : String} {e : Nat} {f : StableEpoch → Option StableEpoch}
  {group : SharedGroupState} {p q : PreparedIdentity} {groups : GoMap String SharedGroupState}
  {snapshot : IdentitySnapshot} {order : RangeOrder NodeID} {op : Op}

theorem PointUpdate.unchanged (h : (epochIn m.groups g e).bind f = epochIn m.groups g e) : PointUpdate m m g e f := by
  refine ⟨fun g' e' => ?_, fun _ => .inl rfl, rfl, rfl, rfl⟩
  split
  · next heq => rw [h, heq.1, heq.2]
  · rfl

theorem PointUpdate.refl (m g e) : PointUpdate m m g e some :=
  .unchanged (bind_fun_some _)

theorem PointUpdate.of_none (f) (h : epochIn m.groups g e = none) :
    PointUpdate m m g e f := .unchanged (by rw [h, bind_none])

theorem PointUpdate.clean (h : PointUpdate m m' g e f) (g₀) : PointUpdate m (tryCleanupGroupLocked m' g₀) g e f := by
  rw [tryCleanupGroupLocked]
  split
  · exact h
  split
  · exact h
  rename_i group hgroup
  split
  · next hemp =>
    have hno : ∀ e', epochIn m'.groups g₀ e' = none := by
      intro e'
      rw [epochIn_lookup hgroup]
      cases hl : group.epochs.lookup e' with
      | none => rfl
      | some epoch =>
        have hm := mem_keys_iff.mpr ⟨epoch, hl⟩
        rw [List.length_eq_zero_iff.mp hemp] at hm
        cases hm
    refine { h with epochs := fun g' e' => ?_, identity := fun g' => ?_ }
    · rw [← h.epochs, epochIn_erase]
      split
      · next heq => rw [heq, hno]
      · rfl
    · rw [identityIn_erase]
      split
      · exact .inr rfl
      · exact h.identity g'
  · exact h

theorem identityIn_withEpochs (hgroup : groups.lookup g = some group) (epochs g') :
    identityIn (groups.insert g { group with epochs := epochs }) g' = identityIn groups g' := by
  rw [identityIn_insert]
  split
  · next hg => rw [hg, identityIn_lookup hgroup]
  · rfl

section

variable {epoch : StableEpoch} (hgroup : m.groups.lookup g = some group) (hepoch : group.epochs.lookup e = some epoch)
include hgroup hepoch

theorem setEpoch_update {epoch'} (hf : f epoch = some epoch') :
    PointUpdate m (setEpoch m g group e epoch') g e f := by
  refine ⟨fun g' e' => ?_, fun g' => .inl (identityIn_withEpochs hgroup _ g'), rfl, rfl, rfl⟩
  rw [setEpoch, epochIn_write (epochIn_lookup hgroup), epochIn_lookup hgroup, hepoch,
    bind_some, hf]

theorem deleteEpoch_update (hf : f epoch = none) : PointUpdate m (deleteEpoch m g group e) g e f := by
  refine ⟨fun g' e' => ?_, fun g' => .inl (identityIn_withEpochs hgroup _ g'), rfl, rfl, rfl⟩
  rw [deleteEpoch, epochIn_delete (epochIn_lookup hgroup), epochIn_lookup hgroup, hepoch,
    bind_some, hf]

end

def afterAcquire (epoch : StableEpoch) :
    Option StableEpoch := some { epoch with refCount := epoch.refCount + 1 }

def afterRelease (epoch : StableEpoch) : Option StableEpoch :=
  if epoch.lifecycle = .retiring ∧ epoch.refCount - 1 = 0 then none
  else some { epoch with refCount := epoch.refCount - 1 }

def afterRetire (epoch : StableEpoch) : Option StableEpoch :=
  if epoch.lifecycle = .retired then some epoch
  else if epoch.refCount = 0 then none
  else some { epoch with lifecycle := .retiring }

theorem releaseEpoch_update (m g e) : PointUpdate m (releaseEpoch m g e) g e afterRelease := by
  rw [releaseEpoch]
  split
  · next h => exact .of_none _ (epochIn_of_none h e)
  rename_i group hgroup
  split
  · next h => exact .of_none _ ((epochIn_lookup hgroup e).trans h)
  rename_i epoch hepoch
  have hcnt : (if epoch.refCount > 0 then epoch.refCount - 1 else epoch.refCount) =
      epoch.refCount - 1 := by
    split <;> omega
  dsimp only
  rw [hcnt]
  split
  · next hc => exact (deleteEpoch_update hgroup hepoch (by rw [afterRelease, if_pos hc])).clean g
  · next hc => exact setEpoch_update hgroup hepoch (by rw [afterRelease, if_neg hc])

theorem retireEpoch_update (m g e) : PointUpdate m (retireEpoch m g e) g e afterRetire := by
  rw [retireEpoch]
  split
  · next h => exact .of_none _ (epochIn_of_none h e)
  rename_i group hgroup
  split
  · next h => exact .of_none _ ((epochIn_lookup hgroup e).trans h)
  rename_i epoch hepoch
  split
  · next hc =>
    exact .unchanged (by rw [epochIn_lookup hgroup, hepoch, bind_some, afterRetire, if_pos hc])
  · next hc =>
    split
    · next hz =>
      exact (deleteEpoch_update hgroup hepoch (by rw [afterRetire, if_neg hc, if_pos hz])).clean g
    · next hz => exact setEpoch_update hgroup hepoch (by rw [afterRetire, if_neg hc, if_neg hz])

def contents (epoch : StableEpoch) : PublishedEpoch :=
  ⟨epoch.revision, epoch.lastSourceGeneration, epoch.handles⟩

/-- The operation publishes nothing: what stays of the groups and their epochs
keeps its contents. -/
structure Keeps (m m' : RuntimeManager) : Prop where
  identity : ∀ g, identityIn m'.groups g = identityIn m.groups g ∨ identityIn m'.groups g = none
  epochs : ∀ g e ep', epochIn m'.groups g e = some ep' →
    ∃ ep, epochIn m.groups g e = some ep ∧ contents ep' = contents ep
  prepared : m'.prepared = m.prepared
  allocated : m'.allocated = m.allocated

theorem Keeps.refl (m) : Keeps m m :=
  ⟨fun _ => .inl rfl, fun _ _ ep h => ⟨ep, h, rfl⟩, rfl, rfl⟩

theorem PointUpdate.keeps (h : PointUpdate m m' g e f) (hf : ∀ ep ep', f ep = some ep' → contents ep' = contents ep) :
    Keeps m m' := by
  refine { h with epochs := fun g' e' ep' hep' => ?_ }
  rw [h.epochs] at hep'
  split at hep'
  · next heq =>
    obtain ⟨rfl, rfl⟩ := heq
    obtain ⟨ep, hep, hfep⟩ := bind_eq_some_iff.mp hep'
    exact ⟨ep, hep, hf ep ep' hfep⟩
  · exact ⟨ep', hep', rfl⟩

theorem afterRelease_contents (ep ep') (h : afterRelease ep = some ep') : contents ep' = contents ep := by
  rw [afterRelease] at h
  split at h
  · cases h
  · cases h
    rfl

theorem afterRetire_contents (ep ep') (h : afterRetire ep = some ep') : contents ep' = contents ep := by
  rw [afterRetire] at h
  split at h
  · cases h
    rfl
  split at h
  · cases h
  · cases h
    rfl

inductive Prepares (m : RuntimeManager) : Op → PreparedIdentity → Prop
  | first (g : String) (snapshot : IdentitySnapshot) (order : RangeOrder NodeID)
      (hvalid : validateIdentitySnapshot snapshot = .ok ()) (hgroup : m.groups.lookup g = none) :
      Prepares m (.prepareEpoch g snapshot order)
        (prepare m g (.newEpoch none) newStableIdentityState ∅ snapshot true order)
  | epoch (g : String) (snapshot : IdentitySnapshot) (order : RangeOrder NodeID) (group : SharedGroupState)
      (hvalid : validateIdentitySnapshot snapshot = .ok ()) (hgroup : m.groups.lookup g = some group) :
      Prepares m (.prepareEpoch g snapshot order)
        (prepare m g (.newEpoch (some group.identity)) group.identity.state group.identity.published snapshot true
          order)
  | revision (g : String) (e : Nat) (snapshot : IdentitySnapshot) (order : RangeOrder NodeID)
      (group : SharedGroupState) (epoch : StableEpoch) (hvalid : validateIdentitySnapshot snapshot = .ok ())
      (hgroup : m.groups.lookup g = some group) (hcurrent : group.identity.state.currentEpoch = e)
      (hepoch : group.epochs.lookup e = some epoch) (hactive : epoch.lifecycle = .active) :
      Prepares m (.prepareRevision g e snapshot order)
        (prepare m g (.revision group.identity epoch) group.identity.state group.identity.published snapshot false
          order)

theorem prepareEpoch_ok (h : prepareEpoch m g snapshot order = .ok p) :
    Prepares m (.prepareEpoch g snapshot order) p := by
  rw [prepareEpoch] at h
  split at h
  · cases h
  split at h
  · cases h
  rename_i hvalid
  split at h
  · next hgroup =>
    cases h
    exact .first g snapshot order hvalid hgroup
  · next group hgroup =>
    cases h
    exact .epoch g snapshot order group hvalid hgroup

theorem prepareRevision_ok (h : prepareRevision m g e snapshot order = .ok p) :
    Prepares m (.prepareRevision g e snapshot order) p := by
  rw [prepareRevision] at h
  split at h
  · cases h
  rename_i hvalid
  split at h
  · cases h
  rename_i group hgroup
  split at h
  · cases h
  rename_i hcur
  rw [not_not] at hcur
  split at h
  · cases h
  rename_i epoch hepoch
  split at h
  · cases h
  rename_i hact
  split at h
  · cases h
  cases h
  exact .revision g e snapshot order group epoch hvalid hgroup hcur hepoch
    (not_not.mp hact)

def openedEpoch (p : PreparedIdentity) : StableEpoch :=
  ⟨.active, p.identity.revision, p.identity.sourceGeneration, 0, p.identity.handles⟩

def revisedEpoch (p : PreparedIdentity) (epoch : StableEpoch) : StableEpoch :=
  { epoch with
    revision := p.identity.revision
    lastSourceGeneration := p.identity.sourceGeneration
    handles := p.identity.handles }

inductive Commits (m : RuntimeManager) (p : PreparedIdentity) (group : SharedGroupState) : Prop
  | first (hkind : p.kind = .newEpoch none) (hgroup : m.groups.lookup p.groupID = none)
      (h : group = ⟨p.next, (∅ : GoMap Nat StableEpoch).insert p.identity.epochID (openedEpoch p)⟩)
  | epoch (base : IdentityRef) (before : SharedGroupState) (hkind : p.kind = .newEpoch (some base))
      (hgroup : m.groups.lookup p.groupID = some before) (haddr : before.identity.addr = base.addr)
      (h : group = ⟨p.next, before.epochs.insert p.identity.epochID (openedEpoch p)⟩)
  | revision (base : IdentityRef) (previous : StableEpoch) (before : SharedGroupState) (epoch : StableEpoch)
      (hkind : p.kind = .revision base previous) (hgroup : m.groups.lookup p.groupID = some before)
      (haddr : before.identity.addr = base.addr) (hepoch : before.epochs.lookup p.identity.epochID = some epoch)
      (hactive : epoch.lifecycle = .active)
      (h : group = ⟨p.next, before.epochs.insert p.identity.epochID (revisedEpoch p epoch)⟩)

inductive Written (m : RuntimeManager) (p : PreparedIdentity) : StableEpoch → Prop
  | opened (base : Option IdentityRef) (hkind : p.kind = .newEpoch base)
      (hbase : (identityIn m.groups p.groupID).map (·.addr) = base.map (·.addr)) : Written m p (openedEpoch p)
  | revised (base : IdentityRef) (previous epoch : StableEpoch) (hkind : p.kind = .revision base previous)
      (hepoch : epochIn m.groups p.groupID p.identity.epochID = some epoch)
      (hactive : epoch.lifecycle = .active) :
      Written m p (revisedEpoch p epoch)

theorem Written.contents (h : Written m p ep) :
    EpochMoves.contents ep = ⟨p.identity.revision, p.identity.sourceGeneration, p.identity.handles⟩ := by
  cases h <;> rfl

theorem Written.active (h : Written m p ep) : ep.lifecycle = .active := by
  cases h with
  | opened => rfl
  | revised _ _ _ _ _ hact => exact hact

theorem commits_identity (h : Commits m p group) : group.identity = p.next := by
  cases h with
  | first _ _ h | epoch _ _ _ _ _ h | revision _ _ _ _ _ _ _ _ _ h => rw [h]

theorem commits_base_addr (h : Commits m p group) :
    (identityIn m.groups p.groupID).map (·.addr) = p.baseState.map (·.addr) := by
  cases h with
  | first hk hgroup => rw [identityIn, hgroup, PreparedIdentity.baseState, hk]; rfl
  | epoch base before hk hgroup ha | revision base previous before epoch hk hgroup ha =>
    rw [identityIn_lookup hgroup, PreparedIdentity.baseState, hk]
    exact congrArg some ha

theorem commits_epochs (h : Commits m p group) :
    ∃ ep, Written m p ep ∧ ∀ g e, epochIn (m.groups.insert p.groupID group) g e =
      if g = p.groupID ∧ e = p.identity.epochID then some ep else epochIn m.groups g e := by
  have hbase := commits_base_addr h
  cases h with
  | first hk hgroup h =>
    rw [PreparedIdentity.baseState, hk] at hbase
    subst h
    exact ⟨_, .opened none hk hbase, epochIn_write (epochIn_of_none hgroup) _ _ _⟩
  | epoch base before hk hgroup ha h =>
    rw [PreparedIdentity.baseState, hk] at hbase
    subst h
    exact ⟨_, .opened (some base) hk hbase, epochIn_write (epochIn_lookup hgroup) _ _ _⟩
  | revision base previous before epoch hk hgroup ha hepoch hact h =>
    subst h
    exact ⟨_, .revised base previous epoch hk ((epochIn_lookup hgroup _).trans hepoch) hact,
      epochIn_write (epochIn_lookup hgroup) _ _ _⟩

theorem committedTo_ok (h : committedTo m p = .ok group) :
    p.baseState = none ∧ m.groups.lookup p.groupID = none ∧ group = ⟨p.next, ∅⟩ ∨
      ∃ base, p.baseState = some base ∧ m.groups.lookup p.groupID = some group ∧ group.identity.addr = base.addr := by
  rw [committedTo] at h
  split at h
  · cases h
  · next hb hg =>
    cases h
    exact .inl ⟨hb, hg, rfl⟩
  · cases h
  · next base before hb hg =>
    split at h
    · cases h
    rename_i hc
    cases h
    rw [not_or, not_not] at hc
    exact .inr ⟨base, hb, hg, hc.1⟩

theorem commit_ok (h : commit m p = .ok group) : p.committed = false ∧ p.rolledBack = false ∧ Commits m p group := by
  rw [commit] at h
  split at h
  · cases h
  rename_i hopen
  simp only [not_or, Bool.not_eq_true] at hopen
  refine ⟨hopen.1, hopen.2, ?_⟩
  split at h
  · cases h
  rename_i before hto
  have hto := committedTo_ok hto
  split at h
  · next base hk =>
    cases h
    rcases hto with ⟨hb, hg, rfl⟩ | ⟨b, hb, hg, ha⟩
    · rw [PreparedIdentity.baseState, hk] at hb
      obtain rfl : base = none := hb
      exact .first hk hg rfl
    · rw [PreparedIdentity.baseState, hk] at hb
      obtain rfl : base = some b := hb
      exact .epoch b before hk hg ha rfl
  · next base previous hk =>
    split at h
    · cases h
    rename_i epoch hepoch
    split at h
    · cases h
    rename_i hc
    cases h
    rw [not_or, not_not] at hc
    rcases hto with ⟨hb, _⟩ | ⟨b, hb, hg, ha⟩
    · rw [PreparedIdentity.baseState, hk] at hb
      cases hb
    rw [PreparedIdentity.baseState, hk] at hb
    cases hb
    exact .revision base previous before epoch hk hg ha hepoch hc.1 rfl

inductive RollsBack (m : RuntimeManager) (p : PreparedIdentity) (groups : GoMap String SharedGroupState) : Prop
  | first (before : SharedGroupState) (hkind : p.kind = .newEpoch none)
      (hgroup : m.groups.lookup p.groupID = some before) (haddr : before.identity.addr = p.next.addr)
      (h : groups = m.groups.erase p.groupID)
  | epoch (base : IdentityRef) (before : SharedGroupState) (hkind : p.kind = .newEpoch (some base))
      (hgroup : m.groups.lookup p.groupID = some before) (haddr : before.identity.addr = p.next.addr)
      (h : groups = m.groups.insert p.groupID ⟨base, before.epochs.erase p.identity.epochID⟩)
  | revision (base : IdentityRef) (previous : StableEpoch) (before : SharedGroupState)
      (hkind : p.kind = .revision base previous) (hgroup : m.groups.lookup p.groupID = some before)
      (haddr : before.identity.addr = p.next.addr)
      (h : groups = m.groups.insert p.groupID ⟨base, before.epochs.insert p.identity.epochID previous⟩)

def undoneEpoch (p : PreparedIdentity) : Option StableEpoch :=
  match p.kind with
  | .newEpoch _ => none
  | .revision _ previous => some previous

theorem rollsBack_identity (h : RollsBack m p groups) (g) :
    identityIn groups g = if g = p.groupID then p.baseState else identityIn m.groups g := by
  cases h with
  | first before hk hgroup ha h =>
    rw [h, identityIn_erase, PreparedIdentity.baseState, hk]
  | epoch base before hk hgroup ha h | revision base previous before hk hgroup ha h =>
    rw [h, identityIn_insert, PreparedIdentity.baseState, hk]

theorem rollsBack_next_addr (h : RollsBack m p groups) :
    (identityIn m.groups p.groupID).map (·.addr) = some p.next.addr := by
  cases h with
  | first before _ hgroup ha | epoch _ before _ hgroup ha | revision _ _ before _ hgroup ha =>
    rw [identityIn_lookup hgroup]
    exact congrArg some ha

theorem rollback_ok (h : rollback m p = .ok groups) : RollsBack m p groups := by
  rw [rollback] at h
  split at h
  · cases h
  rename_i before hgroup
  split at h
  · cases h
  rename_i ha
  rw [not_not] at ha
  split at h
  · next hk =>
    cases h
    exact .first before hk hgroup ha rfl
  · next base hk =>
    cases h
    exact .epoch base before hk hgroup ha rfl
  · next base previous hk =>
    cases h
    exact .revision base previous before hk hgroup ha rfl

inductive LeaseMove (m : RuntimeManager) : Op → RuntimeManager → Prop
  | idle {op : Op} (m' : RuntimeManager) (hepochs : UpdatedAt m m' "" 0 some) (hleases : m'.leases = m.leases) :
      LeaseMove m op m'
  | acquired (g : String) (e : Nat) (ep : StableEpoch) (m' : RuntimeManager)
      (hep : epochIn m.groups g e = some ep)
      (hepochs : UpdatedAt m m' g e afterAcquire) (hleases : m'.leases = m.leases ++ [⟨g, e, false⟩]) :
      LeaseMove m (.acquire g e) m'
  | released (i : Nat) (lease : RuntimeEpochIdentityLease) (m' : RuntimeManager)
      (hlease : m.leases[i]? = some lease)
      (hopen : lease.released = false) (hepochs : UpdatedAt m m' lease.groupID lease.epochID afterRelease)
      (hleases : m'.leases = m.leases.set i { lease with released := true }) : LeaseMove m (.release i) m'
  | retired (g : String) (e : Nat) (m' : RuntimeManager) (hepochs : UpdatedAt m m' g e afterRetire)
      (hleases : m'.leases = m.leases) : LeaseMove m (.retire g e) m'

def MayClean : Op → Prop
  | .unregister _ | .release _ | .retire _ _ => True
  | _ => False

inductive Change (m : RuntimeManager) : Op → RuntimeManager → Prop
  | kept {op : Op} (m' : RuntimeManager) (h : Keeps m m') (hmove : LeaseMove m op m')
      (hstay : MayClean op ∨ ∀ g, identityIn m'.groups g = identityIn m.groups g) : Change m op m'
  | restored {op : Op} (g : String) (persisted : PersistedIdentityState) (identity : StableIdentityState)
      (hok : restoreStableIdentityState persisted = .ok identity) (hgroup : m.groups.lookup g = none) :
      Change m op { m with
        groups := m.groups.insert g ⟨⟨m.allocated, identity, ∅⟩, ∅⟩, allocated := m.allocated + 1 }
  | prepared {op : Op} (p : PreparedIdentity) (h : Prepares m op p) :
      Change m op { m with prepared := m.prepared ++ [p], allocated := m.allocated + 1 }
  | committed (i : Nat) (p : PreparedIdentity) (group : SharedGroupState) (hp : m.prepared[i]? = some p)
      (hopen : p.committed = false) (h : Commits m p group) :
      Change m (.commit i) { m with
        groups := m.groups.insert p.groupID group, prepared := m.prepared.set i { p with committed := true } }
  | rolledBack (i : Nat) (p : PreparedIdentity) (groups : GoMap String SharedGroupState)
      (hp : m.prepared[i]? = some p) (hdone : p.committed = true) (hlive : p.rolledBack = false)
      (h : RollsBack m p groups) : Change m (.rollback i) { m with
        groups := groups, prepared := m.prepared.set i { p with rolledBack := true } }
  | spent (i : Nat) (p : PreparedIdentity) (hp : m.prepared[i]? = some p) (hdone : p.committed = true) :
      Change m (.rollback i) { m with prepared := m.prepared.set i { p with rolledBack := true } }

theorem Change.idle (m op) : Change m op m :=
  .kept m (.refl m) (.idle m (PointUpdate.refl m "" 0).epochs rfl) (.inr fun _ => rfl)

theorem acquire_cases (m g e) : step m (.acquire g e) = m ∨
    ∃ group ep, m.groups.lookup g = some group ∧ group.epochs.lookup e = some ep ∧ ep.lifecycle = .active ∧
      step m (.acquire g e) = { setEpoch m g group e { ep with refCount := ep.refCount + 1 } with
        leases := m.leases ++ [⟨g, e, false⟩] } := by
  cases hg : m.groups.lookup g with
  | none => exact .inl (by simp only [step, acquireEpoch, hg])
  | some group =>
    cases he : group.epochs.lookup e with
    | none => exact .inl (by simp only [step, acquireEpoch, hg, he])
    | some ep =>
      by_cases ha : ep.lifecycle = .active
      · refine .inr ⟨group, ep, rfl, he, ha, ?_⟩
        simp only [step, acquireEpoch, hg, he, ha, ne_eq, not_true, if_false]
        rfl
      · exact .inl (by simp only [step, acquireEpoch, hg, he, ha, ne_eq, not_false_iff, if_true])

theorem keepPrepared_change (op) {result} (h : ∀ p, result = .ok p → Prepares m op p) :
    Change m op (keepPrepared m result) := by
  cases result with
  | error => exact .idle m _
  | ok p => exact .prepared p (h p rfl)

theorem users_update (m users) : PointUpdate m { m with groupUsers := users } "" 0 some := by
  have h := PointUpdate.refl m "" 0
  exact ⟨h.epochs, h.identity, rfl, rfl, rfl⟩

theorem unregister_update (m g) : PointUpdate m (unregisterGroup m g) "" 0 some := by
  rw [unregisterGroup]
  split
  · exact .refl m "" 0
  split
  · exact users_update m _
  · exact (users_update m _).clean g

theorem PointUpdate.idle (h : PointUpdate m m' "" 0 some)
    (hstay : MayClean op ∨ ∀ g, identityIn m'.groups g = identityIn m.groups g) : Change m op m' :=
  .kept m' (h.keeps (by rintro ep ep' ⟨⟩; rfl)) (.idle m' h.epochs h.leases) hstay

theorem release_cases (m i) : step m (.release i) = m ∨
    ∃ lease, m.leases[i]? = some lease ∧ lease.released = false ∧ step m (.release i) =
      releaseEpoch { m with leases := m.leases.set i { lease with released := true } }
        lease.groupID lease.epochID := by
  cases hl : m.leases[i]? with
  | none => exact .inl (by simp only [step, hl])
  | some lease =>
    by_cases hr : lease.released = true
    · exact .inl (by simp only [step, hl, hr, if_true])
    · exact .inr ⟨lease, rfl, Bool.not_eq_true _ ▸ hr, by simp only [step, hl, hr]; rfl⟩

theorem step_change (m op) : Change m op (step m op) := by
  cases op with
  | register g =>
    rw [step, registerGroup]
    split
    · exact .idle m _
    · exact (users_update m _).idle (.inr fun _ => rfl)
  | unregister g => exact (unregister_update m g).idle (.inl trivial)
  | restore g persisted =>
    rw [step, restorePersistence]
    by_cases hg : g = ""
    · rw [if_pos hg]
      exact .idle m _
    rw [if_neg hg]
    cases hl : m.groups.lookup g with
    | some group => exact .idle m _
    | none =>
      cases hr : restoreStableIdentityState persisted with
      | error => exact .idle m _
      | ok identity => exact .restored g persisted identity hr hl
  | prepareEpoch g snapshot order => exact keepPrepared_change _ fun p => prepareEpoch_ok
  | prepareRevision g e snapshot order => exact keepPrepared_change _ fun p => prepareRevision_ok
  | commit i =>
    rw [step]
    cases hp : m.prepared[i]? with
    | none => exact .idle m _
    | some p =>
      cases hc : commit m p with
      | error =>
        simp only [hc]
        exact .idle m _
      | ok group =>
        simp only [hc]
        exact .committed i p group hp (commit_ok hc).1 (commit_ok hc).2.2
  | rollback i =>
    rw [step]
    cases hp : m.prepared[i]? with
    | none => exact .idle m _
    | some p =>
      by_cases hc : (!p.committed || p.rolledBack) = true
      · simp only [hc, if_true]
        exact .idle m _
      have hfl : p.committed = true ∧ p.rolledBack = false := by
        simpa only [Bool.or_eq_true, Bool.not_eq_true', not_or, Bool.not_eq_false,
            Bool.not_eq_true] using hc
      simp only [hc]
      cases hr : rollback m p with
      | error => exact .spent i p hp hfl.1
      | ok groups => exact .rolledBack i p groups hp hfl.1 hfl.2 (rollback_ok hr)
  | acquire g e =>
    rcases acquire_cases m g e with h | ⟨group, ep, hg, he, _, h⟩
    · rw [h]
      exact .idle m _
    have hset : PointUpdate m (setEpoch m g group e { ep with refCount := ep.refCount + 1 }) g e afterAcquire :=
      setEpoch_update hg he rfl
    have hkeeps := hset.keeps (by rintro ep ep' ⟨⟩; rfl)
    rw [h]
    refine .kept _ ⟨hkeeps.identity, hkeeps.epochs, rfl, rfl⟩ ?_ (.inr (identityIn_withEpochs hg _))
    exact .acquired g e ep _ ((epochIn_lookup hg e).trans he) hset.epochs rfl
  | release i =>
    rcases release_cases m i with h | ⟨lease, hlease, hopen, h⟩
    · rw [h]
      exact .idle m _
    have hrel := releaseEpoch_update { m with leases := m.leases.set i { lease with released := true } }
      lease.groupID lease.epochID
    have hkeeps := hrel.keeps afterRelease_contents
    rw [h]
    refine .kept _ { hkeeps with } ?_ (.inl trivial)
    exact .released i lease _ hlease hopen hrel.epochs hrel.leases
  | retire g e =>
    have hret := retireEpoch_update m g e
    exact .kept _ (hret.keeps afterRetire_contents) (.retired g e _ hret.epochs hret.leases) (.inl trivial)

structure SamePreparation (p q : PreparedIdentity) : Prop where
  groupID : q.groupID = p.groupID
  kind : q.kind = p.kind
  next : q.next = p.next
  identity : q.identity = p.identity
  committed : p.committed = true → q.committed = true

theorem SamePreparation.baseState (h : SamePreparation p q) : q.baseState = p.baseState := by
  rw [PreparedIdentity.baseState, PreparedIdentity.baseState, h.kind]

theorem SamePreparation.uncommitted (h : SamePreparation p q) (hq : q.committed = false) : p.committed = false := by
  by_contra hc
  rw [h.committed (Bool.not_eq_false _ ▸ hc)] at hq
  cases hq

theorem change_prepared (h : Change m op m') {j} (hq : m'.prepared[j]? = some q) :
    (∃ p, m.prepared[j]? = some p ∧ SamePreparation p q) ∨ j = m.prepared.length ∧ Prepares m op q ∧
        m' = { m with prepared := m.prepared ++ [q], allocated := m.allocated + 1 } := by
  have hrefl : ∀ p, SamePreparation p p := fun p => ⟨rfl, rfl, rfl, rfl, fun h => h⟩
  have hset : ∀ i p p', m.prepared[i]? = some p → SamePreparation p p' →
      (m.prepared.set i p')[j]? = some q → ∃ p, m.prepared[j]? = some p ∧ SamePreparation p q := by
    intro i p p' hp hsame hq
    rcases of_set hq with ⟨rfl, rfl⟩ | ⟨-, hq⟩
    · exact ⟨p, hp, hsame⟩
    · exact ⟨q, hq, hrefl q⟩
  cases h with
  | kept _ h => exact .inl ⟨q, h.prepared ▸ hq, hrefl q⟩
  | restored => exact .inl ⟨q, hq, hrefl q⟩
  | prepared p hp =>
    rcases of_append hq with hq | ⟨hj, rfl⟩
    · exact .inl ⟨q, hq, hrefl q⟩
    · exact .inr ⟨hj, hp, rfl⟩
  | committed i p group hp =>
    refine .inl (hset i p _ hp ?_ hq)
    exact ⟨rfl, rfl, rfl, rfl, fun _ => rfl⟩
  | rolledBack i p groups hp | spent i p hp =>
    refine .inl (hset i p _ hp ?_ hq)
    exact ⟨rfl, rfl, rfl, rfl, fun h => h⟩

end SingBox.EpochMoves
