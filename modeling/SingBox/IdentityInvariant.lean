import SingBox.IdentityState

namespace SingBox.IdentityInvariant

open List Values Maps Runs IdentityState

structure ValidHandle (s : StableIdentityState) (id : NodeID) (h : NodeHandle) : Prop where
  nonempty : id ≠ 0
  node : h.nodeID = id
  slot : h.slot ≠ 0
  slot_le : h.slot ≤ s.nextSlot
  version : h.version ≠ 0
  born : h.bornRevision ≠ 0
  born_le : h.bornRevision ≤ s.nextRevision

/-- Slots belong to one node each, and a node that left is still queued with
the revision it was last queued under. -/
structure Wellformed (s : StableIdentityState) : Prop where
  handles : ∀ id l, s.lineage.lookup id = some l → ValidHandle s id l.handle
  slots : ∀ id id' l l', s.lineage.lookup id = some l → s.lineage.lookup id' = some l' →
    l.handle.slot = l'.handle.slot → id = id'
  queued : ∀ id l, s.lineage.lookup id = some l → l.presentInLatest = false →
    ∃ revision, s.retiredQueued.lookup id = some revision ∧ ⟨id, revision⟩ ∈ queue s
  head : s.retiredHead ≤ s.retired.length

/-- A retired handle is behind whoever has its slot, and before a present one. -/
def Superseded (s : StableIdentityState) (h : NodeHandle) : Prop :=
  h.slot ≤ s.nextSlot ∧ ∀ id l, s.lineage.lookup id = some l → l.handle.slot = h.slot →
    h.version ≤ l.handle.version ∧ (l.presentInLatest = true → h.version < l.handle.version)

def HasRoom (p : Publishing) (node : IdentityNode) : Prop :=
  match p.state.lineage.lookup node.nodeID with
  | none => p.state.nextSlot + 1 < 2 ^ 64
  | some lineage => renews node lineage = true → lineage.handle.version + 1 < 2 ^ 64

structure NoWrap (s : StableIdentityState) (pub : Publication) : Prop where
  revision : s.nextRevision + 1 < 2 ^ 64
  nodes : Meets (admitNode (succ64 s.nextRevision)) HasRoom (openPublish s pub.newEpoch) pub.snapshot.nodes

/-- The handle given to a node: that of its lineage, with a later version if it
is renewed, or a first one under a slot that was never used. -/
inductive Assigned (revision : Nat) (p : Publishing) (node : IdentityNode) : NodeHandle → Nat → Prop
  | kept (l : StableNodeLineage) (h : NodeHandle) (hl : p.state.lineage.lookup node.nodeID = some l)
      (hnode : h.nodeID = l.handle.nodeID) (hslot : h.slot = l.handle.slot)
      (hversion : l.handle.version ≤ h.version) (hrenewed : renews node l = true → l.handle.version < h.version)
      (hborn : h.bornRevision = l.handle.bornRevision ∨ h.bornRevision = revision) :
      Assigned revision p node h p.state.nextSlot
  | fresh (hl : p.state.lineage.lookup node.nodeID = none) :
      Assigned revision p node ⟨node.nodeID, p.state.nextSlot + 1, 1, revision⟩ (p.state.nextSlot + 1)

variable {p : Publishing} {node : IdentityNode} {s s' : StableIdentityState}
  {item : PersistedIdentityLineage} {past : List NodeHandle} {persisted : PersistedIdentityState} {h : NodeHandle}
  {newEpoch : Bool} {usedSlots : List Nat}

theorem admit_assigned (revision) (hroom : HasRoom p node) :
    ∃ h, Assigned revision p node h (admitNode revision p node).state.nextSlot ∧
      ∀ id, (admitNode revision p node).state.lineage.lookup id =
        if id = node.nodeID then some ⟨h, true⟩ else p.state.lineage.lookup id := by
  refine ⟨_, ?_, fun id => lookup_set ..⟩
  cases hl : p.state.lineage.lookup node.nodeID with
  | none =>
    simp only [HasRoom, hl] at hroom
    simp only [admitNode, hl, nextHandle, Option.isNone_none, if_true, succ64_of_lt hroom]
    exact .fresh hl
  | some l =>
    simp only [HasRoom, hl] at hroom
    simp only [admitNode, hl, nextHandle, Option.isNone_some, Bool.false_eq_true, if_false]
    by_cases hr : renews node l = true
    · rw [if_pos hr, succ64_of_lt (hroom hr)]
      exact .kept l _ hl rfl rfl (Nat.le_succ _) (fun _ => Nat.lt_succ_self _) (.inr rfl)
    · rw [if_neg hr]
      exact .kept l _ hl rfl rfl le_rfl (fun h => absurd h hr) (.inl rfl)

theorem Assigned.nextSlot_le {revision n} (ha : Assigned revision p node h n) : p.state.nextSlot ≤ n := by
  cases ha with
  | kept => exact le_rfl
  | fresh => exact Nat.le_succ _

theorem ValidHandle.mono {id} (hv : ValidHandle s id h) (hsl : s.nextSlot ≤ s'.nextSlot)
    (hrev : s.nextRevision ≤ s'.nextRevision) : ValidHandle s' id h :=
  { hv with slot_le := hv.slot_le.trans hsl, born_le := hv.born_le.trans hrev }

section

variable {revision : Nat} {p : Publishing} {node : IdentityNode}

theorem Assigned.valid (ha : Assigned revision p node h (admitNode revision p node).state.nextSlot)
    (hw : Wellformed p.state) (hid : node.nodeID ≠ 0) (hrev : p.state.nextRevision = revision) (hpos : revision ≠ 0) :
    ValidHandle (admitNode revision p node).state node.nodeID h := by
  have hle := ha.nextSlot_le
  generalize hn : (admitNode revision p node).state.nextSlot = n at ha hle
  cases ha with
  | kept l h hl hno hsl hvers _ hborn =>
    have hv := hw.handles _ l hl
    refine ⟨hid, hno.trans hv.node, ?_, ?_, ?_, ?_, ?_⟩
    · rw [hsl]; exact hv.slot
    · rw [hsl, hn]; exact hv.slot_le
    · have := hv.version
      omega
    · rcases hborn with hb | hb
      · rw [hb]; exact hv.born
      · rw [hb]; exact hpos
    · change h.bornRevision ≤ p.state.nextRevision
      rcases hborn with hb | hb
      · rw [hb]; exact hv.born_le
      · rw [hb, hrev]
  | fresh hl =>
    refine ⟨hid, rfl, Nat.succ_ne_zero _, ?_, Nat.one_ne_zero, hpos, ?_⟩
    · rw [hn]
    · change revision ≤ p.state.nextRevision
      rw [hrev]

theorem admit_wellformed (hw : Wellformed p.state) (hroom : HasRoom p node) (hid : node.nodeID ≠ 0)
    (hrev : p.state.nextRevision = revision) (hpos : revision ≠ 0) :
    Wellformed (admitNode revision p node).state := by
  obtain ⟨h, ha, hlk⟩ := admit_assigned revision hroom
  have hle := ha.nextSlot_le
  -- the slot of the admitted node is held by no other node
  have hoth : ∀ id l, id ≠ node.nodeID → p.state.lineage.lookup id = some l → l.handle.slot ≠ h.slot := by
    intro id l hne hl heq
    have hbd := (hw.handles id l hl).slot_le
    generalize (admitNode revision p node).state.nextSlot = n at ha
    cases ha with
    | kept l' h hl' _ hsl => exact hne (hw.slots id _ l l' hl hl' (heq.trans hsl))
    | fresh =>
      change l.handle.slot = p.state.nextSlot + 1 at heq
      omega
  refine ⟨?_, ?_, ?_, hw.head⟩
  · intro id l hl
    rw [hlk] at hl
    split at hl
    · next hid' =>
      cases hl
      exact hid' ▸ ha.valid hw hid hrev hpos
    · exact (hw.handles id l hl).mono hle le_rfl
  · intro id id' l l' hl hl' heq
    rw [hlk] at hl hl'
    split at hl
    · next hid₁ =>
      cases hl
      split at hl'
      · next hid₂ => exact hid₁.trans hid₂.symm
      · next hne => exact absurd heq.symm (hoth id' l' hne hl')
    · next hne =>
      split at hl'
      · cases hl'
        exact absurd heq (hoth id l hne hl)
      · exact hw.slots id id' l l' hl hl' heq
  · intro id l hl habs
    rw [hlk] at hl
    split at hl
    · cases hl
      cases habs
    rename_i hne
    obtain ⟨rev, hq, hm⟩ := hw.queued id l hl habs
    refine ⟨rev, ?_, hm⟩
    change (p.state.retiredQueued.erase node.nodeID).lookup id = some rev
    rw [lookup_del, if_neg hne]
    exact hq

theorem admit_superseded (hroom : HasRoom p node) (hs : Superseded p.state h) :
    Superseded (admitNode revision p node).state h := by
  obtain ⟨g, ha, hlk⟩ := admit_assigned revision hroom
  refine ⟨hs.1.trans ha.nextSlot_le, ?_⟩
  intro id l hl heq
  rw [hlk] at hl
  split at hl
  · cases hl
    have hsl := hs.1
    generalize (admitNode revision p node).state.nextSlot = n at ha
    cases ha with
    | kept l' g hl' _ hsl' hvers hren =>
      obtain ⟨hle, hlt⟩ := hs.2 _ l' hl' (hsl'.symm.trans heq)
      have hstr : h.version < g.version := by
        by_cases hr : renews node l' = true
        · exact lt_of_le_of_lt hle (hren hr)
        have hpre : l'.presentInLatest = true := by
          simp only [renews, Bool.or_eq_true, not_or] at hr
          simpa using hr.1
        exact lt_of_lt_of_le (hlt hpre) hvers
      exact ⟨le_of_lt hstr, fun _ => hstr⟩
    | fresh =>
      change p.state.nextSlot + 1 = h.slot at heq
      omega
  · exact hs.2 id l hl heq

theorem admit_replaced (hw : Wellformed p.state) (hroom : HasRoom p node)
    (hm : h ∈ replacedHandle node (p.state.lineage.lookup node.nodeID)) :
    Superseded (admitNode revision p node).state h := by
  obtain ⟨g, ha, hlk⟩ := admit_assigned revision hroom
  obtain ⟨l, hl, hr, rfl⟩ : ∃ l, p.state.lineage.lookup node.nodeID = some l ∧ renews node l = true ∧
      h = l.handle := by
    cases hl : p.state.lineage.lookup node.nodeID with
    | none => simp [hl, replacedHandle] at hm
    | some l =>
      by_cases hr : renews node l = true
      · simp only [hl, replacedHandle, hr, if_true, mem_singleton] at hm
        exact ⟨l, rfl, hr, hm⟩
      · simp [hl, replacedHandle, hr] at hm
  refine ⟨(hw.handles _ l hl).slot_le.trans ha.nextSlot_le, ?_⟩
  intro id l' hl' heq
  rw [hlk] at hl'
  split at hl'
  · cases hl'
    generalize (admitNode revision p node).state.nextSlot = n at ha
    cases ha with
    | kept l₁ g hl₁ _ _ _ hren =>
      cases hl.symm.trans hl₁
      exact ⟨le_of_lt (hren hr), fun _ => hren hr⟩
    | fresh hl₁ => cases hl.symm.trans hl₁
  · next hne => exact absurd (hw.slots id _ l' l hl' hl heq) hne

end

section

variable {revision : Nat} {seen : List NodeID} {p : Publishing} {id : NodeID}

theorem drop_cases (revision seen p id) :
    dropNode revision seen p id = p ∨ ∃ l, p.state.lineage.lookup id = some l ∧ id ∉ seen ∧
      l.presentInLatest = true ∧ dropNode revision seen p id =
        { p with
          state := { p.state with
            lineage := p.state.lineage.insert id { l with presentInLatest := false }
            retired := p.state.retired ++ [⟨id, revision⟩]
            retiredQueued := p.state.retiredQueued.insert id revision }
          retiredHandles := p.retiredHandles ++ [l.handle] } := by
  cases hl : p.state.lineage.lookup id with
  | none => exact .inl (by simp only [dropNode, hl])
  | some l =>
    by_cases hc : id ∉ seen ∧ l.presentInLatest = true
    · exact .inr ⟨l, rfl, hc.1, hc.2, by simp only [dropNode, hl, if_pos hc]⟩
    · exact .inl (by simp only [dropNode, hl, if_neg hc])

theorem drop_wellformed (hw : Wellformed p.state) : Wellformed (dropNode revision seen p id).state := by
  rcases drop_cases revision seen p id with h | ⟨l, hl, _, _, h⟩
  · rw [h]; exact hw
  rw [h]
  have hqueue : p.state.retired.drop p.state.retiredHead ++ [(⟨id, revision⟩ : RetiredLineageItem)] =
      (p.state.retired ++ [(⟨id, revision⟩ : RetiredLineageItem)]).drop p.state.retiredHead :=
    (drop_append_of_le_length hw.head).symm
  -- leaving changes no handle
  have hsame : ∀ {k l'}, (p.state.lineage.insert id { l with presentInLatest := false }).lookup k = some l' →
      ∃ l₀, p.state.lineage.lookup k = some l₀ ∧ l₀.handle = l'.handle := by
    intro k l' hk
    rcases lookup_of_insert hk with ⟨rfl, rfl⟩ | ⟨_, hk⟩
    · exact ⟨l, hl, rfl⟩
    · exact ⟨l', hk, rfl⟩
  constructor
  · intro k l' hk
    obtain ⟨l₀, hl₀, heq⟩ := hsame hk
    exact heq ▸ (hw.handles k l₀ hl₀).mono le_rfl le_rfl
  · intro k k' l₁ l₂ hk hk' heq
    obtain ⟨m₁, hm₁, h₁⟩ := hsame hk
    obtain ⟨m₂, hm₂, h₂⟩ := hsame hk'
    exact hw.slots k k' m₁ m₂ hm₁ hm₂ (by rw [h₁, h₂]; exact heq)
  · intro k l' hk habs
    change ∃ rev, (p.state.retiredQueued.insert id revision).lookup k = some rev ∧
      (⟨k, rev⟩ : RetiredLineageItem) ∈
        (p.state.retired ++ [(⟨id, revision⟩ : RetiredLineageItem)]).drop p.state.retiredHead
    rw [← hqueue]
    rcases lookup_of_insert hk with ⟨rfl, _⟩ | ⟨hne, hk⟩
    · exact ⟨revision, by simp, by simp⟩
    obtain ⟨rev, hq, hm⟩ := hw.queued k l' hk habs
    refine ⟨rev, ?_, mem_append_left _ hm⟩
    rw [lookup_set, if_neg hne]
    exact hq
  · have hhead := hw.head
    simp only [length_append]
    omega

theorem drop_superseded (hs : Superseded p.state h) : Superseded (dropNode revision seen p id).state h := by
  rcases drop_cases revision seen p id with heq | ⟨l, hl, _, _, heq⟩
  · rw [heq]; exact hs
  rw [heq]
  refine ⟨hs.1, ?_⟩
  intro k l' hk hsl
  rcases lookup_of_insert hk with ⟨rfl, rfl⟩ | ⟨_, hk⟩
  · exact ⟨(hs.2 k l hl hsl).1, fun h => by cases h⟩
  · exact hs.2 k l' hk hsl

theorem drop_retired (hw : Wellformed p.state) (hs : ∀ h ∈ p.retiredHandles, Superseded p.state h)
    (hm : h ∈ (dropNode revision seen p id).retiredHandles) : Superseded (dropNode revision seen p id).state h := by
  by_cases hold : h ∈ p.retiredHandles
  · exact drop_superseded (hs h hold)
  rcases drop_cases revision seen p id with heq | ⟨l, hl, _, _, heq⟩
  · rw [heq] at hm
    exact absurd hm hold
  rw [heq] at hm ⊢
  obtain rfl : h = l.handle := by simpa [hold] using hm
  refine ⟨(hw.handles id l hl).slot_le, ?_⟩
  intro k l' hk hsl
  rcases lookup_of_insert hk with ⟨rfl, rfl⟩ | ⟨hne, hk⟩
  · exact ⟨le_rfl, fun h => by cases h⟩
  · exact absurd (hw.slots k id l' l hk hl hsl) hne

end

structure SameCounters (s s' : StableIdentityState) : Prop where
  nextEpoch : s'.nextEpoch = s.nextEpoch
  nextRevision : s'.nextRevision = s.nextRevision
  currentEpoch : s'.currentEpoch = s.currentEpoch
  maxRetired : s'.maxRetired = s.maxRetired

theorem SameCounters.refl (s) : SameCounters s s := ⟨rfl, rfl, rfl, rfl⟩

theorem SameCounters.trans {a b c} (hab : SameCounters a b) (hbc : SameCounters b c) : SameCounters a c :=
  ⟨hbc.nextEpoch.trans hab.nextEpoch, hbc.nextRevision.trans hab.nextRevision,
    hbc.currentEpoch.trans hab.currentEpoch, hbc.maxRetired.trans hab.maxRetired⟩

theorem admit_counters (revision p node) :
    SameCounters p.state (admitNode revision p node).state := ⟨rfl, rfl, rfl, rfl⟩

theorem drop_counters (revision seen p id) : SameCounters p.state (dropNode revision seen p id).state := by
  rcases drop_cases revision seen p id with h | ⟨l, _, _, _, h⟩
  · rw [h]; exact .refl _
  · rw [h]; exact ⟨rfl, rfl, rfl, rfl⟩

structure Evicts (item : RetiredLineageItem) (s s' : StableIdentityState) : Prop where
  counters : SameCounters s s'
  nextSlot : s'.nextSlot = s.nextSlot
  retired : s'.retired = s.retired
  head : s'.retiredHead = s.retiredHead + 1
  lineage : Submap s'.lineage s.lineage
  queued : ∀ id l, s'.lineage.lookup id = some l → l.presentInLatest = false → ∀ revision,
    s.retiredQueued.lookup id = some revision →
      s'.retiredQueued.lookup id = some revision ∧ (⟨id, revision⟩ : RetiredLineageItem) ≠ item

theorem evictItem_evicts (item s) : Evicts item s (evictItem item s) := by
  rw [evictItem]
  by_cases hq : (s.retiredQueued.lookup item.nodeID).getD 0 ≠ item.revision
  · rw [if_pos hq]
    refine ⟨⟨rfl, rfl, rfl, rfl⟩, rfl, rfl, rfl, .refl _, ?_⟩
    intro id l _ _ revision hrev
    refine ⟨hrev, ?_⟩
    rintro rfl
    rw [hrev] at hq
    exact hq rfl
  · rw [if_neg hq]
    refine ⟨⟨rfl, rfl, rfl, rfl⟩, rfl, rfl, rfl, ?_, ?_⟩
    · split
      · exact .refl _
      split
      · exact erase_submap _ _
      · exact .refl _
    · intro id l hl habs revision hrev
      have hne : id ≠ item.nodeID := by
        rintro rfl
        split at hl
        · next hno => cases hno.symm.trans hl
        rename_i l' hl'
        split at hl
        · simp at hl
        rename_i hpre
        cases hl'.symm.trans hl
        simp [habs] at hpre
      refine ⟨?_, fun heq => hne (congrArg (·.nodeID) heq)⟩
      rw [lookup_del, if_neg hne]
      exact hrev

theorem evicts_wellformed {item rest} (h : Evicts item s s') (hw : Wellformed s) (hqueue : queue s = item :: rest) :
    Wellformed s' ∧ queue s' = rest := by
  have hlt : s.retiredHead < s.retired.length := by
    by_contra hge
    rw [queue, drop_eq_nil_of_le (not_lt.mp hge)] at hqueue
    cases hqueue
  have hr : queue s' = rest := by
    rw [queue, h.retired, h.head, ← drop_drop]
    change (queue s).drop 1 = rest
    rw [hqueue]
    rfl
  refine ⟨⟨?_, ?_, ?_, ?_⟩, hr⟩
  · intro id l hl
    exact (hw.handles id l (h.lineage id l hl)).mono (le_of_eq h.nextSlot.symm)
      (le_of_eq h.counters.nextRevision.symm)
  · exact fun id id' l l' hl hl' => hw.slots id id' l l' (h.lineage id l hl) (h.lineage id' l' hl')
  · intro id l hl habs
    obtain ⟨revision, hrev, hm⟩ := hw.queued id l (h.lineage id l hl) habs
    obtain ⟨hrev', hne⟩ := h.queued id l hl habs revision hrev
    refine ⟨revision, hrev', ?_⟩
    rw [hqueue] at hm
    rw [hr]
    exact (mem_cons.mp hm).resolve_left hne
  · rw [h.head, h.retired]
    exact hlt

theorem evictRetired_spec (items s) (hw : Wellformed s) (hqueue : queue s = items) :
    Wellformed (evictRetired items s) ∧ (queue (evictRetired items s)).length ≤ s.maxRetired ∧
      Submap (evictRetired items s).lineage s.lineage ∧ (evictRetired items s).nextSlot = s.nextSlot := by
  induction items generalizing s with
  | nil => exact ⟨hw, by simp [evictRetired, hqueue], .refl _, rfl⟩
  | cons item rest ih =>
    rw [evictRetired]
    split
    · have he := evictItem_evicts item s
      obtain ⟨hw', hr⟩ := evicts_wellformed he hw hqueue
      obtain ⟨h₁, h₂, h₃, h₄⟩ := ih _ hw' hr
      refine ⟨h₁, ?_, h₃.trans he.lineage, h₄.trans he.nextSlot⟩
      rw [he.counters.maxRetired] at h₂
      exact h₂
    · next hle => exact ⟨hw, by rw [hqueue]; omega, .refl _, rfl⟩

theorem compactRetired_queue (s) : queue (compactRetired s) = queue s := by
  rw [compactRetired]
  split
  · exact drop_zero
  · rfl

theorem compactRetired_wellformed (hw : Wellformed s) : Wellformed (compactRetired s) := by
  have hqueue := compactRetired_queue s
  rw [compactRetired] at hqueue ⊢
  split
  · next hc =>
    refine ⟨fun id l hl => (hw.handles id l hl).mono le_rfl le_rfl, hw.slots, ?_, Nat.zero_le _⟩
    intro id l hl habs
    obtain ⟨revision, hrev, hm⟩ := hw.queued id l hl habs
    exact ⟨revision, hrev, hqueue.symm ▸ hm⟩
  · exact hw

theorem compactRetired_same (s : StableIdentityState) : (compactRetired s).lineage = s.lineage ∧
    (compactRetired s).nextSlot = s.nextSlot ∧ SameCounters s (compactRetired s) := by
  rw [compactRetired]
  split <;> exact ⟨rfl, rfl, rfl, rfl, rfl, rfl⟩

theorem evictRetired_counters (items s) : SameCounters s (evictRetired items s) := by
  induction items generalizing s with
  | nil => exact .refl s
  | cons item rest ih =>
    rw [evictRetired]
    split
    · exact (evictItem_evicts item s).counters.trans (ih _)
    · exact .refl s

theorem preparePublish_counters (s) (snapshot : IdentitySnapshot) (newEpoch : Bool) (order : RangeOrder NodeID) :
    SameCounters (openPublish s newEpoch).state (preparePublish s snapshot newEpoch order).1 := by
  have hadm : SameCounters (openPublish s newEpoch).state
      (run (admitNode (succ64 s.nextRevision)) (openPublish s newEpoch) snapshot.nodes).state :=
    run_invariant (I := fun p => SameCounters (openPublish s newEpoch).state p.state)
      (fun p node h => h.trans (admit_counters _ p node)) (.refl _) _
  rw [preparePublish]
  generalize run (admitNode _) _ snapshot.nodes =
      admitted at hadm
  have hdrop : SameCounters (openPublish s newEpoch).state
      (run (dropNode (succ64 s.nextRevision) (snapshot.nodes.map (·.nodeID))) admitted
        (order.visit admitted.state.lineage.keys)).state :=
    run_invariant (I := fun p => SameCounters (openPublish s newEpoch).state p.state)
      (fun p id h => h.trans (drop_counters _ _ p id)) hadm _
  exact hdrop.trans ((evictRetired_counters ..).trans (compactRetired_same _).2.2)

structure Bounded (s : StableIdentityState) : Prop where
  wellformed : Wellformed s
  bound : (queue s).length ≤ s.maxRetired

structure Rounds (s : StableIdentityState) (newEpoch : Bool) (past : List NodeHandle) (p : Publishing) :
    Prop where
  wellformed : Wellformed p.state
  counters : SameCounters (openPublish s newEpoch).state p.state
  past : ∀ h ∈ past, Superseded p.state h
  retired : ∀ h ∈ p.retiredHandles, Superseded p.state h

theorem openPublish_rounds (hroom : s.nextRevision + 1 < 2 ^ 64) (hw : Wellformed s)
    (hpast : ∀ h ∈ past, Superseded s h) : Rounds s newEpoch past (openPublish s newEpoch) := by
  refine ⟨{ hw with handles := ?_ }, .refl _, hpast, by simp [openPublish]⟩
  intro id l hl
  refine (hw.handles id l hl).mono le_rfl ?_
  change s.nextRevision ≤ succ64 s.nextRevision
  rw [succ64_of_lt hroom]
  exact Nat.le_succ _

theorem admit_rounds (hrev : s.nextRevision + 1 < 2 ^ 64) (hid : node.nodeID ≠ 0) (hroom : HasRoom p node)
    (h : Rounds s newEpoch past p) : Rounds s newEpoch past (admitNode (succ64 s.nextRevision) p node) := by
  have hpos : succ64 s.nextRevision ≠ 0 := by
    rw [succ64_of_lt hrev]
    exact Nat.succ_ne_zero _
  refine ⟨?_, h.counters.trans (admit_counters _ p node), fun g hg => admit_superseded hroom (h.past g hg), ?_⟩
  · exact admit_wellformed h.wellformed hroom hid h.counters.nextRevision hpos
  · intro g hg
    rcases mem_append.mp hg with hg | hg
    · exact admit_superseded hroom (h.retired g hg)
    · exact admit_replaced h.wellformed hroom hg

theorem drop_rounds {revision seen id} (h : Rounds s newEpoch past p) :
    Rounds s newEpoch past (dropNode revision seen p id) where
  wellformed := drop_wellformed h.wellformed
  counters := h.counters.trans (drop_counters revision seen p id)
  past g hg := drop_superseded (h.past g hg)
  retired _ hg := drop_retired h.wellformed h.retired hg

theorem publish_bounded {pub} (hs : Bounded s) (hpast : ∀ h ∈ past, Superseded s h) (hroom : NoWrap s pub) :
    Bounded (publish s pub) ∧ SameCounters (openPublish s pub.newEpoch).state (publish s pub) ∧
      ∀ h ∈ past ++ (preparePublish s pub.snapshot pub.newEpoch pub.order).2.retiredHandles,
        Superseded (publish s pub) h := by
  obtain ⟨hids, _⟩ := validateIdentitySnapshot_ok pub.valid
  have hopen : Rounds s pub.newEpoch past (openPublish s pub.newEpoch) :=
    openPublish_rounds hroom.revision hs.wellformed hpast
  have hadm := run_keeps (I := Rounds s pub.newEpoch past)
    (fun p node hn => admit_rounds hroom.revision (hids node hn)) hopen hroom.nodes
  rw [publish, preparePublish]
  generalize run (admitNode _) _ pub.snapshot.nodes = admitted at hadm
  have hdrop : Rounds s pub.newEpoch past (run (dropNode (succ64 s.nextRevision) (pub.snapshot.nodes.map (·.nodeID)))
      admitted (pub.order.visit admitted.state.lineage.keys)) :=
    run_invariant (fun p id => drop_rounds) hadm _
  generalize run _ _ _ = dropped at hdrop
  obtain ⟨hw, hbd, hsub, hsl⟩ := evictRetired_spec _ dropped.state hdrop.wellformed rfl
  have hcnt := evictRetired_counters (queue dropped.state) dropped.state
  obtain ⟨hlin, hsl', hcnt'⟩ := compactRetired_same _
  refine ⟨⟨compactRetired_wellformed hw, ?_⟩, hdrop.counters.trans (hcnt.trans hcnt'), ?_⟩
  · rw [compactRetired_queue, hcnt'.maxRetired, hcnt.maxRetired]
    exact hbd
  · intro h hh
    have hsup : Superseded dropped.state h := (mem_append.mp hh).elim (hdrop.past h) (hdrop.retired h)
    exact ⟨hsl'.trans hsl ▸ hsup.1, fun id l hl => hsup.2 id l ((hlin ▸ hsub) id l hl)⟩

theorem wellformed_of_empty (hlin : s.lineage = ∅) (hhead : s.retiredHead = 0) : Wellformed s := by
  have hno (id) : s.lineage.lookup id = none := by simp [hlin]
  constructor <;> simp [hno, hhead]

theorem empty_bounded : Bounded newStableIdentityState := ⟨wellformed_of_empty rfl rfl, Nat.zero_le _⟩

structure Restoring (persisted : PersistedIdentityState) (usedSlots : List Nat)
    (s : StableIdentityState) : Prop where
  wellformed : Wellformed s
  used : ∀ id l, s.lineage.lookup id = some l → l.handle.slot ∈ usedSlots
  head : s.retiredHead = 0
  bound : s.retired.length ≤ s.maxRetired
  nextEpoch : s.nextEpoch = persisted.nextEpoch
  nextRevision : s.nextRevision = persisted.nextRevision
  nextSlot : s.nextSlot = persisted.nextSlot
  maxRetired : s.maxRetired = newStableIdentityState.maxRetired

theorem invalidLineage_eq_false (hsl : persisted.nextSlot = s.nextSlot)
    (hrev : persisted.nextRevision = s.nextRevision) :
    invalidLineage persisted item = false ↔ ValidHandle s item.nodeID item.handle := by
  simp only [invalidLineage, decide_eq_false_iff_not, not_or, not_not, not_lt, hsl, hrev]
  constructor
  all_goals
    rintro ⟨h₁, h₂, h₃, h₄, h₅, h₆, h₇⟩
    exact ⟨h₁, h₂, h₃, h₄, h₅, h₆, h₇⟩

section

variable (persisted : PersistedIdentityState) (s : StableIdentityState) (item : PersistedIdentityLineage)

theorem restoreItem_lookup (id) : (restoreItem persisted s item).lineage.lookup id =
    if id = item.nodeID then some ⟨item.handle, item.presentInLatest⟩ else s.lineage.lookup id := by
  rw [restoreItem]
  split <;> exact lookup_set ..

theorem restoreItem_retired : (restoreItem persisted s item).retired.length =
    s.retired.length + if item.presentInLatest then 0 else 1 := by
  rw [restoreItem]
  split
  · rfl
  · simp

theorem restoreItem_frame : (restoreItem persisted s item).retiredHead = s.retiredHead ∧
    (restoreItem persisted s item).nextEpoch = s.nextEpoch ∧
    (restoreItem persisted s item).nextRevision = s.nextRevision ∧
    (restoreItem persisted s item).nextSlot = s.nextSlot ∧
    (restoreItem persisted s item).maxRetired = s.maxRetired := by
  rw [restoreItem]
  split <;> exact ⟨rfl, rfl, rfl, rfl, rfl⟩

theorem restoreItem_queued (hhead : s.retiredHead = 0) (id revision)
    (h : if id = item.nodeID ∧ item.presentInLatest = false then revision = persisted.nextRevision
      else s.retiredQueued.lookup id = some revision ∧ ⟨id, revision⟩ ∈ queue s) :
    (restoreItem persisted s item).retiredQueued.lookup id = some revision ∧
      ⟨id, revision⟩ ∈ queue (restoreItem persisted s item) := by
  rw [queue, hhead, drop_zero] at h
  rw [queue, (restoreItem_frame persisted s item).1, hhead, restoreItem]
  cases hp : item.presentInLatest with
  | true => simpa [hp] using h
  | false =>
    by_cases hid : id = item.nodeID
    · subst hid
      simp only [hp, and_self, if_true] at h
      simp [h]
    · simp only [hid, false_and, if_false] at h
      simp [h, hid]

end

theorem restoreItem_wellformed (h : Restoring persisted usedSlots s) (hvalid : invalidLineage persisted item = false)
    (hsl : item.handle.slot ∉ usedSlots) : Wellformed (restoreItem persisted s item) := by
  obtain ⟨hhead, _, hrev, hnextSlot, _⟩ := restoreItem_frame persisted s item
  refine ⟨?_, ?_, ?_, by rw [hhead, h.head]; exact Nat.zero_le _⟩
  · intro id l hl
    have hmono : ∀ {id h}, ValidHandle s id h → ValidHandle (restoreItem persisted s item) id h :=
      fun hv => hv.mono hnextSlot.ge hrev.ge
    rw [restoreItem_lookup] at hl
    split at hl
    · next hid =>
      cases hl
      exact hid ▸ hmono ((invalidLineage_eq_false h.nextSlot.symm h.nextRevision.symm).mp hvalid)
    · exact hmono (h.wellformed.handles id l hl)
  · intro id id' l l' hl hl' heq
    rw [restoreItem_lookup] at hl hl'
    split at hl
    · next hid =>
      cases hl
      split at hl'
      · next hid' => exact hid.trans hid'.symm
      · exact absurd (heq ▸ h.used id' l' hl') hsl
    · split at hl'
      · cases hl'
        exact absurd (heq ▸ h.used id l hl) hsl
      · exact h.wellformed.slots id id' l l' hl hl' heq
  · intro id l hl habs
    rw [restoreItem_lookup] at hl
    split at hl
    · next hid =>
      cases hl
      refine ⟨persisted.nextRevision, restoreItem_queued persisted s item h.head id _ ?_⟩
      rw [if_pos ⟨hid, habs⟩]
    · next hne =>
      obtain ⟨revision, hqueued⟩ := h.wellformed.queued id l hl habs
      exact ⟨revision, restoreItem_queued persisted s item h.head id _ (by simpa [hne] using hqueued)⟩

theorem restoreItem_restoring (h : Restoring persisted usedSlots s) (hvalid : invalidLineage persisted item = false)
    (hsl : item.handle.slot ∉ usedSlots) (hbd : item.presentInLatest = false → s.retired.length < s.maxRetired) :
    Restoring persisted (item.handle.slot :: usedSlots) (restoreItem persisted s item) := by
  obtain ⟨hhead, hep, hrev, hnextSlot, hmax⟩ := restoreItem_frame persisted s item
  refine ⟨restoreItem_wellformed h hvalid hsl, ?_, hhead.trans h.head, ?_, hep.trans h.nextEpoch,
    hrev.trans h.nextRevision, hnextSlot.trans h.nextSlot, hmax.trans h.maxRetired⟩
  · intro id l hl
    rw [restoreItem_lookup] at hl
    split at hl
    · cases hl
      exact mem_cons_self
    · exact mem_cons_of_mem _ (h.used id l hl)
  · rw [restoreItem_retired, hmax]
    split
    · exact h.bound
    · next hpre => exact hbd (Bool.not_eq_true _ ▸ hpre)

theorem restoreLineage_restoring (items usedSlots s s') (h : Restoring persisted usedSlots s)
    (hok : restoreLineage persisted items usedSlots s = .ok s') :
    ∃ usedSlots', Restoring persisted usedSlots' s' := by
  induction items generalizing usedSlots s with
  | nil =>
    cases hok
    exact ⟨usedSlots, h⟩
  | cons item items ih =>
    rw [restoreLineage] at hok
    split at hok
    · cases hok
    rename_i hvalid
    split at hok
    · cases hok
    split at hok
    · cases hok
    rename_i hsl
    split at hok
    · cases hok
    rename_i hbd
    refine ih _ _ (restoreItem_restoring h ?_ hsl ?_) hok
    · exact Bool.not_eq_true _ ▸ hvalid
    · intro hp
      by_contra hge
      exact hbd ⟨by simp [hp], not_lt.mp hge⟩

theorem restore_bounded (h : restoreStableIdentityState persisted = .ok s) :
    Bounded s ∧ s.nextEpoch ≠ 0 ∧ s.nextRevision ≠ 0 ∧ s.maxRetired = newStableIdentityState.maxRetired := by
  rw [restoreStableIdentityState] at h
  split at h
  · cases h
  rename_i hcnt
  simp only [not_or] at hcnt
  have hstart : Restoring persisted [] { newStableIdentityState with
      nextEpoch := persisted.nextEpoch
      currentEpoch := persisted.nextEpoch
      nextRevision := persisted.nextRevision
      nextSlot := persisted.nextSlot } := by
    refine ⟨wellformed_of_empty rfl rfl, ?_, rfl, Nat.zero_le _, rfl, rfl, rfl, rfl⟩
    intro id l hl
    simp [newStableIdentityState] at hl
  obtain ⟨used, hr⟩ := restoreLineage_restoring _ _ _ _ hstart h
  refine ⟨⟨hr.wellformed, ?_⟩, ?_, ?_, hr.maxRetired⟩
  · rw [queue, hr.head]
    exact hr.bound
  · rw [hr.nextEpoch]; exact hcnt.1
  · rw [hr.nextRevision]; exact hcnt.2.1

def Initial (s : StableIdentityState) : Prop :=
  s = newStableIdentityState ∨ ∃ persisted, restoreStableIdentityState persisted = .ok s

theorem Initial.bounded (h : Initial s) : Bounded s ∧ s.maxRetired = newStableIdentityState.maxRetired := by
  rcases h with rfl | ⟨persisted, h⟩
  · exact ⟨empty_bounded, rfl⟩
  · exact ⟨(restore_bounded h).1, (restore_bounded h).2.2.2⟩

theorem publishes_bounded (pubs) (past : List NodeHandle) (hs : Bounded s) (hpast : ∀ h ∈ past, Superseded s h)
    (hroom : Meets publish NoWrap s pubs) :
    Bounded (run publish s pubs) ∧ (run publish s pubs).maxRetired = s.maxRetired ∧
      ∀ h, (h ∈ past ∨ ∃ i ∈ identities s pubs, h ∈ i.retiredHandles) → Superseded (run publish s pubs) h := by
  induction pubs generalizing s past with
  | nil =>
    refine ⟨hs, rfl, ?_⟩
    rintro h (hh | ⟨i, hi, _⟩)
    · exact hpast h hh
    · cases hi
  | cons pub pubs ih =>
    obtain ⟨hs', hcnt, hpast'⟩ := publish_bounded hs hpast hroom.1
    obtain ⟨h₁, h₂, h₃⟩ := ih _ hs' hpast' hroom.2
    refine ⟨h₁, h₂.trans hcnt.maxRetired, ?_⟩
    rintro h (hh | ⟨i, hi, hh⟩)
    · exact h₃ h (.inl (mem_append_left _ hh))
    · rcases mem_cons.mp hi with rfl | hi
      · exact h₃ h (.inl (mem_append_right _ hh))
      · exact h₃ h (.inr ⟨i, hi, hh⟩)

theorem revisions_increase (pubs) (hs : Bounded s) (hroom : Meets publish NoWrap s pubs) :
    (∀ i ∈ identities s pubs, s.nextRevision < i.revision) ∧
      ((identities s pubs).map (·.revision)).Pairwise (· < ·) := by
  induction pubs generalizing s with
  | nil => simp [identities]
  | cons pub pubs ih =>
    obtain ⟨hs', hcnt, _⟩ := publish_bounded hs (fun h hh => absurd hh not_mem_nil) hroom.1
    obtain ⟨hlat, hpair⟩ := ih hs' hroom.2
    have hrev : (publish s pub).nextRevision = s.nextRevision + 1 :=
      hcnt.nextRevision.trans (succ64_of_lt hroom.1.revision)
    have hf : (preparePublish s pub.snapshot pub.newEpoch pub.order).2.revision = s.nextRevision + 1 :=
      succ64_of_lt hroom.1.revision
    constructor
    · intro i hi
      rcases mem_cons.mp hi with rfl | hi
      · omega
      · have := hlat i hi
        omega
    · rw [identities, map_cons, pairwise_cons]
      refine ⟨?_, hpair⟩
      intro revision hm
      obtain ⟨i, hi, rfl⟩ := mem_map.mp hm
      have := hlat i hi
      omega

def absentNodes (s : StableIdentityState) : List NodeID :=
  s.lineage.keys.filter fun id => (s.lineage.lookup id).any fun l => !l.presentInLatest

theorem Bounded.absent_le (h : Bounded s) : (absentNodes s).length ≤ s.maxRetired := by
  let item (id : NodeID) : RetiredLineageItem := ⟨id, (s.retiredQueued.lookup id).getD 0⟩
  have hnd : ((absentNodes s).map item).Nodup := by
    refine .map (fun a b hab => ?_) (.filter _ s.lineage.nodupKeys)
    exact congrArg (·.nodeID) hab
  have hsub : (absentNodes s).map item ⊆ queue s := by
    intro i hi
    obtain ⟨id, hid, rfl⟩ := mem_map.mp hi
    have hany := (mem_filter.mp hid).2
    cases hl : s.lineage.lookup id with
    | none => simp [hl] at hany
    | some l =>
      obtain ⟨revision, hrev, hm⟩ := h.wellformed.queued id l hl (by simpa [hl] using hany)
      have heq : item id = ⟨id, revision⟩ := by simp [item, hrev]
      rw [heq]
      exact hm
  calc (absentNodes s).length = ((absentNodes s).map item).length := (length_map _).symm
    _ ≤ (queue s).length := (subperm_of_subset hnd hsub).length_le
    _ ≤ s.maxRetired := h.bound

/-- Along publications that wrap no counter, a retired handle is never that of a node again. -/
theorem publications_never_reuse_handles (s : StableIdentityState) (hs : Initial s) (pubs : List Publication)
    (hroom : Meets publish NoWrap s pubs) :
    (∀ id id' l l', (run publish s pubs).lineage.lookup id = some l →
      (run publish s pubs).lineage.lookup id' = some l' → l.handle.slot = l'.handle.slot → id = id') ∧
    (∀ id l, (run publish s pubs).lineage.lookup id = some l → l.handle.slot ≤ (run publish s pubs).nextSlot) ∧
    (∀ i ∈ identities s pubs, s.nextRevision < i.revision) ∧
    ((identities s pubs).map (·.revision)).Pairwise (· < ·) ∧
    (∀ i ∈ identities s pubs, ∀ h ∈ i.retiredHandles, ∀ id l, (run publish s pubs).lineage.lookup id = some l →
      l.presentInLatest = true →
        ¬ (l.handle.nodeID = h.nodeID ∧ l.handle.slot = h.slot ∧ l.handle.version = h.version)) ∧
    (absentNodes (run publish s pubs)).length ≤ (run publish s pubs).maxRetired ∧
    (run publish s pubs).maxRetired = 16384 := by
  obtain ⟨hb, hmax⟩ := hs.bounded
  obtain ⟨hb', hmax', hret⟩ := publishes_bounded pubs [] hb (by simp) hroom
  obtain ⟨hlat, hpair⟩ := revisions_increase pubs hb hroom
  refine ⟨hb'.wellformed.slots, fun id l hl => (hb'.wellformed.handles id l hl).slot_le, hlat, hpair, ?_,
    hb'.absent_le, hmax'.trans hmax⟩
  rintro i hi h hh id l hl hpre ⟨_, hsl, hvers⟩
  have hlt := ((hret h (.inr ⟨i, hi, hh⟩)).2 id l hl hsl).2 hpre
  omega

def publishNode : Publication := ⟨⟨1, [⟨7, true⟩]⟩, true, .stored _, by decide⟩

def publishNothing : Publication := ⟨⟨2, []⟩, false, .stored _, by decide⟩

theorem node_then_nothing_noWrap : Meets publish NoWrap newStableIdentityState [publishNode, publishNothing] := by
  refine ⟨⟨by decide, ⟨?_, trivial⟩⟩, ⟨by decide, trivial⟩, trivial⟩
  change (0 : Nat) + 1 < 2 ^ 64
  decide

theorem node_then_nothing_never_reused :
    (identities newStableIdentityState [publishNode, publishNothing]).map (·.retiredHandles) =
        [[], [⟨7, 1, 1, 1⟩]] ∧
      (absentNodes (run publish newStableIdentityState [publishNode, publishNothing])).length ≤
        (run publish newStableIdentityState [publishNode, publishNothing]).maxRetired :=
  ⟨by decide, (publications_never_reuse_handles newStableIdentityState (.inl rfl) [publishNode, publishNothing]
    node_then_nothing_noWrap).2.2.2.2.2.1⟩

/-- A restored revision counter can be so far on that the second publication
starts again at zero. -/
theorem restored_revision_wraps :
    (restoreStableIdentityState ⟨1, 2 ^ 64 - 2, 0, []⟩).toOption.map (fun s =>
      (identities s [publishNode, publishNothing]).map (·.revision)) = some [2 ^ 64 - 1, 0] := by decide

end SingBox.IdentityInvariant
