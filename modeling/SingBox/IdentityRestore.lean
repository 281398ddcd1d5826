import SingBox.IdentityInvariant

namespace SingBox.IdentityRestore

open List Values Maps Runs IdentityState IdentityInvariant

structure Alike (s s' : StableIdentityState) : Prop where
  nextEpoch : s'.nextEpoch = s.nextEpoch
  nextRevision : s'.nextRevision = s.nextRevision
  nextSlot : s'.nextSlot = s.nextSlot
  lineage : ∀ id, s'.lineage.lookup id = s.lineage.lookup id

def isAbsent (s : StableIdentityState) (id : NodeID) : Bool :=
  (s.lineage.lookup id).any fun l => !l.presentInLatest

def persistItem (s : StableIdentityState) (id : NodeID) : Option PersistedIdentityLineage :=
  (s.lineage.lookup id).map fun l => ⟨id, l.handle, l.presentInLatest⟩

variable {s : StableIdentityState} {p : Publishing} {p' : Publishing}

theorem restoreLineage_accepts (hw : Wellformed s) (persisted) (hrevi : persisted.nextRevision = s.nextRevision)
    (hsl : persisted.nextSlot = s.nextSlot) (ids : List NodeID) (usedSlots : List Nat) (t : StableIdentityState)
    (hn : ids.Nodup) (hids : ∀ id ∈ ids, ∃ l, s.lineage.lookup id = some l)
    (hnew : ∀ id ∈ ids, t.lineage.lookup id = none)
    (hus : ∀ id ∈ ids, ∀ l, s.lineage.lookup id = some l → l.handle.slot ∉ usedSlots)
    (hbd : t.retired.length + (ids.filter (isAbsent s)).length ≤ t.maxRetired) :
    ∃ t', restoreLineage persisted (ids.filterMap (persistItem s)) usedSlots t = .ok t' ∧
      t'.nextEpoch = t.nextEpoch ∧ t'.nextRevision = t.nextRevision ∧ t'.nextSlot = t.nextSlot ∧
      ∀ id, t'.lineage.lookup id = if id ∈ ids then s.lineage.lookup id else t.lineage.lookup id := by
  induction ids generalizing usedSlots t with
  | nil => exact ⟨t, rfl, rfl, rfl, rfl, by simp⟩
  | cons id ids ih =>
    obtain ⟨l, hl⟩ := hids id mem_cons_self
    rw [nodup_cons] at hn
    have hvalid : invalidLineage persisted ⟨id, l.handle, l.presentInLatest⟩ = false :=
      (invalidLineage_eq_false hsl hrevi).mpr (hw.handles id l hl)
    have habs : isAbsent s id = !l.presentInLatest := by simp [isAbsent, hl]
    have hroom : ¬ ((!l.presentInLatest) = true ∧ t.retired.length ≥ t.maxRetired) := by
      rintro ⟨hp, hge⟩
      rw [filter_cons_of_pos (habs.trans hp), length_cons] at hbd
      omega
    obtain ⟨_, hep, hrev, hnext, hmax⟩ := restoreItem_frame persisted t ⟨id, l.handle, l.presentInLatest⟩
    have hret := restoreItem_retired persisted t ⟨id, l.handle, l.presentInLatest⟩
    refine (ih (l.handle.slot :: usedSlots) (restoreItem persisted t ⟨id, l.handle, l.presentInLatest⟩) hn.2
      (fun id' h' => hids id' (mem_cons_of_mem _ h')) ?_ ?_ ?_).imp ?_
    · intro id' h'
      have hne : id' ≠ id := by
        rintro rfl
        exact hn.1 h'
      rw [restoreItem_lookup, if_neg hne]
      exact hnew id' (mem_cons_of_mem _ h')
    · intro id' h' l' hl' hm
      rcases mem_cons.mp hm with heq | hm
      · exact hn.1 (hw.slots id' id l' l hl' hl heq ▸ h')
      · exact hus id' (mem_cons_of_mem _ h') l' hl' hm
    · rw [hmax, hret]
      by_cases hp : l.presentInLatest = true
      · rw [filter_cons_of_neg (by simp [habs, hp])] at hbd
        simpa [hp] using hbd
      rw [filter_cons_of_pos (by simp [habs, hp]), length_cons] at hbd
      simp only [hp, Bool.false_eq_true, if_false]
      omega
    · rintro t' ⟨hok, h₁, h₂, h₃, hlk⟩
      refine ⟨?_, h₁.trans hep, h₂.trans hrev, h₃.trans hnext, fun k => ?_⟩
      · rw [filterMap_cons, persistItem, hl, Option.map_some]
        rw [restoreLineage, if_neg (Bool.not_eq_true _ ▸ hvalid), hnew id mem_cons_self]
        rw [if_neg (hus id mem_cons_self l hl), if_neg hroom]
        exact hok
      · rw [hlk k, restoreItem_lookup]
        by_cases hk : k = id
        · subst hk
          simp [hl]
        · simp [hk]

theorem restore_accepts (hb : Bounded s) (hep : s.nextEpoch ≠ 0) (hrev : s.nextRevision ≠ 0)
    (hmax : s.maxRetired = newStableIdentityState.maxRetired) (hsize : s.lineage.keys.length ≤ 2 ^ 20) :
    ∃ s', restoreStableIdentityState (persistenceSnapshot s) = .ok s' ∧ Alike s s' := by
  have hp : (s.lineage.keys.insertionSort (· ≤ ·)).Perm s.lineage.keys := perm_insertionSort ..
  have hlen : (persistenceSnapshot s).lineage.length ≤ 2 ^ 20 :=
    (length_filterMap_le ..).trans (hp.length_eq ▸ hsize)
  have habs : ((s.lineage.keys.insertionSort (· ≤ ·)).filter (isAbsent s)).length ≤
      newStableIdentityState.maxRetired := by
    rw [(hp.filter _).length_eq, ← hmax]
    exact hb.absent_le
  obtain ⟨t', hok, h₁, h₂, h₃, hlk⟩ := restoreLineage_accepts hb.wellformed (persistenceSnapshot s) rfl rfl
    (s.lineage.keys.insertionSort (· ≤ ·)) [] { newStableIdentityState with
      nextEpoch := s.nextEpoch
      currentEpoch := s.nextEpoch
      nextRevision := s.nextRevision
      nextSlot := s.nextSlot }
    (hp.nodup_iff.mpr s.lineage.nodupKeys) (fun id hid => mem_keys_iff.mp (hp.mem_iff.mp hid))
    (fun _ _ => rfl) (fun _ _ _ _ => not_mem_nil) ((Nat.zero_add _).trans_le habs)
  refine ⟨t', ?_, h₁, h₂, h₃, ?_⟩
  · rw [restoreStableIdentityState, if_neg]
    · exact hok
    · simp only [persistenceSnapshot, not_or, not_lt]
      exact ⟨hep, hrev, hlen⟩
  · intro id
    rw [hlk id]
    split
    · rfl
    rename_i hid
    rw [hp.mem_iff] at hid
    cases hl : s.lineage.lookup id with
    | none => rfl
    | some l => exact absurd (mem_keys_iff.mpr ⟨l, hl⟩) hid

structure SameRounds (p p' : Publishing) : Prop where
  lineage : ∀ id, p'.state.lineage.lookup id = p.state.lineage.lookup id
  nextSlot : p'.state.nextSlot = p.state.nextSlot
  handles : p'.handles = p.handles
  retiredHandles : p'.retiredHandles = p.retiredHandles
  transitions : p'.transitions = p.transitions

theorem admit_same (h : SameRounds p p') (revision node) :
    SameRounds (admitNode revision p node) (admitNode revision p' node) := by
  have hl := h.lineage node.nodeID
  constructor
  · intro id
    simp only [admitNode, hl, h.nextSlot, lookup_set, h.lineage id]
  · simp only [admitNode, hl, h.nextSlot]
  · simp only [admitNode, hl, h.nextSlot, h.handles]
  · simp only [admitNode, hl, h.retiredHandles]
  · simp only [admitNode, hl, h.nextSlot, h.transitions]

theorem admits_same (h : SameRounds p p') (revision nodes) :
    SameRounds (run (admitNode revision) p nodes) (run (admitNode revision) p' nodes) := by
  induction nodes generalizing p p' with
  | nil => exact h
  | cons node nodes ih => exact ih (admit_same h revision node)

def Drops (seen keys : List NodeID) (p : Publishing) (h : NodeHandle) : Prop :=
  ∃ id ∈ keys, id ∉ seen ∧ ∃ l, p.state.lineage.lookup id = some l ∧ l.presentInLatest = true ∧ l.handle = h

theorem drop_spec (revision seen p id) :
    (dropNode revision seen p id).handles = p.handles ∧ (dropNode revision seen p id).transitions = p.transitions ∧
      ∀ h, h ∈ (dropNode revision seen p id).retiredHandles ↔ h ∈ p.retiredHandles ∨ Drops seen [id] p h := by
  simp only [Drops, mem_singleton, exists_eq_left, dropNode]
  cases hl : p.state.lineage.lookup id with
  | none => simp
  | some l =>
    by_cases hd : id ∉ seen ∧ l.presentInLatest = true
    · simp only [if_pos hd, true_and]
      intro h
      simp only [mem_append, mem_singleton, Option.some.injEq, exists_eq_left', hd.1, hd.2,
          true_and,
        not_false_iff]
      exact or_congr_right eq_comm
    · simp only [if_neg hd, true_and]
      intro h
      constructor
      · exact .inl
      · rintro (hh | ⟨hs, _, ⟨⟩, hp, _⟩)
        · exact hh
        · exact absurd ⟨hs, hp⟩ hd

theorem drops_cons {revision seen keys id} (hid : id ∉ keys) (h : NodeHandle) :
    Drops seen (id :: keys) p h ↔ Drops seen [id] p h ∨ Drops seen keys (dropNode revision seen p id) h := by
  have hlk : ∀ k ∈ keys,
      (dropNode revision seen p id).state.lineage.lookup k = p.state.lineage.lookup k := by
    intro k hk
    rcases drop_cases revision seen p id with heq | ⟨l, _, _, _, heq⟩
    · rw [heq]
    rw [heq, lookup_set, if_neg]
    rintro rfl
    exact hid hk
  constructor
  · rintro ⟨k, hk, hd⟩
    rcases mem_cons.mp hk with rfl | hk
    · exact .inl ⟨k, mem_cons_self, hd⟩
    · exact .inr ⟨k, hk, by rw [hlk k hk]; exact hd⟩
  · rintro (⟨k, hk, hd⟩ | ⟨k, hk, hd⟩)
    · exact ⟨k, mem_cons.mpr (.inl (mem_singleton.mp hk)), hd⟩
    · exact ⟨k, mem_cons_of_mem _ hk, by rw [← hlk k hk]; exact hd⟩

theorem drops_spec (revision seen keys p) (hn : keys.Nodup) :
    (run (dropNode revision seen) p keys).handles = p.handles ∧
      (run (dropNode revision seen) p keys).transitions = p.transitions ∧
      ∀ h, h ∈ (run (dropNode revision seen) p keys).retiredHandles ↔ h ∈ p.retiredHandles ∨ Drops seen keys p h := by
  induction keys generalizing p with
  | nil => simp [Drops]
  | cons id keys ih =>
    rw [nodup_cons] at hn
    obtain ⟨hh, ht, hr⟩ := ih _ hn.2
    obtain ⟨hh', ht', hr'⟩ := drop_spec revision seen p id
    rw [run_cons]
    refine ⟨hh.trans hh', ht.trans ht', fun h => ?_⟩
    rw [hr, hr', or_assoc, drops_cons hn.1]

theorem publish_alike {s'} (h : Alike s s') (snapshot order order') :
    let original := (preparePublish s snapshot true order).2
    let restored := (preparePublish s' snapshot true order').2
    restored.epochID = original.epochID ∧ restored.revision = original.revision ∧
      restored.handles = original.handles ∧
      (∀ g, g ∈ restored.retiredHandles ↔ g ∈ original.retiredHandles) ∧
      restored.versionTransitions = original.versionTransitions := by
  intro original restored
  have hrev : succ64 s'.nextRevision = succ64 s.nextRevision := congrArg succ64 h.nextRevision
  have hep : restored.epochID = original.epochID := by
    have h₁ := (preparePublish_counters s snapshot true order).currentEpoch
    have h₂ := (preparePublish_counters s' snapshot true order').currentEpoch
    exact h₂.trans ((congrArg succ64 h.nextEpoch).trans h₁.symm)
  refine ⟨hep, hrev, ?_⟩
  have hopen : SameRounds (openPublish s true) (openPublish s' true) := ⟨h.lineage, h.nextSlot, rfl, rfl, rfl⟩
  have hsame := admits_same hopen (succ64 s.nextRevision) snapshot.nodes
  simp only [original, restored, preparePublish, hrev]
  generalize run (admitNode _) _ snapshot.nodes = p at hsame
  generalize run (admitNode _) _ snapshot.nodes = p' at hsame
  obtain ⟨hh, ht, hr⟩ := drops_spec _ _
    (order.visit p.state.lineage.keys) p (order.nodup_visit p.state.lineage.nodupKeys)
  obtain ⟨hh', ht', hr'⟩ := drops_spec _ _
    (order'.visit p'.state.lineage.keys) p' (order'.nodup_visit p'.state.lineage.nodupKeys)
  have hdrops : ∀ g, Drops (snapshot.nodes.map (·.nodeID)) (order'.visit p'.state.lineage.keys) p' g ↔
      Drops (snapshot.nodes.map (·.nodeID)) (order.visit p.state.lineage.keys) p g := by
    intro g
    constructor
    · rintro ⟨id, _, hs, l, hl, hp⟩
      rw [hsame.lineage] at hl
      exact ⟨id, order.mem_visit.mpr (mem_keys_iff.mpr ⟨l, hl⟩), hs, l, hl, hp⟩
    · rintro ⟨id, _, hs, l, hl, hp⟩
      rw [← hsame.lineage] at hl
      exact ⟨id, order'.mem_visit.mpr (mem_keys_iff.mpr ⟨l, hl⟩), hs, l, hl, hp⟩
  refine ⟨hh'.trans (hsame.handles.trans hh.symm), fun g => ?_, ht'.trans (hsame.transitions.trans ht.symm)⟩
  rw [hr, hr', hsame.retiredHandles, hdrops]

end SingBox.IdentityRestore
