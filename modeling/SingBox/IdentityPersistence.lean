import SingBox.EpochLinks
import SingBox.IdentityRestore

namespace SingBox.IdentityPersistence

open Values Runs IdentityState IdentityInvariant IdentityRestore EpochManager EpochMoves EpochLinks

structure Room (s : StableIdentityState) (pub : Publication) : Prop extends NoWrap s pub where
  epoch : pub.newEpoch = true → s.nextEpoch + 1 < 2 ^ 64

inductive Published : StableIdentityState → Prop
  | restored (persisted : PersistedIdentityState) (s : StableIdentityState)
      (h : restoreStableIdentityState persisted = .ok s) : Published s
  | first (pub : Publication) (hnew : pub.newEpoch = true) (hroom : Room newStableIdentityState pub) :
      Published (publish newStableIdentityState pub)
  | next (s : StableIdentityState) (pub : Publication) (h : Published s) (hroom : Room s pub) :
      Published (publish s pub)

variable {s : StableIdentityState} {m : RuntimeManager} {op : Op}

theorem Published.from_initial (h : Published s) :
    ∃ s₀ pubs, Initial s₀ ∧ Meets publish NoWrap s₀ pubs ∧ s = run publish s₀ pubs := by
  induction h with
  | restored persisted s h => exact ⟨s, [], .inr ⟨persisted, h⟩, trivial, rfl⟩
  | first pub _ hroom => exact ⟨_, [pub], .inl rfl, ⟨hroom.toNoWrap, trivial⟩, rfl⟩
  | next s pub _ hroom ih =>
    obtain ⟨s₀, pubs, h₀, hmeets, rfl⟩ := ih
    refine ⟨s₀, pubs ++ [pub], h₀, ?_, ?_⟩
    · rw [meets_append]
      exact ⟨hmeets, hroom.toNoWrap, trivial⟩
    · rw [run_append]
      rfl

theorem Published.bounded (h : Published s) : Bounded s ∧ s.maxRetired = newStableIdentityState.maxRetired := by
  obtain ⟨s₀, pubs, h₀, hmeets, rfl⟩ := h.from_initial
  obtain ⟨hb, hmax⟩ := h₀.bounded
  obtain ⟨hb', hmax', _⟩ := publishes_bounded pubs [] hb (by simp) hmeets
  exact ⟨hb', hmax'.trans hmax⟩

theorem Published.counters (h : Published s) : s.nextEpoch ≠ 0 ∧ s.nextRevision ≠ 0 := by
  have hpub : ∀ s pub, Room s pub → (pub.newEpoch = true ∨ s.nextEpoch ≠ 0) →
      (publish s pub).nextEpoch ≠ 0 ∧ (publish s pub).nextRevision ≠ 0 := by
    intro s pub hroom hor
    have hcnt := preparePublish_counters s pub.snapshot pub.newEpoch pub.order
    rw [publish, hcnt.nextEpoch, hcnt.nextRevision, openPublish, succ64_of_lt hroom.revision]
    refine ⟨?_, Nat.succ_ne_zero _⟩
    cases hnew : pub.newEpoch with
    | true =>
      rw [succ64_of_lt (hroom.epoch hnew)]
      exact Nat.succ_ne_zero _
    | false => exact hor.resolve_left (by rw [hnew]; exact Bool.false_ne_true)
  induction h with
  | restored persisted s h => exact ⟨(restore_bounded h).2.1, (restore_bounded h).2.2.1⟩
  | first pub hnew hroom => exact hpub _ pub hroom (.inl hnew)
  | next s pub _ hroom ih => exact hpub s pub hroom (.inr ih.1)

def startOf (m : RuntimeManager) (g : String) : StableIdentityState :=
  ((identityIn m.groups g).map IdentityRef.state).getD newStableIdentityState

def RoomToPublish (m : RuntimeManager) : Op → Prop
  | .prepareEpoch g snapshot order => ∀ hvalid, Room (startOf m g) ⟨snapshot, true, order, hvalid⟩
  | .prepareRevision g _ snapshot order => ∀ hvalid, Room (startOf m g) ⟨snapshot, false, order, hvalid⟩
  | _ => True

theorem startOf_of_lookup {g group} (h : m.groups.lookup g = some group) : startOf m g = group.identity.state := by
  rw [startOf, identityIn_lookup h]
  rfl

theorem created_published {r} (h : Created m op r) (hm : ∀ r, IsRef m r → Published r.state)
    (hroom : RoomToPublish m op) : Published r.state := by
  cases h with
  | restored persisted h => exact .restored persisted r.state h
  | prepared p h hr =>
    subst hr
    cases h with
    | first g snapshot order hvalid hg =>
      have hstart : startOf m g = newStableIdentityState := by
        rw [startOf, identityIn, hg]
        rfl
      exact .first ⟨snapshot, true, order, hvalid⟩ rfl (hstart ▸ hroom hvalid)
    | epoch g snapshot order group hvalid hg =>
      have hbase := hm group.identity (.group g (identityIn_lookup hg))
      exact .next _ ⟨snapshot, true, order, hvalid⟩ hbase (startOf_of_lookup hg ▸ hroom hvalid)
    | revision g e snapshot order group epoch hvalid hg =>
      have hbase := hm group.identity (.group g (identityIn_lookup hg))
      exact .next _ ⟨snapshot, false, order, hvalid⟩ hbase (startOf_of_lookup hg ▸ hroom hvalid)

theorem change_published {m'} (h : Change m op m') (hroom : RoomToPublish m op)
    (hm : ∀ r, IsRef m r → Published r.state) (r) (hr : IsRef m' r) : Published r.state := by
  rcases change_refs h with ⟨_, hrefs⟩ | ⟨fresh, hcre, _, hrefs⟩
  · exact hm r (hrefs r hr)
  rcases hrefs r hr with hr | rfl
  · exact hm r hr
  · exact created_published hcre hm hroom

theorem after_published (ops) (h : Meets step RoomToPublish newRuntimeManager ops) (r) (hr : IsRef (after ops) r) :
    Published r.state := by
  have hstart : ∀ r, IsRef newRuntimeManager r → Published r.state := by
    rintro r (⟨g, h⟩ | ⟨j, q, hq, _⟩ | ⟨j, q, hq, _⟩)
    · cases h
    · cases hq
    · cases hq
  exact run_keeps (I := fun m => ∀ r, IsRef m r → Published r.state)
    (fun m op _ => change_published (step_change m op)) hstart h r hr

/-- In a run that wraps no counter, the restored state publishes as the group would. -/
theorem snapshot_restores_identity (ops : List Op) (h : Meets step RoomToPublish newRuntimeManager ops)
    (g : String)
    (r : IdentityRef) (hr : identityIn (after ops).groups g = some r)
    (hsize : r.state.lineage.keys.length ≤ 2 ^ 20) :
    ∃ s, restoreStableIdentityState (persistenceSnapshot r.state) = .ok s ∧
      ∀ snapshot order order', validateIdentitySnapshot snapshot = .ok () →
        let original := (preparePublish r.state snapshot true order).2
        let restored := (preparePublish s snapshot true order').2
        restored.epochID = original.epochID ∧ restored.revision = original.revision ∧
          restored.handles = original.handles ∧
          (∀ handle, handle ∈ restored.retiredHandles ↔ handle ∈ original.retiredHandles) ∧
          restored.versionTransitions = original.versionTransitions := by
  have hpub := after_published ops h r (.group g hr)
  obtain ⟨hb, hmax⟩ := hpub.bounded
  obtain ⟨hep, hrev⟩ := hpub.counters
  obtain ⟨s, hok, halike⟩ := restore_accepts hb hep hrev hmax hsize
  exact ⟨s, hok, fun snapshot order order' _ => publish_alike halike snapshot order order'⟩

def firstPublication : List Op := [.prepareEpoch "g" ⟨1, [⟨7, true⟩]⟩ (.stored _), .commit 0]

theorem first_publication_restores : ∃ r s, identityIn (after firstPublication).groups "g" = some r ∧
    r.state.lineage.keys = [7] ∧ restoreStableIdentityState (persistenceSnapshot r.state) = .ok s := by
  have hroom : Meets step RoomToPublish newRuntimeManager firstPublication := by
    refine ⟨fun hvalid => ⟨⟨by decide, ?_, trivial⟩, fun _ => by decide⟩, trivial, trivial⟩
    change (0 : Nat) + 1 < 2 ^ 64
    decide
  obtain ⟨s, hok, _⟩ := snapshot_restores_identity firstPublication hroom "g" _ rfl (by decide)
  exact ⟨_, s, rfl, by decide, hok⟩

/-- A restored revision counter at its last value wraps to zero, which no
snapshot may have. -/
theorem wrapped_revision_refused :
    (identityIn (after (.restore "g" ⟨1, 2 ^ 64 - 1, 0, []⟩ :: firstPublication)).groups "g").map
      (fun r => (persistenceSnapshot r.state,
        (restoreStableIdentityState (persistenceSnapshot r.state)).toOption.isNone)) =
      some (⟨2, 0, 1, [⟨7, ⟨7, 1, 1, 0⟩, true⟩]⟩, true) := by
  decide

end SingBox.IdentityPersistence
