import SingBox.Arena
import SingBox.SessionLeases

namespace SingBox.LeaseLedger

open List hiding after
open Option Arena Maps Runs Values SessionLeases

/-- What the map and the list keep in every run: each mapped record is in the
list, once, under its own key. The list may hold more. -/
structure Tracked (m : SessionLeaseManager) : Prop where
  nodup : m.lru.Nodup
  allocated : ∀ i ∈ m.lru, i < m.records.length
  mapped : ∀ k i, m.leases.lookup k = some i → i ∈ m.lru
  keyed : ∀ k i, m.leases.lookup k = some i → ∃ lease, m.records[i]? = some lease ∧ lease.key = k

structure Mirrored (m : SessionLeaseManager) : Prop extends Tracked m where
  listed : ∀ i ∈ m.lru, ∃ k, m.leases.lookup k = some i

def Bounded (m : SessionLeaseManager) : Prop := (m.leases.keys.length : Int) ≤ m.maxEntries

variable {m m' : SessionLeaseManager} {key : SessionKey} {i : Nat} {lease : SessionLease} {old : SessionLease}

structure SameLedger (m m' : SessionLeaseManager) : Prop where
  leases : m'.leases = m.leases
  lru : m'.lru = m.lru
  records : m'.records = m.records
  maxEntries : m'.maxEntries = m.maxEntries

theorem SameLedger.trans {a b c} (hab : SameLedger a b) (hbc : SameLedger b c) : SameLedger a c :=
  ⟨hbc.leases.trans hab.leases, hbc.lru.trans hab.lru, hbc.records.trans hab.records,
    hbc.maxEntries.trans hab.maxEntries⟩

theorem SameLedger.tracked (h : SameLedger m m') (ht : Tracked m) : Tracked m' := by
  obtain ⟨hl, hlru, hr, -⟩ := h
  constructor
  · rw [hlru]; exact ht.nodup
  · rw [hlru, hr]; exact ht.allocated
  · rw [hl, hlru]; exact ht.mapped
  · rw [hl, hr]; exact ht.keyed

theorem SameLedger.mirrored (h : SameLedger m m') (hm : Mirrored m) : Mirrored m' := by
  refine ⟨h.tracked hm.toTracked, ?_⟩
  rw [h.leases, h.lru]
  exact hm.listed

theorem SameLedger.bounded (h : SameLedger m m') (hb : Bounded m) : Bounded m' := by
  rw [Bounded, h.leases, h.maxEntries]
  exact hb

theorem recordOf_eq_some (h : recordOf m key = some (i, lease)) :
    m.leases.lookup key = some i ∧ m.records[i]? = some lease := by
  simp only [recordOf, bind_eq_some_iff, map_eq_some_iff] at h
  obtain ⟨j, hj, l, hl, rfl, rfl⟩ := h
  exact ⟨hj, hl⟩

theorem Tracked.lookup_of_recordOf_none (ht : Tracked m) (h : recordOf m key = none) :
    m.leases.lookup key = none := by
  cases hk : m.leases.lookup key with
  | none => rfl
  | some i =>
    obtain ⟨lease, hl, -⟩ := ht.keyed key i hk
    simp [recordOf, hk, hl] at h

theorem Tracked.key_of_recordOf (ht : Tracked m) (h : recordOf m key = some (i, lease)) : lease.key = key := by
  obtain ⟨hk, hl⟩ := recordOf_eq_some h
  obtain ⟨lease', hl', hke⟩ := ht.keyed key i hk
  rw [hl] at hl'
  exact some.inj hl' ▸ hke

-- One record has one key, so the map has it under one key only.
theorem Tracked.inj (ht : Tracked m) {k k'} (h : m.leases.lookup k = some i) (h' : m.leases.lookup k' = some i) :
    k = k' := by
  obtain ⟨lease, hl, hk⟩ := ht.keyed k i h
  obtain ⟨lease', hl', hk'⟩ := ht.keyed k' i h'
  obtain rfl := mem_unique hl hl'
  exact hk.symm.trans hk'

theorem mem_moveToFront (hi : i ∈ m.lru) (j) : j ∈ (moveToFront m i).lru ↔ j ∈ m.lru := by
  by_cases hj : j = i
  · subst hj; simp [moveToFront, hi]
  · simp [moveToFront, hj]

theorem Tracked.moveToFront (ht : Tracked m) (hi : i ∈ m.lru) : Tracked (moveToFront m i) where
  nodup := nodup_cons.mpr ⟨ht.nodup.not_mem_erase, ht.nodup.erase i⟩
  allocated j hj := ht.allocated j ((mem_moveToFront hi j).mp hj)
  mapped k j h := (mem_moveToFront hi j).mpr (ht.mapped k j h)
  keyed := ht.keyed

theorem Mirrored.moveToFront (hm : Mirrored m) (hi : i ∈ m.lru) : Mirrored (moveToFront m i) where
  toTracked := hm.toTracked.moveToFront hi
  listed j hj := hm.listed j ((mem_moveToFront hi j).mp hj)

theorem Tracked.rewrite (ht : Tracked m) (hi : m.records[i]? = some old) (hke : lease.key = old.key) :
    Tracked (rewrite m i lease) where
  nodup := ht.nodup
  allocated j hj := by simpa [SessionLeases.rewrite] using ht.allocated j hj
  mapped := ht.mapped
  keyed k j h := by
    obtain ⟨l, hl, hk⟩ := ht.keyed k j h
    by_cases hj : i = j
    · subst hj
      obtain rfl := mem_unique hi hl
      have hlt : i < m.records.length := lt_of_some hi
      exact ⟨lease, by simp [SessionLeases.rewrite, hlt], hke.trans hk⟩
    · exact ⟨l, by simpa [SessionLeases.rewrite, hj] using hl, hk⟩

theorem Mirrored.rewrite (hm : Mirrored m) (hi : m.records[i]? = some old) (hk : lease.key = old.key) :
    Mirrored (rewrite m i lease) :=
  ⟨hm.toTracked.rewrite hi hk, hm.listed⟩

theorem lookup_install (m lease k) :
    (install m lease).leases.lookup k = if k = lease.key then some m.records.length else m.leases.lookup k :=
  lookup_set m.leases lease.key k m.records.length

theorem Tracked.install (ht : Tracked m) (lease) : Tracked (install m lease) where
  nodup := by
    refine nodup_cons.mpr ⟨?_, ht.nodup⟩
    intro hm
    exact absurd (ht.allocated _ hm) (Nat.lt_irrefl _)
  allocated j hj := by
    simp only [SessionLeases.install, length_append, length_singleton]
    rcases mem_cons.mp hj with rfl | hj
    · omega
    · have := ht.allocated j hj
      omega
  mapped k j h := by
    rw [lookup_install] at h
    split at h
    · exact some.inj h ▸ mem_cons_self
    · exact mem_cons_of_mem _ (ht.mapped k j h)
  keyed k j h := by
    rw [lookup_install] at h
    split at h
    · obtain rfl := some.inj h
      exact ⟨lease, by simp [SessionLeases.install], Eq.symm ‹_›⟩
    obtain ⟨l, hl, hk⟩ := ht.keyed k j h
    have hlt : j < m.records.length := lt_of_some hl
    exact ⟨l, by simpa [SessionLeases.install, getElem?_append_left hlt] using hl, hk⟩

-- The new record takes the key's place in the map, so a record that stood
-- there would stay in the list without a key.
theorem Mirrored.install (hm : Mirrored m) (hf : m.leases.lookup lease.key = none) :
    Mirrored (install m lease) where
  toTracked := hm.toTracked.install lease
  listed j hj := by
    rcases mem_cons.mp hj with rfl | hj
    · exact ⟨lease.key, by simp [lookup_install]⟩
    obtain ⟨k, hk⟩ := hm.listed j hj
    refine ⟨k, ?_⟩
    rw [lookup_install, if_neg, hk]
    rintro rfl
    rw [hf] at hk
    cases hk

theorem Tracked.removeLocked (ht : Tracked m) (i) : Tracked (removeLocked m i) := by
  rw [SessionLeases.removeLocked]
  split
  · exact ht
  rename_i lease hl
  refine ⟨ht.nodup.erase i, fun j hj => ht.allocated j (mem_of_mem_erase hj), ?_,
    fun k j h => ht.keyed k j (lookup_of_erase h).2⟩
  intro k j h
  obtain ⟨hne, hk⟩ := lookup_of_erase h
  refine (mem_erase_of_ne ?_).mpr (ht.mapped k j hk)
  rintro rfl
  obtain ⟨l, hl', hke⟩ := ht.keyed k j hk
  obtain rfl := mem_unique hl hl'
  exact hne hke.symm

theorem Mirrored.removeLocked (hm : Mirrored m) (hi : i ∈ m.lru) : Mirrored (removeLocked m i) := by
  refine ⟨hm.toTracked.removeLocked i, ?_⟩
  rw [SessionLeases.removeLocked]
  split
  · exact hm.listed
  rename_i lease hl
  intro j hj
  obtain ⟨hne, hj⟩ := hm.nodup.mem_erase_iff.mp hj
  obtain ⟨k, hk⟩ := hm.listed j hj
  refine ⟨k, ?_⟩
  rw [lookup_del, if_neg, hk]
  -- The removed key is the one the map has i under, and no other record.
  rintro rfl
  obtain ⟨k', hk'⟩ := hm.listed i hi
  obtain ⟨l, hl', hke⟩ := hm.keyed k' i hk'
  obtain rfl := mem_unique hl hl'
  rw [hke, hk'] at hk
  exact hne (some.inj hk).symm

theorem keys_removeLocked (m i) : ∀ k ∈ (SessionLeases.removeLocked m i).leases.keys, k ∈ m.leases.keys := by
  rw [removeLocked]
  split
  · exact fun _ hk => hk
  intro k hk
  obtain ⟨j, hj⟩ := mem_keys_iff.mp hk
  exact mem_keys_iff.mpr ⟨j, erase_submap m.leases _ k j hj⟩

@[simp] theorem removeLocked_maxEntries (m i) : (SessionLeases.removeLocked m i).maxEntries = m.maxEntries := by
  rw [removeLocked]
  split <;> rfl

/-- The changes of the map and the list that the operations are made of. Only a
change that grows may install a lease, and only under a key without one. -/
inductive Edit (grows : Bool) : SessionLeaseManager → SessionLeaseManager → Prop
  | same {m m' : SessionLeaseManager} (h : SameLedger m m') : Edit grows m m'
  | front {m : SessionLeaseManager} {i : Nat} (hi : i ∈ m.lru) : Edit grows m (moveToFront m i)
  | rewrite {m : SessionLeaseManager} {i : Nat} {old lease : SessionLease} (hi : m.records[i]? = some old)
      (hkey : lease.key = old.key) : Edit grows m (rewrite m i lease)
  | remove {m : SessionLeaseManager} {i : Nat} (hi : i ∈ m.lru) : Edit grows m (removeLocked m i)
  | install {m : SessionLeaseManager} {lease : SessionLease} (hg : grows = true)
      (hfresh : m.leases.lookup lease.key = none) : Edit grows m (install m lease)
  | wipe {m m' : SessionLeaseManager} (hl : m'.leases = ∅) (hlru : m'.lru = [])
      (hmax : m'.maxEntries = m.maxEntries) : Edit grows m m'
  | trans {a b c : SessionLeaseManager} (hab : Edit grows a b) (hbc : Edit grows b c) : Edit grows a c

namespace Edit

variable {grows : Bool}

protected theorem refl (m) : Edit grows m m := .same ⟨rfl, rfl, rfl, rfl⟩

theorem tracked (h : Edit grows m m') (ht : Tracked m) : Tracked m' := by
  induction h with
  | same h => exact h.tracked ht
  | front hi => exact ht.moveToFront hi
  | rewrite hi hk => exact ht.rewrite hi hk
  | remove hi => exact ht.removeLocked _
  | install hg hf => exact ht.install _
  | wipe hl hlru hmax => constructor <;> simp [hl, hlru]
  | trans hab hbc iha ihb => exact ihb (iha ht)

theorem mirrored (h : Edit grows m m') (hm : Mirrored m) : Mirrored m' := by
  induction h with
  | same h => exact h.mirrored hm
  | front hi => exact hm.moveToFront hi
  | rewrite hi hk => exact hm.rewrite hi hk
  | remove hi => exact hm.removeLocked hi
  | install hg hf => exact hm.install hf
  | wipe hl hlru hmax => exact ⟨by constructor <;> simp [hl, hlru], by simp [hlru]⟩
  | trans hab hbc iha ihb => exact ihb (iha hm)

theorem maxEntries (h : Edit grows m m') : m'.maxEntries = m.maxEntries := by
  induction h with
  | same h => exact h.maxEntries
  | remove hi => simp
  | wipe hl hlru hmax => exact hmax
  | trans hab hbc iha ihb => exact ihb.trans iha
  | _ => rfl

theorem grow (h : Edit false m m') : Edit true m m' := by
  induction h with
  | same h => exact .same h
  | front hi => exact .front hi
  | rewrite hi hk => exact .rewrite hi hk
  | remove hi => exact .remove hi
  | install hg hf => cases hg
  | wipe hl hlru hmax => exact .wipe hl hlru hmax
  | trans hab hbc iha ihb => exact .trans iha ihb

theorem keys (h : Edit false m m') : ∀ k ∈ m'.leases.keys, k ∈ m.leases.keys := by
  induction h with
  | same h => rw [h.leases]; exact fun _ hk => hk
  | remove hi => exact keys_removeLocked _ _
  | install hg hf => cases hg
  | wipe hl hlru hmax => simp [hl]
  | trans hab hbc iha ihb => exact fun k hk => iha k (ihb k hk)
  | _ => exact fun _ hk => hk

theorem bounded (h : Edit false m m') (hb : Bounded m) : Bounded m' := by
  have hle := length_keys_le h.keys
  rw [Bounded, h.maxEntries]
  exact le_trans (by exact_mod_cast hle) hb

end Edit

theorem Tracked.length_le (ht : Tracked m) : m.leases.keys.length ≤ m.lru.length := by
  let place : SessionKey → Nat := fun k => (m.leases.lookup k).getD 0
  have hp : ∀ k ∈ m.leases.keys, m.leases.lookup k = some (place k) := by
    intro k hk
    obtain ⟨i, hi⟩ := mem_keys_iff.mp hk
    simp [place, hi]
  have hnd : (m.leases.keys.map place).Nodup := by
    refine .map_on ?_ (AList.keys_nodup _)
    intro k hk k' hk' heq
    exact ht.inj (hp k hk) (heq ▸ hp k' hk')
  have hsub : ∀ i ∈ m.leases.keys.map place, i ∈ m.lru := by
    intro i hi
    obtain ⟨k, hk, rfl⟩ := mem_map.mp hi
    exact ht.mapped k _ (hp k hk)
  simpa using (subperm_of_subset hnd hsub).length_le

theorem removeOldestLocked_edit (m) : Edit false m (removeOldestLocked m) := by
  rw [removeOldestLocked]
  split
  · exact .refl m
  · rename_i i hi
    exact .remove (mem_of_getLast? hi)

theorem evictFrom_edit (n m) : Edit false m (evictFrom n m) := by
  induction n generalizing m with
  | zero => exact .refl m
  | succ n ih =>
    rw [evictFrom]
    split
    · exact .trans (removeOldestLocked_edit m) (ih _)
    · exact .refl m

theorem evictExcess_edit (m) : Edit false m (evictExcess m) := evictFrom_edit _ m

theorem length_removeOldestLocked (ht : Tracked m) (hne : m.lru ≠ []) :
    (removeOldestLocked m).lru.length + 1 = m.lru.length := by
  have hl := getLast?_eq_some_getLast hne
  have hm := getLast_mem hne
  have hlt := ht.allocated _ hm
  simp only [removeOldestLocked, hl, removeLocked, getElem?_eq_getElem hlt,
    length_erase_of_mem hm]
  have := length_pos_of_mem hm
  omega

-- Each round takes one element off the list, and the map never has more
-- records than the list has elements, so the rounds given are enough.
theorem evictFrom_bounded (n) (ht : Tracked m) (hpos : 0 < m.maxEntries) (hn : m.lru.length ≤ n) :
    Bounded (evictFrom n m) := by
  induction n generalizing m with
  | zero =>
    have := ht.length_le
    simp only [evictFrom, Bounded]
    omega
  | succ n ih =>
    rw [evictFrom]
    split
    · have hne : m.lru ≠ [] := by
        intro h
        have := ht.length_le
        simp only [h, length_nil] at this
        omega
      have hedit := removeOldestLocked_edit m
      have hlen := length_removeOldestLocked ht hne
      exact ih (hedit.tracked ht) (hedit.maxEntries ▸ hpos) (by omega)
    · exact Int.not_lt.mp ‹_›

theorem evictExcess_bounded (ht : Tracked m) (hpos : 0 < m.maxEntries) : Bounded (evictExcess m) :=
  evictFrom_bounded _ ht hpos le_rfl

theorem evictExcess_of_bounded (hb : Bounded m) : evictExcess m = m := by
  rw [evictExcess]
  cases m.lru.length with
  | zero => rfl
  | succ n => rw [evictFrom, if_neg (Int.not_lt.mpr hb)]

section

variable (m : SessionLeaseManager)

theorem closePending_same (key) : SameLedger m (closePending m key) := by
  rw [closePending]
  split <;> exact ⟨rfl, rfl, rfl, rfl⟩

theorem finishPending_same (key generation token) :
    SameLedger m (finishPendingLocked m key generation token) := by
  rw [finishPendingLocked]
  split
  · exact closePending_same m key
  · exact ⟨rfl, rfl, rfl, rfl⟩

theorem finishReservation_same (i) : SameLedger m (finishReservation m i) := ⟨rfl, rfl, rfl, rfl⟩

theorem reservePending_same (key) : SameLedger m (reservePending m key).1 := by
  rw [reservePending]
  split <;> exact ⟨rfl, rfl, rfl, rfl⟩

theorem abort_edit (i) : Edit false m (abort m i) := by
  rw [abort]
  split
  · exact .refl m
  split
  · exact .refl m
  · exact .same ((finishReservation_same m i).trans (finishPending_same ..))

theorem closeAll_same (keys) : SameLedger m (run closePending m keys) := by
  induction keys generalizing m with
  | nil => exact ⟨rfl, rfl, rfl, rfl⟩
  | cons key keys ih => exact (closePending_same m key).trans (ih _)

theorem clear_edit (order) : Edit false m (clear m order) := by
  have h := closeAll_same { m with generation := m.generation + 1, leases := ∅, lru := [] }
    (order.visit m.pending.keys)
  exact .wipe h.leases h.lru h.maxEntries

end

theorem Tracked.run_edit {ε : Type} {grows f} (hf : ∀ m e, Tracked m → Edit grows m (f m e)) (ht : Tracked m)
    (es : List ε) : Edit grows m (run f m es) := by
  induction es generalizing m with
  | nil => exact .refl m
  | cons e es ih =>
    have h := hf m e ht
    exact .trans h (ih (h.tracked ht))

section

variable (ht : Tracked m)

include ht

theorem Tracked.mem_of_recordOf (h : recordOf m key = some (i, lease)) : i ∈ m.lru :=
  ht.mapped key i (recordOf_eq_some h).1

theorem Tracked.reserveRound_edit (key now) : Edit false m (reserveRound m key now).1 := by
  rw [reserveRound]
  split
  · exact .same (reservePending_same m key)
  rename_i i lease hrec
  have hi := ht.mem_of_recordOf hrec
  split
  · exact .front hi
  · exact .trans (.remove hi) (.same (reservePending_same _ key))

theorem Tracked.reserve_edit (key now) : Edit false m (reserve m key now) := by
  have h := ht.reserveRound_edit key now
  rw [reserve]
  split
  · rename_i m' p heq
    rw [heq] at h
    exact .trans h (.same ⟨rfl, rfl, rfl, rfl⟩)
  · rename_i m' r hr heq
    rw [heq] at h
    exact h

theorem Tracked.wake_edit (c) : Edit false m (wake m c) := by
  rw [wake]
  split
  · exact .refl m
  rename_i call hc
  split
  · have h := ht.reserveRound_edit call.key call.now
    split <;> rename_i heq <;> rw [heq] at h <;> exact .trans h (.same ⟨rfl, rfl, rfl, rfl⟩)
  · exact .refl m

theorem Tracked.peek_edit (key now) : Edit false m (peek m key now).1 := by
  rw [peek]
  split
  · exact .refl m
  rename_i i lease hrec
  have hi := ht.mem_of_recordOf hrec
  split
  · exact .front hi
  · exact .remove hi

theorem Tracked.invalidate_edit (key expected) : Edit false m (invalidate m key expected) := by
  rw [invalidate]
  split
  · exact .refl m
  rename_i i lease hrec
  split
  · exact .remove (ht.mem_of_recordOf hrec)
  · exact .refl m

-- A lease is written over and its element moved to the front.
theorem Tracked.refresh_edit (h : recordOf m key = some (i, old)) (hk : lease.key = old.key) :
    Edit false m (SessionLeases.moveToFront (SessionLeases.rewrite m i lease) i) :=
  .trans (.rewrite (recordOf_eq_some h).2 hk) (.front (ht.mem_of_recordOf h))

theorem Tracked.renewHandle_edit (key expected ttl now) : Edit false m (renewHandle m key expected ttl now).1 := by
  rw [renewHandle]
  split
  · exact .refl m
  rename_i i old hrec
  split
  · exact .refl m
  · exact ht.refresh_edit hrec rfl

theorem Tracked.retireRecord_edit (handle key) : Edit false m (retireRecord handle m key) := by
  rw [retireRecord]
  split
  · exact .refl m
  rename_i i lease hrec
  split
  · exact .remove (ht.mem_of_recordOf hrec)
  · exact .refl m

theorem Tracked.retireNodeHandle_edit (handle) (order : RangeOrder SessionKey) :
    Edit false m (retireNodeHandle m handle order) :=
  ht.run_edit (fun _ key ht => ht.retireRecord_edit handle key) _

theorem Tracked.replaceHandle_edit (hpos : 0 < m.maxEntries) (hb : Bounded m) (key expected next serviceID mode ttl now) :
    Edit true m (replaceHandle m key expected next serviceID mode ttl now).1 ∧
      Bounded (replaceHandle m key expected next serviceID mode ttl now).1 := by
  rw [replaceHandle]
  split
  · rename_i i old hrec
    split
    · exact ⟨.refl m, hb⟩
    · exact ⟨.grow (ht.refresh_edit hrec rfl), Edit.bounded (ht.refresh_edit hrec rfl) hb⟩
  · rename_i hrec
    split
    · exact ⟨.refl m, hb⟩
    · exact ⟨.trans (.install rfl (ht.lookup_of_recordOf_none hrec)) (evictExcess_edit _).grow,
        evictExcess_bounded (ht.install _) hpos⟩

theorem Tracked.restoreLease_edit (now lease) : Edit true m (restoreLease now m lease) := by
  rw [restoreLease]
  split
  · exact .refl m
  split
  · exact .install rfl (ht.lookup_of_recordOf_none ‹_›)
  rename_i i existing hrec
  split
  · exact .refl m
  · refine .trans (.remove (ht.mem_of_recordOf hrec)) (.install rfl ?_)
    simp [SessionLeases.removeLocked, (recordOf_eq_some hrec).2, ht.key_of_recordOf hrec]

theorem Tracked.restorePersistence_edit (hpos : 0 < m.maxEntries) (leases) (now : Time) :
    Edit true m (restorePersistence m leases now) ∧ Bounded (restorePersistence m leases now) := by
  have h := ht.run_edit (fun _ lease ht => ht.restoreLease_edit now lease) leases
  exact ⟨.trans h (evictExcess_edit _).grow, evictExcess_bounded (h.tracked ht) (h.maxEntries ▸ hpos)⟩

end

section

def Able (m : SessionLeaseManager) (r : LeaseReservation) : Prop :=
  r.finished = false ∧ r.generation = m.generation ∧ pendingOwnedByLocked m r.key r.generation r.token = true

def committedLease (r : LeaseReservation) (handle : NodeHandle) (serviceID : String) (mode : PolicyMode)
    (ttl : Duration) (now : Time) : SessionLease :=
  { key := r.key, nodeID := handle.nodeID, nodeSlot := handle.slot, nodeVersion := handle.version,
    serviceID := serviceID, mode := mode, expiresAt := now + defaultTTL ttl, updatedAt := now }

def committed (m : SessionLeaseManager) (i : Nat) (r : LeaseReservation) (lease : SessionLease) :
    SessionLeaseManager :=
  finishPendingLocked (evictExcess (install (finishReservation m i) lease)) r.key r.generation r.token

variable {r : LeaseReservation} {handle : NodeHandle} {serviceID : String} {mode : PolicyMode}
  {ttl : Duration} {now : Time}

theorem commitHandle_of_able (hr : m.reservations[i]? = some r) (h : Able m r) :
    commitHandle m i handle serviceID mode ttl now =
      (committed m i r (committedLease r handle serviceID mode ttl now),
        some (committedLease r handle serviceID mode ttl now)) := by
  obtain ⟨hf, hg, ho⟩ := h
  have ho' : pendingOwnedByLocked (finishReservation m i) r.key r.generation r.token = true := ho
  have hg' : r.generation = (finishReservation m i).generation := hg
  simp [commitHandle, hr, hf, ho', ← hg', committed, committedLease]

theorem commitHandle_of_unable (hr : m.reservations[i]? = some r) (h : ¬ Able m r) :
    commitHandle m i handle serviceID mode ttl now = (if r.finished then m else finishReservation m i, none) := by
  by_cases hf : r.finished
  · simp [commitHandle, hr, hf]
  have hcond : r.generation ≠ (finishReservation m i).generation ∨
      (!pendingOwnedByLocked (finishReservation m i) r.key r.generation r.token) = true := by
    by_contra hcon
    simp only [not_or, not_not, Bool.not_eq_true', Bool.not_eq_false] at hcon
    exact h ⟨by simpa using hf, hcon.1, hcon.2⟩
  simp only [commitHandle, hr, hf, if_pos hcond, Bool.false_eq_true, if_false]

theorem commitHandle_of_none (hr : m.reservations[i]? = none) :
    commitHandle m i handle serviceID mode ttl now = (m, none) := by
  simp [commitHandle, hr]

/-- Where a commit finds a lease under its key, its new record takes the place
of that lease in the map, and the old record stays in the list. -/
theorem Tracked.committed_tracked (ht : Tracked m) (hpos : 0 < m.maxEntries) (i r lease) :
    Tracked (committed m i r lease) ∧ Bounded (committed m i r lease) ∧
      (committed m i r lease).maxEntries = m.maxEntries := by
  have hins := ((finishReservation_same m i).tracked ht).install lease
  have hevict := evictExcess_edit (SessionLeases.install (finishReservation m i) lease)
  have hsame := finishPending_same (evictExcess (SessionLeases.install (finishReservation m i) lease))
    r.key r.generation r.token
  refine ⟨hsame.tracked (hevict.tracked hins), ?_, hsame.maxEntries.trans hevict.maxEntries⟩
  exact hsame.bounded (evictExcess_bounded hins hpos)

theorem Mirrored.committed (hm : Mirrored m) (i r) (hf : m.leases.lookup lease.key = none) :
    Mirrored (committed m i r lease) := by
  have hins := ((finishReservation_same m i).mirrored hm).install hf
  exact (finishPending_same ..).mirrored ((evictExcess_edit _).mirrored hins)

theorem Tracked.fresh_of_committed (ht : Tracked m) (hb : Bounded m)
    (h : Mirrored (LeaseLedger.committed m i r lease)) : m.leases.lookup lease.key = none := by
  cases hk : m.leases.lookup lease.key with
  | none => rfl
  | some old =>
    -- The key was mapped before, so the map does not grow and nothing is evicted.
    have hbd : Bounded (SessionLeases.install (finishReservation m i) lease) := by
      have hle : (SessionLeases.install (finishReservation m i) lease).leases.keys.length ≤
          m.leases.keys.length := by
        refine length_keys_le fun k hm => ?_
        obtain ⟨j, hj⟩ := mem_keys_iff.mp hm
        rcases lookup_of_insert hj with ⟨rfl, -⟩ | ⟨-, hj⟩
        · exact mem_keys_iff.mpr ⟨old, hk⟩
        · exact mem_keys_iff.mpr ⟨j, hj⟩
      exact le_trans (by exact_mod_cast hle) hb
    rw [committed, evictExcess_of_bounded hbd] at h
    have hsame := finishPending_same (SessionLeases.install (finishReservation m i) lease)
      r.key r.generation r.token
    have hold := ht.mapped _ old hk
    obtain ⟨k, hlist⟩ := h.listed old (by rw [hsame.lru]; exact mem_cons_of_mem _ hold)
    rw [hsame.leases] at hlist
    rcases lookup_of_insert hlist with ⟨-, heq⟩ | ⟨hne, hk'⟩
    · exact absurd (ht.allocated old hold) (by rw [heq]; exact Nat.lt_irrefl _)
    · exact absurd (ht.inj hk' hk) hne

end

structure Kept (m : SessionLeaseManager) : Prop extends Tracked m where
  positive : 0 < m.maxEntries
  bounded : Bounded m

theorem Kept.step_edit (hk : Kept m) (op) : (∃ grows, Edit grows m (step m op) ∧ Bounded (step m op)) ∨
    ∃ i handle serviceID mode ttl now r, op = .commitHandle i handle serviceID mode ttl now ∧
      m.reservations[i]? = some r ∧ Able m r ∧
      step m op = committed m i r (committedLease r handle serviceID mode ttl now) := by
  have ht := hk.toTracked
  have hedit {m'} (h : Edit false m m') : ∃ grows, Edit grows m m' ∧ Bounded m' :=
    ⟨false, h, h.bounded hk.bounded⟩
  cases op with
  | reserve key now => exact .inl (hedit (ht.reserve_edit key now))
  | wake call => exact .inl (hedit (ht.wake_edit call))
  | giveUp call => exact .inl (hedit (.same ⟨rfl, rfl, rfl, rfl⟩))
  | peek key now => exact .inl (hedit (ht.peek_edit key now))
  | commitHandle i handle serviceID mode ttl now =>
    rw [step]
    cases hr : m.reservations[i]? with
    | none =>
      rw [commitHandle_of_none hr]
      exact .inl (hedit (.refl m))
    | some r =>
      by_cases hable : Able m r
      · rw [commitHandle_of_able hr hable]
        exact .inr ⟨i, handle, serviceID, mode, ttl, now, r, rfl, hr, hable, rfl⟩
      rw [commitHandle_of_unable hr hable]
      refine .inl (hedit ?_)
      split
      · exact .refl m
      · exact .same (finishReservation_same m i)
  | abort i => exact .inl (hedit (abort_edit m i))
  | invalidate key expected => exact .inl (hedit (ht.invalidate_edit key expected))
  | replaceHandle key expected next serviceID mode ttl now =>
    exact .inl ⟨true, ht.replaceHandle_edit hk.positive hk.bounded key expected next serviceID mode ttl now⟩
  | renewHandle key expected ttl now => exact .inl (hedit (ht.renewHandle_edit key expected ttl now))
  | retireNodeHandle handle order => exact .inl (hedit (ht.retireNodeHandle_edit handle order))
  | clear order => exact .inl (hedit (clear_edit m order))
  | restorePersistence leases now =>
    exact .inl ⟨true, ht.restorePersistence_edit hk.positive leases now⟩

theorem Kept.step (hk : Kept m) (op) : Kept (step m op) := by
  rcases hk.step_edit op with ⟨grows, h, hb⟩ | ⟨i, _, _, _, _, _, r, -, -, -, heq⟩
  · exact ⟨h.tracked hk.toTracked, h.maxEntries ▸ hk.positive, hb⟩
  · rw [heq]
    obtain ⟨ht, hb, hmax⟩ := hk.toTracked.committed_tracked hk.positive i r _
    exact ⟨ht, hmax ▸ hk.positive, hb⟩

theorem kept_new (maxEntries) : Kept (newSessionLeaseManager maxEntries) := by
  have hpos : 0 < (newSessionLeaseManager maxEntries).maxEntries := by
    simp only [newSessionLeaseManager]
    split <;> omega
  refine ⟨?_, hpos, ?_⟩
  · constructor <;> simp [newSessionLeaseManager]
  · have hlen : (newSessionLeaseManager maxEntries).leases.keys.length = 0 := rfl
    exact hpos.le

theorem kept_after (maxEntries ops) : Kept (after maxEntries ops) :=
  run_invariant (fun _ op hk => hk.step op) (kept_new maxEntries) ops

def FreshCommit (m : SessionLeaseManager) : Op → Prop
  | .commitHandle i _ _ _ _ _ =>
    ∀ r, m.reservations[i]? = some r → Able m r → m.leases.lookup r.key = none
  | _ => True

theorem Mirrored.step (hm : Mirrored m) (hk : Kept m) (op) (hf : FreshCommit m op) : Mirrored (step m op) := by
  rcases hk.step_edit op with ⟨grows, h, -⟩ | ⟨i, _, _, _, _, _, r, rfl, hr, hable, heq⟩
  · exact h.mirrored hm
  · rw [heq]
    exact hm.committed i r (hf r hr hable)

theorem Kept.freshCommit (hk : Kept m) (op) (h : Mirrored (SessionLeases.step m op)) : FreshCommit m op := by
  cases op with
  | commitHandle i handle serviceID mode ttl now =>
    intro r hr hable
    rw [SessionLeases.step, commitHandle_of_able hr hable] at h
    exact hk.toTracked.fresh_of_committed hk.bounded h
  | _ => trivial

theorem Kept.meets_of_mirrored (hk : Kept m) (ops)
    (h : ∀ n, Mirrored (run SessionLeases.step m (ops.take n))) : Meets SessionLeases.step FreshCommit m ops := by
  induction ops generalizing m with
  | nil => trivial
  | cons op ops ih =>
    refine ⟨hk.freshCommit op (h 1), ih (hk.step op) fun n => ?_⟩
    simpa using h (n + 1)

theorem mirrored_after {maxEntries ops} (h : Meets step FreshCommit (newSessionLeaseManager maxEntries) ops) :
    Mirrored (after maxEntries ops) := by
  refine (run_keeps (I := fun m => Mirrored m ∧ Kept m)
    (fun m op _ hf h => ⟨h.1.step h.2 op hf, h.2.step op⟩) ⟨?_, kept_new maxEntries⟩ h).1
  exact ⟨(kept_new maxEntries).toTracked, by simp [newSessionLeaseManager]⟩

/-- The map and the list agree in a run exactly if each commit that installs a lease finds none
under its key. -/
theorem leases_mirrored_iff_commits_fresh (maxEntries : Int) (ops : List Op) :
    (∀ n, Mirrored (after maxEntries (ops.take n)) ∧ Bounded (after maxEntries (ops.take n))) ↔
      Meets step FreshCommit (newSessionLeaseManager maxEntries) ops := by
  constructor
  · intro h
    exact (kept_new maxEntries).meets_of_mirrored ops fun n => (h n).1
  · intro h n
    refine ⟨?_, (kept_after maxEntries _).bounded⟩
    rw [← take_append_drop n ops, meets_append] at h
    exact mirrored_after h.1

/-- The key is replaced into the map while its reservation is pending. The commit
leaves the replaced record in the list and no longer in the map. -/
theorem commit_leaves_orphan :
    let m := after 4 [.reserve 1 0, .replaceHandle 1 ⟨0, 0, 0, 0⟩ ⟨5, 1, 1, 0⟩ "a" .adaptive second 0,
      .commitHandle 0 ⟨6, 1, 1, 0⟩ "a" .adaptive second 0]
    m.lru = [1, 0] ∧ m.leases.lookup 1 = some 1 ∧ ¬ Mirrored m := by
  intro m
  have hlru : m.lru = [1, 0] := by decide +kernel
  have hkeys : m.leases.keys = [1] := by decide +kernel
  have hlk : m.leases.lookup 1 = some 1 := by decide +kernel
  refine ⟨hlru, hlk, fun hm => ?_⟩
  obtain ⟨k, hk⟩ := hm.listed 0 (by simp [hlru])
  have hme : k ∈ m.leases.keys := mem_keys_iff.mpr ⟨0, hk⟩
  rw [hkeys, mem_singleton] at hme
  rw [hme, hlk] at hk
  simp at hk

end SingBox.LeaseLedger
