import SingBox.BreakerSteps

namespace SingBox.LedgerListing

open List Values Maps BreakerRecord BreakerMoves HealthLedger LedgerMoves AttemptPermits PermitMoves BreakerRuns
  BreakerSteps

structure Listed (s : HealthStore) : Prop where
  keyed : ∀ k r, s.entries.lookup k = some r → r.key = k
  listed : ∀ k, k ∈ s.lru ↔ ∃ r, s.entries.lookup k = some r
  nodup : s.lru.Nodup
  room : 1 ≤ s.maxEntries

section

variable {s s' : HealthStore} {key : HealthKey} {r : HealthRecord}

section

variable (h : Listed s)
include h

theorem Listed.length : s.entries.keys.length = s.lru.length := by
  refine List.Perm.length_eq ((perm_ext_iff_of_nodup s.entries.nodupKeys h.nodup).2 fun k => ?_)
  rw [h.listed]
  exact mem_keys_iff

theorem Listed.create (hno : s.entries.lookup key = none) (hr : r.key = key) : Listed (create s key r) := by
  have hf : key ∉ s.lru := by
    rw [h.listed, hno]
    simp
  refine ⟨fun k r' hk => ?_, fun k => ?_, nodup_cons.2 ⟨hf, h.nodup⟩, h.room⟩
  · rcases lookup_of_insert hk with ⟨rfl, rfl⟩ | ⟨-, hk⟩
    · exact hr
    · exact h.keyed k r' hk
  · rw [HealthLedger.create]
    rw [mem_cons, h.listed, lookup_set]
    split
    · rename_i hke
      exact ⟨fun _ => ⟨r, rfl⟩, fun _ => .inl hke⟩
    · rename_i hke
      exact ⟨fun hm => hm.resolve_left hke, .inr⟩

theorem Listed.moveToFront (hsto : s.entries.lookup key = some r) : Listed (moveToFront s key) := by
  refine ⟨h.keyed, fun k => ?_, ?_, h.room⟩
  · rw [HealthLedger.moveToFront, mem_cons, h.nodup.mem_erase_iff, h.listed]
    constructor
    · rintro (rfl | ⟨-, hk⟩)
      · exact ⟨r, hsto⟩
      · exact hk
    · intro hk
      by_cases heq : k = key
      · exact .inl heq
      · exact .inr ⟨heq, hk⟩
  · rw [HealthLedger.moveToFront, nodup_cons]
    exact ⟨h.nodup.not_mem_erase, h.nodup.erase key⟩

theorem Listed.removeLocked (r) : Listed (removeLocked s r) := by
  refine ⟨fun k r' hk => h.keyed k r' (erase_submap _ _ _ _ hk), fun k => ?_, h.nodup.erase _, h.room⟩
  rw [HealthLedger.removeLocked]
  rw [h.nodup.mem_erase_iff, h.listed, lookup_del]
  split
  · rename_i hk
    simp [hk]
  · rename_i hk
    exact ⟨And.right, fun hm => ⟨hk, hm⟩⟩

theorem Listed.removes (hs : Removes s s') : Listed s' := by
  induction hs with
  | refl => exact h
  | tail _ hr ih =>
    obtain ⟨r, rfl⟩ := hr
    exact ih.removeLocked r

theorem Listed.evictFrom_front {rest} (hfront : s.lru = key :: rest) (n) :
    (HealthLedger.evictFrom n s).entries.lookup key = s.entries.lookup key := by
  induction n generalizing s rest with
  | zero => rfl
  | succ n ih =>
    rw [evictFrom]
    split
    · rename_i hfull
      rw [h.length, hfront] at hfull
      have hroom := h.room
      cases rest using reverseRecOn with
      | nil =>
        rw [length_singleton] at hfull
        omega
      | append_singleton rest last =>
        have hnd := h.nodup
        rw [hfront, ← cons_append, nodup_append] at hnd
        have hoth : key ≠ last := hnd.2.2 key mem_cons_self last (mem_singleton_self _)
        obtain ⟨r, hr⟩ := (h.listed last).1 (by rw [hfront]; simp)
        obtain rfl := h.keyed last r hr
        have hl : s.lru.getLast? = some r.key := by
          rw [hfront, ← cons_append, getLast?_concat]
        have hrem : removeOldestLocked s = HealthLedger.removeLocked s r := by
          rw [removeOldestLocked, hl]
          dsimp only
          rw [hr]
        have hre : (HealthLedger.removeLocked s r).lru = key :: rest := by
          have hm : r.key ∉ key :: rest := fun hm => hnd.2.2 _ hm _ (mem_singleton_self _) rfl
          rw [HealthLedger.removeLocked]
          rw [hfront, ← cons_append, erase_append_right _ hm]
          simp
        rw [hrem, ih (h.removeLocked r) hre, HealthLedger.removeLocked]
        rw [lookup_del, if_neg hoth]
    · rfl

end

structure Rewrites (s s' : HealthStore) : Prop where
  lru : s'.lru = s.lru
  maxEntries : s'.maxEntries = s.maxEntries
  back : ∀ k r', s'.entries.lookup k = some r' → ∃ r, s.entries.lookup k = some r ∧ r'.key = r.key
  forth : ∀ k r, s.entries.lookup k = some r → ∃ r', s'.entries.lookup k = some r'

theorem Rewrites.refl (s) : Rewrites s s := ⟨rfl, rfl, fun _ r h => ⟨r, h, rfl⟩, fun _ r h => ⟨r, h⟩⟩

theorem Rewrites.trans {s''} (h : Rewrites s s') (h' : Rewrites s' s'') : Rewrites s s'' := by
  refine ⟨h'.lru.trans h.lru, h'.maxEntries.trans h.maxEntries, fun k r hr => ?_, fun k r hr => ?_⟩
  · obtain ⟨r', hr', hk⟩ := h'.back k r hr
    obtain ⟨r'', hr'', hk'⟩ := h.back k r' hr'
    exact ⟨r'', hr'', hk.trans hk'⟩
  · obtain ⟨r', hr'⟩ := h.forth k r hr
    exact h'.forth k r' hr'

theorem Rewrites.save {r'} (hr : s.entries.lookup key = some r) (hk : r'.key = r.key) :
    Rewrites s (save s key r') := by
  refine ⟨rfl, rfl, fun k q hq => ?_, fun k q hq => ?_⟩
  · rw [lookup_save] at hq
    split at hq
    · rename_i heq
      subst heq
      obtain rfl := Option.some.inj hq
      exact ⟨r, hr, hk⟩
    · exact ⟨q, hq, rfl⟩
  · rw [lookup_save]
    split
    · exact ⟨r', rfl⟩
    · exact ⟨q, hq⟩

theorem Listed.rewrites (h : Listed s) (hs : Rewrites s s') : Listed s' := by
  refine ⟨fun k r' hr' => ?_, fun k => ?_, hs.lru ▸ h.nodup, hs.maxEntries ▸ h.room⟩
  · obtain ⟨r, hr, hk⟩ := hs.back k r' hr'
    exact hk.trans (h.keyed k r hr)
  · rw [hs.lru, h.listed]
    constructor
    · rintro ⟨r, hr⟩
      exact hs.forth k r hr
    · rintro ⟨r', hr'⟩
      obtain ⟨r, hr, -⟩ := hs.back k r' hr'
      exact ⟨r, hr⟩

theorem report_key (cfg draw r outcome time delay reason) :
    (report cfg draw r outcome time delay reason).key = r.key := by
  rw [← (noteReport_same r outcome time delay reason).key, report]
  split
  · rw [reportSuccess]
    split <;> rfl
  rw [reportFailure]
  split <;> rfl

theorem available_key (r now) : (available r now).1.key = r.key := by
  rcases available_same_or_relabel r now with h | ⟨-, -, h⟩ <;> rw [h]

theorem Listed.observeRecord (h : Listed s) (hr : s.entries.lookup key = some r)
    (outcome time delay reason version token active) :
    Listed (observeRecord s key r outcome time delay reason version token active) := by
  have hsav : Listed (save s key (report s.breaker s.draws r outcome time delay reason)) :=
    h.rewrites (.save hr (report_key ..))
  rw [HealthLedger.observeRecord]
  split
  · split
    · exact hsav
    · refine Listed.removes ?_ (evictExcess_removes _)
      exact { hsav with }
  · exact h

theorem Listed.observeLocked (h : Listed s) (outcome time delay reason version token active) :
    Listed (observeLocked s key outcome time delay reason version token active) := by
  have hpr : Listed (pruneExpiredLocked s time) := h.removes (prune_removes s time)
  rw [HealthLedger.observeLocked]
  split
  · rename_i hno
    split
    · exact hpr
    · exact (hpr.create hno rfl).observeRecord (AList.lookup_insert _) ..
  · rename_i r hr
    split
    · exact hpr
    · exact (hpr.moveToFront hr).observeRecord hr ..

theorem Listed.observeQualityLocked (h : Listed s) (o weight) : Listed (observeQualityLocked s key o weight) := by
  have hpr : Listed (pruneExpiredLocked s o.time) := h.removes (prune_removes s o.time)
  rw [HealthLedger.observeQualityLocked]
  split
  · rename_i hno
    refine Listed.removes ((hpr.create hno rfl).rewrites (.save (AList.lookup_insert _) ?_))
      (evictExcess_removes _)
    exact (reportQuality_same ..).key
  · rename_i r hr
    split
    · exact hpr
    · refine Listed.removes ((hpr.moveToFront hr).rewrites (.save hr ?_)) (evictExcess_removes _)
      exact (reportQuality_same ..).key

section

variable (now : Time) (keys : List HealthKey) (s : HealthStore) (entries : List PermitEntry)

theorem releaseTokenLocked_rewrites (e) : Rewrites s (releaseTokenLocked s e) := by
  rw [releaseTokenLocked]
  split
  · exact .refl s
  rename_i r hr
  split
  · exact .save hr rfl
  · exact .refl s

theorem releasePermit_rewrites : Rewrites s (releasePermit s entries) := by
  induction entries generalizing s with
  | nil => exact .refl s
  | cons e entries ih => exact (releaseTokenLocked_rewrites s e).trans (ih _)

theorem acquireResolved_rewrites (key now) : Rewrites s (acquireResolved s (s.entries.lookup key) key now).1 := by
  cases hr : s.entries.lookup key with
  | none => exact .refl s
  | some r =>
    rw [acquireResolved]
    split
    · exact .save hr (available_key r now)
    split
    · have hsave : Rewrites s (save s key (reserve r (s.nextToken + 1))) := .save hr rfl
      exact { hsave with }
    · exact .refl s

theorem acquireLoop_rewrites : Rewrites s (acquireLoop now keys s entries).1 := by
  induction keys generalizing s entries with
  | nil => exact .refl s
  | cons key keys ih =>
    obtain ⟨k, -, hk⟩ := recordForKey_some s key
    have hr := acquireResolved_rewrites s k now
    rw [acquireLoop, hk]
    split
    · rename_i s' href
      rw [href] at hr
      exact hr.trans (releasePermit_rewrites s' entries)
    · rename_i s' e hgran
      rw [hgran] at hr
      exact hr.trans (ih s' _)

theorem tryAcquireDomainPermit_rewrites (handle domain transport service now order) :
    Rewrites s (tryAcquireDomainPermit s handle domain transport service now order).1 := by
  obtain ⟨k, hk⟩ := domain_resolves s handle domain transport service now order
  rw [hk]
  exact acquireResolved_rewrites s k now

theorem canAttemptLocked_rewrites (handle service now) : Rewrites s (canAttemptLocked s handle service now).1 :=
  canAttemptLocked_rule (.refl s) (fun _ _ r h hr => h.trans (.save hr (available_key r now))) handle service

end

theorem Listed.completePermitDomains (h : Listed s) (entries outcomes time delay reason) :
    Listed (completePermitDomains s entries outcomes time delay reason) := by
  change Listed (entries.foldl (completeEntry outcomes time delay reason) s)
  induction entries generalizing s with
  | nil => exact h
  | cons e entries ih =>
    refine ih ?_
    rw [completeEntry]
    split
    · exact h.rewrites (releaseTokenLocked_rewrites s e)
    · exact h.rewrites (releaseTokenLocked_rewrites s e)
    · exact h.observeLocked ..

end

theorem listed_step {w} (h : Listed w.store) (op) : Listed (step w op).store := by
  have hiss : ∀ kind result, Rewrites w.store result.1 → Listed (issue w kind result).store := by
    intro kind result hres
    rw [issue]
    split <;> exact h.rewrites hres
  have hfin : ∀ i effect, (∀ entries, Listed (effect w.store entries)) → Listed (finish w i effect).store := by
    intro i effect heff
    rcases finish_cases w i effect with ⟨heq, -⟩ | ⟨p, -, -, heq⟩
    · rw [heq]
      exact h
    · rw [heq]
      exact heff p.entries
  cases op with
  | dial => exact hiss _ _ (acquireLoop_rewrites ..)
  | domain => exact hiss _ _ (tryAcquireDomainPermit_rewrites ..)
  | fallback => exact hiss _ _ (.refl _)
  | complete => exact hfin _ _ fun entries => h.completePermitDomains entries ..
  | release => exact hfin _ _ fun entries => h.rewrites (releasePermit_rewrites _ entries)
  | observe o eligible weight now =>
    rw [step, observeEvidence]
    dsimp only
    split
    · exact h
    split
    · exact h.observeLocked ..
    · exact h.observeQualityLocked ..
  | canAttempt => exact h.rewrites (canAttemptLocked_rewrites ..)
  | retire handle => exact h.removes (retireNodeHandle_removes _ handle)

theorem listed_start (retention maxEntries breaker) : Listed (start retention maxEntries breaker).store := by
  refine ⟨fun k r hr => ?_, fun k => ?_, nodup_nil, ?_⟩
  · simp [start, newHealthStoreWithClock] at hr
  · simp [start, newHealthStoreWithClock]
  · change (1 : Int) ≤ if maxEntries ≤ 0 then 4096 else maxEntries
    split <;> omega

end SingBox.LedgerListing
