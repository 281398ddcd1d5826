import SingBox.BreakerMoves
import SingBox.HealthLedger

namespace SingBox.LedgerMoves

open Values Maps BreakerRecord BreakerMoves HealthLedger

structure Shrinks (s s' : HealthStore) : Prop where
  entries : Submap s'.entries s.entries
  nextToken : s'.nextToken = s.nextToken
  allocated : s'.allocated = s.allocated
  breaker : s'.breaker = s.breaker

theorem Shrinks.refl (s) : Shrinks s s := ⟨.refl _, rfl, rfl, rfl⟩

theorem Shrinks.trans {a b c} (hab : Shrinks a b) (hbc : Shrinks b c) : Shrinks a c :=
  ⟨hbc.entries.trans hab.entries, hbc.nextToken.trans hab.nextToken, hbc.allocated.trans hab.allocated,
    hbc.breaker.trans hab.breaker⟩

theorem lookup_save (s key k r) : (save s key r).entries.lookup k = if k = key then some r else s.entries.lookup k :=
  lookup_set s.entries key k r

def Removes : HealthStore → HealthStore → Prop := Relation.ReflTransGen fun s s' => ∃ r, s' = removeLocked s r

theorem Removes.shrinks {s s'} (h : Removes s s') : Shrinks s s' := by
  induction h with
  | refl => exact .refl s
  | tail _ hr ih =>
    obtain ⟨r, rfl⟩ := hr
    exact ih.trans ⟨erase_submap _ _, rfl, rfl, rfl⟩

theorem prune_removes (s now) : Removes s (pruneExpiredLocked s now) := by
  rw [pruneExpiredLocked]
  generalize s.lru.reverse = keys
  induction keys generalizing s with
  | nil => exact .refl
  | cons key keys ih =>
    rw [pruneFrom]
    split
    · exact .refl
    split
    · exact .refl
    · exact .head ⟨_, rfl⟩ (ih _)

theorem removeOldestLocked_removes (s) : Removes s (removeOldestLocked s) := by
  rw [removeOldestLocked]
  split
  · exact .refl
  split
  · exact .refl
  · exact .single ⟨_, rfl⟩

theorem evictExcess_removes (s) : Removes s (evictExcess s) := by
  rw [evictExcess]
  generalize s.lru.length = n
  induction n generalizing s with
  | zero => exact .refl
  | succ n ih =>
    rw [evictFrom]
    split
    · exact (removeOldestLocked_removes s).trans (ih _)
    · exact .refl

theorem retireNodeHandle_removes (s handle) : Removes s (retireNodeHandle s handle) := by
  rw [retireNodeHandle]
  generalize s.entries.keys = keys
  induction keys generalizing s with
  | nil => exact .refl
  | cons key keys ih =>
    rw [List.foldl_cons]
    refine .trans ?_ (ih _)
    split
    · exact .refl
    split
    · exact .single ⟨_, rfl⟩
    · exact .refl

/-- The store changed under one key at most: what stands there comes from the
record that stood there before, or was allocated by this change. Records under
other keys may have been removed. -/
structure Touches (s s' : HealthStore) (key : HealthKey) (moved : HealthRecord → HealthRecord → Prop)
    (made : HealthRecord → Prop) : Prop where
  others : ∀ k r, k ≠ key → s'.entries.lookup k = some r → s.entries.lookup k = some r
  own : ∀ r', s'.entries.lookup key = some r' → (∃ r, s.entries.lookup key = some r ∧ moved r r') ∨
    made r' ∧ s.allocated ≤ r'.addr ∧ r'.addr < s'.allocated
  nextToken : s'.nextToken = s.nextToken
  allocated : s.allocated ≤ s'.allocated
  breaker : s'.breaker = s.breaker

variable {s s' t : HealthStore} {key : HealthKey} {moved : HealthRecord → HealthRecord → Prop}
  {made : HealthRecord → Prop}

theorem Touches.shrink (h : Touches s s' key moved made) (ht : Shrinks s' t) : Touches s t key moved made where
  others k r hk hr := h.others k r hk (ht.entries k r hr)
  own r hr := ht.allocated ▸ h.own r (ht.entries key r hr)
  nextToken := ht.nextToken.trans h.nextToken
  allocated := ht.allocated ▸ h.allocated
  breaker := ht.breaker.trans h.breaker

theorem Touches.after_shrink (hs : Shrinks s t) (h : Touches t s' key moved made) :
    Touches s s' key moved made where
  others k r hk hr := hs.entries k r (h.others k r hk hr)
  own r hr := hs.allocated ▸ (h.own r hr).imp_left fun ⟨r₀, hr₀, hm⟩ => ⟨r₀, hs.entries key r₀ hr₀, hm⟩
  nextToken := h.nextToken.trans hs.nextToken
  allocated := hs.allocated ▸ h.allocated
  breaker := h.breaker.trans hs.breaker

theorem Touches.of_shrinks (hs : Shrinks s s') (hmv : ∀ r, s.entries.lookup key = some r → moved r r) :
    Touches s s' key moved made where
  others k r _ hr := hs.entries k r hr
  own r hr := .inl ⟨r, hs.entries key r hr, hmv r (hs.entries key r hr)⟩
  nextToken := hs.nextToken
  allocated := le_of_eq hs.allocated.symm
  breaker := hs.breaker

theorem save_touches (key) {r r'} (hr : s.entries.lookup key = some r) (hm : moved r r') :
    Touches s (save s key r') key moved made where
  others k q hk h := by rwa [lookup_save, if_neg hk] at h
  own q h := by
    rw [lookup_save, if_pos rfl] at h
    cases h
    exact .inl ⟨r, hr, hm⟩
  nextToken := rfl
  allocated := le_rfl
  breaker := rfl

def Accepts (r : HealthRecord) (time : Time) (version token : Nat) (active : Bool) : Prop :=
  stale r time = false ∧ admits r version token active = true

def Reported (cfg : BreakerConfig) (outcome : ObservationOutcome) (time : Time) (version token : Nat)
    (active : Bool) (r r' : HealthRecord) : Prop :=
  r' = r ∧ ¬ Accepts r time version token active ∨
    Accepts r time version token active ∧ ∃ draw delay reason, r' = report cfg draw r outcome time delay reason

def MadeByReport (cfg : BreakerConfig) (key : HealthKey) (outcome : ObservationOutcome) (time : Time)
    (version : Nat) (active : Bool) (r' : HealthRecord) : Prop :=
  (active = true → version = 0) ∧ ∃ addr draw delay reason,
    r' = report cfg draw { addr := addr, key := key } outcome time delay reason

variable (s : HealthStore) (key : HealthKey) (outcome : ObservationOutcome) (time : Time) (delay : Duration)
  (reason : String) (version token : Nat) (active : Bool)

theorem observeRecord_touches (r) (hr : s.entries.lookup key = some r) (hstale : stale r time = false) :
    Touches s (observeRecord s key r outcome time delay reason version token active) key
      (Reported s.breaker outcome time version token active) (fun _ => False) := by
  rw [observeRecord]
  by_cases ha : admits r version token active = true
  · have hsave : Touches s (save s key (report s.breaker s.draws r outcome time delay reason)) key
        (Reported s.breaker outcome time version token active) (fun _ => False) :=
      save_touches key hr (.inr ⟨⟨hstale, ha⟩, s.draws, delay, reason, rfl⟩)
    rw [if_pos ha]
    split
    · exact hsave
    · refine .shrink ?_ (evictExcess_removes _).shrinks
      exact ⟨hsave.others, hsave.own, rfl, le_rfl, rfl⟩
  · rw [if_neg ha]
    refine .of_shrinks (.refl s) fun r' hr' => .inl ⟨rfl, ?_⟩
    rw [hr] at hr'
    cases hr'
    exact fun h => ha h.2

theorem observeRecord_makes (hvers : active = true → version = 0) :
    Touches s (observeRecord (create s key { addr := s.allocated, key := key }) key
        { addr := s.allocated, key := key } outcome time delay reason version token active) key
      (Reported s.breaker outcome time version token active)
      (MadeByReport s.breaker key outcome time version active) := by
  have hadm : admits { addr := s.allocated, key := key } version token active = true := by
    cases active <;> simp_all [admits]
  have ht := observeRecord_touches (create s key { addr := s.allocated, key := key }) key outcome time delay
    reason version token active { addr := s.allocated, key := key } (by simp [create]) rfl
  refine ⟨?_, ?_, ht.nextToken, Nat.le_trans (Nat.le_succ _) ht.allocated, ht.breaker⟩
  · intro k r hk h
    have h' := ht.others k r hk h
    simp only [create] at h'
    rwa [lookup_set, if_neg hk] at h'
  · intro r' h
    rcases ht.own r' h with ⟨r, hr, hrep⟩ | ⟨hfalse, _⟩
    · simp only [create, AList.lookup_insert, Option.some.injEq] at hr
      subst hr
      rcases hrep with ⟨_, hrej⟩ | ⟨_, draw, delay, reason, rfl⟩
      · exact absurd ⟨rfl, hadm⟩ hrej
      refine .inr ⟨⟨hvers, _, draw, delay, reason, rfl⟩, ?_, ?_⟩
      · rw [report_addr]
      · rw [report_addr]
        exact ht.allocated
    · exact hfalse.elim

theorem observeLocked_touches :
    Touches s (observeLocked s key outcome time delay reason version token active) key
      (Reported s.breaker outcome time version token active)
      (MadeByReport s.breaker key outcome time version active) := by
  have hp := (prune_removes s time).shrinks
  rw [observeLocked]
  generalize pruneExpiredLocked s time = p at hp
  apply Touches.after_shrink hp
  rw [← hp.breaker]
  split
  · next hno =>
    by_cases hact : (active && version != 0) = true
    · rw [if_pos hact]
      refine .of_shrinks (.refl p) fun r hr => ?_
      rw [hno] at hr
      cases hr
    · rw [if_neg hact]
      refine observeRecord_makes p key outcome time delay reason version token active fun h => ?_
      simpa [h] using hact
  · next r hr =>
    by_cases hstale : stale r time = true
    · rw [if_pos hstale]
      refine .of_shrinks (.refl p) fun r' hr' => .inl ⟨rfl, fun h => ?_⟩
      rw [hr] at hr'
      cases hr'
      exact Bool.false_ne_true (h.1.symm.trans hstale)
    · rw [if_neg hstale]
      have ht := observeRecord_touches (moveToFront p key) key outcome time delay reason version token active r
        hr (Bool.not_eq_true _ ▸ hstale)
      exact { ht with own := fun r' h => (ht.own r' h).imp_right fun h => h.1.elim }

theorem observeQualityLocked_touches (o weight) :
    Touches s (observeQualityLocked s key o weight) key SameBreaker fun r' =>
      ∃ addr, SameBreaker { addr := addr, key := key, status := { breaker := .closed } } r' := by
  have hp := (prune_removes s o.time).shrinks
  rw [observeQualityLocked]
  generalize pruneExpiredLocked s o.time = p at hp
  apply Touches.after_shrink hp
  split
  · refine .shrink ?_ (evictExcess_removes _).shrinks
    have hg := reportQuality_same p.breaker { addr := p.allocated, key := key, status := { breaker := .closed } }
      o.outcome o.time o.delay o.reason weight
    refine ⟨?_, ?_, rfl, Nat.le_succ _, rfl⟩
    · intro k r hk h
      rw [lookup_save, if_neg hk] at h
      simp only [create] at h
      rwa [lookup_set, if_neg hk] at h
    · intro r h
      rw [lookup_save, if_pos rfl] at h
      cases h
      exact .inr ⟨⟨_, hg⟩, le_of_eq hg.addr.symm, hg.addr ▸ Nat.lt_succ_self _⟩
  · next r hr =>
    by_cases hstale : stale r o.time = true
    · rw [if_pos hstale]
      exact .of_shrinks (.refl p) fun r _ => .refl r
    rw [if_neg hstale]
    have hsave : Touches (moveToFront p key) (save (moveToFront p key) key
        (reportQuality p.breaker r o.outcome o.time o.delay o.reason weight)) key SameBreaker fun r' =>
          ∃ addr, SameBreaker { addr := addr, key := key, status := { breaker := .closed } } r' :=
      save_touches key hr (reportQuality_same p.breaker r o.outcome o.time o.delay o.reason weight)
    refine .shrink ?_ (evictExcess_removes _).shrinks
    exact ⟨hsave.others, hsave.own, rfl, le_rfl, rfl⟩

end SingBox.LedgerMoves
