import SingBox.LeaseLedger

namespace SingBox.LeaseReservations

open List hiding after
open Option Arena Maps Runs Values SessionLeases LeaseLedger

variable {m m' : SessionLeaseManager} {key : SessionKey} {i : Nat} {r : LeaseReservation} {j x : Nat}

/-- What stands in the pending map, and what every reservation and every waiting
call knows about its pending record. A reservation and its record are made
together, so both have the same place. -/
structure Issued (m : SessionLeaseManager) : Prop where
  lengths : m.pendings.length = m.reservations.length
  nextToken : m.nextToken = m.reservations.length
  issued : ∀ (i : Nat) r, m.reservations[i]? = some r → r.token = i + 1 ∧ r.generation ≤ m.generation ∧
    ∃ p, m.pendings[i]? = some p ∧ p.generation = r.generation ∧ p.token = r.token ∧
      p.closed = if m.pending.lookup r.key = some i then 0 else 1
  pending : ∀ k i, m.pending.lookup k = some i → ∃ r, m.reservations[i]? = some r ∧ r.key = k
  calls : ∀ (c : Nat) call, m.calls[c]? = some call →
    ∃ r, m.reservations[call.record]? = some r ∧ r.key = call.key

def Current (m : SessionLeaseManager) : Prop :=
  ∀ k i r, m.pending.lookup k = some i → m.reservations[i]? = some r → r.generation = m.generation

structure SameReservations (m m' : SessionLeaseManager) : Prop where
  pending : m'.pending = m.pending
  generation : m'.generation = m.generation
  nextToken : m'.nextToken = m.nextToken
  pendings : m'.pendings = m.pendings
  reservations : m'.reservations = m.reservations
  calls : m'.calls = m.calls

namespace SameReservations

protected theorem refl (m) : SameReservations m m := ⟨rfl, rfl, rfl, rfl, rfl, rfl⟩

theorem trans {a b c} (hab : SameReservations a b) (hbc : SameReservations b c) : SameReservations a c :=
  ⟨hbc.pending.trans hab.pending, hbc.generation.trans hab.generation, hbc.nextToken.trans hab.nextToken,
    hbc.pendings.trans hab.pendings, hbc.reservations.trans hab.reservations, hbc.calls.trans hab.calls⟩

theorem issued (h : SameReservations m m') (hi : Issued m) : Issued m' := by
  obtain ⟨hp, hg, hn, hps, hr, hc⟩ := h
  constructor
  · rw [hps, hr]; exact hi.lengths
  · rw [hn, hr]; exact hi.nextToken
  · rw [hr, hps, hp, hg]; exact hi.issued
  · rw [hp, hr]; exact hi.pending
  · rw [hc, hr]; exact hi.calls

theorem current (h : SameReservations m m') (hc : Current m) : Current m' := by
  obtain ⟨hp, hg, -, -, hr, -⟩ := h
  rw [Current, hp, hr, hg]
  exact hc

end SameReservations

section

variable (m)

theorem moveToFront_same (i) : SameReservations m (moveToFront m i) :=
  ⟨rfl, rfl, rfl, rfl, rfl, rfl⟩

theorem rewrite_same (i lease) : SameReservations m (rewrite m i lease) := ⟨rfl, rfl, rfl, rfl, rfl, rfl⟩

theorem install_same (lease) : SameReservations m (install m lease) :=
  ⟨rfl, rfl, rfl, rfl, rfl, rfl⟩

theorem removeLocked_same (i) : SameReservations m (removeLocked m i) := by
  rw [removeLocked]
  split <;> exact ⟨rfl, rfl, rfl, rfl, rfl, rfl⟩

theorem evictFrom_same (n m) : SameReservations m (evictFrom n m) := by
  induction n generalizing m with
  | zero => exact .refl m
  | succ n ih =>
    rw [evictFrom]
    split
    · refine .trans ?_ (ih _)
      rw [removeOldestLocked]
      split
      · exact .refl m
      · exact removeLocked_same m _
    · exact .refl m

theorem evictExcess_same : SameReservations m (evictExcess m) := evictFrom_same _ m

section

variable (key : SessionKey)

theorem peek_same (now) : SameReservations m (peek m key now).1 := by
  rw [peek]
  split
  · exact .refl m
  split
  · exact moveToFront_same m _
  · exact removeLocked_same m _

theorem invalidate_same (expected) : SameReservations m (invalidate m key expected) := by
  rw [invalidate]
  split
  · exact .refl m
  split
  · exact removeLocked_same m _
  · exact .refl m

theorem replaceHandle_same (expected next serviceID mode ttl now) :
    SameReservations m (replaceHandle m key expected next serviceID mode ttl now).1 := by
  rw [replaceHandle]
  split
  · split
    · exact .refl m
    · exact (rewrite_same m ..).trans (moveToFront_same ..)
  · split
    · exact .refl m
    · exact (install_same m _).trans (evictExcess_same _)

theorem renewHandle_same (expected ttl now) : SameReservations m (renewHandle m key expected ttl now).1 := by
  rw [renewHandle]
  split
  · exact .refl m
  split
  · exact .refl m
  · exact (rewrite_same m ..).trans (moveToFront_same ..)

end

theorem retireNodeHandle_same (handle order) : SameReservations m (retireNodeHandle m handle order) := by
  refine run_invariant (I := SameReservations m) (fun m key h => h.trans ?_) (.refl m) _
  rw [retireRecord]
  split
  · exact .refl m
  split
  · exact removeLocked_same m _
  · exact .refl m

theorem restorePersistence_same (leases now) : SameReservations m (restorePersistence m leases now) := by
  refine .trans ?_ (evictExcess_same _)
  refine run_invariant (I := SameReservations m) (fun m lease h => h.trans ?_) (.refl m) leases
  rw [restoreLease]
  split
  · exact .refl m
  split
  · exact install_same m _
  split
  · exact .refl m
  · exact (removeLocked_same m _).trans (install_same ..)

end

theorem getElem?_finishReservation (m i j) : (finishReservation m i).reservations[j]? =
      m.reservations[j]?.map fun r => if i = j then { r with finished := true } else r := by
  simp [finishReservation, getElem?_modify]

def Alike (r r' : LeaseReservation) : Prop :=
  r'.key = r.key ∧ r'.generation = r.generation ∧ r'.token = r.token

theorem alike_of_finishReservation {r'} (h : (finishReservation m i).reservations[j]? = some r') :
    ∃ r, m.reservations[j]? = some r ∧ Alike r r' := by
  rw [getElem?_finishReservation, map_eq_some_iff] at h
  obtain ⟨r, hr, rfl⟩ := h
  refine ⟨r, hr, ?_⟩
  split <;> exact ⟨rfl, rfl, rfl⟩

theorem finishReservation_alike (i) (h : m.reservations[j]? = some r) :
    ∃ r', (finishReservation m i).reservations[j]? = some r' ∧ Alike r r' := by
  refine ⟨_, by rw [getElem?_finishReservation, h, map_some], ?_⟩
  split <;> exact ⟨rfl, rfl, rfl⟩

theorem Issued.finishReservation (hi : Issued m) (i) : Issued (finishReservation m i) where
  lengths := by simpa [SessionLeases.finishReservation] using hi.lengths
  nextToken := by simpa [SessionLeases.finishReservation] using hi.nextToken
  issued j r' hr' := by
    obtain ⟨r, hr, hk, hgen, htok⟩ := alike_of_finishReservation hr'
    rw [hk, hgen, htok]
    exact hi.issued j r hr
  pending k j h := by
    obtain ⟨r, hr, hk⟩ := hi.pending k j h
    obtain ⟨r', hr', halike⟩ := finishReservation_alike i hr
    exact ⟨r', hr', halike.1.trans hk⟩
  calls c call h := by
    obtain ⟨r, hr, hk⟩ := hi.calls c call h
    obtain ⟨r', hr', halike⟩ := finishReservation_alike i hr
    exact ⟨r', hr', halike.1.trans hk⟩

section

variable (m : SessionLeaseManager)

theorem lookup_closePending (key k) :
    (closePending m key).pending.lookup k = if k = key then none else m.pending.lookup k := by
  rw [closePending]
  split
  · rename_i h
    by_cases hk : k = key
    · rw [if_pos hk, hk, h]
    · rw [if_neg hk]
  · exact lookup_del m.pending key k

@[simp] theorem closePending_reservations (key) : (closePending m key).reservations = m.reservations := by
  rw [closePending]
  split <;> rfl

@[simp] theorem closePending_generation (key) : (closePending m key).generation = m.generation := by
  rw [closePending]
  split <;> rfl

end

-- The record that leaves the map is the one whose channel is closed, and its
-- channel was open as the record stood in the map.
theorem Issued.closePending (hi : Issued m) (key) : Issued (closePending m key) := by
  rw [SessionLeases.closePending]
  split
  · exact hi
  rename_i p hp
  obtain ⟨rp, hrp, hkeyp⟩ := hi.pending key p hp
  refine ⟨by simpa using hi.lengths, hi.nextToken, ?_, ?_, hi.calls⟩
  · intro i r hr
    obtain ⟨htok, hgen, pd, hpd, hpgen, hptok, hcl⟩ := hi.issued i r hr
    refine ⟨htok, hgen, ?_⟩
    by_cases hpi : p = i
    · subst hpi
      obtain rfl : rp = r := mem_unique hrp hr
      rw [hkeyp, hp] at hcl
      refine ⟨{ pd with closed := pd.closed + 1 }, by simp [hpd], hpgen, hptok, ?_⟩
      rw [hkeyp]
      simp [hcl]
    · refine ⟨pd, by simp [hpi, hpd], hpgen, hptok, ?_⟩
      rw [hcl]
      by_cases hk : r.key = key
      · rw [hk, hp]
        simp [hpi]
      · simp [hk]
  · intro k i h
    exact hi.pending k i (erase_submap _ _ k i h)

theorem Issued.reservePending (hi : Issued m) (key) : Issued (reservePending m key).1 := by
  rw [SessionLeases.reservePending]
  split
  · rename_i p hp
    refine ⟨by simpa using hi.lengths, hi.nextToken, ?_, hi.pending, hi.calls⟩
    intro i r hr
    obtain ⟨htok, hgen, pd, hpd, hpgen, hptok, hcl⟩ := hi.issued i r hr
    refine ⟨htok, hgen, if p = i then { pd with waiters := pd.waiters + 1 } else pd, ?_⟩
    refine ⟨by simp [getElem?_modify, hpd], ?_⟩
    split <;> exact ⟨hpgen, hptok, hcl⟩
  · rename_i hno
    have hlen := hi.lengths
    have hn := hi.nextToken
    refine ⟨by simp [hlen], by simp [hn], ?_, ?_, ?_⟩
    · intro i r hr
      rcases of_append hr with hr | ⟨rfl, rfl⟩
      · obtain ⟨htok, hgen, pd, hpd, hpgen, hptok, hcl⟩ := hi.issued i r hr
        have hlt := lt_of_some hr
        refine ⟨htok, hgen, pd, append_of hpd, hpgen, hptok, ?_⟩
        rw [hcl]
        by_cases hk : r.key = key
        · rw [hk, hno]
          simp [show m.pendings.length ≠ i by omega]
        · simp [hk]
      · refine ⟨by simp [hn], le_rfl, _, by rw [← hlen]; exact getElem?_concat_length, rfl, rfl, ?_⟩
        simp [hlen]
    · intro k i h
      rcases lookup_of_insert h with ⟨rfl, rfl⟩ | ⟨-, h⟩
      · exact ⟨_, by rw [hlen]; exact getElem?_concat_length, rfl⟩
      · obtain ⟨r, hr, hke⟩ := hi.pending k i h
        exact ⟨r, append_of hr, hke⟩
    · intro c call h
      obtain ⟨r, hr, hke⟩ := hi.calls c call h
      exact ⟨r, append_of hr, hke⟩

structure Grows (m m' : SessionLeaseManager) : Prop where
  generation : m.generation ≤ m'.generation
  reservations : ∀ (i : Nat) r, m.reservations[i]? = some r → ∃ r', m'.reservations[i]? = some r' ∧ Alike r r'

namespace Grows

protected theorem refl (m) : Grows m m := ⟨le_rfl, fun _ r h => ⟨r, h, rfl, rfl, rfl⟩⟩

theorem trans {a b c} (hab : Grows a b) (hbc : Grows b c) : Grows a c := by
  refine ⟨hab.generation.trans hbc.generation, fun i r hr => ?_⟩
  obtain ⟨r₁, hr₁, hk, hg, ht⟩ := hab.reservations i r hr
  obtain ⟨r₂, hr₂, hk', hg', ht'⟩ := hbc.reservations i r₁ hr₁
  exact ⟨r₂, hr₂, hk'.trans hk, hg'.trans hg, ht'.trans ht⟩

theorem of_eq (hg : m'.generation = m.generation) (hr : m'.reservations = m.reservations) : Grows m m' :=
  ⟨hg.ge, fun _ r h => ⟨r, hr ▸ h, rfl, rfl, rfl⟩⟩

theorem closePending (m key) : Grows m (closePending m key) :=
  .of_eq (closePending_generation m key) (closePending_reservations m key)

theorem reservePending (m key) : Grows m (reservePending m key).1 := by
  rw [SessionLeases.reservePending]
  split
  · exact .of_eq rfl rfl
  · exact ⟨le_rfl, fun i r hr => ⟨r, append_of hr, rfl, rfl, rfl⟩⟩

end Grows

/-- The changes of the reservations and pending records that every operation
but `clear` is made of. -/
inductive Turn : SessionLeaseManager → SessionLeaseManager → Prop
  | same {m m' : SessionLeaseManager} (h : SameReservations m m') : Turn m m'
  | finish (m : SessionLeaseManager) (i : Nat) : Turn m (finishReservation m i)
  | close (m : SessionLeaseManager) (key : SessionKey) : Turn m (closePending m key)
  | reserve (m : SessionLeaseManager) (key : SessionKey) : Turn m (reservePending m key).1
  | calls (m : SessionLeaseManager) (calls : List ReserveCall)
      (h : ∀ (c : Nat) call, calls[c]? = some call →
        ∃ r, m.reservations[call.record]? = some r ∧ r.key = call.key) : Turn m { m with calls := calls }
  | trans {a b c : SessionLeaseManager} (hab : Turn a b) (hbc : Turn b c) : Turn a c

namespace Turn

protected theorem refl (m) : Turn m m := .same (.refl m)

theorem issued (h : Turn m m') (hi : Issued m) : Issued m' := by
  induction h with
  | same h => exact h.issued hi
  | finish m i => exact hi.finishReservation i
  | close m key => exact hi.closePending key
  | reserve m key => exact hi.reservePending key
  | calls m calls h => exact { hi with calls := h }
  | trans hab hbc iha ihb => exact ihb (iha hi)

theorem grows (h : Turn m m') : Grows m m' := by
  induction h with
  | same h => exact .of_eq h.generation h.reservations
  | finish m i => exact ⟨le_rfl, fun _ _ => finishReservation_alike i⟩
  | close m key => exact .closePending m key
  | reserve m key => exact .reservePending m key
  | calls m calls h => exact .of_eq rfl rfl
  | trans hab hbc iha ihb => exact iha.trans ihb

theorem current (h : Turn m m') (hi : Issued m) (hc : Current m) : Current m' := by
  induction h with
  | same h => exact h.current hc
  | finish m i =>
    intro k j r' hk hr'
    obtain ⟨r, hr, -, hgen, -⟩ := alike_of_finishReservation hr'
    exact hgen.trans (hc k j r hk hr)
  | close m key =>
    intro k j r hk hr
    rw [lookup_closePending] at hk
    rw [closePending_reservations] at hr
    rw [closePending_generation]
    split at hk
    · cases hk
    · exact hc k j r hk hr
  | reserve m key =>
    rw [reservePending]
    split
    · exact hc
    intro k j r hk hr
    rcases lookup_of_insert hk with ⟨rfl, rfl⟩ | ⟨-, hk⟩
    · rw [hi.lengths, getElem?_concat_length] at hr
      exact some.inj hr ▸ rfl
    obtain ⟨r₀, hr₀, -⟩ := hi.pending k j hk
    rw [getElem?_append_left (lt_of_some hr₀)] at hr
    exact hc k j r hk hr
  | calls m calls h => exact hc
  | trans hab hbc iha ihb => exact ihb (hab.issued hi) (iha hi hc)

end Turn

section

variable (m)

theorem finishPendingLocked_turn (key generation token) : Turn m (finishPendingLocked m key generation token) := by
  rw [finishPendingLocked]
  split
  · exact .close m key
  · exact .refl m

theorem abort_turn (i) : Turn m (abort m i) := by
  rw [abort]
  split
  · exact .refl m
  split
  · exact .refl m
  · exact .trans (.finish m i) (finishPendingLocked_turn ..)

theorem committed_turn (i r lease) : Turn m (committed m i r lease) := by
  refine .trans (.finish m i) (.trans (.same ?_) (finishPendingLocked_turn ..))
  exact (install_same ..).trans (evictExcess_same _)

theorem commitHandle_turn (i handle serviceID mode ttl now) :
    Turn m (commitHandle m i handle serviceID mode ttl now).1 := by
  cases hr : m.reservations[i]? with
  | none => rw [commitHandle_of_none hr]; exact .refl m
  | some r =>
    by_cases hable : Able m r
    · rw [commitHandle_of_able hr hable]
      exact committed_turn m i r _
    rw [commitHandle_of_unable hr hable]
    split
    · exact .refl m
    · exact .finish m i

theorem reserveRound_turn (key now) : Turn m (reserveRound m key now).1 := by
  rw [reserveRound]
  split
  · exact .reserve m key
  split
  · exact .same (moveToFront_same m _)
  · exact .trans (.same (removeLocked_same m _)) (.reserve _ key)

variable {m}

theorem reservePending_wait {p} (h : (reservePending m key).2 = .wait p) :
    m.pending.lookup key = some p ∧ (reservePending m key).1.reservations = m.reservations := by
  rw [reservePending] at h ⊢
  split at h
  · rename_i q hq
    cases h
    simp [hq]
  · cases h

theorem Issued.reserveRound_wait (hi : Issued m) (key now p) (h : (reserveRound m key now).2 = .wait p) :
    ∃ r, (reserveRound m key now).1.reservations[p]? = some r ∧ r.key = key := by
  rw [reserveRound] at h ⊢
  split at h
  · obtain ⟨hp, hres⟩ := reservePending_wait h
    rw [hres]
    exact hi.pending key p hp
  · rename_i i lease hrec
    split at h
    · cases h
    rename_i hexp
    obtain ⟨hp, hres⟩ := reservePending_wait h
    have hsame := removeLocked_same m i
    simp only [if_neg hexp]
    rw [hres, hsame.reservations]
    rw [hsame.pending] at hp
    exact hi.pending key p hp

-- A call that waits waits for the record its key had in the pending map.
theorem Issued.reserve_turn (hi : Issued m) (key now) : Turn m (reserve m key now) := by
  have hr := reserveRound_turn m key now
  have hwait := hi.reserveRound_wait key now
  rw [reserve]
  split
  · rename_i m₁ p heq
    rw [heq] at hr hwait
    refine .trans hr (.calls m₁ _ fun c call hc => ?_)
    rcases of_append hc with hc | ⟨-, rfl⟩
    · exact (hr.issued hi).calls c call hc
    · exact hwait p rfl
  · rename_i m₁ res _ heq
    rw [heq] at hr
    exact hr

theorem Issued.wake_turn (hi : Issued m) (c) : Turn m (wake m c) := by
  have hset {m₁} {call} (hrd : Turn m m₁)
      (hown : ∃ r, m₁.reservations[call.record]? = some r ∧ r.key = call.key) :
      Turn m { m₁ with calls := m₁.calls.set c call } := by
    refine .trans hrd (.calls m₁ _ fun c' call' hc => ?_)
    rcases of_set hc with ⟨-, rfl⟩ | ⟨-, hc⟩
    · exact hown
    · exact (hrd.issued hi).calls c' call' hc
  rw [wake]
  split
  · exact .refl m
  rename_i call hca
  split
  · have hrd := reserveRound_turn m call.key call.now
    have hwait := hi.reserveRound_wait call.key call.now
    split
    · rename_i m₁ p heq
      rw [heq] at hrd hwait
      exact hset hrd (hwait p rfl)
    · rename_i m₁ res _ heq
      rw [heq] at hrd
      obtain ⟨r, hr, hk⟩ := hi.calls c call hca
      obtain ⟨r', hr', halike⟩ := hrd.grows.reservations _ r hr
      exact hset hrd ⟨r', hr', halike.1.trans hk⟩
  · exact .refl m

theorem Issued.giveUp_turn (hi : Issued m) (c) : Turn m (giveUp m c) := by
  refine .calls m _ fun c' call' hc => ?_
  obtain ⟨call, hca, rfl⟩ := of_modify hc
  obtain ⟨r, hr, hk⟩ := hi.calls c' call hca
  split <;> exact ⟨r, hr, hk⟩

end

section

theorem Issued.clear (hi : Issued m) (order) : Issued (clear m order) := by
  have h : Issued { m with generation := m.generation + 1, leases := ∅, lru := [] } := by
    refine ⟨hi.lengths, hi.nextToken, fun i r hr => ?_, hi.pending, hi.calls⟩
    obtain ⟨htok, hgen, hre⟩ := hi.issued i r hr
    exact ⟨htok, Nat.le_succ_of_le hgen, hre⟩
  exact run_invariant (fun _ key hi => hi.closePending key) h _

variable (m)

theorem lookup_closeAll (keys k) :
    (run closePending m keys).pending.lookup k = if k ∈ keys then none else m.pending.lookup k := by
  induction keys generalizing m with
  | nil => simp
  | cons key keys ih =>
    rw [run_cons, ih, lookup_closePending]
    by_cases hk : k = key
    · simp [hk]
    · simp [hk]

theorem lookup_clear (order k) : (clear m order).pending.lookup k = none := by
  rw [clear, lookup_closeAll]
  split
  · rfl
  rename_i hk
  cases h : m.pending.lookup k with
  | none => rfl
  | some i => exact absurd (order.mem_visit.mpr (mem_keys_iff.mpr ⟨i, h⟩)) hk

theorem current_clear (order) : Current (clear m order) := by
  intro k i r hk _
  rw [lookup_clear] at hk
  cases hk

theorem closeAll_generation (keys) : (run closePending m keys).generation = m.generation := by
  induction keys generalizing m with
  | nil => rfl
  | cons key keys ih => rw [run_cons, ih, closePending_generation]

theorem clear_grows (order) : Grows m (clear m order) := by
  refine .trans ?_ (run_invariant (I := Grows _) (fun m key h => h.trans (.closePending m key)) (.refl _) _)
  exact ⟨Nat.le_succ _, fun _ r h => ⟨r, h, rfl, rfl, rfl⟩⟩

end

theorem Issued.turn (hi : Issued m) (op) : Turn m (step m op) ∨ ∃ order, op = .clear order := by
  cases op with
  | reserve key now => exact .inl (hi.reserve_turn key now)
  | wake call => exact .inl (hi.wake_turn call)
  | giveUp call => exact .inl (hi.giveUp_turn call)
  | peek key now => exact .inl (.same (peek_same m key now))
  | commitHandle i handle serviceID mode ttl now => exact .inl (commitHandle_turn m i handle serviceID mode ttl now)
  | abort i => exact .inl (abort_turn m i)
  | invalidate key expected => exact .inl (.same (invalidate_same m key expected))
  | replaceHandle key expected next serviceID mode ttl now =>
    exact .inl (.same (replaceHandle_same m key expected next serviceID mode ttl now))
  | renewHandle key expected ttl now => exact .inl (.same (renewHandle_same m key expected ttl now))
  | retireNodeHandle handle order => exact .inl (.same (retireNodeHandle_same m handle order))
  | clear order => exact .inr ⟨order, rfl⟩
  | restorePersistence leases now => exact .inl (.same (restorePersistence_same m leases now))

structure Sound (m : SessionLeaseManager) : Prop extends Issued m where
  current : Current m

theorem Sound.step (hs : Sound m) (op) : Sound (step m op) := by
  rcases hs.toIssued.turn op with hturn | ⟨order, rfl⟩
  · exact ⟨hturn.issued hs.toIssued, hturn.current hs.toIssued hs.current⟩
  · exact ⟨hs.toIssued.clear order, current_clear m order⟩

theorem Sound.grows (hs : Sound m) (op) : Grows m (SessionLeases.step m op) := by
  rcases hs.toIssued.turn op with hturn | ⟨order, rfl⟩
  · exact hturn.grows
  · exact clear_grows m order

theorem Sound.run_grows (hs : Sound m) (ops) : Grows m (run SessionLeases.step m ops) := by
  induction ops generalizing m with
  | nil => exact .refl m
  | cons op ops ih => exact (hs.grows op).trans (ih (hs.step op))

theorem sound_after (maxEntries ops) : Sound (after maxEntries ops) := by
  refine run_invariant (fun _ op hs => hs.step op) ⟨?_, ?_⟩ ops
  · constructor <;> simp [newSessionLeaseManager]
  · intro k i r hk
    simp [newSessionLeaseManager] at hk

theorem Issued.owned_iff (hi : Issued m) (hr : m.reservations[i]? = some r) :
    pendingOwnedByLocked m r.key r.generation r.token = true ↔ m.pending.lookup r.key = some i := by
  obtain ⟨htok, -, p, hp, hpgen, hptok, -⟩ := hi.issued i r hr
  constructor
  · intro h
    rw [pendingOwnedByLocked] at h
    split at h
    · cases h
    rename_i pd hpd
    obtain ⟨j, hj, hpdj⟩ := bind_eq_some_iff.mp hpd
    obtain ⟨r', hr', -⟩ := hi.pending r.key j hj
    obtain ⟨htok', -, p', hp', -, hptok', -⟩ := hi.issued j r' hr'
    obtain rfl : p' = pd := mem_unique hp' hpdj
    simp only [Bool.and_eq_true, beq_iff_eq] at h
    -- Tokens count the reservations, so an equal token is the same place.
    obtain rfl : j = i := by omega
    exact hj
  · intro h
    simp [pendingOwnedByLocked, h, hp, hpgen, hptok]

theorem Sound.able_iff (hs : Sound m) (hr : m.reservations[i]? = some r) :
    Able m r ↔ r.finished = false ∧ m.pending.lookup r.key = some i := by
  rw [Able, hs.toIssued.owned_iff hr]
  constructor
  · exact fun ⟨hf, _, hp⟩ => ⟨hf, hp⟩
  · exact fun ⟨hf, hp⟩ => ⟨hf, hs.current _ i r hp hr, hp⟩

def Installs (m : SessionLeaseManager) (i : Nat) (handle : NodeHandle) (serviceID : String) (mode : PolicyMode)
    (ttl : Duration) (now : Time) : Prop :=
  ∃ r lease j, m.reservations[i]? = some r ∧ (commitHandle m i handle serviceID mode ttl now).2 = some lease ∧
    recordOf (commitHandle m i handle serviceID mode ttl now).1 r.key = some (j, lease)

def OneAble (m : SessionLeaseManager) : Prop :=
  ∀ (i j : Nat) r r', m.reservations[i]? = some r → m.reservations[j]? = some r' → r.key = r'.key →
    Able m r → Able m r' → i = j

/-- A channel is open while its record is pending, and was closed once if not. -/
def ClosedOnLeaving (m : SessionLeaseManager) : Prop :=
  ∀ (p : Nat) record, m.pendings[p]? = some record →
    (record.closed = 0 ∧ ∃ k, m.pending.lookup k = some p) ∨
      (record.closed = 1 ∧ ∀ k, m.pending.lookup k ≠ some p)

/-- A waiting call whose channel is open waits for the pending record of its key. -/
def NoneStranded (m : SessionLeaseManager) : Prop :=
  ∀ (c : Nat) call, m.calls[c]? = some call → call.waiting = true →
    ∃ record, m.pendings[call.record]? = some record ∧
      (record.closed = 0 → m.pending.lookup call.key = some call.record)

theorem Sound.oneAble (hs : Sound m) : OneAble m := by
  intro i j r r' hr hr' hk hable hable'
  have hi := ((hs.able_iff hr).mp hable).2
  have hj := ((hs.able_iff hr').mp hable').2
  rw [hk, hj] at hi
  exact (some.inj hi).symm

theorem Issued.closedOnLeaving (hi : Issued m) : ClosedOnLeaving m := by
  intro p record hp
  have hlt : p < m.reservations.length := hi.lengths ▸ lt_of_some hp
  have hr := getElem?_eq_getElem hlt
  obtain ⟨-, -, record', hp', -, -, hcl⟩ := hi.issued p _ hr
  obtain rfl : record' = record := mem_unique hp' hp
  split at hcl
  · exact .inl ⟨hcl, _, ‹_›⟩
  rename_i hgone
  refine .inr ⟨hcl, fun k hk => hgone ?_⟩
  obtain ⟨r, hr', hke⟩ := hi.pending k p hk
  obtain rfl := mem_unique hr' hr
  rw [hke]
  exact hk

theorem Issued.noneStranded (hi : Issued m) : NoneStranded m := by
  intro c call hc _
  obtain ⟨r, hr, hk⟩ := hi.calls c call hc
  obtain ⟨-, -, record, hp, -, -, hcl⟩ := hi.issued _ r hr
  refine ⟨record, hp, fun hopen => ?_⟩
  by_contra hgone
  rw [hk, if_neg hgone] at hcl
  omega

theorem Sound.unable_after_clear (hs : Sound m) (order ops) (hi : i < m.reservations.length)
    (hr : (run SessionLeases.step (clear m order) ops).reservations[i]? = some r) :
    ¬ Able (run SessionLeases.step (clear m order) ops) r := by
  intro hable
  have hold := getElem?_eq_getElem hi
  have hsc : Sound (clear m order) := hs.step (.clear order)
  have hgrow := hsc.run_grows ops
  obtain ⟨r', hr', -, hgen, -⟩ := ((clear_grows m order).trans hgrow).reservations i _ hold
  obtain rfl : r' = r := mem_unique hr' hr
  have hle := (hs.toIssued.issued i _ hold).2.1
  have hnew := hgrow.generation
  have hclr : (clear m order).generation = m.generation + 1 := closeAll_generation ..
  have hcur := hable.2.1
  omega

section

theorem removeLocked_records (m i) : (removeLocked m i).records = m.records := by
  rw [removeLocked]
  split <;> rfl

theorem head_removeLocked {y rest} (hlru : m.lru = x :: rest) (hne : y ≠ x) :
    (removeLocked m y).lru.head? = some x := by
  rw [removeLocked]
  split
  · simp [hlru]
  · simp [hlru, hne.symm]

theorem lookup_removeLocked {y} (hm : Mirrored m) (hy : y ∈ m.lru) (hne : y ≠ x) (hk : m.leases.lookup key = some x) :
    (removeLocked m y).leases.lookup key = some x := by
  obtain ⟨k, hky⟩ := hm.listed y hy
  obtain ⟨lease, hlease, hke⟩ := hm.keyed k y hky
  rw [removeLocked, hlease]
  rw [lookup_del, if_neg, hk]
  rintro rfl
  rw [hke, hky] at hk
  exact hne (some.inj hk)

-- The record at the front is the last one to be evicted, and one lease is
-- within every bound.
theorem evictFrom_keeps_front (n) (hm : Mirrored m) (hpos : 0 < m.maxEntries) (hfront : m.lru.head? = some x)
    (hk : m.leases.lookup key = some x) :
    (evictFrom n m).leases.lookup key = some x ∧ (evictFrom n m).records = m.records := by
  induction n generalizing m with
  | zero => exact ⟨hk, rfl⟩
  | succ n ih =>
    rw [evictFrom]
    split
    swap
    · exact ⟨hk, rfl⟩
    obtain ⟨rest, hlru⟩ : ∃ rest, m.lru = x :: rest := head?_eq_some_iff.mp hfront
    have hlen := hm.toTracked.length_le
    have hne : rest ≠ [] := by
      rintro rfl
      rw [hlru, length_singleton] at hlen
      omega
    have hl : m.lru.getLast? = some (rest.getLast hne) := by
      rw [hlru, getLast?_cons, getLast?_eq_some_getLast hne, getD_some]
    have hme : rest.getLast hne ∈ m.lru := mem_of_getLast? hl
    have hdiff : rest.getLast hne ≠ x := by
      intro heq
      have hnd := hm.nodup
      rw [hlru] at hnd
      exact (nodup_cons.mp hnd).1 (heq ▸ getLast_mem hne)
    have hrem : removeOldestLocked m = removeLocked m (rest.getLast hne) := by
      rw [removeOldestLocked, hl]
    rw [hrem]
    obtain ⟨hk', hrec⟩ := ih (hm.removeLocked hme) (by simpa using hpos)
      (head_removeLocked hlru hdiff) (lookup_removeLocked hm hme hdiff hk)
    exact ⟨hk', hrec.trans (removeLocked_records m _)⟩

theorem finishPendingLocked_recordOf (m key k generation token) :
    recordOf (finishPendingLocked m key generation token) k = recordOf m k := by
  have h := finishPending_same m key generation token
  rw [recordOf, recordOf, h.leases, h.records]

variable {handle : NodeHandle} {serviceID : String} {mode : PolicyMode} {ttl : Duration} {now : Time}

theorem installs_of_able (hm : Mirrored m) (hpos : 0 < m.maxEntries) (hr : m.reservations[i]? = some r)
    (hable : Able m r) (hf : m.leases.lookup r.key = none) : Installs m i handle serviceID mode ttl now := by
  refine ⟨r, committedLease r handle serviceID mode ttl now, m.records.length, hr, ?_⟩
  rw [commitHandle_of_able hr hable]
  refine ⟨rfl, ?_⟩
  rw [committed, finishPendingLocked_recordOf]
  have hins : Mirrored (install (finishReservation m i) (committedLease r handle serviceID mode ttl now)) :=
    ((finishReservation_same m i).mirrored hm).install hf
  have hnew : (install (finishReservation m i) (committedLease r handle serviceID mode ttl now)).leases.lookup r.key =
      some m.records.length := by
    rw [lookup_install]
    exact if_pos rfl
  obtain ⟨hlk, hrec⟩ := evictFrom_keeps_front _ hins hpos rfl hnew
  rw [recordOf, evictExcess, hlk, hrec]
  simp [install, finishReservation]

theorem able_of_installs (h : Installs m i handle serviceID mode ttl now) :
    ∃ r, m.reservations[i]? = some r ∧ Able m r := by
  obtain ⟨r, lease, j, hr, hsome, -⟩ := h
  refine ⟨r, hr, ?_⟩
  by_contra hable
  rw [commitHandle_of_unable hr hable] at hsome
  cases hsome

/-- In every run whose installing commits find no lease under their key, the owner of a key
can commit and nobody else, and each channel is closed once. -/
theorem reservations_settle (maxEntries : Int) (ops : List Op)
    (h : Meets step FreshCommit (newSessionLeaseManager maxEntries) ops) :
    OneAble (after maxEntries ops) ∧
      (∀ ops₁ ops₂ i handle serviceID mode ttl now,
        ops = ops₁ ++ .commitHandle i handle serviceID mode ttl now :: ops₂ →
          (Installs (after maxEntries ops₁) i handle serviceID mode ttl now ↔
            ∃ r, (after maxEntries ops₁).reservations[i]? = some r ∧ Able (after maxEntries ops₁) r)) ∧
      (∀ ops₁ order ops₂, ops = ops₁ ++ .clear order :: ops₂ →
        ∀ i < (after maxEntries ops₁).reservations.length, ∀ handle serviceID mode ttl now,
          ¬ Installs (after maxEntries ops) i handle serviceID mode ttl now) ∧
      ClosedOnLeaving (after maxEntries ops) ∧ NoneStranded (after maxEntries ops) := by
  have hs := sound_after maxEntries ops
  refine ⟨hs.oneAble, ?_, ?_, hs.toIssued.closedOnLeaving, hs.toIssued.noneStranded⟩
  · rintro ops₁ ops₂ i handle serviceID mode ttl now rfl
    obtain ⟨hbef, hf, -⟩ := (meets_append ..).mp h
    have hm := mirrored_after hbef
    constructor
    · exact able_of_installs
    · rintro ⟨r, hr, hable⟩
      exact installs_of_able hm (kept_after maxEntries ops₁).positive hr hable (hf r hr hable)
  · rintro ops₁ order ops₂ rfl i hi handle serviceID mode ttl now hinst
    obtain ⟨r, hr, hable⟩ := able_of_installs hinst
    rw [after, run_append] at hr hable
    exact (sound_after maxEntries ops₁).unable_after_clear order ops₂ hi hr hable

theorem first_commit_installs :
    Meets step FreshCommit (newSessionLeaseManager 4)
        [.reserve 1 0, .commitHandle 0 ⟨6, 1, 1, 0⟩ "a" .adaptive second 0] ∧
      Installs (after 4 [.reserve 1 0]) 0 ⟨6, 1, 1, 0⟩ "a" .adaptive second 0 := by
  have hmeets : Meets step FreshCommit (newSessionLeaseManager 4)
      [.reserve 1 0, .commitHandle 0 ⟨6, 1, 1, 0⟩ "a" .adaptive second 0] :=
    ⟨trivial, fun r _ _ => AList.lookup_empty r.key, trivial⟩
  refine ⟨hmeets, ?_⟩
  have hcom := (reservations_settle 4 _ hmeets).2.1 [.reserve 1 0] [] 0 ⟨6, 1, 1, 0⟩ "a" .adaptive second 0 rfl
  refine hcom.mpr ⟨⟨1, 0, 1, false⟩, by decide +kernel, rfl, by decide +kernel, by decide +kernel⟩

/-- An orphan of the committed key at the end of the list. The commit of the
reservation that owns the key evicts it, and with it the lease just installed. -/
theorem owner_commit_is_lost :
    let m := after 1 [.reserve 1 0, .replaceHandle 1 ⟨0, 0, 0, 0⟩ ⟨5, 1, 1, 0⟩ "a" .adaptive second 0,
      .commitHandle 0 ⟨6, 1, 1, 0⟩ "a" .adaptive second 0, .invalidate 1 0,
      .replaceHandle 2 ⟨0, 0, 0, 0⟩ ⟨7, 1, 1, 0⟩ "a" .adaptive second 0, .reserve 1 0]
    m.reservations[1]? = some ⟨1, 0, 2, false⟩ ∧ Able m ⟨1, 0, 2, false⟩ ∧
      ¬ Installs m 1 ⟨8, 1, 1, 0⟩ "a" .adaptive second 0 := by
  intro m
  have hr : m.reservations[1]? = some ⟨1, 0, 2, false⟩ := by decide +kernel
  refine ⟨hr, ⟨rfl, by decide +kernel, by decide +kernel⟩, ?_⟩
  rintro ⟨r, lease, j, hr', -, hrec⟩
  obtain rfl := mem_unique hr' hr
  have hgone : recordOf (commitHandle m 1 ⟨8, 1, 1, 0⟩ "a" .adaptive second 0).1 1 = none := by decide +kernel
  cases hrec

end

end SingBox.LeaseReservations
