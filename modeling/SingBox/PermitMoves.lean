import SingBox.AttemptPermits
import SingBox.LedgerMoves

namespace SingBox.PermitMoves

open List Option Values Maps BreakerRecord BreakerMoves HealthLedger LedgerMoves AttemptPermits

theorem recordForKey_some (s key) :
    ∃ k, k.domain = key.domain ∧ recordForKeyLocked s key = (s.entries.lookup k, k) := by
  rw [recordForKeyLocked]
  split
  · next r h => exact ⟨key, rfl, by rw [h]⟩
  next h =>
  have hself : ∃ k, k.domain = key.domain ∧ (none, key) = (s.entries.lookup k, k) := ⟨key, rfl, by rw [h]⟩
  split
  · exact hself
  split
  · exact hself
  next legacy _ =>
  split
  · next r hr => exact ⟨{ key with transport := legacy }, rfl, by rw [hr]⟩
  · exact hself

variable {s : HealthStore} {key : HealthKey} {order : RangeOrder HealthKey} {found : HealthKey × HealthRecord}
  {r : HealthRecord}

/-- Of the keys, a wanted one whose record none of the others outranks. -/
def Best (s : HealthStore) (wanted : HealthKey → Bool) (keys : List HealthKey)
    (selected : Option (HealthKey × HealthRecord)) : Prop :=
  (∀ found ∈ selected, s.entries.lookup found.1 = some found.2 ∧ wanted found.1 = true) ∧
    ∀ k ∈ keys, ∀ r, s.entries.lookup k = some r → wanted k = true →
      ∃ found ∈ selected, outranks r.status found.2.status = false

theorem Best.keep {wanted keys selected} (h : Best s wanted keys selected) (hke : ∀ r, s.entries.lookup key = some r →
    wanted key = true → ∃ found ∈ selected, outranks r.status found.2.status = false) :
    Best s wanted (keys ++ [key]) selected := by
  refine ⟨h.1, fun k hk => ?_⟩
  rcases mem_append.1 hk with hk | hk
  · exact h.2 k hk
  · rw [mem_singleton.1 hk]
    exact hke

theorem Best.take {wanted keys selected} (h : Best s wanted keys selected) (hr : s.entries.lookup key = some r)
    (hwan : wanted key = true) (hover : ∀ found ∈ selected, outranks r.status found.2.status = true) :
    Best s wanted (keys ++ [key]) (some (key, r)) := by
  have hmore : Best s wanted keys (some (key, r)) := by
    refine ⟨fun found hf => ?_, fun k hk r' hr' hk' => ⟨_, rfl, ?_⟩⟩
    · cases hf
      exact ⟨hr, hwan⟩
    · obtain ⟨found, hf, hnot⟩ := h.2 k hk r' hr' hk'
      have := hover found hf
      grind [outranks]
  refine hmore.keep fun r' hr' _ => ⟨_, rfl, ?_⟩
  grind [outranks]

theorem selectRestrictive_best (s wanted order) :
    Best s wanted (order.visit s.entries.keys) (selectRestrictive s wanted order) := by
  rw [selectRestrictive]
  -- of the keys that are visited so far
  induction order.visit s.entries.keys using reverseRecOn with
  | nil => simp [Best]
  | append_singleton keys key ih =>
    rw [foldl_append, foldl_cons, foldl_nil]
    generalize keys.foldl _ none = selected at ih ⊢
    split
    · next hr => exact ih.keep (by simp [hr])
    next r hr =>
    split
    · next hwan => exact ih.keep (by simp_all)
    next hwan =>
    rw [Bool.not_not_eq] at hwan
    split
    · exact ih.take hr hwan (by simp)
    next current =>
    split
    · next hover => exact ih.take hr hwan (by simpa using hover)
    · next hnot => exact ih.keep (by simp_all)

theorem mostRestrictive_lookup {handle transport}
    (h : mostRestrictiveTransportRecordLocked s handle transport order = some found) :
    s.entries.lookup found.1 = some found.2 := by
  rw [mostRestrictiveTransportRecordLocked] at h
  dsimp only at h
  split at h
  · cases h
  split at h
  · cases h
  split at h
  · cases h
  rename_i hs
  split at h
  · cases h
  · cases h
    exact ((selectRestrictive_best ..).1 _ hs).1

def cool (r : HealthRecord) : HealthRecord :=
  { r with status := { r.status with breaker := .cooldown, cooldownUntil := r.openUntil } }

/-- One round of an acquisition on the record under the key: the store after it
and the entry it adds, or none when the attempt is refused. -/
inductive Round (s : HealthStore) (key : HealthKey) : HealthStore → Option PermitEntry → Prop
  | absent (h : s.entries.lookup key = none) : Round s key s (some { key := key })
  | plain (r : HealthRecord) (h : s.entries.lookup key = some r) (ht : tripped r = false) :
      Round s key s (some { key := key, version := r.version })
  | reserved (r : HealthRecord) (h : s.entries.lookup key = some r) (ht : tripped r = true)
      (hz : r.halfOpenToken = 0) :
      Round s key { save s key (reserve r (s.nextToken + 1)) with nextToken := s.nextToken + 1 }
        (some { key := key, version := r.version, halfOpenToken := s.nextToken + 1 })
  | refused (r : HealthRecord) (h : s.entries.lookup key = some r) : Round s key (save s key r) none
  | cooled (r : HealthRecord) (h : s.entries.lookup key = some r) (hb : r.status.breaker = .opened) :
      Round s key (save s key (cool r)) none

theorem available_token (hr : Coherent r) {now} (h : (available r now).2 = true) : r.halfOpenToken = 0 := by
  by_cases hb : r.status.breaker = .halfOpen
  · simpa [available, hb] using h
  · exact hr.token_eq_zero hb

theorem acquireResolved_round (hc : ∀ r, s.entries.lookup key = some r → Coherent r) (now) :
    Round s key (acquireResolved s (s.entries.lookup key) key now).1
      (acquireResolved s (s.entries.lookup key) key now).2 := by
  cases hr : s.entries.lookup key with
  | none => exact .absent hr
  | some r =>
    rw [acquireResolved]
    by_cases ha : (available r now).2 = true
    · by_cases ht : tripped r = true
      · simp only [ha, Bool.not_true, Bool.false_eq_true, if_false, ht, if_true]
        exact .reserved r hr ht (available_token (hc r hr) ha)
      · simp only [ha, Bool.not_true, Bool.false_eq_true, if_false, ht]
        exact .plain r hr (Bool.not_eq_true _ ▸ ht)
    · simp only [ha, Bool.not_false, if_true]
      rcases available_same_or_relabel r now with h | ⟨hb, _, h⟩
      · rw [h]; exact .refused r hr
      · rw [h]; exact .cooled r hr hb

/-- The entry in the store it was issued in: without a record, on a record that
needs no token, or with a token of its own on a tripped one. -/
inductive Entered (s₀ s : HealthStore) (e : PermitEntry) : Prop
  | absent (h₀ : s₀.entries.lookup e.key = none) (h : s.entries.lookup e.key = none) (hv : e.version = 0)
      (ht : e.halfOpenToken = 0) : Entered s₀ s e
  | plain (r : HealthRecord) (h₀ : s₀.entries.lookup e.key = some r) (h : s.entries.lookup e.key = some r)
      (hr : tripped r = false) (hv : e.version = r.version) (ht : e.halfOpenToken = 0) : Entered s₀ s e
  | reserved (r : HealthRecord) (h₀ : s₀.entries.lookup e.key = some r)
      (h : s.entries.lookup e.key = some (reserve r e.halfOpenToken)) (hr : tripped r = true)
      (hz : r.halfOpenToken = 0) (hv : e.version = r.version) (ht : e.halfOpenToken ≠ 0) : Entered s₀ s e

structure Granted (s₀ s : HealthStore) (entries : List PermitEntry) : Prop where
  domains : (entries.map (fun e => e.key.domain)).Nodup
  others : ∀ k, (∀ e ∈ entries, e.key ≠ k) → s.entries.lookup k = s₀.entries.lookup k
  own : ∀ e ∈ entries, Entered s₀ s e
  fresh : ∀ e ∈ entries, e.halfOpenToken ≠ 0 → s₀.nextToken < e.halfOpenToken ∧ e.halfOpenToken ≤ s.nextToken
  distinct : entries.Pairwise fun e e' => e'.halfOpenToken ≠ 0 → e.halfOpenToken < e'.halfOpenToken
  nextToken : s₀.nextToken ≤ s.nextToken
  allocated : s.allocated = s₀.allocated
  breaker : s.breaker = s₀.breaker

theorem Granted.nil (s) : Granted s s [] :=
  ⟨by simp, fun _ _ => rfl, by simp, by simp, .nil, le_rfl, rfl, rfl⟩

section

variable {s₀ s s' : HealthStore} {entries : List PermitEntry} {key : HealthKey}

theorem Round.others {e} (h : Round s key s' e) (k) (hk : k ≠ key) : s'.entries.lookup k = s.entries.lookup k := by
  cases h with
  | absent | plain => rfl
  | reserved r | cooled r | refused r => exact (lookup_save s key k _).trans (if_neg hk)

theorem Round.keeps {P : HealthKey → HealthRecord → Prop} {e} (h : Round s key s' e)
    (hs : ∀ k r, s.entries.lookup k = some r → P k r)
    (hres : ∀ r, s.entries.lookup key = some r → tripped r = true → r.halfOpenToken = 0 →
      P key (reserve r (s.nextToken + 1)))
    (hcool : ∀ r, s.entries.lookup key = some r → r.status.breaker = .opened → P key (cool r)) :
    ∀ k r, s'.entries.lookup k = some r → P k r := by
  intro k r hr
  have hsave {q} (hq : P key q) (hr : (save s key q).entries.lookup k = some r) : P k r := by
    rw [lookup_save] at hr
    split at hr
    · next hk =>
      cases hr
      exact hk ▸ hq
    · exact hs k r hr
  cases h with
  | absent | plain => exact hs k r hr
  | reserved q h ht hz => exact hsave (hres q h ht hz) hr
  | refused q h => exact hsave (hs key q h) hr
  | cooled q h hb => exact hsave (hcool q h hb) hr

theorem Round.frame {e} (h : Round s key s' e) :
    s.nextToken ≤ s'.nextToken ∧ s'.allocated = s.allocated ∧ s'.breaker = s.breaker := by
  cases h with
  | absent | plain | refused | cooled => exact ⟨le_rfl, rfl, rfl⟩
  | reserved => exact ⟨Nat.le_succ _, rfl, rfl⟩

variable {e : PermitEntry}

section

variable (h : Round s key s' (some e))
include h

theorem Round.entry_key : e.key = key := by
  cases h <;> rfl

theorem Round.entered : Entered s s' e := by
  cases h with
  | absent h => exact .absent h h rfl rfl
  | plain r h ht => exact .plain r h h ht rfl rfl
  | reserved r h ht hz =>
    exact .reserved r h ((lookup_save s key key _).trans (if_pos rfl)) ht hz rfl (Nat.succ_ne_zero _)

theorem Round.token : e.halfOpenToken = 0 ∨ e.halfOpenToken = s.nextToken + 1 ∧ s'.nextToken = s.nextToken + 1 := by
  cases h with
  | absent | plain => exact .inl rfl
  | reserved => exact .inr ⟨rfl, rfl⟩

end

theorem Entered.congr {s₀' s'} (h : Entered s₀ s e) (h₀ : s₀'.entries.lookup e.key = s₀.entries.lookup e.key)
    (h₁ : s'.entries.lookup e.key = s.entries.lookup e.key) : Entered s₀' s' e := by
  cases h with
  | absent g₀ g₁ hv ht => exact .absent (h₀.trans g₀) (h₁.trans g₁) hv ht
  | plain r g₀ g₁ hr hv ht => exact .plain r (h₀.trans g₀) (h₁.trans g₁) hr hv ht
  | reserved r g₀ g₁ hr hz hv ht => exact .reserved r (h₀.trans g₀) (h₁.trans g₁) hr hz hv ht

theorem Granted.snoc (hg : Granted s₀ s entries) (hd : ∀ e ∈ entries, e.key.domain ≠ key.domain)
    (h : Round s key s' (some e)) : Granted s₀ s' (entries ++ [e]) := by
  have hke := h.entry_key
  have hne : ∀ e' ∈ entries, e'.key ≠ key := fun e' he' heq => hd e' he' (congrArg (·.domain) heq)
  have hbef : s.entries.lookup key = s₀.entries.lookup key := hg.others key hne
  obtain ⟨hnext, halc, hbr⟩ := h.frame
  refine ⟨?_, ?_, ?_, ?_, ?_, hg.nextToken.trans hnext, halc.trans hg.allocated, hbr.trans hg.breaker⟩
  · rw [map_append, nodup_append]
    refine ⟨hg.domains, by simp, ?_⟩
    intro d hd₁ d' hd₂
    obtain ⟨e', he', rfl⟩ := mem_map.mp hd₁
    simp only [map_cons, map_nil, mem_singleton] at hd₂
    rw [hd₂, hke]
    exact hd e' he'
  · intro k hk
    have hk' : k ≠ key := fun heq => hk e (by simp) (hke.trans heq.symm)
    rw [h.others k hk', hg.others k (fun e' he' => hk e' (by simp [he']))]
  · intro e' he'
    rcases mem_append.mp he' with he' | he'
    · exact (hg.own e' he').congr rfl (h.others e'.key (hne e' he'))
    · rw [mem_singleton.mp he']
      exact h.entered.congr (by rw [hke, hbef]) rfl
  · intro e' he' ht'
    rcases mem_append.mp he' with he' | he'
    · have hf := hg.fresh e' he' ht'
      exact ⟨hf.1, hf.2.trans hnext⟩
    rw [mem_singleton.mp he'] at ht' ⊢
    have hn := hg.nextToken
    rcases h.token with h0 | ⟨h1, h2⟩
    · exact absurd h0 ht'
    · omega
  · rw [pairwise_append]
    refine ⟨hg.distinct, pairwise_singleton .., ?_⟩
    intro e₁ he₁ e₂ he₂ ht
    rw [mem_singleton.mp he₂] at ht ⊢
    rcases h.token with h0 | ⟨h1, _⟩
    · exact absurd h0 ht
    by_cases hz : e₁.halfOpenToken = 0
    · omega
    · have hf := hg.fresh e₁ he₁ hz
      omega

end

/-- What `releaseTokenLocked` makes of the record under the key of its entry. -/
def returnToken (e : PermitEntry) (r : HealthRecord) : HealthRecord :=
  if r.version = e.version ∧ r.halfOpenToken = e.halfOpenToken ∧ e.halfOpenToken ≠ 0 ∧
      r.status.breaker = .halfOpen then giveBack r else r

section

variable (s : HealthStore)

theorem releaseToken_lookup (e k) : (releaseTokenLocked s e).entries.lookup k =
      if k = e.key then (s.entries.lookup k).map (returnToken e) else s.entries.lookup k := by
  rcases eq_or_ne k e.key with rfl | hk
  · rw [if_pos rfl, releaseTokenLocked]
    split
    · next h => rw [h]; rfl
    next r h =>
    rw [h, map_some, returnToken]
    split
    · rw [lookup_save, if_pos rfl]
    · exact h
  · rw [if_neg hk, releaseTokenLocked]
    split
    · rfl
    split
    · rw [lookup_save, if_neg hk]
    · rfl

theorem releaseTokenLocked_frame (e) :
    (releaseTokenLocked s e).nextToken = s.nextToken ∧ (releaseTokenLocked s e).allocated = s.allocated ∧
      (releaseTokenLocked s e).breaker = s.breaker := by
  rw [releaseTokenLocked]
  split
  · exact ⟨rfl, rfl, rfl⟩
  · split <;> exact ⟨rfl, rfl, rfl⟩

variable (entries : List PermitEntry)

theorem releasePermit_frame :
    (releasePermit s entries).nextToken = s.nextToken ∧ (releasePermit s entries).allocated = s.allocated ∧
      (releasePermit s entries).breaker = s.breaker := by
  induction entries generalizing s with
  | nil => exact ⟨rfl, rfl, rfl⟩
  | cons e entries ih =>
    obtain ⟨h₁, h₂, h₃⟩ := releaseTokenLocked_frame s e
    obtain ⟨g₁, g₂, g₃⟩ := ih _
    exact ⟨g₁.trans h₁, g₂.trans h₂, g₃.trans h₃⟩

theorem releasePermit_others (k) (hk : ∀ e ∈ entries, e.key ≠ k) :
    (releasePermit s entries).entries.lookup k = s.entries.lookup k := by
  induction entries generalizing s with
  | nil => rfl
  | cons e entries ih =>
    have h := ih (releaseTokenLocked s e) (fun e' he' => hk e' (mem_cons_of_mem _ he'))
    rw [releaseToken_lookup, if_neg (fun h => hk e mem_cons_self h.symm)] at h
    exact h

theorem releasePermit_own (hn : (entries.map (·.key)).Nodup) (e) (he : e ∈ entries) :
    (releasePermit s entries).entries.lookup e.key = (s.entries.lookup e.key).map (returnToken e) := by
  induction entries generalizing s with
  | nil => simp at he
  | cons e' entries ih =>
    rw [map_cons, nodup_cons] at hn
    change (releasePermit (releaseTokenLocked s e') entries).entries.lookup e.key = _
    rcases mem_cons.mp he with rfl | he
    · have hout : ∀ e' ∈ entries, e'.key ≠ e.key :=
        fun e' he' heq => hn.1 (heq ▸ mem_map_of_mem (f := (·.key)) he')
      rw [releasePermit_others _ _ _ hout, releaseToken_lookup, if_pos rfl]
    · have hne : e.key ≠ e'.key := fun heq => hn.1 (heq ▸ mem_map_of_mem he)
      rw [ih _ hn.2 he, releaseToken_lookup, if_neg hne]

end

theorem keys_nodup_of_domains {entries : List PermitEntry}
    (h : (entries.map (fun e => e.key.domain)).Nodup) : (entries.map (·.key)).Nodup := by
  rw [show entries.map (fun e => e.key.domain) = (entries.map (·.key)).map (·.domain) by simp] at h
  exact .of_map _ h

/-- A tripped record that nobody holds is labelled as cooling down, and is otherwise as it was. -/
structure Relabelled (r r' : HealthRecord) : Prop where
  before : tripped r = true
  tokenBefore : r.halfOpenToken = 0
  label : r' = cool r ∨ r' = giveBack r

structure Refused (s₀ s : HealthStore) : Prop where
  records : ∀ k, s.entries.lookup k = s₀.entries.lookup k ∨
    ∃ r r', s₀.entries.lookup k = some r ∧ s.entries.lookup k = some r' ∧ Relabelled r r'
  nextToken : s₀.nextToken ≤ s.nextToken
  allocated : s.allocated = s₀.allocated
  breaker : s.breaker = s₀.breaker

theorem Round.refused_records {s'} (hc : ∀ r, s.entries.lookup key = some r → Coherent r) (h : Round s key s' none) :
    s'.entries.lookup key = s.entries.lookup key ∨
      ∃ r r', s.entries.lookup key = some r ∧ s'.entries.lookup key = some r' ∧ Relabelled r r' := by
  cases h with
  | refused r hr => exact .inl (((lookup_save s key key r).trans (if_pos rfl)).trans hr.symm)
  | cooled r hr hb =>
    have hz : r.halfOpenToken = 0 := (hc r hr).token_eq_zero (by simp [hb])
    exact .inr ⟨r, cool r, hr, (lookup_save s key key _).trans (if_pos rfl), (tripped_iff r).mpr (.inl hb), hz, .inl rfl⟩

/-- What was granted and is given back unused leaves what a refusal leaves. -/
theorem Granted.released {s₀ entries} (hg : Granted s₀ s entries) : Refused s₀ (releasePermit s entries) := by
  obtain ⟨hn, halc, hbr⟩ := releasePermit_frame s entries
  refine ⟨fun k => ?_, hn ▸ hg.nextToken, halc.trans hg.allocated, hbr.trans hg.breaker⟩
  by_cases hm : ∃ e ∈ entries, e.key = k
  · obtain ⟨e, he, rfl⟩ := hm
    rw [releasePermit_own s entries (keys_nodup_of_domains hg.domains) e he]
    cases hg.own e he with
    | absent h₀ h => exact .inl (by rw [h, h₀]; rfl)
    | plain r h₀ h hr hv ht => exact .inl (by rw [h, h₀, map_some, returnToken, if_neg fun hc => hc.2.2.1 ht])
    | reserved r h₀ h hr hz hv ht =>
      refine .inr ⟨r, giveBack (reserve r e.halfOpenToken), h₀, ?_, hr, hz, .inr rfl⟩
      rw [h, map_some, returnToken, if_pos ⟨hv.symm, rfl, ht, rfl⟩]
  · have hout : ∀ e ∈ entries, e.key ≠ k := fun e he heq => hm ⟨e, he, heq⟩
    exact .inl ((releasePermit_others s entries k hout).trans (hg.others k hout))

def returned (k : HealthKey) (entries : List PermitEntry) (r : HealthRecord) : HealthRecord :=
  entries.foldl (fun r e => if k = e.key then returnToken e r else r) r

theorem releasePermit_lookup (s entries k) :
    (releasePermit s entries).entries.lookup k = (s.entries.lookup k).map (returned k entries) := by
  induction entries generalizing s with
  | nil => exact Option.map_id'.symm
  | cons e entries ih =>
    refine (ih (releaseTokenLocked s e)).trans ?_
    rw [releaseToken_lookup]
    cases s.entries.lookup k with
    | none => split <;> rfl
    | some r => split <;> simp [returned, *]

theorem Granted.refuse {s₀ s' entries} (hg : Granted s₀ s entries) (hd : ∀ e ∈ entries, e.key.domain ≠ key.domain)
    (hc : ∀ r, s.entries.lookup key = some r → Coherent r) (h : Round s key s' none) :
    Refused s₀ (releasePermit s' entries) := by
  obtain ⟨hn, ha, hb⟩ := releasePermit_frame s' entries
  obtain ⟨hne, halc, hbr⟩ := h.frame
  refine ⟨fun k => ?_, hn ▸ hg.nextToken.trans hne, ha.trans (halc.trans hg.allocated),
    hb.trans (hbr.trans hg.breaker)⟩
  by_cases hk : k = key
  · subst hk
    have hout : ∀ e ∈ entries, e.key ≠ k := fun e he heq => hd e he (congrArg (·.domain) heq)
    rw [releasePermit_others s' entries k hout, ← hg.others k hout]
    exact h.refused_records hc
  · rw [releasePermit_lookup, h.others k hk, ← releasePermit_lookup]
    exact hg.released.records k

section

variable {r' : HealthRecord} (h : Relabelled r r')
include h

theorem Relabelled.addr : r'.addr = r.addr := by
  rcases h.label with rfl | rfl <;> rfl

theorem Relabelled.version : r'.version = r.version := by
  rcases h.label with rfl | rfl <;> rfl

theorem Relabelled.token : r'.halfOpenToken = 0 := by
  rcases h.label with rfl | rfl
  · exact h.tokenBefore
  · rfl

theorem Relabelled.breaker : r'.status.breaker = .cooldown := by
  rcases h.label with rfl | rfl <;> rfl

theorem Relabelled.cooldown : r'.status.cooldownUntil = r'.openUntil := by
  rcases h.label with rfl | rfl <;> rfl

theorem Relabelled.coherent (hr : Coherent r) : Coherent r' where
  token ht := absurd h.token ht
  cooldown _ := h.cooldown
  opened _ := h.version ▸ hr.opened h.before

end

theorem Relabelled.trans {a b c} (hab : Relabelled a b) (hbc : Relabelled b c) : Relabelled a c := by
  refine ⟨hab.before, hab.tokenBefore, ?_⟩
  rcases hbc.label with rfl | rfl
  · rcases hab.label with rfl | rfl
    · exact .inl rfl
    · exact .inr rfl
  · rcases hab.label with rfl | rfl <;> exact .inr rfl

theorem Refused.refl (s) : Refused s s := ⟨fun _ => .inl rfl, le_rfl, rfl, rfl⟩

theorem Refused.trans {a b c} (hab : Refused a b) (hbc : Refused b c) : Refused a c := by
  refine ⟨fun k => ?_, hab.nextToken.trans hbc.nextToken, hbc.allocated.trans hab.allocated,
    hbc.breaker.trans hab.breaker⟩
  rcases hbc.records k with h | ⟨r, r', hr, hr', hm⟩
  · rw [h]; exact hab.records k
  rcases hab.records k with h | ⟨q, q', hq, hq', hm'⟩
  · exact .inr ⟨r, r', h.symm.trans hr, hr', hm⟩
  rw [hq'] at hr
  cases hr
  exact .inr ⟨q, r', hq, hr', hm'.trans hm⟩

def CoherentStore (s : HealthStore) : Prop := ∀ k r, s.entries.lookup k = some r → Coherent r

theorem Round.coherent {s' : HealthStore} {e} (hc : CoherentStore s) (h : Round s key s' e) : CoherentStore s' := by
  refine h.keeps hc (fun r hr ht _ => reserve_coherent (hc key r hr) ht _) fun r hr hb => ?_
  refine ⟨absurd ((hc key r hr).token_eq_zero (by simp [hb])), fun _ => rfl, fun _ => ?_⟩
  exact (hc key r hr).opened ((tripped_iff r).2 (.inl hb))

inductive Acquired (s : HealthStore) : HealthStore × Option (List PermitEntry) → Prop
  | granted {s' : HealthStore} {entries : List PermitEntry} (h : Granted s s' entries) :
      Acquired s (s', some entries)
  | refused {s' : HealthStore} (h : Refused s s') : Acquired s (s', none)

theorem acquireLoop_acquired {s₀} (now keys s entries) (hg : Granted s₀ s entries) (hc : CoherentStore s)
    (hn : (keys.map (·.domain)).Nodup) (hd : ∀ key ∈ keys, ∀ e ∈ entries, e.key.domain ≠ key.domain) :
    Acquired s₀ (acquireLoop now keys s entries) := by
  induction keys generalizing s entries with
  | nil => exact .granted hg
  | cons key keys ih =>
    obtain ⟨k, hk, hres⟩ := recordForKey_some s key
    have hr := acquireResolved_round (hc k) now
    have hf : ∀ e ∈ entries, e.key.domain ≠ k.domain := hk ▸ hd key mem_cons_self
    rw [map_cons, nodup_cons] at hn
    rw [acquireLoop, hres]
    rcases hacq : acquireResolved s _ k now with ⟨s', _ | e⟩
    · rw [hacq] at hr
      exact .refused (hg.refuse hf (hc k) hr)
    rw [hacq] at hr
    apply ih s' _ (hg.snoc hf hr) (hr.coherent hc) hn.2
    intro key' hk' e' he'
    rcases mem_append.mp he' with he' | he'
    · exact hd key' (mem_cons_of_mem _ hk') e' he'
    · rw [mem_singleton.mp he', hr.entry_key, hk]
      exact fun heq => hn.1 (heq ▸ mem_map_of_mem (f := (·.domain)) hk')

theorem available_eq_readOnly (r now) : (available r now).2 = availableReadOnly r now := by
  rw [available, availableReadOnly]
  split
  · next hb => split <;> simp_all
  all_goals simp_all

theorem acquireResolved_isSome_iff (key now) : (acquireResolved s (s.entries.lookup key) key now).2.isSome = true ↔
      ∀ r, s.entries.lookup key = some r → availableReadOnly r now = true := by
  cases s.entries.lookup key with
  | none => simp [acquireResolved]
  | some r =>
    simp only [acquireResolved, available_eq_readOnly, Option.some.injEq, forall_eq']
    cases availableReadOnly r now with
    | false => simp
    | true =>
      rw [if_neg (by decide)]
      split <;> simp

theorem recordForKey_congr {s'} (h : ∀ k, k.domain = key.domain → s'.entries.lookup k = s.entries.lookup k) :
    recordForKeyLocked s' key = recordForKeyLocked s key := by
  have hleg (legacy) := h { key with transport := legacy } rfl
  simp only [recordForKeyLocked, h key rfl, hleg]

/-- An acquisition gets every key or none. -/
theorem acquireLoop_all (now keys s entries) (hc : CoherentStore s) (hn : (keys.map (·.domain)).Nodup) :
    ((acquireLoop now keys s entries).2.isSome = true ↔
      ∀ key ∈ keys, ∀ r, (recordForKeyLocked s key).1 = some r → availableReadOnly r now = true) ∧
    ∀ all ∈ (acquireLoop now keys s entries).2,
      all.map (·.key) = entries.map (·.key) ++ keys.map fun key => (recordForKeyLocked s key).2 := by
  induction keys generalizing s entries with
  | nil => simp [acquireLoop]
  | cons key keys ih =>
    obtain ⟨k, hk, hres⟩ := recordForKey_some s key
    have hr := acquireResolved_round (hc k) now
    rw [map_cons, nodup_cons] at hn
    rw [forall_mem_cons, hres, ← acquireResolved_isSome_iff, acquireLoop, hres]
    generalize acquireResolved s _ k now = x at hr ⊢
    obtain ⟨s', _ | e⟩ := x
    · simp
    -- the other keys are of other domains, so their records are as before
    have hsame : ∀ key' ∈ keys, recordForKeyLocked s' key' = recordForKeyLocked s key' := by
      intro key' hke'
      refine recordForKey_congr fun k' hk' => hr.others k' ?_
      rintro rfl
      exact hn.1 (hk.symm.trans hk' ▸ mem_map_of_mem (f := (·.domain)) hke')
    obtain ⟨hiff, hkeys⟩ := ih s' (entries ++ [e]) (hr.coherent hc) hn.2
    simp only [isSome_some, true_and]
    refine ⟨hiff.trans (forall₂_congr fun key' hke' => ?_), fun all hall => ?_⟩
    · rw [hsame key' hke']
    · have hre : keys.map (fun key => (recordForKeyLocked s' key).2) =
          keys.map fun key => (recordForKeyLocked s key).2 :=
        map_congr_left fun key' hke' => by rw [hsame key' hke']
      simp [hkeys all hall, hre, hres, hr.entry_key]

theorem acquireLoop_isSome_iff (now keys s entries) (hc : CoherentStore s) (hn : (keys.map (·.domain)).Nodup) :
    (acquireLoop now keys s entries).2.isSome = true ↔
      ∀ key ∈ keys, ∀ r, (recordForKeyLocked s key).1 = some r → availableReadOnly r now = true :=
  (acquireLoop_all now keys s entries hc hn).1

theorem dialKeys_domains (handle transport service) : ((dialKeys handle transport service).map (·.domain)).Nodup := by
  unfold dialKeys endpointKey transportKey serviceKey healthKey
  cases service <;> (split <;> simp)

theorem dial_acquired (hc : CoherentStore s) (handle transport service now) :
    Acquired s (tryAcquirePermit s (dialKeys handle transport service) now) :=
  acquireLoop_acquired now _ s [] (.nil s) hc (dialKeys_domains handle transport service) (by simp)

theorem domain_resolves (s handle domain transport service now order) :
    ∃ k, tryAcquireDomainPermit s handle domain transport service now order =
      ((acquireResolved s (s.entries.lookup k) k now).1,
        (acquireResolved s (s.entries.lookup k) k now).2.map fun e => [e]) := by
  rw [tryAcquireDomainPermit]
  dsimp only
  obtain ⟨k, _, hres⟩ := recordForKey_some s
    (healthKey handle domain _ service)
  rw [hres]
  split
  · next pinned hp =>
    split at hp
    · exact ⟨pinned.1, by rw [mostRestrictive_lookup hp]⟩
    · cases hp
  · exact ⟨k, rfl⟩

theorem domain_acquired (hc : CoherentStore s) (handle domain transport service now order) :
    Acquired s (tryAcquireDomainPermit s handle domain transport service now order) := by
  obtain ⟨k, heq⟩ := domain_resolves s handle domain transport service now order
  have hr := acquireResolved_round (hc k) now
  rw [heq]
  rcases hacq : acquireResolved s _ k now with ⟨s', _ | e⟩
  · rw [hacq] at hr
    exact .refused ((Granted.nil s).refuse (by simp) (hc k) hr)
  · rw [hacq] at hr
    exact .granted ((Granted.nil s).snoc (by simp) hr)

end SingBox.PermitMoves
