import SingBox.HealthReducer
import SingBox.LedgerListing

namespace SingBox.FamilyLedgers

open List Option Values Maps BreakerRecord HealthTransport HealthLedger LedgerMoves AttemptPermits PermitMoves
  BreakerRuns BreakerSteps LedgerListing

/-- The key is not one of the two that older callers wrote. -/
def Plain (k : HealthKey) : Prop := k.domain = .transport → k.transport ≠ "tcp" ∧ k.transport ≠ "udp"

/-- What `permitKeysForDial` can ask for. -/
def Genuine : Op → Prop
  | .dial _ transport _ _ => transport ≠ "tcp" ∧ transport ≠ "udp"
  | _ => True

theorem normalize_ne (path) :
    normalizeHealthTransportPath path ≠ "tcp" ∧ normalizeHealthTransportPath path ≠ "udp" := by
  rw [normalizeHealthTransportPath]
  split_ifs with htcp hudp hdns hdata
  · decide
  · decide
  · decide
  · decide
  · exact ⟨htcp, hudp⟩

theorem transportLedgerKey_ne (path) : transportLedgerKey path ≠ "tcp" ∧ transportLedgerKey path ≠ "udp" := by
  by_cases hemp : normalizeHealthTransportPath path = ""
  · rw [transportLedgerKey, if_neg (not_not.2 hemp)]
    constructor
    all_goals
      rintro rfl
      exact absurd hemp (by decide)
  · rw [transportLedgerKey, if_pos hemp]
    exact normalize_ne path

theorem plain_observationKey (o) : Plain (observationKey o) := by
  intro hdom
  change o.scope = .transport at hdom
  have hled := transportLedgerKey_ne o.transport
  rw [transportLedgerKey] at hled
  rw [observationKey]
  rw [hdom]
  simpa using hled

structure Qualified (w : World) : Prop where
  stored : ∀ k r, w.store.entries.lookup k = some r → Plain k
  entries : ∀ p ∈ w.permits, ∀ e ∈ p.entries, Plain e.key

theorem recordForKey_key (s key) : (recordForKeyLocked s key).2 = key ∨ ∃ r legacy, key.domain = .transport ∧
      legacyTransport key.transport = some legacy ∧ (recordForKeyLocked s key).2 = { key with transport := legacy } ∧
      s.entries.lookup { key with transport := legacy } = some r := by
  generalize hres : recordForKeyLocked s key = res
  rw [recordForKeyLocked] at hres
  split at hres
  · exact .inl (hres ▸ rfl)
  split at hres
  · exact .inl (hres ▸ rfl)
  rename_i hdom
  split at hres
  · exact .inl (hres ▸ rfl)
  rename_i legacy hleg
  split at hres
  · rename_i r hr
    exact .inr ⟨r, legacy, not_not.1 hdom, hleg, hres ▸ rfl, hr⟩
  · exact .inl (hres ▸ rfl)

def AllPlain (s : HealthStore) : Prop := ∀ k r, s.entries.lookup k = some r → Plain k

variable {s s' : HealthStore} {entries : List PermitEntry} {key : HealthKey} {now : Time} {keys : List HealthKey}

theorem acquireResolved_key {found e} (h : acquireResolved s found key now = (s', some e)) : e.key = key := by
  cases found with
  | none =>
    obtain ⟨-, rfl⟩ := Prod.mk.inj h |>.imp_right some.inj
    rfl
  | some r =>
    rw [acquireResolved] at h
    split at h
    · cases h
    split at h
    · cases h
      rfl
    · cases h
      rfl

theorem acquireLoop_entries {acc} (h : acquireLoop now keys s acc = (s', some entries)) : ∃ es, entries = acc ++ es ∧
      List.Forall₂ (fun key e => ∃ s₀, Rewrites s s₀ ∧ e.key = (recordForKeyLocked s₀ key).2) keys es := by
  induction keys generalizing s acc with
  | nil =>
    obtain ⟨-, heq⟩ := Prod.mk.inj h
    exact ⟨[], by rw [← some.inj heq, append_nil], .nil⟩
  | cons key keys ih =>
    obtain ⟨k, -, hk⟩ := recordForKey_some s key
    rw [acquireLoop] at h
    split at h
    · cases h
    rename_i s₁ e hr
    obtain ⟨es, rfl, hes⟩ := ih h
    have hrewr : Rewrites s s₁ := by
      have hres := acquireResolved_rewrites s k now
      rw [hk] at hr
      rw [hr] at hres
      exact hres
    refine ⟨e :: es, by simp, .cons ⟨s, .refl s, acquireResolved_key hr⟩ ?_⟩
    refine hes.imp fun key' e' he' => ?_
    obtain ⟨s₀, hs₀, hke⟩ := he'
    exact ⟨s₀, hrewr.trans hs₀, hke⟩

theorem plain_recordForKey (hsto : AllPlain s) (hk : Plain key) : Plain (recordForKeyLocked s key).2 := by
  rcases recordForKey_key s key with heq | ⟨r, legacy, -, -, heq, hr⟩
  · rw [heq]
    exact hk
  · rw [heq]
    exact hsto _ r hr

theorem recordForKey_self (hsto : AllPlain s) (key)
    (hleg : legacyTransport key.transport = some "tcp" ∨ legacyTransport key.transport = some "udp") :
    recordForKeyLocked s key = (s.entries.lookup key, key) := by
  obtain ⟨k, -, hk⟩ := recordForKey_some s key
  rcases recordForKey_key s key with heq | ⟨r, legacy, hdom, hsome, heq, hr⟩
  · rw [hk] at heq ⊢
    rw [show k = key from heq]
  obtain ⟨htcp, hudp⟩ := hsto _ r hr hdom
  rcases hleg with hleg | hleg
  · exact absurd (mem_unique hsome hleg) htcp
  · exact absurd (mem_unique hsome hleg) hudp

theorem plain_of_rewrites (h : Rewrites s s') (hsto : AllPlain s) : AllPlain s' := by
  intro k r' hr'
  obtain ⟨r, hr, -⟩ := h.back k r' hr'
  exact hsto k r hr

theorem plain_entries (hsto : AllPlain s) (hkeys : ∀ key ∈ keys, Plain key)
    (h : tryAcquirePermit s keys now = (s', some entries)) : ∀ e ∈ entries, Plain e.key := by
  obtain ⟨es, rfl, hes⟩ := acquireLoop_entries h
  clear h
  induction hes with
  | nil => simp
  | cons hr _ ih =>
    intro e he
    rcases mem_cons.1 he with rfl | he
    · obtain ⟨s₀, hs₀, heq⟩ := hr
      rw [heq]
      exact plain_recordForKey (plain_of_rewrites hs₀ hsto) (hkeys _ mem_cons_self)
    · exact ih (fun key hk => hkeys key (mem_cons_of_mem _ hk)) e he

theorem plain_domain (hsto : AllPlain s) (handle domain transport service now order)
    (h : tryAcquireDomainPermit s handle domain transport service now order = (s', some entries)) :
    ∀ e ∈ entries, Plain e.key := by
  have hled : Plain (healthKey handle domain
      (if domain = .transport then transportLedgerKey transport else transport) service) := by
    intro hdom
    change domain = .transport at hdom
    rw [if_pos hdom]
    exact transportLedgerKey_ne transport
  have hmade : ∀ {k : HealthKey} {found : Option HealthRecord}, Plain k →
      ((acquireResolved s found k now).1, (acquireResolved s found k now).2.map fun e => [e]) = (s', some entries) →
        ∀ e ∈ entries, Plain e.key := by
    intro k found hk hacq e he
    obtain ⟨-, hent⟩ := Prod.mk.inj hacq
    obtain ⟨e', he', rfl⟩ := map_eq_some_iff.1 hent
    rw [mem_singleton.1 he, acquireResolved_key (Prod.ext rfl he')]
    exact hk
  rw [tryAcquireDomainPermit] at h
  dsimp only at h
  split at h
  · rename_i pinned hpin
    rw [ite_none_right_eq_some] at hpin
    exact hmade (hsto _ _ (mostRestrictive_lookup hpin.2)) h
  · exact hmade (plain_recordForKey hsto hled) h

theorem plain_touches {moved made} (h : Touches s s' key moved made) (hsto : AllPlain s) (hk : Plain key) :
    AllPlain s' := by
  intro k r hr
  by_cases heq : k = key
  · rw [heq]
    exact hk
  · exact hsto k r (h.others k r heq hr)

theorem plain_completed (hsto : AllPlain s) (hent : ∀ e ∈ entries, Plain e.key) (outcomes time delay reason) :
    AllPlain (completePermitDomains s entries outcomes time delay reason) := by
  induction entries generalizing s with
  | nil => exact hsto
  | cons e entries ih =>
    refine ih ?_ fun e' he' => hent e' (mem_cons_of_mem _ he')
    exact plain_touches (completeEntry_touches outcomes time delay reason s e) hsto
      (hent e mem_cons_self)

theorem plain_dialKeys {transport} (h : transport ≠ "tcp" ∧ transport ≠ "udp") (handle service) :
    ∀ key ∈ dialKeys handle transport service, Plain key := by
  intro key hk hdom
  rw [dialKeys, mem_append, mem_append] at hk
  rcases hk with (hk | hk) | hk
  · rw [mem_singleton.1 hk] at hdom
    cases hdom
  · split at hk
    · rw [mem_singleton.1 hk]
      exact h
    · cases hk
  · obtain ⟨name, -, rfl⟩ := map_eq_some_iff.1 (mem_toList.1 hk)
    cases hdom

theorem qualified_step {w} (h : Qualified w) {op} (hgen : Genuine op) : Qualified (step w op) := by
  have hiss : ∀ kind (result : HealthStore × Option (List PermitEntry)), Rewrites w.store result.1 →
      (∀ entries, result.2 = some entries → ∀ e ∈ entries, Plain e.key) → Qualified (issue w kind result) := by
    intro kind result hres hent
    rw [issue]
    split
    · exact ⟨plain_of_rewrites hres h.stored, h.entries⟩
    rename_i entries hsome
    refine ⟨plain_of_rewrites hres h.stored, fun p hp => ?_⟩
    rcases List.mem_append.1 hp with hp | hp
    · exact h.entries p hp
    · rw [List.mem_singleton.1 hp]
      exact hent entries hsome
  have hfin : ∀ i effect, (∀ entries, (∀ e ∈ entries, Plain e.key) → AllPlain (effect w.store entries)) →
      Qualified (finish w i effect) := by
    intro i effect heff
    rcases finish_cases w i effect with ⟨heq, -⟩ | ⟨p, hp, -, heq⟩
    · rw [heq]
      exact h
    rw [heq]
    have hm := List.mem_of_getElem? hp
    refine ⟨heff p.entries (h.entries p hm), fun q hq => ?_⟩
    rcases List.mem_or_eq_of_mem_set hq with hq | rfl
    · exact h.entries q hq
    · exact h.entries p hm
  cases op with
  | dial handle transport service time =>
    refine hiss _ _ (acquireLoop_rewrites ..) fun entries hsome => ?_
    exact plain_entries h.stored (plain_dialKeys hgen handle service) (Prod.ext rfl hsome)
  | domain handle domain transport service time order =>
    exact hiss _ _ (tryAcquireDomainPermit_rewrites _ _ _ _ _ _ _) fun entries hsome =>
      plain_domain h.stored handle domain transport service time order (Prod.ext rfl hsome)
  | fallback handle transport =>
    refine hiss _ _ (.refl _) fun entries hsome => ?_
    rw [tryAcquireConnectionFallbackPermitHandle] at hsome
    simp only [List.mapM_cons, List.mapM_nil, Option.pure_def, Option.bind_eq_bind, Option.bind_eq_some_iff,
      Option.some.injEq] at hsome
    obtain ⟨e, he, es, ⟨e', he', es', rfl, rfl⟩, rfl⟩ := hsome
    obtain ⟨hk, -⟩ := fallbackEntry_unreserved he
    obtain ⟨hk', -⟩ := fallbackEntry_unreserved he'
    intro entry hen
    simp only [List.mem_cons, List.not_mem_nil, or_false] at hen
    rcases hen with rfl | rfl
    · rw [hk]
      exact fun hdom => by cases hdom
    · rw [hk']
      exact fun _ => transportLedgerKey_ne transport
  | complete => exact hfin _ _ fun entries hent => plain_completed h.stored hent _ _ _ _
  | release => exact hfin _ _ fun entries hent => plain_of_rewrites (releasePermit_rewrites _ entries) h.stored
  | observe o eligible weight now =>
    refine ⟨?_, h.entries⟩
    rw [step, observeEvidence]
    dsimp only
    split
    · exact h.stored
    split
    · exact plain_touches (observeLocked_touches _ _ _ _ _ _ _ _ _) h.stored (plain_observationKey _)
    · exact plain_touches (observeQualityLocked_touches _ _ _ _) h.stored (plain_observationKey _)
  | canAttempt => exact ⟨plain_of_rewrites (canAttemptLocked_rewrites _ _ _ _) h.stored, h.entries⟩
  | retire handle =>
    exact ⟨fun k r hr => h.stored k r ((retireNodeHandle_removes _ handle).shrinks.entries k r hr), h.entries⟩

theorem qualified_start (retention maxEntries breaker) : Qualified (start retention maxEntries breaker) :=
  ⟨fun k r hr => by simp [start, newHealthStoreWithClock] at hr, by simp [start]⟩

end SingBox.FamilyLedgers
