import SingBox.Arena
import SingBox.BreakerRuns
import SingBox.PermitMoves

namespace SingBox.BreakerSteps

open List Arena Values BreakerRecord BreakerMoves HealthLedger LedgerMoves AttemptPermits PermitMoves BreakerRuns

structure Unreserved (s : HealthStore) (e : PermitEntry) : Prop where
  token : e.halfOpenToken = 0
  free : s.entries.lookup e.key = none → e.version = 0
  version : ∀ r, s.entries.lookup e.key = some r → e.version = r.version ∧ r.status.breaker ≠ .halfOpen

variable {s : HealthStore} {e : PermitEntry} {w w' : World} {r' : HealthRecord} {op : Op}
  {p : AttemptPermit} {outcomes : FailureDomain → Option ObservationOutcome} {k : HealthKey} {key : HealthKey}
  {cfg : BreakerConfig} {i : Nat} {r : HealthRecord} {s' : HealthStore} {q : AttemptPermit}

theorem fallbackEntry_unreserved (h : fallbackEntry s key = some e) : e.key = key ∧ Unreserved s e := by
  unfold fallbackEntry at h
  split at h
  · next hr =>
    cases h
    exact ⟨rfl, rfl, fun _ => rfl, fun r hr' => by cases hr.symm.trans hr'⟩
  · next r hr =>
    split at h
    · cases h
    rename_i hb
    cases h
    refine ⟨rfl, rfl, fun hn => (by cases hn.symm.trans hr), fun r' hr' => ?_⟩
    cases hr.symm.trans hr'
    exact ⟨rfl, hb⟩

theorem fallback_unreserved {handle transport entries}
    (h : tryAcquireConnectionFallbackPermitHandle s handle transport = some entries) :
    (entries.map (·.key)).Nodup ∧ ∀ e ∈ entries, Unreserved s e := by
  unfold tryAcquireConnectionFallbackPermitHandle at h
  simp only [mapM_cons, mapM_nil, Option.pure_def, Option.bind_eq_bind, Option.bind_eq_some_iff,
    Option.some.injEq] at h
  obtain ⟨e, he, es, ⟨e', he', es', rfl, rfl⟩, rfl⟩ := h
  obtain ⟨hk, hu⟩ := fallbackEntry_unreserved he
  obtain ⟨hk', hu'⟩ := fallbackEntry_unreserved he'
  constructor
  · rw [map_cons, map_cons, hk, hk']
    simp [endpointKey, transportKey, healthKey]
  · intro d hd
    simp only [mem_cons, not_mem_nil, or_false] at hd
    rcases hd with rfl | rfl
    · exact hu
    · exact hu'

def Settled (cfg : BreakerConfig) (outcomes : FailureDomain → Option ObservationOutcome) (time : Time)
    (e : PermitEntry) (r r' : HealthRecord) : Prop :=
  match outcomes e.key.domain with
  | none | some .deferred => r' = returnToken e r
  | some outcome => Reported cfg outcome time e.version e.halfOpenToken true r r'

def MadeBy (cfg : BreakerConfig) (outcomes : FailureDomain → Option ObservationOutcome) (time : Time)
    (e : PermitEntry) (r' : HealthRecord) : Prop :=
  match outcomes e.key.domain with
  | none | some .deferred => False
  | some outcome => MadeByReport cfg e.key outcome time e.version true r'

structure Completed (s s' : HealthStore) (entries : List PermitEntry)
    (outcomes : FailureDomain → Option ObservationOutcome) (time : Time) : Prop where
  others : ∀ k r, (∀ e ∈ entries, e.key ≠ k) → s'.entries.lookup k = some r → s.entries.lookup k = some r
  own : ∀ e ∈ entries, ∀ r', s'.entries.lookup e.key = some r' →
    (∃ r, s.entries.lookup e.key = some r ∧ Settled s.breaker outcomes time e r r') ∨
      MadeBy s.breaker outcomes time e r' ∧ s.allocated ≤ r'.addr ∧ r'.addr < s'.allocated
  nextToken : s'.nextToken = s.nextToken
  allocated : s.allocated ≤ s'.allocated
  breaker : s'.breaker = s.breaker

theorem releaseTokenLocked_touches (s e) :
    Touches s (releaseTokenLocked s e) e.key (fun r r' => r' = returnToken e r) (fun _ => False) := by
  obtain ⟨hn, ha, hb⟩ := releaseTokenLocked_frame s e
  refine ⟨fun k r hk h => ?_, fun r' h => ?_, hn, le_of_eq ha.symm, hb⟩
  · rwa [releaseToken_lookup, if_neg hk] at h
  · rw [releaseToken_lookup, if_pos rfl, Option.map_eq_some_iff] at h
    obtain ⟨r, hr, rfl⟩ := h
    exact .inl ⟨r, hr, rfl⟩

def completeEntry (outcomes : FailureDomain → Option ObservationOutcome) (time : Time) (delay : Duration)
    (reason : String) (s : HealthStore) (e : PermitEntry) : HealthStore :=
  match outcomes e.key.domain with
  | none | some .deferred => releaseTokenLocked s e
  | some outcome => observeLocked s e.key outcome time delay reason e.version e.halfOpenToken true

section

variable (s : HealthStore) (entries : List PermitEntry) (outcomes : FailureDomain → Option ObservationOutcome)
  (time : Time) (delay : Duration) (reason : String)

theorem completeEntry_touches (s e) :
    Touches s (completeEntry outcomes time delay reason s e) e.key (Settled s.breaker outcomes time e)
      (MadeBy s.breaker outcomes time e) := by
  have hrel := releaseTokenLocked_touches s e
  have hobs := fun outcome => observeLocked_touches s e.key outcome time delay reason e.version e.halfOpenToken true
  unfold completeEntry Settled MadeBy
  rcases outcomes e.key.domain with _ | outcome
  · exact hrel
  cases outcome with
  | deferred => exact hrel
  | success => exact hobs .success
  | failure => exact hobs .failure
  | blocked => exact hobs .blocked

theorem completePermitDomains_completed (hn : (entries.map (·.key)).Nodup) :
    Completed s (completePermitDomains s entries outcomes time delay reason) entries outcomes time := by
  change Completed s (entries.foldl (completeEntry outcomes time delay reason) s) entries outcomes time
  induction entries generalizing s with
  | nil => exact ⟨fun _ _ _ h => h, by simp, rfl, le_rfl, rfl⟩
  | cons e entries ih =>
    rw [map_cons, nodup_cons] at hn
    have ht := completeEntry_touches outcomes time delay reason s e
    have hre := ih (completeEntry outcomes time delay reason s e) hn.2
    have hout : ∀ e' ∈ entries, e'.key ≠ e.key :=
      fun e' he' heq => hn.1 (heq ▸ mem_map_of_mem (f := (·.key)) he')
    refine ⟨?_, ?_, hre.nextToken.trans ht.nextToken, ht.allocated.trans hre.allocated,
      hre.breaker.trans ht.breaker⟩
    · intro k r hk h
      exact ht.others k r (hk e mem_cons_self).symm
        (hre.others k r (fun e' he' => hk e' (mem_cons_of_mem _ he')) h)
    · intro e' he' r' h
      rcases mem_cons.mp he' with rfl | he'
      · rcases ht.own r' (hre.others e'.key r' hout h) with hm | ⟨hm, hlo, hhi⟩
        · exact .inl hm
        · exact .inr ⟨hm, hlo, lt_of_lt_of_le hhi hre.allocated⟩
      · rcases hre.own e' he' r' h with ⟨r, hr, hm⟩ | ⟨hm, hlo, hhi⟩
        · exact .inl ⟨r, ht.others e'.key r (hout e' he') hr, ht.breaker ▸ hm⟩
        · exact .inr ⟨ht.breaker ▸ hm, ht.allocated.trans hlo, hhi⟩

end

theorem canAttemptLocked_rule {P : HealthStore → Prop} {now} (h : P s)
    (hlook : ∀ s k r, P s → s.entries.lookup k = some r → P (save s k (available r now).1)) (handle service) :
    P (canAttemptLocked s handle service now).1 := by
  unfold canAttemptLocked
  extract_lets probe first
  have hprobe : ∀ s key, P s → P (probe s key).1 := by
    intro s key h
    obtain ⟨k, -, hk⟩ := recordForKey_some s key
    simp only [probe, hk]
    cases hr : s.entries.lookup k with
    | none => exact h
    | some r => exact hlook s k r h hr
  split
  · exact hprobe _ _ (hprobe s _ h)
  · exact hprobe s _ h

theorem canAttemptLocked_refused (hc : CoherentStore s) (handle service now) :
    Refused s (canAttemptLocked s handle service now).1 := by
  refine (canAttemptLocked_rule (P := fun s' => Refused s s' ∧ CoherentStore s') ⟨.refl s, hc⟩ ?_ handle
    service).1
  rintro s' k r ⟨href, hc⟩ hr
  have hrd : Round s' k (save s' k (available r now).1) none := by
    rcases available_same_or_relabel r now with h | ⟨hb, _, h⟩
    · rw [h]; exact .refused r hr
    · rw [h]; exact .cooled r hr hb
  exact ⟨href.trans ((Granted.nil s').refuse (by simp) (hc k) hrd), hrd.coherent hc⟩

structure Sound (w : World) : Prop where
  coherent : CoherentStore w.store
  keys : ∀ p ∈ w.permits, (p.entries.map (·.key)).Nodup

def ended (p : AttemptPermit) : AttemptPermit := { p with completed := true }

inductive Change (w : World) : Op → World → Prop
  | issued {op : Op} (p : AttemptPermit) (hkind : p.kind = .normal) (hopen : p.completed = false)
      (h : Granted w.store p.issuedIn p.entries) : Change w op ⟨p.issuedIn, w.permits ++ [p]⟩
  | fallback {op : Op} (p : AttemptPermit) (hkind : p.kind = .fallback) (hopen : p.completed = false)
      (hs : p.issuedIn = w.store) (hn : (p.entries.map (·.key)).Nodup)
      (h : ∀ e ∈ p.entries, Unreserved w.store e) : Change w op ⟨w.store, w.permits ++ [p]⟩
  | refused {op : Op} (s : HealthStore) (h : Refused w.store s) : Change w op ⟨s, w.permits⟩
  | removed {op : Op} (s : HealthStore) (h : Shrinks w.store s) : Change w op ⟨s, w.permits⟩
  | graded {op : Op} (s : HealthStore) (key : HealthKey) (h : Touches w.store s key SameBreaker fun r' =>
    ∃ addr, SameBreaker { addr := addr, key := key, status := { breaker := .closed } } r') :
    Change w op ⟨s, w.permits⟩
  | observed {op : Op} (s : HealthStore) (key : HealthKey) (outcome : ObservationOutcome) (time : Time)
      (h : Touches w.store s key (Reported w.store.breaker outcome time 0 0 false)
        (MadeByReport w.store.breaker key outcome time 0 false)) : Change w op ⟨s, w.permits⟩
  | completed (i : Nat) (p : AttemptPermit) (outcomes : FailureDomain → Option ObservationOutcome) (time : Time)
      (delay : Duration) (reason : String) (s : HealthStore) (hp : w.permits[i]? = some p)
      (hopen : p.completed = false) (h : Completed w.store s p.entries outcomes time) :
      Change w (.complete i outcomes time delay reason) ⟨s, w.permits.set i (ended p)⟩
  | released (i : Nat) (p : AttemptPermit) (s : HealthStore) (hp : w.permits[i]? = some p)
      (hopen : p.completed = false) (h : Completed w.store s p.entries (fun _ => none) 0) :
      Change w (.release i) ⟨s, w.permits.set i (ended p)⟩

theorem Change.idle (w op) : Change w op w := .refused w.store (.refl _)

theorem issue_change (op) {result} (h : Acquired w.store result) : Change w op (issue w .normal result) := by
  cases h with
  | granted h => exact .issued ⟨_, false, .normal, _⟩ rfl rfl h
  | refused h => exact .refused _ h

theorem finish_cases (w i effect) :
    (finish w i effect = w ∧ ∀ p ∈ w.permits[i]?, p.completed = true) ∨ ∃ p, w.permits[i]? = some p ∧
      p.completed = false ∧ finish w i effect = ⟨effect w.store p.entries, w.permits.set i (ended p)⟩ := by
  cases hp : w.permits[i]? with
  | none => exact .inl (by simp [finish, hp])
  | some p =>
    by_cases hd : p.completed = true
    · exact .inl (by simp [finish, hp, hd])
    refine .inr ⟨p, rfl, Bool.not_eq_true _ ▸ hd, ?_⟩
    simp only [finish, hp, hd]
    rfl

theorem step_change (hw : Sound w) (op) : Change w op (step w op) := by
  cases op with
  | dial handle transport service time =>
    exact issue_change _ (dial_acquired hw.coherent handle transport service time)
  | domain handle domain transport service time order =>
    exact issue_change _ (domain_acquired hw.coherent handle domain transport service time order)
  | fallback handle transport =>
    cases h : tryAcquireConnectionFallbackPermitHandle w.store handle transport with
    | none =>
      simp only [step, h]
      exact .idle w _
    | some entries =>
      obtain ⟨hn, hu⟩ := fallback_unreserved h
      simp only [step, h]
      exact .fallback ⟨entries, false, .fallback, w.store⟩ rfl rfl rfl hn hu
  | complete i outcomes time delay reason =>
    rcases finish_cases w i (fun s entries => completePermitDomains s entries outcomes time delay reason) with
      ⟨h, -⟩ | ⟨p, hp, hopen, h⟩
    · simp only [step, h]
      exact .idle w _
    · simp only [step, h]
      exact .completed i p outcomes time delay reason _ hp hopen
        (completePermitDomains_completed _ _ _ _ _ _ (hw.keys p (mem_of_getElem? hp)))
  | release i =>
    rcases finish_cases w i releasePermit with ⟨h, -⟩ | ⟨p, hp, hopen, h⟩
    · simp only [step, h]
      exact .idle w _
    simp only [step, h]
    exact .released i p _ hp hopen
      (completePermitDomains_completed _ _ (fun _ => none) 0 0 "" (hw.keys p (mem_of_getElem? hp)))
  | observe o breakerEligible weight now =>
    simp only [step, observeEvidence]
    split
    · exact .idle w _
    generalize (if isZero o.time = true then { o with time := now } else o) = o
    split
    · exact .observed _ _ o.outcome o.time (observeLocked_touches ..)
    · exact .graded _ _ (observeQualityLocked_touches ..)
  | canAttempt handle service time => exact .refused _ (canAttemptLocked_refused hw.coherent handle service time)
  | retire handle => exact .removed _ (retireNodeHandle_removes _ handle).shrinks

inductive Move (w w' : World) (op : Op) (k : HealthKey) (r r' : HealthRecord) : Prop
  | graded (h : SameBreaker r r')
  | relabelled (h : Relabelled r r')
  | reserved (token : Nat) (ht : tripped r = true) (hz : r.halfOpenToken = 0) (h : r' = reserve r token)
  | returned (i : Nat) (p : AttemptPermit) (e : PermitEntry) (hp : w.permits[i]? = some p)
      (hended : w'.permits[i]? = some (ended p)) (he : e ∈ p.entries) (h : r' = returnToken e r)
  | observed (outcome : ObservationOutcome) (time : Time)
      (h : Reported w.store.breaker outcome time 0 0 false r r')
  | reported (i : Nat) (p : AttemptPermit) (outcomes : FailureDomain → Option ObservationOutcome) (time : Time)
      (delay : Duration) (reason : String) (e : PermitEntry) (outcome : ObservationOutcome)
      (hop : op = .complete i outcomes time delay reason) (hp : w.permits[i]? = some p)
      (hopen : p.completed = false) (hended : w'.permits[i]? = some (ended p))
      (he : e ∈ p.entries) (hk : e.key = k) (ho : outcomes k.domain = some outcome) (hd : outcome ≠ .deferred)
      (h : Reported w.store.breaker outcome time e.version e.halfOpenToken true r r')

structure Fresh (w w' : World) (r' : HealthRecord) : Prop where
  coherent : Coherent r'
  token : r'.halfOpenToken = 0
  lower : w.store.allocated ≤ r'.addr
  upper : r'.addr < w'.store.allocated

theorem madeByReport_coherent {outcome time version active} (h : MadeByReport cfg key outcome time version active r') :
    Coherent r' ∧ r'.halfOpenToken = 0 := by
  obtain ⟨_, addr, draw, delay, reason, rfl⟩ := h
  have hnew : Coherent { addr := addr, key := key } := coherent_of_untripped rfl rfl
  exact ⟨report_coherent _ _ _ _ _ _ _ hnew, report_token _ _ _ _ _ _ _ hnew⟩

theorem settled_move {time}
    (hop : (∃ delay reason, op = .complete i outcomes time delay reason) ∨ outcomes = fun _ => none)
    (hp : w.permits[i]? = some p) (hopen : p.completed = false) (hend : w'.permits[i]? = some (ended p))
    (he : e ∈ p.entries) (h : Settled w.store.breaker outcomes time e r r') : Move w w' op e.key r r' := by
  rw [Settled] at h
  split at h
  · exact .returned i p e hp hend he h
  · exact .returned i p e hp hend he h
  rename_i outcome hd ho
  rcases hop with ⟨delay, reason, hop⟩ | rfl
  · exact .reported i p outcomes time delay reason e outcome hop hp hopen hend he rfl ho hd h
  · cases ho

theorem MadeBy.coherent {time} (h : MadeBy cfg outcomes time e r') : Coherent r' ∧ r'.halfOpenToken = 0 := by
  unfold MadeBy at h
  split at h
  · exact h.elim
  · exact h.elim
  · exact madeByReport_coherent h

theorem completed_origin {time}
    (hop : (∃ delay reason, op = .complete i outcomes time delay reason) ∨ outcomes = fun _ => none)
    (hp : w.permits[i]? = some p) (hopen : p.completed = false) (hend : w'.permits[i]? = some (ended p))
    (h : Completed w.store w'.store p.entries outcomes time) (hr' : w'.store.entries.lookup k = some r') :
    (∃ r, w.store.entries.lookup k = some r ∧ Move w w' op k r r') ∨ Fresh w w' r' := by
  by_cases hme : ∃ e ∈ p.entries, e.key = k
  · obtain ⟨e, he, rfl⟩ := hme
    rcases h.own e he r' hr' with ⟨r, hr, hs⟩ | ⟨hm, hlo, hhi⟩
    · exact .inl ⟨r, hr, settled_move hop hp hopen hend he hs⟩
    · exact .inr ⟨hm.coherent.1, hm.coherent.2, hlo, hhi⟩
  · exact .inl ⟨r', h.others k r' (fun e he heq => hme ⟨e, he, heq⟩) hr', .graded (.refl r')⟩

theorem change_origin (h : Change w op w') (hr' : w'.store.entries.lookup k = some r') :
    (∃ r, w.store.entries.lookup k = some r ∧ Move w w' op k r r') ∨ Fresh w w' r' := by
  have hsame : w.store.entries.lookup k = some r' →
      (∃ r, w.store.entries.lookup k = some r ∧ Move w w' op k r r') ∨ Fresh w w' r' :=
    fun h => .inl ⟨r', h, .graded (.refl r')⟩
  cases h with
  | issued p _ _ h =>
    by_cases hme : ∃ e ∈ p.entries, e.key = k
    · obtain ⟨e, he, rfl⟩ := hme
      cases h.own e he with
      | absent _ h₁ => cases h₁.symm.trans hr'
      | plain r h₀ h₁ =>
        cases h₁.symm.trans hr'
        exact hsame h₀
      | reserved r h₀ h₁ hr hz =>
        cases h₁.symm.trans hr'
        exact .inl ⟨r, h₀, .reserved _ hr hz rfl⟩
    · exact hsame ((h.others k fun e he heq => hme ⟨e, he, heq⟩).symm.trans hr')
  | fallback => exact hsame hr'
  | refused s h =>
    rcases h.records k with heq | ⟨r, r'', hr, hr'', hm⟩
    · exact hsame (heq.symm.trans hr')
    · cases hr''.symm.trans hr'
      exact .inl ⟨r, hr, .relabelled hm⟩
  | removed s h => exact hsame (h.entries k r' hr')
  | graded s key h =>
    by_cases hk : k = key
    · subst hk
      rcases h.own r' hr' with ⟨r, hr, hm⟩ | ⟨⟨addr, hm⟩, hlo, hhi⟩
      · exact .inl ⟨r, hr, .graded hm⟩
      · exact .inr ⟨hm.coherent (coherent_of_untripped rfl rfl), hm.token, hlo, hhi⟩
    · exact hsame (h.others k r' hk hr')
  | observed s key outcome time h =>
    by_cases hk : k = key
    · subst hk
      rcases h.own r' hr' with ⟨r, hr, hm⟩ | ⟨hm, hlo, hhi⟩
      · exact .inl ⟨r, hr, .observed outcome time hm⟩
      · obtain ⟨hc, ht⟩ := madeByReport_coherent hm
        exact .inr ⟨hc, ht, hlo, hhi⟩
    · exact hsame (h.others k r' hk hr')
  | completed i p outcomes time delay reason s hp hopen h =>
    exact completed_origin (.inl ⟨delay, reason, rfl⟩) hp hopen (set_self hp) h hr'
  | released i p s hp hopen h => exact completed_origin (.inr rfl) hp hopen (set_self hp) h hr'

theorem returnToken_cases (e r) :
    returnToken e r = r ∨ r.status.breaker = .halfOpen ∧ returnToken e r = giveBack r := by
  unfold returnToken
  split
  · next h => exact .inr ⟨h.2.2.2, rfl⟩
  · exact .inl rfl

/-- The record stays the same one, is never opened less often, and is tripped
without having been opened only if it was tripped before. -/
structure Ages (r r' : HealthRecord) : Prop where
  addr : r'.addr = r.addr
  version : r.version ≤ r'.version
  tripped : r'.version = r.version → tripped r' = true → tripped r = true

theorem Ages.refl (r) : Ages r r := ⟨rfl, le_rfl, fun _ h => h⟩

theorem Ages.trans {a b c} (hab : Ages a b) (hbc : Ages b c) : Ages a c where
  addr := hbc.addr.trans hab.addr
  version := hab.version.trans hbc.version
  tripped hv ht := by
    have h₁ := hab.version
    have h₂ := hbc.version
    exact hab.tripped (by omega) (hbc.tripped (by omega) ht)

theorem Move.ages_coherent (h : Move w w' op k r r') : Ages r r' ∧ (Coherent r → Coherent r') := by
  have hrep : ∀ {outcome time version token active},
      Reported w.store.breaker outcome time version token active r r' → Ages r r' ∧ (Coherent r → Coherent r') := by
    intro outcome time version token active h
    rcases h with ⟨rfl, _⟩ | ⟨_, draw, delay, reason, rfl⟩
    · exact ⟨.refl _, id⟩
    · exact ⟨⟨report_addr .., report_version_le _ _ _ _ _ _ _,
        fun hv ht => report_tripped _ _ _ _ _ _ _ ht hv⟩, report_coherent _ _ _ _ _ _ _⟩
  cases h with
  | graded h => exact ⟨⟨h.addr, le_of_eq h.version.symm, fun _ ht => h.tripped ▸ ht⟩, h.coherent⟩
  | relabelled h => exact ⟨⟨h.addr, le_of_eq h.version.symm, fun _ _ => h.before⟩, h.coherent⟩
  | reserved token ht _ h => exact h ▸ ⟨⟨rfl, le_rfl, fun _ _ => ht⟩, fun hr => reserve_coherent hr ht token⟩
  | returned i p e _ _ _ h =>
    rcases returnToken_cases e r with heq | ⟨hb, heq⟩ <;> rw [h, heq]
    · exact ⟨.refl r, id⟩
    · exact ⟨⟨rfl, le_rfl, fun _ _ => (tripped_iff r).mpr (.inr (.inr hb))⟩, fun hr => giveBack_coherent hr hb⟩
  | observed outcome time h => exact hrep h
  | reported i p outcomes time delay reason e outcome hop hp hopen hend he hk ho hd h => exact hrep h

/-- How a permit was issued: by an acquisition that took a token wherever one
was needed, or past the breakers. -/
inductive IssuedBy (s s' : HealthStore) (p : AttemptPermit) : Prop
  | normal (hkind : p.kind = .normal) (h : Granted s s' p.entries)
  | fallback (hkind : p.kind = .fallback) (hs : s' = s) (h : ∀ e ∈ p.entries, Unreserved s e)

theorem IssuedBy.fresh (h : IssuedBy s s' p) (he : e ∈ p.entries) (ht : e.halfOpenToken ≠ 0) :
    s.nextToken < e.halfOpenToken ∧ e.halfOpenToken ≤ s'.nextToken := by
  cases h with
  | normal _ h => exact h.fresh e he ht
  | fallback _ _ h => exact absurd (h e he).token ht

theorem IssuedBy.distinct (h : IssuedBy s s' p) {e'} (he : e ∈ p.entries) (he' : e' ∈ p.entries)
    (ht : e.halfOpenToken ≠ 0) (heq : e.halfOpenToken = e'.halfOpenToken) : e = e' := by
  cases h with
  | normal _ h =>
    refine List.Pairwise.forall_of_forall_of_flip (R := fun a b =>
      a.halfOpenToken ≠ 0 → a.halfOpenToken = b.halfOpenToken → a = b) ?_ ?_ ?_ he he' ht heq
    · exact fun _ _ _ _ => rfl
    · exact h.distinct.imp fun hlt ha hab => absurd hab (ne_of_lt (hlt (hab ▸ ha)))
    · exact h.distinct.imp fun hlt hb hba => absurd hba (ne_of_gt (hlt hb))
  | fallback _ _ h => exact absurd (h e he).token ht

theorem change_permit (h : Change w op w') {j} (hq : w'.permits[j]? = some q) :
    (∃ q₀, w.permits[j]? = some q₀ ∧ (q = q₀ ∨ q = ended q₀)) ∨
      j = w.permits.length ∧ q.completed = false ∧ q.issuedIn = w'.store ∧ IssuedBy w.store w'.store q ∧
        (q.entries.map (·.key)).Nodup := by
  have hset : ∀ i p, w.permits[i]? = some p → (w.permits.set i (ended p))[j]? = some q →
      ∃ q₀, w.permits[j]? = some q₀ ∧ (q = q₀ ∨ q = ended q₀) := by
    intro i p hp hq
    rcases of_set hq with ⟨rfl, rfl⟩ | ⟨-, hq⟩
    · exact ⟨p, hp, .inr rfl⟩
    · exact ⟨q, hq, .inl rfl⟩
  cases h with
  | issued p hk hopen h =>
    rcases of_append hq with hq | ⟨hj, rfl⟩
    · exact .inl ⟨q, hq, .inl rfl⟩
    · exact .inr ⟨hj, hopen, rfl, .normal hk h, keys_nodup_of_domains h.domains⟩
  | fallback p hk hopen hs hn h =>
    rcases of_append hq with hq | ⟨hj, rfl⟩
    · exact .inl ⟨q, hq, .inl rfl⟩
    · exact .inr ⟨hj, hopen, hs, .fallback hk rfl h, hn⟩
  | refused | removed | graded | observed => exact .inl ⟨q, hq, .inl rfl⟩
  | completed i p outcomes time delay reason s hp | released i p s hp => exact .inl (hset i p hp hq)

theorem same_of_ended {q₀} (h : q = q₀ ∨ q = ended q₀) : q.entries = q₀.entries ∧ q.issuedIn = q₀.issuedIn := by
  rcases h with rfl | rfl <;> exact ⟨rfl, rfl⟩

theorem change_sound (h : Change w op w') (hw : Sound w) : Sound w' := by
  refine ⟨fun k r' hr' => ?_, fun q hq => ?_⟩
  · rcases change_origin h hr' with ⟨r, hr, hm⟩ | hf
    · exact hm.ages_coherent.2 (hw.coherent k r hr)
    · exact hf.coherent
  · obtain ⟨j, hq⟩ := mem_iff_getElem?.1 hq
    rcases change_permit h hq with ⟨q₀, hq₀, heq⟩ | ⟨_, _, _, _, hn⟩
    · rw [(same_of_ended heq).1]
      exact hw.keys q₀ (mem_of_getElem? hq₀)
    · exact hn

theorem change_counters (h : Change w op w') :
    w.store.allocated ≤ w'.store.allocated ∧ w.store.nextToken ≤ w'.store.nextToken := by
  cases h with
  | issued p _ _ h | refused s h => exact ⟨le_of_eq h.allocated.symm, h.nextToken⟩
  | fallback => exact ⟨le_rfl, le_rfl⟩
  | removed s h => exact ⟨le_of_eq h.allocated.symm, le_of_eq h.nextToken.symm⟩
  | graded s key h | observed s key outcome time h => exact ⟨h.allocated, le_of_eq h.nextToken.symm⟩
  | completed i p outcomes time delay reason s _ _ h => exact ⟨h.allocated, le_of_eq h.nextToken.symm⟩
  | released i p s _ _ h => exact ⟨h.allocated, le_of_eq h.nextToken.symm⟩

/-- Every address in use was allocated, so a record made later has another. -/
structure Located (w : World) : Prop where
  record : ∀ k r, w.store.entries.lookup k = some r → r.addr < w.store.allocated
  issued : ∀ (j : Nat) p, w.permits[j]? = some p → ∀ k r, p.issuedIn.entries.lookup k = some r →
    r.addr < w.store.allocated

theorem change_located (h : Change w op w') (hw : Located w) : Located w' := by
  have hle := (change_counters h).1
  have hrec : ∀ k r, w'.store.entries.lookup k = some r → r.addr < w'.store.allocated := by
    intro k r' hr'
    rcases change_origin h hr' with ⟨r, hr, hm⟩ | hf
    · rw [hm.ages_coherent.1.addr]
      exact lt_of_lt_of_le (hw.record k r hr) hle
    · exact hf.upper
  refine ⟨hrec, ?_⟩
  intro j q hq k r hr
  rcases change_permit h hq with ⟨q₀, hq₀, heq⟩ | ⟨_, _, hin, _⟩
  · rw [(same_of_ended heq).2] at hr
    exact lt_of_lt_of_le (hw.issued j q₀ hq₀ k r hr) hle
  · exact hrec k r (hin ▸ hr)

theorem start_sound (retention maxEntries breaker) : Sound (start retention maxEntries breaker) :=
  ⟨fun k r h => by simp [start, newHealthStoreWithClock] at h, by simp [start]⟩

theorem start_located (retention maxEntries breaker) : Located (start retention maxEntries breaker) :=
  ⟨fun k r h => by simp [start, newHealthStoreWithClock] at h, by simp [start]⟩

end SingBox.BreakerSteps
