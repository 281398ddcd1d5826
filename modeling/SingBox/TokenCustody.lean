import Mathlib.Data.Set.Finite.Lattice
import SingBox.BreakerSteps

namespace SingBox.TokenCustody

open Arena Values Maps BreakerRecord BreakerMoves HealthLedger LedgerMoves AttemptPermits PermitMoves BreakerRuns
  BreakerSteps Runs

section

variable {cfg : BreakerConfig} {outcomes : FailureDomain → Option ObservationOutcome} {time : Time}
  {e : PermitEntry} {r r' : HealthRecord}

theorem reported_other {outcome version token active} (hr : Coherent r) (ht : r.halfOpenToken ≠ 0)
    (hne : token ≠ r.halfOpenToken) (h : Reported cfg outcome time version token active r r') : r' = r := by
  rcases h with ⟨h, _⟩ | ⟨⟨_, hadm⟩, _⟩
  · exact h
  · have hb := hr.token ht
    simp [admits, hb, hne] at hadm

theorem settled_kept (hr : Coherent r) (ht : r'.halfOpenToken ≠ 0) (h : Settled cfg outcomes time e r r') :
    r' = r := by
  have hret : r' = returnToken e r → r' = r := by
    intro h
    rcases returnToken_cases e r with heq | ⟨_, heq⟩
    · exact h.trans heq
    · rw [h, heq] at ht
      exact absurd rfl ht
  rw [Settled] at h
  split at h
  · exact hret h
  · exact hret h
  rcases h with ⟨h, _⟩ | ⟨_, draw, delay, reason, rfl⟩
  · exact h
  · exact absurd (report_token _ _ _ _ _ _ _ hr) ht

/-- The report of this entry is not from before the last accepted one. -/
def InTime (outcomes : FailureDomain → Option ObservationOutcome) (time : Time) (e : PermitEntry)
    (r : HealthRecord) : Prop :=
  ∀ outcome, outcomes e.key.domain = some outcome → outcome ≠ .deferred → stale r time = false

theorem settled_clears (hr : Coherent r) (ht : r.halfOpenToken ≠ 0) (hv : e.version = r.version)
    (heq : e.halfOpenToken = r.halfOpenToken) (hin : InTime outcomes time e r)
    (h : Settled cfg outcomes time e r r') : r'.halfOpenToken = 0 := by
  have hb := hr.token ht
  have hret : r' = returnToken e r → r'.halfOpenToken = 0 := by
    intro h
    rw [h, returnToken, if_pos ⟨hv.symm, heq.symm, heq ▸ ht, hb⟩]
    rfl
  rw [Settled] at h
  split at h
  · exact hret h
  · exact hret h
  rename_i outcome hd ho
  rcases h with ⟨_, hrej⟩ | ⟨_, draw, delay, reason, rfl⟩
  · exact absurd ⟨hin outcome ho hd, by simp [admits, hv, heq]⟩ hrej
  · exact report_token _ _ _ _ _ _ _ hr

end

theorem completed_kept {s s' entries outcomes time} (hc : CoherentStore s) (h : Completed s s' entries outcomes time)
    {k r} (hr : s'.entries.lookup k = some r) (ht : r.halfOpenToken ≠ 0) :
    s.entries.lookup k = some r ∧ ∀ e ∈ entries, e.key = k → Settled s.breaker outcomes time e r r := by
  have hown : ∀ e ∈ entries, e.key = k →
      s.entries.lookup k = some r ∧ Settled s.breaker outcomes time e r r := by
    rintro e he rfl
    rcases h.own e he r hr with ⟨q, hq, hs⟩ | ⟨hm, _⟩
    · obtain rfl := settled_kept (hc _ q hq) ht hs
      exact ⟨hq, hs⟩
    · exact absurd hm.coherent.2 ht
  refine ⟨?_, fun e he hk => (hown e he hk).2⟩
  by_cases hme : ∃ e ∈ entries, e.key = k
  · obtain ⟨e, he, hk⟩ := hme
    exact (hown e he hk).1
  · exact h.others k r (fun e he hk => hme ⟨e, he, hk⟩) hr

structure Owner (permits : List AttemptPermit) (k : HealthKey) (r : HealthRecord) (i : Nat) (p : AttemptPermit)
    (e : PermitEntry) : Prop where
  permit : permits[i]? = some p
  opened : p.completed = false
  entry : e ∈ p.entries
  key : e.key = k
  token : e.halfOpenToken = r.halfOpenToken
  version : e.version = r.version

def Owned (w : World) : Prop :=
  ∀ k r, w.store.entries.lookup k = some r → r.halfOpenToken ≠ 0 → ∃ i p e, Owner w.permits k r i p e

/-- A completion reports in time to the records whose tokens it brings back. -/
def CompletesInTime (w : World) : Op → Prop
  | .complete i outcomes time _ _ => ∀ p, w.permits[i]? = some p → p.completed = false → ∀ e ∈ p.entries,
      e.halfOpenToken ≠ 0 → ∀ r, w.store.entries.lookup e.key = some r → r.halfOpenToken = e.halfOpenToken →
        InTime outcomes time e r
  | _ => True

section

variable {permits : List AttemptPermit} {k : HealthKey} {r : HealthRecord} {i j : Nat} {p : AttemptPermit}
  {e : PermitEntry}

theorem Owner.append (h : Owner permits k r i p e) (q) : Owner (permits ++ [q]) k r i p e := by
  exact { h with permit := append_of h.permit }

theorem Owner.other (h : Owner permits k r i p e) (hij : j ≠ i) (q) : Owner (permits.set j q) k r i p e := by
  exact { h with permit := (List.getElem?_set_ne hij).trans h.permit }

end

variable {w w' : World} {op : Op} {now : Time}

theorem completed_owned {i p s outcomes time} (hw : Sound w) (ho : Owned w) (delay reason)
    (hp : w.permits[i]? = some p) (hopen : p.completed = false) (h : Completed w.store s p.entries outcomes time)
    (hin : CompletesInTime w (.complete i outcomes time delay reason)) : Owned ⟨s, w.permits.set i (ended p)⟩ := by
  intro k r hr ht
  obtain ⟨hbef, hset⟩ := completed_kept hw.coherent h hr ht
  obtain ⟨j, q, e, hown⟩ := ho k r hbef ht
  by_cases hij : i = j
  · subst hij
    cases hp.symm.trans hown.permit
    have hin' : InTime outcomes time e r :=
      hin p hp hopen e hown.entry (hown.token ▸ ht) r (hown.key ▸ hbef) hown.token.symm
    exact absurd (settled_clears (hw.coherent k r hbef) ht hown.version hown.token hin'
      (hset e hown.entry hown.key)) ht
  · exact ⟨j, q, e, hown.other hij _⟩

theorem change_owned (h : Change w op w') (hw : Sound w) (ho : Owned w) (hin : CompletesInTime w op) : Owned w' := by
  cases h with
  | issued p hki hopen h =>
    intro k r hr ht
    by_cases hme : ∃ e ∈ p.entries, e.key = k
    · obtain ⟨e, he, rfl⟩ := hme
      cases h.own e he with
      | absent _ h₁ => cases h₁.symm.trans hr
      | plain q h₀ h₁ hq =>
        cases h₁.symm.trans hr
        have hb : r.status.breaker = .halfOpen := (hw.coherent _ r h₀).token ht
        simp [tripped, hb] at hq
      | reserved q h₀ h₁ hq hz hv _ =>
        cases h₁.symm.trans hr
        exact ⟨w.permits.length, p, e, by simp, hopen, he, rfl, rfl, hv⟩
    · obtain ⟨i, q, e, hown⟩ := ho k r
        ((h.others k fun e he hk => hme ⟨e, he, hk⟩).symm.trans hr) ht
      exact ⟨i, q, e, hown.append p⟩
  | fallback p =>
    intro k r hr ht
    obtain ⟨i, q, e, hown⟩ := ho k r hr ht
    exact ⟨i, q, e, hown.append p⟩
  | refused s h =>
    intro k r hr ht
    rcases h.records k with heq | ⟨q, q', _, hq', hm⟩
    · exact ho k r (heq.symm.trans hr) ht
    · cases hq'.symm.trans hr
      exact absurd hm.token ht
  | removed s h => exact fun k r hr => ho k r (h.entries k r hr)
  | graded s key h =>
    intro k r hr ht
    by_cases hk : k = key
    · subst hk
      rcases h.own r hr with ⟨q, hq, hm⟩ | ⟨⟨addr, hm⟩, _⟩
      · obtain ⟨i, p, e, hown⟩ := ho k q hq (hm.token ▸ ht)
        exact ⟨i, p, e, hown.permit, hown.opened, hown.entry, hown.key,
            hown.token.trans hm.token.symm,
          hown.version.trans hm.version.symm⟩
      · exact absurd hm.token ht
    · exact ho k r (h.others k r hk hr) ht
  | observed s key outcome time h =>
    intro k r hr ht
    by_cases hk : k = key
    · subst hk
      rcases h.own r hr with ⟨q, hq, hm⟩ | ⟨hm, _⟩
      · rcases hm with ⟨rfl, _⟩ | ⟨_, draw, delay, reason, rfl⟩
        · exact ho k r hq ht
        · exact absurd (report_token _ _ _ _ _ _ _ (hw.coherent k q hq)) ht
      · exact absurd (madeByReport_coherent hm).2 ht
    · exact ho k r (h.others k r hk hr) ht
  | completed i p outcomes time delay reason s hp hopen h => exact completed_owned hw ho delay reason hp hopen h hin
  | released i p s hp hopen h =>
    refine completed_owned hw ho 0 "" hp hopen h ?_
    intro _ _ _ e _ _ r _ _ outcome hno
    cases hno

structure IssuedOnce (w : World) : Prop where
  bound : ∀ (j : Nat) p, w.permits[j]? = some p → ∀ e ∈ p.entries, e.halfOpenToken ≤ w.store.nextToken
  once : ∀ (i j : Nat) p q, w.permits[i]? = some p → w.permits[j]? = some q → ∀ e ∈ p.entries, ∀ e' ∈ q.entries,
    e.halfOpenToken ≠ 0 → e.halfOpenToken = e'.halfOpenToken → i = j ∧ e = e'

theorem change_issuedOnce (h : Change w op w') (hw : IssuedOnce w) : IssuedOnce w' := by
  have hle := (change_counters h).2
  -- an entry of a new permit has a token above all the earlier ones
  have hnew : ∀ {i : Nat} {p q₀ : AttemptPermit} {e e' : PermitEntry}, w.permits[i]? = some q₀ →
      IssuedBy w.store w'.store p → e ∈ q₀.entries → e' ∈ p.entries → e'.halfOpenToken ≠ 0 →
      e.halfOpenToken ≠ e'.halfOpenToken := by
    intro i p q₀ e e' hq₀ hp he he' ht
    have hold := hw.bound i q₀ hq₀ e he
    have hf := (hp.fresh he' ht).1
    omega
  constructor
  · intro j q hq e he
    rcases change_permit h hq with ⟨q₀, hq₀, heq⟩ | ⟨_, _, _, hby, _⟩
    · exact (hw.bound j q₀ hq₀ e ((same_of_ended heq).1 ▸ he)).trans hle
    by_cases ht : e.halfOpenToken = 0
    · omega
    · exact (hby.fresh he ht).2
  · intro i j p q hp hq e he e' he' ht heq
    have ht' : e'.halfOpenToken ≠ 0 := heq ▸ ht
    rcases change_permit h hp with ⟨p₀, hp₀, hpe⟩ | ⟨hi, _, _, hpby, _⟩
    · rw [(same_of_ended hpe).1] at he
      rcases change_permit h hq with ⟨q₀, hq₀, hqe⟩ | ⟨_, _, _, hqby, _⟩
      · rw [(same_of_ended hqe).1] at he'
        exact hw.once i j p₀ q₀ hp₀ hq₀ e he e' he' ht heq
      · exact absurd heq (hnew hp₀ hqby he he' ht')
    · rcases change_permit h hq with ⟨q₀, hq₀, hqe⟩ | ⟨hj, _⟩
      · rw [(same_of_ended hqe).1] at he'
        exact absurd heq.symm (hnew hq₀ hpby he' he ht)
      obtain rfl := hi.trans hj.symm
      cases hp.symm.trans hq
      exact ⟨rfl, hpby.distinct he he' ht heq⟩

/-- A half-open attempt in flight on the record: its permit is open, and the
record is the one its token was issued on. -/
structure InFlight (w : World) (i : Nat) (p : AttemptPermit) (e : PermitEntry) (r : HealthRecord) : Prop where
  permit : w.permits[i]? = some p
  opened : p.completed = false
  entry : e ∈ p.entries
  token : e.halfOpenToken ≠ 0
  record : w.store.entries.lookup e.key = some r
  issued : ∃ r₀, p.issuedIn.entries.lookup e.key = some r₀ ∧ r₀.addr = r.addr

def Held (w : World) : Prop :=
  ∀ i p e r, InFlight w i p e r → r.halfOpenToken = e.halfOpenToken ∧ r.version = e.version

theorem move_keeps_token {k r r'} (hr : Coherent r) (ht : r.halfOpenToken ≠ 0)
    (hoth : ∀ (i : Nat) p, w.permits[i]? = some p → w'.permits[i]? = some (ended p) → ∀
      e ∈ p.entries, e.halfOpenToken ≠ r.halfOpenToken) (h : Move w w' op k r r') :
    r'.halfOpenToken = r.halfOpenToken ∧ r'.version = r.version := by
  cases h with
  | graded h => exact ⟨h.token, h.version⟩
  | relabelled h => exact absurd h.tokenBefore ht
  | reserved token _ hz => exact absurd hz ht
  | returned i p e hp hend he h =>
    have hret : returnToken e r = r := by
      rw [returnToken, if_neg]
      exact fun hc => hoth i p hp hend e he hc.2.1.symm
    rw [h, hret]
    exact ⟨rfl, rfl⟩
  | observed outcome time h =>
    obtain rfl := reported_other hr ht ht.symm h
    exact ⟨rfl, rfl⟩
  | reported i p outcomes time delay reason e outcome _ hp _ hend he _ _ _ h =>
    obtain rfl := reported_other hr ht (hoth i p hp hend e he) h
    exact ⟨rfl, rfl⟩

theorem change_held (h : Change w op w') (hw : Sound w) (hl : Located w) (ho : IssuedOnce w) (hh : Held w) :
    Held w' := by
  intro j q e r' hfl
  obtain ⟨r₀, hr₀, ha⟩ := hfl.issued
  rcases change_permit h hfl.permit with ⟨q₀, hq₀, heq⟩ | ⟨_, _, _, hby, _⟩
  · obtain rfl : q = q₀ := by
      rcases heq with rfl | rfl
      · rfl
      · cases hfl.opened
    rcases change_origin h hfl.record with ⟨r, hr, hm⟩ | hf
    · have hbef : InFlight w j q e r :=
        ⟨hq₀, hfl.opened, hfl.entry, hfl.token, hr, r₀, hr₀, ha.trans hm.ages_coherent.1.addr⟩
      obtain ⟨htok, hvers⟩ := hh j q e r hbef
      have hkept := move_keeps_token (hw.coherent _ r hr) (htok ▸ hfl.token) ?_ hm
      · exact ⟨hkept.1.trans htok, hkept.2.trans hvers⟩
      · intro i p hp hend e' he' heq
        obtain ⟨rfl, _⟩ := ho.once j i q p hq₀ hp e hfl.entry e' he' hfl.token (htok.symm.trans heq.symm)
        cases hend.symm.trans hfl.permit
        cases hfl.opened
    · have hlt := hl.issued j q hq₀ e.key r₀ hr₀
      have hge := hf.lower
      omega
  · cases hby with
    | normal _ h =>
      cases h.own e hfl.entry with
      | absent _ _ _ ht | plain _ _ _ _ _ ht => exact absurd ht hfl.token
      | reserved r _ h₁ _ _ hv =>
        cases h₁.symm.trans hfl.record
        exact ⟨rfl, hv.symm⟩
    | fallback _ _ h => exact absurd (h e hfl.entry).token hfl.token

structure Custody (w : World) : Prop where
  sound : Sound w
  located : Located w
  issuedOnce : IssuedOnce w
  held : Held w

theorem step_custody (w op) (h : Custody w) : Custody (step w op) := by
  have hc := step_change h.sound op
  exact ⟨change_sound hc h.sound, change_located hc h.located, change_issuedOnce hc h.issuedOnce,
    change_held hc h.sound h.located h.issuedOnce h.held⟩

section

variable (retention : Duration) (maxEntries : Int) (breaker : BreakerConfig)

theorem start_custody : Custody (start retention maxEntries breaker) where
  sound := start_sound retention maxEntries breaker
  located := start_located retention maxEntries breaker
  issuedOnce := ⟨by simp [start], by simp [start]⟩
  held i p e r h := by simpa [start] using h.permit

theorem after_custody (ops) : Custody (after retention maxEntries breaker ops) :=
  run_invariant step_custody (start_custody retention maxEntries breaker) ops

theorem after_owned {ops} (h : Meets step CompletesInTime (start retention maxEntries breaker) ops) :
    Owned (after retention maxEntries breaker ops) := by
  refine (run_keeps (I := fun w => Custody w ∧ Owned w) ?_ ⟨start_custody retention maxEntries breaker, ?_⟩ h).2
  · rintro w op _ hin ⟨hc, ho⟩
    exact ⟨step_custody w op hc, change_owned (step_change hc.sound op) hc.sound ho hin⟩
  · intro k r hr
    simp [start, newHealthStoreWithClock] at hr

def AllFree (s : HealthStore) (now : Time) : Prop :=
  ∀ k r, s.entries.lookup k = some r → r.halfOpenToken = 0 ∧ r.openUntil ≤ now

variable {s : HealthStore}

theorem AllFree.available (h : AllFree s now) {k r} (hr : s.entries.lookup k = some r) :
    availableReadOnly r now = true := by
  obtain ⟨ht, hu⟩ := h k r hr
  rw [availableReadOnly]
  split <;> simp [ht, not_lt.mpr hu]

theorem domain_free (h : AllFree s now) (handle domain transport service order) :
    (tryAcquireDomainPermit s handle domain transport service now order).2.isSome = true := by
  obtain ⟨k, heq⟩ := domain_resolves s handle domain transport service now order
  rw [heq, Option.isSome_map]
  exact (acquireResolved_isSome_iff k now).2 fun r => h.available

theorem dial_free (hc : CoherentStore s) (h : AllFree s now) (handle transport service) :
    (tryAcquirePermit s (dialKeys handle transport service) now).2.isSome = true := by
  refine (acquireLoop_isSome_iff now _ s [] hc (dialKeys_domains handle transport service)).2 fun key _ r hr => ?_
  obtain ⟨k, -, hres⟩ := recordForKey_some s key
  rw [hres] at hr
  exact h.available hr

theorem exists_free (h : ∀ k r, s.entries.lookup k = some r → r.halfOpenToken = 0) :
    ∃ late, ∀ time ≥ late, AllFree s time := by
  -- there are finitely many records
  obtain ⟨late, hlate⟩ :=
    (s.entries.keys.map fun k => ((s.entries.lookup k).map (·.openUntil)).getD 0).finite_toSet.bddAbove
  refine ⟨late, fun time ht k r hr => ⟨h k r hr, le_trans (hlate ?_) ht⟩⟩
  exact List.mem_map.2 ⟨k, mem_keys_iff.2 ⟨r, hr⟩, by simp [hr]⟩

def releaseAll (permits : List Nat) : List Op := permits.map .release

theorem release_closes {w i j p} (hp : (step w (.release i)).permits[j]? = some p) (hopen : p.completed = false) :
    j ≠ i ∧ w.permits[j]? = some p := by
  change (finish w i releasePermit).permits[j]? = some p at hp
  rcases finish_cases w i releasePermit with ⟨h, hdone⟩ | ⟨q, hq, _, h⟩ <;> rw [h] at hp
  · refine ⟨?_, hp⟩
    rintro rfl
    cases hopen.symm.trans (hdone p hp)
  · rcases of_set hp with ⟨-, rfl⟩ | hoth
    · cases hopen
    · exact hoth

theorem releaseAll_closes (is w) {j p}
    (hp : (run step w (releaseAll is)).permits[j]? = some p) (hopen : p.completed = false) :
    j ∉ is ∧ w.permits[j]? = some p := by
  induction is generalizing w with
  | nil => exact ⟨List.not_mem_nil, hp⟩
  | cons i is ih =>
    obtain ⟨hnot, hq⟩ := ih _ hp
    obtain ⟨hne, hw⟩ := release_closes hq hopen
    exact ⟨fun h => (List.mem_cons.mp h).elim hne hnot, hw⟩

theorem releaseAll_inTime (is w) : Meets step CompletesInTime w (releaseAll is) := by
  induction is generalizing w with
  | nil => trivial
  | cons i is ih => exact ⟨trivial, ih _⟩

/-- When the completions report in time, tokens are given back with their permits. -/
theorem completed_permit_leaves_no_token (ops : List Op)
    (hmeets : Meets step CompletesInTime (start retention maxEntries breaker) ops) (i : Nat) (p : AttemptPermit)
    (hp : (after retention maxEntries breaker ops).permits[i]? = some p) (hdone : p.completed = true) :
    (∀ k r, (after retention maxEntries breaker ops).store.entries.lookup k = some r → ∀ e ∈ p.entries,
      e.halfOpenToken ≠ 0 → r.halfOpenToken ≠ e.halfOpenToken) ∧
    ∃ permits : List Nat, i ∉ permits ∧ ∃ late : Time, ∀ time ≥ late,
      (∀ handle domain transport service order,
        (tryAcquireDomainPermit (after retention maxEntries breaker (ops ++ releaseAll permits)).store handle domain
          transport service time order).2.isSome = true) ∧
      ∀ handle transport service,
        (tryAcquirePermit (after retention maxEntries breaker (ops ++ releaseAll permits)).store
          (dialKeys handle transport service) time).2.isSome = true := by
  have hc := after_custody retention maxEntries breaker ops
  constructor
  · intro k r hr e he ht heq
    obtain ⟨j, q, e', hown⟩ := after_owned retention maxEntries breaker hmeets k r hr (heq ▸ ht)
    have hsame := hc.issuedOnce.once i j p q hp hown.permit e he e' hown.entry ht
      (heq.symm.trans hown.token.symm)
    obtain ⟨rfl, _⟩ := hsame
    cases hp.symm.trans hown.permit
    exact Bool.false_ne_true (hown.opened.symm.trans hdone)
  · have hmeets' : ∀ is, Meets step CompletesInTime (start retention maxEntries breaker) (ops ++ releaseAll is) :=
      fun is => (meets_append ..).mpr ⟨hmeets, releaseAll_inTime is _⟩
    let others := (List.range (after retention maxEntries breaker ops).permits.length).filter (· ≠ i)
    have hzero : ∀ k r, (after retention maxEntries breaker (ops ++ releaseAll others)).store.entries.lookup k =
        some r → r.halfOpenToken = 0 := by
      intro k r hr
      by_contra ht
      obtain ⟨j, q, e, hown⟩ := after_owned retention maxEntries breaker (hmeets' others) k r hr ht
      have hq := hown.permit
      rw [after, run_append] at hq
      obtain ⟨hnot, hbef⟩ := releaseAll_closes others _ hq hown.opened
      have hlt := lt_of_some hbef
      have hj : j = i := by
        by_contra hne
        exact hnot (List.mem_filter.mpr ⟨List.mem_range.mpr hlt, by simpa using hne⟩)
      subst hj
      cases hp.symm.trans hbef
      exact Bool.false_ne_true (hown.opened.symm.trans hdone)
    have hco := (after_custody retention maxEntries breaker (ops ++ releaseAll others)).sound.coherent
    obtain ⟨late, hlate⟩ := exists_free hzero
    refine ⟨others, by simp [others], late, fun time ht => ⟨?_, ?_⟩⟩
    · exact domain_free (hlate time ht)
    · exact dial_free hco (hlate time ht)

end

def probeSucceeds : List Op := openAndProbe ++ [.complete 0 (endpointOutcome .success) 115 0 ""]

theorem probeSucceeds_inTime : Meets step CompletesInTime (start 3600 16 (plainBreaker 1)) probeSucceeds := by
  refine ⟨trivial, trivial, ?_, trivial⟩
  have hstale : ∀ p ∈ (after 3600 16 (plainBreaker 1) openAndProbe).permits[0]?, ∀ e ∈ p.entries,
      ∀ r ∈ (after 3600 16 (plainBreaker 1) openAndProbe).store.entries.lookup e.key, stale r 115 = false := by
    decide +kernel
  exact fun p hp _ e he _ r hr _ _ _ _ => hstale p hp e he r hr

theorem probe_leaves_no_token :
    ∃ p, (after 3600 16 (plainBreaker 1) probeSucceeds).permits[0]? = some p ∧ p.completed = true ∧
      ∀ k r, (after 3600 16 (plainBreaker 1) probeSucceeds).store.entries.lookup k = some r → ∀ e ∈ p.entries,
        e.halfOpenToken ≠ 0 → r.halfOpenToken ≠ e.halfOpenToken := by
  have hdone : ((after 3600 16 (plainBreaker 1) probeSucceeds).permits[0]?.map (·.completed)) = some true := by
    decide +kernel
  obtain ⟨p, hp, hcomp⟩ := Option.map_eq_some_iff.mp hdone
  exact ⟨p, hp, hcomp, (completed_permit_leaves_no_token 3600 16 (plainBreaker 1) probeSucceeds
    probeSucceeds_inTime 0 p hp hcomp).1⟩

/-- A quality sample of time 120 is stored before the probe reports for time 115. -/
def lateSample : List Op := openAndProbe ++ [
  .observe (endpointObservation firstNode .success 120) false 1 0,
  .complete 0 (endpointOutcome .success) 115 0 ""]

/-- The probe was completed, and the record still holds its token. -/
theorem late_sample_keeps_token :
    ((after 3600 16 (plainBreaker 1) lateSample).permits[0]?.map fun p => (p.completed, p.entries)) =
        some (true, [⟨endpointKey firstNode, 1, 1⟩]) ∧
      ((after 3600 16 (plainBreaker 1) lateSample).store.entries.lookup (endpointKey firstNode)).map
        (·.halfOpenToken) = some 1 := by decide +kernel

section

variable (retention : Duration) (maxEntries : Int) (breaker : BreakerConfig)

/-- In every run a token marks a half-open breaker and is issued once. If all completions
report in time, it is that of one open permit. -/
theorem half_open_tokens_in_custody (ops : List Op) :
    (∀ k r, (after retention maxEntries breaker ops).store.entries.lookup k = some r →
      (r.halfOpenToken ≠ 0 → r.status.breaker = .halfOpen) ∧
      (r.status.breaker = .opened ∨ r.status.breaker = .cooldown →
        r.status.cooldownUntil = r.openUntil ∧ r.halfOpenToken = 0)) ∧
    (∀ (i j : Nat) p q, (after retention maxEntries breaker ops).permits[i]? = some p →
      (after retention maxEntries breaker ops).permits[j]? = some q → ∀ e ∈ p.entries, ∀ e' ∈ q.entries,
        e.halfOpenToken ≠ 0 → e.halfOpenToken = e'.halfOpenToken → i = j ∧ e = e') ∧
    (∀ op p, (step (after retention maxEntries breaker ops) op).permits[
        (after retention maxEntries breaker ops).permits.length]? = some p → ∀ e ∈ p.entries,
      e.halfOpenToken ≠ 0 → (after retention maxEntries breaker ops).store.nextToken < e.halfOpenToken) ∧
    (∀ i j p q e e' r, InFlight (after retention maxEntries breaker ops) i p e r →
      InFlight (after retention maxEntries breaker ops) j q e' r → e.key = e'.key → i = j ∧ e = e') ∧
    (Meets step CompletesInTime (start retention maxEntries breaker) ops →
      ∀ k r, (after retention maxEntries breaker ops).store.entries.lookup k = some r → r.halfOpenToken ≠ 0 →
        ∃ i p e, Owner (after retention maxEntries breaker ops).permits k r i p e ∧
          ∀ (j : Nat) q, (after retention maxEntries breaker ops).permits[j]? = some q → q.completed = false →
            ∀ e' ∈ q.entries, e'.key = k → e'.halfOpenToken = r.halfOpenToken → j = i ∧ e' = e) := by
  have hc := after_custody retention maxEntries breaker ops
  refine ⟨?_, hc.issuedOnce.once, ?_, ?_, ?_⟩
  · intro k r hr
    have hco := hc.sound.coherent k r hr
    refine ⟨hco.token, fun hb => ⟨hco.cooldown hb, hco.token_eq_zero ?_⟩⟩
    rcases hb with hb | hb <;> simp [hb]
  · intro op p hp e he ht
    rcases change_permit (step_change hc.sound op) hp with ⟨q, hq, _⟩ | ⟨_, _, _, hby, _⟩
    · have hlt := lt_of_some hq
      omega
    · exact (hby.fresh he ht).1
  · intro i j p q e e' r hfl hfl' hk
    have ht := (hc.held i p e r hfl).1
    have ht' := (hc.held j q e' r hfl').1
    exact hc.issuedOnce.once i j p q hfl.permit hfl'.permit e hfl.entry e' hfl'.entry hfl.token (ht.symm.trans ht')
  · intro hmeets k r hr ht
    obtain ⟨i, p, e, hown⟩ := after_owned retention maxEntries breaker hmeets k r hr ht
    refine ⟨i, p, e, hown, ?_⟩
    intro j q hq _ e' he' _ heq
    exact hc.issuedOnce.once j i q p hq hown.permit e' he' e hown.entry (heq ▸ ht) (heq.trans hown.token.symm)

end

theorem probe_token_in_custody :
    ∃ r, (after 3600 16 (plainBreaker 1) openAndProbe).store.entries.lookup (endpointKey firstNode) = some r ∧
      r.halfOpenToken = 1 ∧ ∃ i p e,
        Owner (after 3600 16 (plainBreaker 1) openAndProbe).permits (endpointKey firstNode) r i p e := by
  have htok : ((after 3600 16 (plainBreaker 1) openAndProbe).store.entries.lookup (endpointKey firstNode)).map
      (·.halfOpenToken) = some 1 := by decide +kernel
  obtain ⟨r, hr, ht⟩ := Option.map_eq_some_iff.mp htok
  obtain ⟨i, p, e, hown, _⟩ := (half_open_tokens_in_custody 3600 16 (plainBreaker 1) openAndProbe).2.2.2.2
    ⟨trivial, trivial, trivial⟩ _ r hr (by omega)
  exact ⟨r, hr, ht, i, p, e, hown⟩

/-- The record keeps a token that no open permit names. -/
theorem late_sample_orphans_token :
    (after 3600 16 (plainBreaker 1) lateSample).permits.all (·.completed) = true ∧
      ((after 3600 16 (plainBreaker 1) lateSample).store.entries.lookup (endpointKey firstNode)).map
        (·.halfOpenToken) = some 1 := by decide +kernel

end SingBox.TokenCustody
