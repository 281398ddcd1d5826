import SingBox.BreakerSteps

namespace SingBox.BreakerRecovery

open Option Values BreakerRecord BreakerMoves LedgerMoves AttemptPermits BreakerRuns BreakerSteps Runs

structure Reaches (w : World) (i : Nat) (outcomes : FailureDomain → Option ObservationOutcome) (time : Time)
    (p : AttemptPermit) (e : PermitEntry) (outcome : ObservationOutcome) (r : HealthRecord) : Prop where
  permit : w.permits[i]? = some p
  opened : p.completed = false
  entry : e ∈ p.entries
  loaded : outcomes e.key.domain = some outcome
  reported : outcome ≠ .deferred
  record : w.store.entries.lookup e.key = some r
  tripped : tripped r = true
  accepts : Accepts r time e.version e.halfOpenToken true

/-- No failure reaches an open or cooling breaker while its count of failures
is below the threshold. -/
def FailuresReopen (w : World) : Op → Prop
  | .complete i outcomes time _ _ => ∀ p e outcome r, Reaches w i outcomes time p e outcome r →
      outcome ≠ .success → opensOnFailure w.store.breaker r = true
  | _ => True

/-- A success reaches a tripped breaker on the record that stood under its key
when the permit was issued. -/
def SuccessesOnOwnRecord (w : World) : Op → Prop
  | .complete i outcomes time _ _ => ∀ p e r, Reaches w i outcomes time p e .success r →
      ∃ r₀, p.issuedIn.entries.lookup e.key = some r₀ ∧ r₀.addr = r.addr
  | _ => True

variable {r : HealthRecord} {op : Op}

theorem tripped_of_closed (h : r.status.breaker = .closed) : tripped r = false := by
  simp [tripped, h]

theorem accepted_passive {time version token} (ht : tripped r = true) (h : Accepts r time version token false) :
    False := by
  have hadm := h.2
  rcases (tripped_iff r).mp ht with hb | hb | hb <;> simp [admits, hb] at hadm

theorem closing_reaches {w w'} (h : Change w op w') (hl : Located w) {k r'} (hr : w.store.entries.lookup k = some r)
    (hr' : w'.store.entries.lookup k = some r') (ha : r'.addr = r.addr) (ht : tripped r = true)
    (hcl : r'.status.breaker = .closed) (hfail : FailuresReopen w op) :
    ∃ i outcomes time delay reason p e, op = .complete i outcomes time delay reason ∧
      e.key = k ∧ Reaches w i outcomes time p e .success r := by
  have hsame : r' ≠ r := by
    rintro rfl
    rw [tripped_of_closed hcl] at ht
    cases ht
  rcases change_origin h hr' with ⟨q, hq, hm⟩ | hf
  · cases hr.symm.trans hq
    cases hm with
    | graded h =>
      rw [h.breaker] at hcl
      rw [tripped_of_closed hcl] at ht
      cases ht
    | relabelled h => cases h.breaker.symm.trans hcl
    | reserved token _ _ h =>
      rw [h] at hcl
      cases hcl
    | returned i p e _ _ _ h =>
      rcases returnToken_cases e r with heq | ⟨_, heq⟩
      · exact absurd (h.trans heq) hsame
      · rw [h, heq] at hcl
        cases hcl
    | observed outcome time h =>
      rcases h with ⟨h, _⟩ | ⟨hacc, _⟩
      · exact absurd h hsame
      · exact (accepted_passive ht hacc).elim
    | reported i p outcomes time delay reason e outcome hop hp hopen _ he hk ho hd h =>
      rcases h with ⟨h, _⟩ | ⟨hacc, draw, delay', reason', rfl⟩
      · exact absurd h hsame
      subst hk hop
      have hrc : Reaches w i outcomes time p e outcome r := ⟨hp, hopen, he, ho, hd, hr, ht, hacc⟩
      have hsuc : outcome = .success := by
        by_contra hne
        have hopens := hfail p e outcome r hrc hne
        cases report_after w.store.breaker draw r outcome time delay' reason' with
        | recovering hs => exact hne hs
        | closed hs => exact hs.elim hne fun hs => by cases hopens.symm.trans hs
        | opened _ _ hb' => cases hb'.symm.trans hcl
      subst hsuc
      exact ⟨i, outcomes, time, delay, reason, p, e, rfl, rfl, hrc⟩
  · have hlt := hl.record k r hr
    have hge := hf.lower
    omega

def NoSuccess (op : Op) (k : HealthKey) : Prop :=
  match op with
  | .complete _ outcomes _ _ _ => outcomes k.domain ≠ some .success
  | _ => True

/-- The version of an entry is that of the record it was issued on, which a
normal permit without a token found untripped. -/
def EntriesMatch (w : World) : Prop :=
  ∀ (j : Nat) p, w.permits[j]? = some p → ∀ e ∈ p.entries, ∀ r₀, p.issuedIn.entries.lookup e.key = some r₀ →
    e.version = r₀.version ∧ (p.kind = .normal → e.halfOpenToken = 0 → tripped r₀ = false)

def Aged (w : World) : Prop :=
  ∀ (j : Nat) p, w.permits[j]? = some p → ∀ k r₀ r, p.issuedIn.entries.lookup k = some r₀ →
    w.store.entries.lookup k = some r → r₀.addr = r.addr → Ages r₀ r

theorem change_entriesMatch {w w'} (h : Change w op w') (hw : EntriesMatch w) : EntriesMatch w' := by
  intro j q hq e he r₀ hr₀
  rcases change_permit h hq with ⟨q₀, hq₀, rfl | rfl⟩ | ⟨_, _, hin, hby, _⟩
  · exact hw j q hq₀ e he r₀ hr₀
  · exact hw j q₀ hq₀ e he r₀ hr₀
  rw [hin] at hr₀
  cases hby with
  | normal hk h =>
    cases h.own e he with
    | absent _ h₁ => cases h₁.symm.trans hr₀
    | plain r _ h₁ hr hv =>
      cases h₁.symm.trans hr₀
      exact ⟨hv, fun _ _ => hr⟩
    | reserved r _ h₁ _ _ hv ht =>
      cases h₁.symm.trans hr₀
      exact ⟨hv, fun _ hz => absurd hz ht⟩
  | fallback hk hs h =>
    rw [hs] at hr₀
    exact ⟨((h e he).version r₀ hr₀).1, fun hn => by cases hn.symm.trans hk⟩

theorem change_aged {w w'} (h : Change w op w') (hl : Located w) (hw : Aged w) : Aged w' := by
  intro j q hq k r₀ r' hr₀ hr' ha
  rcases change_permit h hq with ⟨q₀, hq₀, heq⟩ | ⟨_, _, hin, _⟩
  · rw [(same_of_ended heq).2] at hr₀
    rcases change_origin h hr' with ⟨r, hr, hm⟩ | hf
    · exact (hw j q₀ hq₀ k r₀ r hr₀ hr (ha.trans hm.ages_coherent.1.addr)).trans hm.ages_coherent.1
    have hlt := hl.issued j q₀ hq₀ k r₀ hr₀
    have hge := hf.lower
    omega
  · rw [hin] at hr₀
    cases hr₀.symm.trans hr'
    exact .refl r₀

section

variable (retention : Duration) (maxEntries : Int) (breaker : BreakerConfig)

structure History (w : World) : Prop where
  sound : Sound w
  located : Located w
  entries : EntriesMatch w
  aged : Aged w

theorem after_history (ops) : History (after retention maxEntries breaker ops) := by
  refine run_invariant (fun w op h => ?_)
    ⟨start_sound retention maxEntries breaker, start_located retention maxEntries breaker, ?_, ?_⟩ ops
  · have hc := step_change h.sound op
    exact ⟨change_sound hc h.sound, change_located hc h.located, change_entriesMatch hc h.entries,
      change_aged hc h.located h.aged⟩
  · intro j p hp
    simp [start] at hp
  · intro j p hp
    simp [start] at hp

theorem after_snoc (ops op) :
    after retention maxEntries breaker (ops ++ [op]) = step (after retention maxEntries breaker ops) op :=
  run_append step _ ops [op]

/-- In every run, an operation that reports no success for a tripped breaker,
in particular one that reports a failure, does not close it. -/
theorem failure_never_closes (ops : List Op) (op : Op)
    (hop : FailuresReopen (after retention maxEntries breaker ops) op) (k : HealthKey) (r r' : HealthRecord)
    (hno : NoSuccess op k) (hr : (after retention maxEntries breaker ops).store.entries.lookup k = some r)
    (hr' : (after retention maxEntries breaker (ops ++ [op])).store.entries.lookup k = some r')
    (haddr : r'.addr = r.addr) (ht : tripped r = true) : r'.status.breaker ≠ .closed := by
  intro hcl
  have h := after_history retention maxEntries breaker ops
  rw [after_snoc] at hr'
  obtain ⟨i, outcomes, time, delay, reason, p, e, rfl, rfl, hrc⟩ :=
    closing_reaches (step_change h.sound op) h.located hr hr' haddr ht hcl hop
  exact hno hrc.loaded

end

theorem failed_probe_stays_tripped :
    ∃ r r', (after 3600 16 (plainBreaker 1) openAndProbe).store.entries.lookup (endpointKey firstNode) =
        some r ∧
      (after 3600 16 (plainBreaker 1) (openAndProbe ++
        [.complete 0 (endpointOutcome .failure) 115 0 ""])).store.entries.lookup (endpointKey firstNode) = some r' ∧
      tripped r = true ∧ r'.status.breaker ≠ .closed := by
  have hbef : ((after 3600 16 (plainBreaker 1) openAndProbe).store.entries.lookup (endpointKey firstNode)).map
      (fun r => (r.addr, tripped r, opensOnFailure (plainBreaker 1) r)) =
      some (0, true, true) := by decide +kernel
  have haft : ((after 3600 16 (plainBreaker 1) (openAndProbe ++
      [.complete 0 (endpointOutcome .failure) 115 0 ""])).store.entries.lookup (endpointKey firstNode)).map
        (·.addr) = some 0 := by decide +kernel
  have hk : ∀ p ∈ (after 3600 16 (plainBreaker 1) openAndProbe).permits[0]?, ∀ e ∈ p.entries,
      e.key = endpointKey firstNode := by decide +kernel
  obtain ⟨r, hr, hflds⟩ := map_eq_some_iff.mp hbef
  obtain ⟨r', hr', ha⟩ := map_eq_some_iff.mp haft
  simp only [Prod.mk.injEq] at hflds
  refine ⟨r, r', hr, hr', hflds.2.1, failure_never_closes 3600 16 (plainBreaker 1) openAndProbe _ ?_ _ r r' ?_ hr hr'
    (ha.trans hflds.1.symm) hflds.2.1⟩
  · intro p e outcome q hrc _
    have hrec := hrc.record
    rw [hk p hrc.permit e hrc.entry] at hrec
    cases hr.symm.trans hrec
    exact hflds.2.2
  · simp [NoSuccess, endpointOutcome, endpointKey, healthKey]

/-- Three failures open the breaker. The first of two probes succeeds, the
second fails, and the failure of a fallback dial follows. -/
def fallbackAfterProbes : List Op := [
  .observe (endpointObservation firstNode .failure 100) true 1 0,
  .observe (endpointObservation firstNode .failure 101) true 1 0,
  .observe (endpointObservation firstNode .failure 102) true 1 0,
  .domain firstNode .endpoint "" "" 112 (.stored _),
  .complete 0 (endpointOutcome .success) 113 0 "",
  .domain firstNode .endpoint "" "" 114 (.stored _),
  .complete 1 (endpointOutcome .failure) 115 0 "",
  .fallback firstNode "tcp"]

/-- The failure finds the breaker open and leaves the same record closed. -/
theorem fallback_failure_closes :
    ((after 3600 16 (plainBreaker 3) fallbackAfterProbes).store.entries.lookup (endpointKey firstNode)).map
        (fun r => (r.addr, r.status.breaker)) = some (0, .opened) ∧
      ((after 3600 16 (plainBreaker 3) (fallbackAfterProbes ++
        [.complete 2 (endpointOutcome .failure) 116 0 ""])).store.entries.lookup (endpointKey firstNode)).map
        (fun r => (r.addr, r.status.breaker)) = some (0, .closed) := by decide +kernel

section

variable (retention : Duration) (maxEntries : Int) (breaker : BreakerConfig)

theorem issued_in_run (ops) (j : Nat) (p : AttemptPermit)
    (hp : (after retention maxEntries breaker ops).permits[j]? = some p) :
    ∃ pre post, ops = pre ++ post ∧ p.issuedIn = (after retention maxEntries breaker pre).store := by
  induction ops using List.reverseRecOn generalizing j p with
  | nil => simp [after, start] at hp
  | append_singleton ops op ih =>
    have hc := step_change (after_history retention maxEntries breaker ops).sound op
    rw [after_snoc] at hp
    rcases change_permit hc hp with ⟨q, hq, heq⟩ | ⟨_, _, hin, _⟩
    · obtain ⟨pre, post, rfl, hpre⟩ := ih j q hq
      exact ⟨pre, post ++ [op], by rw [List.append_assoc], (same_of_ended heq).2.trans hpre⟩
    · exact ⟨ops ++ [op], [], by rw [List.append_nil], by rw [hin, after_snoc]⟩

/-- A tripped breaker is closed by a success of a permit issued after it was last opened. -/
theorem closed_by_later_permit (ops : List Op) (op : Op)
    (hfail : FailuresReopen (after retention maxEntries breaker ops) op)
    (hown : SuccessesOnOwnRecord (after retention maxEntries breaker ops) op) (k : HealthKey)
    (r r' : HealthRecord) (hr : (after retention maxEntries breaker ops).store.entries.lookup k = some r)
    (hr' : (after retention maxEntries breaker (ops ++ [op])).store.entries.lookup k = some r')
    (haddr : r'.addr = r.addr) (ht : tripped r = true) (hclosed : r'.status.breaker = .closed) :
    ∃ i outcomes time delay reason p e, op = .complete i outcomes time delay reason ∧
      (after retention maxEntries breaker ops).permits[i]? = some p ∧ p.completed = false ∧ e ∈ p.entries ∧
      e.key = k ∧ outcomes k.domain = some .success ∧ (e.halfOpenToken ≠ 0 ∨ p.kind = .fallback) ∧
      ∃ pre post r₀, ops = pre ++ post ∧ p.issuedIn = (after retention maxEntries breaker pre).store ∧
        (after retention maxEntries breaker pre).store.entries.lookup k = some r₀ ∧ r₀.addr = r.addr ∧
        r₀.version = r.version ∧ tripped r₀ = true := by
  have h := after_history retention maxEntries breaker ops
  rw [after_snoc] at hr'
  obtain ⟨i, outcomes, time, delay, reason, p, e, rfl, rfl, hrc⟩ :=
    closing_reaches (step_change h.sound op) h.located hr hr' haddr ht hclosed hfail
  obtain ⟨r₀, hr₀, haddr₀⟩ := hown p e r hrc
  obtain ⟨hvers, huntr⟩ := h.entries i p hrc.permit e hrc.entry r₀ hr₀
  have hages := h.aged i p hrc.permit e.key r₀ r hr₀ hr haddr₀
  have hsame : r.version = e.version := by
    have hadm := hrc.accepts.2
    simp only [admits, Bool.true_and, Bool.and_eq_true, Bool.not_eq_true', bne_eq_false_iff_eq] at hadm
    exact hadm.1.1
  have ht₀ : tripped r₀ = true := hages.tripped (hsame.trans hvers) ht
  obtain ⟨pre, post, hops, hin⟩ := issued_in_run retention maxEntries breaker ops i p hrc.permit
  refine ⟨i, outcomes, time, delay, reason, p, e, rfl, hrc.permit, hrc.opened, hrc.entry, rfl,
    hrc.loaded, ?_, pre, post, r₀, hops, hin, hin ▸ hr₀, haddr₀, (hsame.trans hvers).symm, ht₀⟩
  by_cases hz : e.halfOpenToken = 0
  · right
    cases hk : p.kind with
    | fallback => rfl
    | normal => cases ht₀.symm.trans (huntr hk hz)
  · exact .inl hz

end

def openAndFallback : List Op := [
  .observe (endpointObservation firstNode .failure 100) true 1 0,
  .fallback firstNode "tcp"]

theorem fallback_success_closes :
    ∃ r r', (after 3600 16 (plainBreaker 1) openAndFallback).store.entries.lookup (endpointKey firstNode) = some r ∧
      (after 3600 16 (plainBreaker 1) (openAndFallback ++
        [.complete 0 (endpointOutcome .success) 101 0 ""])).store.entries.lookup (endpointKey firstNode) = some r' ∧
      tripped r = true ∧ r'.status.breaker = .closed ∧ ∃ pre post r₀, openAndFallback = pre ++ post ∧
        (after 3600 16 (plainBreaker 1) pre).store.entries.lookup (endpointKey firstNode) = some r₀ ∧
        r₀.addr = r.addr ∧ r₀.version = r.version ∧ tripped r₀ = true := by
  have hbef : ((after 3600 16 (plainBreaker 1) openAndFallback).store.entries.lookup
      (endpointKey firstNode)).map (fun r => (r.addr, tripped r)) = some (0, true) := by decide +kernel
  have haft : ((after 3600 16 (plainBreaker 1) (openAndFallback ++
      [.complete 0 (endpointOutcome .success) 101 0 ""])).store.entries.lookup (endpointKey firstNode)).map
        (fun r => (r.addr, r.status.breaker)) = some (0, .closed) := by decide +kernel
  obtain ⟨r, hr, hflds⟩ := map_eq_some_iff.mp hbef
  obtain ⟨r', hr', hflds'⟩ := map_eq_some_iff.mp haft
  simp only [Prod.mk.injEq] at hflds hflds'
  -- the report is a success, and only its endpoint entry reaches a record
  have hrch : ∀ p ∈ (after 3600 16 (plainBreaker 1) openAndFallback).permits[0]?, ∀ e ∈ p.entries,
      ∀ outcome ∈ endpointOutcome .success e.key.domain, outcome = .success ∧ e.key = endpointKey firstNode ∧
        (p.issuedIn.entries.lookup e.key).map (·.addr) = some 0 := by decide +kernel
  have hfail : FailuresReopen (after 3600 16 (plainBreaker 1) openAndFallback)
      (.complete 0 (endpointOutcome .success) 101 0 "") :=
    fun p e outcome q hrc => absurd (hrch p hrc.permit e hrc.entry outcome hrc.loaded).1
  have hown : SuccessesOnOwnRecord (after 3600 16 (plainBreaker 1) openAndFallback)
      (.complete 0 (endpointOutcome .success) 101 0 "") := by
    intro p e q hrc
    obtain ⟨-, hk, hiss⟩ := hrch p hrc.permit e hrc.entry .success hrc.loaded
    obtain ⟨r₀, hr₀, ha⟩ := map_eq_some_iff.mp hiss
    have hq := hrc.record
    rw [hk] at hq
    cases hr.symm.trans hq
    exact ⟨r₀, hr₀, ha.trans hflds.1.symm⟩
  obtain ⟨i, outcomes, time, delay, reason, p, e, _, _, _, _, _, _, _, pre, post, r₀, hops, _, hr₀, ha,
      hv, ht⟩ :=
    closed_by_later_permit 3600 16 (plainBreaker 1) openAndFallback _ hfail hown _ r r' hr hr'
      (hflds'.1.trans hflds.1.symm) hflds.2 hflds'.2
  exact ⟨r, r', hr, hr', hflds.2, hflds'.2, pre, post, r₀, hops, hr₀, ha, hv, ht⟩

def evictedMeanwhile : List Op := openAndFallback ++ [
  .observe (endpointObservation secondNode .success 101) true 1 0,
  .observe (endpointObservation firstNode .failure 102) true 1 0]

/-- The permit was issued on the record at address 0. It closes the one at
address 2, which was opened later. -/
theorem old_permit_closes_new_record :
    ((after 3600 1 (plainBreaker 1) evictedMeanwhile).permits[0]?.map fun p =>
        (p.issuedIn.entries.lookup (endpointKey firstNode)).map (·.addr)) = some (some 0) ∧
      ((after 3600 1 (plainBreaker 1) evictedMeanwhile).store.entries.lookup (endpointKey firstNode)).map
        (fun r => (r.addr, r.status.breaker)) = some (2, .opened) ∧
      ((after 3600 1 (plainBreaker 1) (evictedMeanwhile ++
        [.complete 0 (endpointOutcome .success) 103 0 ""])).store.entries.lookup (endpointKey firstNode)).map
        (fun r => (r.addr, r.status.breaker)) = some (2, .closed) := by decide +kernel

end SingBox.BreakerRecovery
