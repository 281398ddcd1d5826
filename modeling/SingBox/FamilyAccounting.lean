import SingBox.FamilyLedgers
import SingBox.TokenCustody

namespace SingBox.FamilyAccounting

open List hiding after
open Option Values Maps BreakerRecord BreakerMoves HealthTransport HealthLedger LedgerMoves AttemptPermits
  PermitMoves BreakerRuns BreakerSteps TokenCustody Runs Observations HealthReducer LedgerListing FamilyLedgers

def Changed (s s' : HealthStore) (k : HealthKey) : Prop :=
  ∃ r, s'.entries.lookup k = some r ∧ s.entries.lookup k ≠ some r

def Takes (s : HealthStore) (e : PermitEntry) (time : Time) : Prop :=
  match (pruneExpiredLocked s time).entries.lookup e.key with
  | none => e.version = 0
  | some r => Accepts r time e.version e.halfOpenToken true

variable {time : Time} {entries : List PermitEntry} {handle : NodeHandle} {w : World} {q : AttemptPermit}

section

variable {s s' : HealthStore} {key : HealthKey} {r : HealthRecord}

theorem takes_of_found {e} (hr : (pruneExpiredLocked s time).entries.lookup e.key = some r)
    (hacc : Accepts r time e.version e.halfOpenToken true) : Takes s e time := by
  rw [Takes, hr]
  exact hacc

theorem report_counts (cfg draw r outcome time delay reason) :
    (report cfg draw r outcome time delay reason).status.successes =
        r.status.successes + (if outcome = .success then 1 else 0) ∧
      (report cfg draw r outcome time delay reason).status.failures =
        r.status.failures + if outcome = .success then 0 else 1 := by
  have hnot : (noteReport r outcome time delay reason).status.successes = r.status.successes ∧
      (noteReport r outcome time delay reason).status.failures = r.status.failures := by
    rw [noteReport]
    split
    · rw [recordHealthDelay]
      split <;> exact ⟨rfl, rfl⟩
    · exact ⟨rfl, rfl⟩
  rw [report]
  split
  · rw [reportSuccess]
    split <;> (dsimp only; omega)
  rw [reportFailure, openBreakerRecord]
  split <;> (dsimp only; omega)

theorem report_ne (cfg draw r outcome time delay reason) : report cfg draw r outcome time delay reason ≠ r := by
  intro heq
  have hcnt := report_counts cfg draw r outcome time delay reason
  rw [heq] at hcnt
  split at hcnt <;> omega

theorem observeRecord_lookup (h : Listed s) {rest} (hfront : s.lru = key :: rest) (hr : s.entries.lookup key = some r)
    {outcome delay reason version token active} (hadm : admits r version token active = true) :
    (observeRecord s key r outcome time delay reason version token active).entries.lookup key =
      some (report s.breaker s.draws r outcome time delay reason) := by
  have hsav := h.rewrites (.save hr (report_key s.breaker s.draws r outcome time delay reason))
  rw [observeRecord, if_pos hadm]
  generalize report s.breaker s.draws r outcome time delay reason = r' at hsav ⊢
  have hlk : (save s key r').entries.lookup key = some r' := by
    rw [lookup_save, if_pos rfl]
  split
  · exact hlk
  have hdrawn : ∀ draws, Listed { save s key r' with draws := draws } := fun draws => { hsav with }
  exact ((hdrawn _).evictFrom_front hfront _).trans hlk

/-- The report that is taken goes on top of the record or starts a new one. -/
theorem takes_lookup (h : Listed s) {e} (htk : Takes s e time) (outcome delay reason) : ∃ cfg draw before,
    (observeLocked s e.key outcome time delay reason e.version e.halfOpenToken true).entries.lookup e.key =
        some (report cfg draw before outcome time delay reason) ∧
      ((pruneExpiredLocked s time).entries.lookup e.key = some before ∨
        (pruneExpiredLocked s time).entries.lookup e.key = none ∧ before = { addr := s.allocated, key := e.key }) := by
  have hpr : Listed (pruneExpiredLocked s time) := h.removes (prune_removes s time)
  have halc := (prune_removes s time).shrinks.allocated
  rw [Takes] at htk
  rw [observeLocked]
  generalize pruneExpiredLocked s time = p at hpr halc htk
  cases hp : p.entries.lookup e.key with
  | none =>
    rw [hp] at htk
    have hadm : admits { addr := p.allocated, key := e.key } e.version e.halfOpenToken true = true := by
      simp [admits, htk]
    dsimp only
    rw [if_neg (by simp [htk])]
    exact ⟨_, _, _, observeRecord_lookup (hpr.create hp rfl) rfl (AList.lookup_insert _) hadm,
      .inr ⟨rfl, by rw [halc]⟩⟩
  | some r =>
    rw [hp] at htk
    dsimp only
    rw [if_neg (by simp [htk.1])]
    exact ⟨_, _, r, observeRecord_lookup (hpr.moveToFront hp) rfl hp htk.2, .inl rfl⟩

theorem changed_iff_takes (h : Listed s) (e) (hloc : ∀ r, s.entries.lookup e.key = some r → r.addr < s.allocated)
    (outcome time delay reason) :
    Changed s (observeLocked s e.key outcome time delay reason e.version e.halfOpenToken true) e.key ↔
      Takes s e time := by
  have hshr := (prune_removes s time).shrinks
  constructor
  · rintro ⟨r', hr', hne⟩
    rw [observeLocked] at hr'
    rw [Takes]
    generalize pruneExpiredLocked s time = p at hshr hr'
    cases hp : p.entries.lookup e.key with
    | none =>
      rw [hp] at hr'
      by_contra hvers
      rw [if_pos (by simpa using hvers), hp] at hr'
      cases hr'
    | some r =>
      have hs : s.entries.lookup e.key = some r := hshr.entries e.key r hp
      rw [hp] at hr'
      dsimp only at hr' ⊢
      by_contra hnot
      split at hr'
      · exact absurd (hs.trans (hp.symm.trans hr')) hne
      next hf =>
      rw [observeRecord, if_neg fun hadm => hnot ⟨Bool.eq_false_iff.2 hf, hadm⟩] at hr'
      exact absurd (hs.trans (hp.symm.trans hr')) hne
  · intro htk
    obtain ⟨cfg, draw, before, hlk, hbef⟩ := takes_lookup h htk outcome delay reason
    refine ⟨_, hlk, fun heq => ?_⟩
    rcases hbef with hp | ⟨-, rfl⟩
    · rw [hshr.entries e.key before hp] at heq
      exact report_ne _ _ _ _ _ _ _ (some.inj heq).symm
    · -- the new record has an address that no stored record has
      have ha := hloc _ heq
      rw [report_addr] at ha
      exact lt_irrefl _ ha

/-- The outcome is counted once, on top of what the ledger had counted unless that has expired. -/
def Books (s s' : HealthStore) (k : HealthKey) (outcome : ObservationOutcome) (time : Time) : Prop :=
  ∃ before r : HealthRecord, s'.entries.lookup k = some r ∧
    (s.entries.lookup k = some before ∨ before.status.successes = 0 ∧ before.status.failures = 0 ∧
      ∀ old, s.entries.lookup k = some old → s.retention < sub time old.status.lastUpdated) ∧
    r.status.successes = before.status.successes + (if outcome = .success then 1 else 0) ∧
    r.status.failures = before.status.failures + if outcome = .success then 0 else 1

theorem pruneFrom_lookup (h : Listed s) (keys) (hr : s.entries.lookup key = some r) :
    (pruneFrom time keys s).entries.lookup key = some r ∨ s.retention < sub time r.status.lastUpdated := by
  induction keys generalizing s with
  | nil => exact .inl hr
  | cons k keys ih =>
    rw [pruneFrom]
    split
    · exact .inl hr
    next q hq =>
    split
    · exact .inl hr
    next hexp =>
    have hk := h.keyed k q hq
    rcases eq_or_ne key k with rfl | hne
    · cases hq.symm.trans hr
      exact .inr (not_le.1 hexp)
    · refine ih (h.removeLocked q) ?_
      rwa [removeLocked, lookup_del, if_neg (hk ▸ hne)]

theorem books_of_takes (h : Listed s) {e} (htk : Takes s e time) (outcome delay reason) :
    Books s (observeLocked s e.key outcome time delay reason e.version e.halfOpenToken true) e.key outcome time := by
  obtain ⟨cfg, draw, before, hlk, hbef⟩ := takes_lookup h htk outcome delay reason
  refine ⟨before, _, hlk, ?_, report_counts ..⟩
  rcases hbef with hp | ⟨hp, rfl⟩
  · exact .inl ((prune_removes s time).shrinks.entries _ _ hp)
  · refine .inr ⟨rfl, rfl, fun old hold => (pruneFrom_lookup h s.lru.reverse hold).resolve_left ?_⟩
    rw [← pruneExpiredLocked, hp]
    simp

end

structure Attempt where
  handle : NodeHandle
  path : String
  service : Option String
  acquiredAt : Time
  dialClock : Time
  orders : Nat → RangeOrder HealthKey
  evidence : ObservationEvidence
  beforeReduce : Option Reply

def ledgerOf (s : HealthStore) (a : Attempt) : String := dialTransportKey s a.handle a.path a.dialClock a.orders

def acquire (s : HealthStore) (a : Attempt) : HealthStore × Option (List PermitEntry) :=
  tryAcquirePermit s (dialKeys a.handle (ledgerOf s a) a.service) a.acquiredAt

/-- The evidence is what `completeTransportAttempt` publishes for a family that it knows. -/
structure Concrete (a : Attempt) (familyA familyB : String) : Prop where
  dual : dualStackFamilyPaths (transportLedgerKey a.path) = some (familyA, familyB)
  handle : a.evidence.handle = a.handle
  domain : stageDomain a.evidence.stage = .transport
  eligible : breakerEligible a.evidence = true
  reported : a.evidence.outcome ≠ .deferred
  path : a.evidence.networkPath = familyA ∨ a.evidence.networkPath = familyB
  before : a.beforeReduce.getD (.returned none) = .returned none

def reducerOf (a : Attempt) (permit : Nat) : HealthObservationReducer := ⟨true, some ⟨some permit⟩, a.beforeReduce⟩

def settle (w : World) (a : Attempt) (permit : Nat) (clock : Time) : World :=
  (reduce (reducerOf a permit) a.evidence [domainEvidence a.evidence]).1.foldl (fun w sec => step w (sec clock)) w

def timeOf (a : Attempt) (clock : Time) : Time := if isZero a.evidence.time then clock else a.evidence.time

def NotWorse (s s' : HealthStore) (handle : NodeHandle) (path : String) : Prop :=
  (∀ now orders, transportPathEligible s handle path now orders = true →
      transportPathEligible s' handle path now orders = true) ∧
    ∀ order order', healthTransportStatusRank (statusHandle s' handle .transport path "" order') ≤
      healthTransportStatusRank (statusHandle s handle .transport path "" order)

/-- The outcome is booked to the ledger of the family that was dialed and to no other, and the other family is
no worse off. -/
structure Accounted (s s' : HealthStore) (a : Attempt) (time : Time) (familyA familyB : String) : Prop where
  booked : Books s s' (transportKey a.handle a.evidence.networkPath) a.evidence.outcome time
  ledger : ∀ k, k.domain = .transport → (Changed s s' k ↔ k = transportKey a.handle a.evidence.networkPath)
  other : ∀ path ∈ [familyA, familyB], path ≠ a.evidence.networkPath → NotWorse s s' a.handle path

section

variable {a : Attempt} {familyA familyB : String}

theorem reduce_concrete (h : Concrete a familyA familyB) (permit) :
    ∃ outcomes,
      outcomes .transport = some a.evidence.outcome ∧ outcomes .endpoint = none ∧ outcomes .service = none ∧
      (reduce (reducerOf a permit) a.evidence [domainEvidence a.evidence]).1 =
        [fun clock => .complete permit outcomes (timeOf a clock) a.evidence.delay a.evidence.reason] := by
  have hdom : (domainEvidence a.evidence).domain = .transport := h.domain
  have helig : (domainEvidence a.evidence).breakerEligible = true := h.eligible
  have hiden : identityMatches a.evidence (domainEvidence a.evidence) = true := by
    simp [identityMatches, domainEvidence]
  have hout : outcomesOf [domainEvidence a.evidence] =
      (∅ : GoMap FailureDomain ObservationOutcome).insert .transport a.evidence.outcome := by
    rw [outcomesOf, foldl_cons, if_pos helig, hdom]
    rfl
  refine ⟨(outcomesOf [domainEvidence a.evidence]).lookup, ?_, ?_, ?_, ?_⟩
  · dsimp only
    rw [hout, AList.lookup_insert]
  · dsimp only
    rw [hout, lookup_set, if_neg (by decide), AList.lookup_empty]
  · dsimp only
    rw [hout, lookup_set, if_neg (by decide), AList.lookup_empty]
  · rw [reduce, reducerOf]
    dsimp only
    rw [h.before]
    have hkeys : (outcomesOf [domainEvidence a.evidence]).keys ≠ [] := by
      rw [hout]
      exact cons_ne_nil _ _
    rw [all_cons, hiden, filter_cons_of_neg (by simp [helig]), if_neg hkeys]
    rfl

theorem ledgerOf_mem (h : Concrete a familyA familyB) (s) :
    ledgerOf s a = transportLedgerKey a.path ∨ ledgerOf s a = familyA ∨ ledgerOf s a = familyB := by
  rw [ledgerOf, dialTransportKey, h.dual]
  dsimp only
  split_ifs <;> simp

section

variable (h : Concrete a familyA familyB)
include h

theorem dual_ledger : (transportLedgerKey a.path = "tcp/any" ∧ familyA = "tcp/ipv4" ∧ familyB = "tcp/ipv6") ∨
      (transportLedgerKey a.path = "udp_dns/any" ∧ familyA = "udp_dns/ipv4" ∧ familyB = "udp_dns/ipv6") ∨
      ((transportLedgerKey a.path = "udp/any" ∨ transportLedgerKey a.path = "udp_data/any") ∧
        familyA = "udp_data/ipv4" ∧ familyB = "udp_data/ipv6") := by
  have hne := transportLedgerKey_ne a.path
  have hdual := h.dual
  rw [dualStackFamilyPaths] at hdual
  split_ifs at hdual with htcp hdns hudp <;> obtain ⟨rfl, rfl⟩ := Prod.mk.inj (some.inj hdual)
  · exact .inl ⟨htcp.resolve_left hne.1, rfl, rfl⟩
  · exact .inr (.inl ⟨hdns, rfl, rfl⟩)
  · exact .inr (.inr ⟨hudp.resolve_left hne.2, rfl, rfl⟩)

theorem ledgerOf_legacy (s) :
    ledgerOf s a ≠ "" ∧ (legacyTransport (ledgerOf s a) = some "tcp" ∨ legacyTransport (ledgerOf s a) = some "udp") := by
  rcases dual_ledger h with ⟨hpath, hA, hB⟩ | ⟨hpath, hA, hB⟩ | ⟨hpath | hpath, hA, hB⟩ <;>
    rcases ledgerOf_mem h s with heq | heq | heq <;> rw [heq] <;> first | rw [hpath] | rw [hA] | rw [hB]
  all_goals decide

theorem family_single : ∀ path ∈ [familyA, familyB], containsSlash path = true ∧ dualStackFamilyPaths path = none ∧
      (legacyTransport path = some "tcp" ∨ legacyTransport path = some "udp") := by
  rcases dual_ledger h with ⟨-, rfl, rfl⟩ | ⟨-, rfl, rfl⟩ | ⟨-, rfl, rfl⟩ <;> decide

end

theorem entries_of_acquire {s s₁} (hstored : AllPlain s) (h : Concrete a familyA familyB)
    (hgrant : acquire s a = (s₁, some entries)) :
    ∃ e₀ e₁ rest, entries = e₀ :: e₁ :: rest ∧ e₀.key.domain = .endpoint ∧
      e₁.key = transportKey a.handle (ledgerOf s a) ∧ ∀ e ∈ rest, e.key.domain = .service := by
  obtain ⟨hnon, hleg⟩ := ledgerOf_legacy h s
  obtain ⟨es, rfl, hes⟩ := acquireLoop_entries hgrant
  generalize ledgerOf s a = ledger at hnon hleg hes
  have hdom : ∀ {s₀ : HealthStore} {key : HealthKey} {e : PermitEntry}, e.key = (recordForKeyLocked s₀ key).2 →
      e.key.domain = key.domain := by
    intro s₀ key e he
    obtain ⟨k, hk, heq⟩ := recordForKey_some s₀ key
    rw [he, heq]
    exact hk
  rw [dialKeys, if_pos hnon] at hes
  cases hes with
  | cons hf hes =>
    cases hes with
    | cons hsec hes =>
      obtain ⟨s₀, -, hf⟩ := hf
      obtain ⟨s₁, hs₁, hsec⟩ := hsec
      refine ⟨_, _, _, rfl, hdom hf, ?_, fun e he => ?_⟩
      · exact hsec.trans (congrArg Prod.snd
          (recordForKey_self (plain_of_rewrites hs₁ hstored) (transportKey a.handle ledger) hleg))
      · cases hsrv : a.service with
        | none =>
          rw [hsrv] at hes
          cases hes
          cases he
        | some service =>
          rw [hsrv] at hes
          cases hes with
          | cons hthird hes =>
            cases hes
            obtain ⟨s₂, -, hthird⟩ := hthird
            rw [mem_singleton.1 he]
            exact hdom hthird

end

/-- The transport ledger of the permit takes the report, once the entries before it were given back. -/
def TakesFrom (s : HealthStore) (entries : List PermitEntry) (time : Time) : Prop :=
  ∃ earlier e later, entries = earlier ++ e :: later ∧ e.key.domain = .transport ∧
    Takes (releasePermit s earlier) e time

section

variable {s s' : HealthStore} {path : String} (hstored : AllPlain s)
include hstored

theorem status_of_family (hsl : containsSlash path = true)
    (hleg : legacyTransport path = some "tcp" ∨ legacyTransport path = some "udp") (handle order) :
    statusHandle s handle .transport path "" order =
      ((s.entries.lookup (transportKey handle path)).map (·.status)).getD { health := .unknown, breaker := .closed } := by
  have hself := recordForKey_self hstored (transportKey handle path) hleg
  rw [transportKey] at hself ⊢
  rw [statusHandle, hself]
  cases s.entries.lookup (healthKey handle .transport path "") with
  | some r => rfl
  | none =>
    rw [if_neg (by simp [hsl])]
    rfl

theorem notWorse_of_family (hsto' : AllPlain s') (hsl : containsSlash path = true)
    (hsing : dualStackFamilyPaths path = none)
    (hleg : legacyTransport path = some "tcp" ∨ legacyTransport path = some "udp")
    (h : ∀ r, s'.entries.lookup (transportKey handle path) = some r →
      s.entries.lookup (transportKey handle path) = some r) : NotWorse s s' handle path := by
  have hnon : path ≠ "" := by
    rintro rfl
    revert hsl
    decide
  constructor
  · intro now orders
    simp only [transportPathEligible, hsing, pathCapability, if_neg hnon,
      status_of_family hstored hsl hleg, status_of_family hsto' hsl hleg]
    cases hk : s'.entries.lookup (transportKey handle path) with
    | some r => rw [h r hk]; exact id
    | none => exact fun _ => rfl
  · intro order order'
    rw [status_of_family hstored hsl hleg, status_of_family hsto' hsl hleg]
    cases hk : s'.entries.lookup (transportKey handle path) with
    | some r => rw [h r hk]
    | none => exact Nat.zero_le _

end

section

variable {a : Attempt} {familyA familyB : String}

section

variable {e₀ e₁ : PermitEntry} {rest : List PermitEntry} (h₀ : e₀.key.domain = .endpoint)
  (h₁ : e₁.key.domain = .transport) (hrest : ∀ e ∈ rest, e.key.domain = .service)
include h₀ h₁ hrest

theorem settle_store (h : Concrete a familyA familyB) {permit} (hq : w.permits[permit]? = some q)
    (hopen : q.completed = false) (clock) (hent : q.entries = e₀ :: e₁ :: rest) :
    (settle w a permit clock).store =
      releasePermit (observeLocked (releaseTokenLocked w.store e₀) e₁.key a.evidence.outcome (timeOf a clock)
        a.evidence.delay a.evidence.reason e₁.version e₁.halfOpenToken true) rest := by
  obtain ⟨outcomes, htran, hendp, hsrv, hsect⟩ := reduce_concrete h permit
  rw [settle, hsect, foldl_cons, step, finish, hq]
  dsimp only
  rw [if_neg (by simp [hopen]), hent]
  change ((e₀ :: e₁ :: rest).foldl (completeEntry outcomes _ _ _) w.store) = _
  have hl : ∀ s, rest.foldl (completeEntry outcomes (timeOf a clock) a.evidence.delay a.evidence.reason) s =
      releasePermit s rest := by
    intro s
    refine foldl_ext _ _ _ fun s e he => ?_
    rw [completeEntry, hrest e he, hsrv]
  rw [foldl_cons, foldl_cons, hl, completeEntry, completeEntry, h₀, h₁, hendp, htran]
  cases hout : a.evidence.outcome with
  | deferred => exact absurd hout h.reported
  | success | failure | blocked => rfl

theorem changed_by_settlement {s} (hls : Listed s)
    (hloc : ∀ k r, s.entries.lookup k = some r → r.addr < s.allocated) (outcome time delay reason k)
    (hk : k.domain = .transport) :
    let s' := releasePermit (observeLocked (releaseTokenLocked s e₀) e₁.key outcome time delay reason e₁.version
      e₁.halfOpenToken true) rest
    (Changed s s' k ↔ k = e₁.key ∧ Takes (releaseTokenLocked s e₀) e₁ time) ∧
      (k = e₁.key ∧ Takes (releaseTokenLocked s e₀) e₁ time → Books s s' k outcome time) := by
  intro s'
  have hf : ∀ k, k.domain = .transport →
      (releaseTokenLocked s e₀).entries.lookup k = s.entries.lookup k := by
    intro k hk
    rw [releaseToken_lookup, if_neg]
    rintro rfl
    exact absurd (h₀.symm.trans hk) (by decide)
  have hl : ∀ s', (releasePermit s' rest).entries.lookup k = s'.entries.lookup k := by
    intro s'
    refine releasePermit_others s' rest k fun e he heq => ?_
    exact absurd ((hrest e he).symm.trans ((congrArg (·.domain) heq).trans hk)) (by decide)
  have hls' := hls.rewrites (releaseTokenLocked_rewrites s e₀)
  refine ⟨?_, ?_⟩
  case refine_2 =>
    rintro ⟨rfl, htk⟩
    obtain ⟨before, r, hr, hbef, hcnt⟩ := books_of_takes hls' htk outcome delay reason
    have hret : (releaseTokenLocked s e₀).retention = s.retention := by
      rw [releaseTokenLocked]
      split
      · rfl
      · split <;> rfl
    rw [hf _ h₁, hret] at hbef
    exact ⟨before, r, (hl _).trans hr, hbef, hcnt⟩
  have hp := changed_iff_takes hls' e₁
    (fun r hr => by
      rw [(releaseTokenLocked_frame s e₀).2.1]
      exact hloc _ r ((hf _ h₁).symm.trans hr)) outcome time delay reason
  by_cases heq : k = e₁.key
  · subst heq
    rw [Changed, hl, ← hf _ h₁]
    exact hp.trans (and_iff_right rfl).symm
  · refine ⟨?_, fun hboth => absurd hboth.1 heq⟩
    rintro ⟨r, hr, hne⟩
    rw [hl] at hr
    have hsame := (observeLocked_touches _ e₁.key outcome time delay reason e₁.version
      e₁.halfOpenToken true).others k r heq hr
    exact absurd ((hf k hk).symm.trans hsame) hne

theorem takesFrom_iff {s} : TakesFrom s (e₀ :: e₁ :: rest) time ↔ Takes (releaseTokenLocked s e₀) e₁ time := by
  constructor
  · rintro ⟨earlier, e, later, heq, hdom, htk⟩
    rcases earlier with _ | ⟨e₀', _ | ⟨e₁', earlier⟩⟩
    · obtain ⟨rfl, -⟩ := cons.inj heq
      exact absurd (h₀.symm.trans hdom) (by decide)
    · obtain ⟨hf, htail⟩ := cons.inj heq
      obtain ⟨hsec, -⟩ := cons.inj htail
      rw [hf, hsec]
      exact htk
    · obtain ⟨-, htail⟩ := cons.inj heq
      obtain ⟨-, rfl⟩ := cons.inj htail
      have hsrv := hrest e (mem_append_right _ mem_cons_self)
      exact absurd (hsrv.symm.trans hdom) (by decide)
  · intro h
    exact ⟨[e₀], e₁, rest, rfl, h₁, h⟩

end

theorem entries_run {i : Nat} (hq : w.permits[i]? = some q) (ops) :
    ∃ q', (run step w ops).permits[i]? = some q' ∧ q'.entries = q.entries := by
  induction ops generalizing w q with
  | nil => exact ⟨q, hq, rfl⟩
  | cons op ops ih =>
    obtain ⟨q', hq', heq, -⟩ := permit_step hq op
    obtain ⟨q'', hq'', heq'⟩ := ih hq'
    exact ⟨q'', hq'', heq'.trans heq⟩

theorem transportKey_inj {path path'} : transportKey handle path = transportKey handle path' ↔ path = path' :=
  ⟨fun h => congrArg (·.transport) h, fun h => h ▸ rfl⟩

end

section

variable {retention : Duration} {maxEntries : Int} {breaker : BreakerConfig}

theorem listed_after (ops) : Listed (after retention maxEntries breaker ops).store :=
  run_invariant (I := fun w : World => Listed w.store) (fun _ op h => listed_step h op)
    (listed_start retention maxEntries breaker) ops

theorem qualified_after {ops} (h : ∀ op ∈ ops, Genuine op) : Qualified (after retention maxEntries breaker ops) :=
  run_keeps_mem (I := Qualified) (fun _ op hop hw => qualified_step hw (h op hop))
    (qualified_start retention maxEntries breaker)

theorem qualified_settle (hw : Qualified w) {a familyA familyB} (h : Concrete a familyA familyB) (permit clock) :
    Qualified (settle w a permit clock) := by
  obtain ⟨outcomes, -, -, -, hsect⟩ := reduce_concrete h permit
  rw [settle, hsect, foldl_cons]
  exact qualified_step hw (by trivial)

def acquisition (w : World) (a : Attempt) : Op := .dial a.handle (ledgerOf w.store a) a.service a.acquiredAt

theorem acquisition_issues {a} (h : (acquire w.store a).2 = some entries) :
    (step w (acquisition w a)).permits[w.permits.length]? = some ⟨entries, false, .normal, (acquire w.store a).1⟩ := by
  change (issue w .normal (acquire w.store a)).permits[w.permits.length]? = _
  rw [issue, h]
  exact getElem?_concat_length

/-- The outcome goes to the ledger of the dialed family exactly when the acquisition settled on
that ledger and it still takes the report. -/
theorem accounted_iff (before between : List Op) (hgenuine : ∀ op ∈ before ++ between, Genuine op) {w w' : World}
    {a : Attempt} {familyA familyB : String} (hconcrete : Concrete a familyA familyB)
    (hw : w = after retention maxEntries breaker before)
    (hw' : w' = after retention maxEntries breaker (before ++ acquisition w a :: between)) {entries : List PermitEntry}
    (hgrant : (acquire w.store a).2 = some entries) {q : AttemptPermit} (hq : w'.permits[w.permits.length]? = some q)
    (hopen : q.completed = false) (clock : Time) :
    Accounted w'.store (settle w' a w.permits.length clock).store a (timeOf a clock) familyA familyB ↔
      ledgerOf w.store a = a.evidence.networkPath ∧ TakesFrom w'.store entries (timeOf a clock) := by
  have hqual : Qualified w := hw ▸ qualified_after fun op hop => hgenuine op (mem_append_left _ hop)
  have hne : ledgerOf w.store a ≠ "tcp" ∧ ledgerOf w.store a ≠ "udp" := by
    obtain ⟨-, hleg⟩ := ledgerOf_legacy hconcrete w.store
    constructor <;> intro heq <;> rw [heq] at hleg <;> revert hleg <;> decide
  have hqual' : Qualified w' := by
    rw [hw']
    refine qualified_after fun op hop => ?_
    rcases mem_append.1 hop with hop | hop
    · exact hgenuine op (mem_append_left _ hop)
    rcases mem_cons.1 hop with rfl | hop
    · exact hne
    · exact hgenuine op (mem_append_right _ hop)
  have hls : Listed w'.store := hw' ▸ listed_after _
  have hloc : Located w' := hw' ▸ (after_custody ..).located
  have hrun : w' = run step (step w (acquisition w a)) between := by
    rw [hw', after, run_append, run_cons, hw, after]
  obtain ⟨q', hq', hent⟩ := entries_run (acquisition_issues hgrant) between
  rw [← hrun, hq] at hq'
  obtain rfl := some.inj hq'
  obtain ⟨e₀, e₁, rest, rfl, h₀, hke, hrest⟩ :=
    entries_of_acquire hqual.stored hconcrete (Prod.ext rfl hgrant)
  have h₁ : e₁.key.domain = .transport := by
    rw [hke]
    rfl
  have hstore := settle_store h₀ h₁ hrest hconcrete hq hopen clock hent
  have hset := changed_by_settlement h₀ h₁ hrest hls hloc.record a.evidence.outcome (timeOf a clock)
    a.evidence.delay a.evidence.reason
  rw [← hstore] at hset
  rw [takesFrom_iff h₀ h₁ hrest]
  constructor
  · intro h
    obtain ⟨hled, htk⟩ := (hset _ rfl).1.1 ((h.ledger _ rfl).2 rfl)
    rw [hke, transportKey_inj] at hled
    exact ⟨hled.symm, htk⟩
  · rintro ⟨hled, htk⟩
    rw [hled] at hke
    refine ⟨(hset _ rfl).2 ⟨hke.symm, htk⟩, fun k hk => (hset k hk).1.trans ?_,
      fun path hpath hoth => ?_⟩
    · rw [hke]
      exact and_iff_left htk
    · obtain ⟨hsl, hsing, hleg⟩ := family_single hconcrete path hpath
      refine notWorse_of_family hqual'.stored (qualified_settle hqual' hconcrete _ clock).stored
        hsl hsing hleg fun r hr => ?_
      -- a record that is not the one of before would be a change
      by_contra hnot
      have hthis := ((hset _ rfl).1.1 ⟨r, hr, hnot⟩).1
      rw [hke, transportKey_inj] at hthis
      exact hoth hthis

end

def transportObservation (transport : String) (outcome : ObservationOutcome) : Observation :=
  ⟨firstNode.nodeID, firstNode.slot, firstNode.version, .transport, transport, "", outcome, 0, 100, ""⟩

def goodFamily : List Op := [
  .observe (transportObservation "tcp/any" .failure) true 1 0,
  .observe (transportObservation "tcp/ipv4" .success) true 1 0]

def failingDial (family : String) : Attempt where
  handle := firstNode
  path := "tcp/any"
  service := none
  acquiredAt := 101
  dialClock := 101
  orders := fun _ => .stored _
  evidence :=
    { runtimeEpochID := 1, catalogRevision := 1, sourceGeneration := 1, handle := firstNode, source := .dial,
      stage := .destinationTransport, failure := .connect, confidence := .high, outcome := .failure, serviceID := "",
      transport := "tcp", networkPath := family, attemptID := 1, delay := 0, throughputBPS := 0, time := 102,
      reason := "connection refused" }
  beforeReduce := none

def dialed (before : List Op) (a : Attempt) : World :=
  after 0 0 (plainBreaker 1) (before ++ [acquisition (after 0 0 (plainBreaker 1) before) a])

theorem failingDial_concrete {family} (h : family = "tcp/ipv4" ∨ family = "tcp/ipv6") :
    Concrete (failingDial family) "tcp/ipv4" "tcp/ipv6" where
  dual := by
    change dualStackFamilyPaths (transportLedgerKey "tcp/any") = _
    decide
  handle := rfl
  domain := rfl
  eligible := rfl
  reported := by
    intro heq
    cases heq
  path := h
  before := rfl

/-- On a fresh store the outcome goes to the ledger of both families; where one of them is known to be good, the
failure of the other makes it unavailable. -/
theorem failingDial_missed :
    ¬ Accounted (dialed [] (failingDial "tcp/ipv4")).store
        (settle (dialed [] (failingDial "tcp/ipv4")) (failingDial "tcp/ipv4") 0 102).store (failingDial "tcp/ipv4")
        102 "tcp/ipv4" "tcp/ipv6" ∧
      Concrete (failingDial "tcp/ipv4") "tcp/ipv4" "tcp/ipv6" ∧
      ((settle (dialed [] (failingDial "tcp/ipv4")) (failingDial "tcp/ipv4") 0 102).store.entries.lookup
        (transportKey firstNode "tcp/any")).map (·.status.failures) = some 1 ∧
      Concrete (failingDial "tcp/ipv6") "tcp/ipv4" "tcp/ipv6" ∧
      transportPathEligible (dialed goodFamily (failingDial "tcp/ipv6")).store firstNode "tcp/ipv4" 103
        (fun _ => .stored _) = true ∧
      transportPathEligible (settle (dialed goodFamily (failingDial "tcp/ipv6")) (failingDial "tcp/ipv6") 0 102).store
        firstNode "tcp/ipv4" 103 (fun _ => .stored _) = false := by
  have hno : (settle (dialed [] (failingDial "tcp/ipv4")) (failingDial "tcp/ipv4") 0 102).store.entries.lookup
      (transportKey firstNode "tcp/ipv4") = none := by
    decide +kernel
  refine ⟨fun h => ?_, failingDial_concrete (.inl rfl), by decide +kernel, failingDial_concrete (.inr rfl),
    by decide +kernel, by decide +kernel⟩
  obtain ⟨r, hr, -⟩ := (h.ledger (transportKey firstNode "tcp/ipv4") rfl).2 rfl
  cases hr

theorem goodFamily_accounted :
    Accounted (dialed goodFamily (failingDial "tcp/ipv4")).store
      (settle (dialed goodFamily (failingDial "tcp/ipv4")) (failingDial "tcp/ipv4") 0 102).store
      (failingDial "tcp/ipv4") 102 "tcp/ipv4" "tcp/ipv6" := by
  have hled : ledgerOf (after 0 0 (plainBreaker 1) goodFamily).store (failingDial "tcp/ipv4") = "tcp/ipv4" := by
    decide +kernel
  have hgrant : (acquire (after 0 0 (plainBreaker 1) goodFamily).store (failingDial "tcp/ipv4")).2 =
      some [{ key := endpointKey firstNode }, { key := transportKey firstNode "tcp/ipv4" }] := by
    decide +kernel
  have hopen : ((dialed goodFamily (failingDial "tcp/ipv4")).permits[0]?.map (·.completed)) = some false := by
    decide +kernel
  obtain ⟨q, hq, hcomp⟩ := map_eq_some_iff.1 hopen
  refine (accounted_iff goodFamily [] (fun op hop => ?_) (failingDial_concrete (.inl rfl)) rfl rfl hgrant hq
    hcomp 102).2 ⟨hled, [_], _, [], rfl, rfl, ?_⟩
  · rcases mem_cons.1 hop with rfl | hop
    · trivial
    · rw [mem_singleton.1 hop]
      trivial
  · have hf : ((pruneExpiredLocked (releasePermit (dialed goodFamily (failingDial "tcp/ipv4")).store
        [{ key := endpointKey firstNode }]) 102).entries.lookup (transportKey firstNode "tcp/ipv4")).map
          (fun r => (stale r 102, admits r 0 0 true)) = some (false, true) := by
      decide +kernel
    obtain ⟨r, hr, hboth⟩ := map_eq_some_iff.1 hf
    obtain ⟨hstale, hadm⟩ := Prod.mk.inj hboth
    exact takes_of_found hr ⟨hstale, hadm⟩

end SingBox.FamilyAccounting
