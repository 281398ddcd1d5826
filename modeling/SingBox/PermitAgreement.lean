import SingBox.TokenCustody

namespace SingBox.PermitAgreement

open List Values Maps BreakerRecord BreakerMoves HealthTransport HealthLedger LedgerMoves AttemptPermits PermitMoves
  BreakerRuns TokenCustody

def canAttemptHandleReadOnly (s : HealthStore) (handle : NodeHandle) (service : ServiceContext) (time clock : Time)
    (orders : Nat → RangeOrder HealthKey) : Bool :=
  let now := if isZero time then clock else time
  transportPathEligible s handle (serviceHealthTransport service) now orders &&
    [endpointKey handle, serviceKey handle service.id].all fun key =>
      (recordForKeyLocked s key).1.all (availableReadOnly · now)

/-- The transport ledger that the dial on a path is about to reserve. -/
def dialLedger (s : HealthStore) (handle : NodeHandle) (path : String) (now : Time)
    (orders : Nat → RangeOrder HealthKey) : Option HealthRecord :=
  let key := dialTransportKey s handle path now orders
  if key = "" then none else (recordForKeyLocked s (transportKey handle key)).1

/-- The recovery of the ledger is in flight, or it is still cooling down, which the planning check only sees of
a path that has the ledger to itself. -/
def Contested (path : String) (now : Time) (r : HealthRecord) : Prop :=
  r.status.breaker = .halfOpen ∧ r.halfOpenToken ≠ 0 ∨ containsSlash path = false ∧ path ≠ "" ∧
    (r.status.breaker = .opened ∨ r.status.breaker = .cooldown) ∧ now < r.openUntil

section

variable {s : HealthStore} {handle : NodeHandle} {path : String} {now : Time}

theorem pathCapability_order (hpath : path = "" ∨ containsSlash path = true) (order order') :
    pathCapability s handle path now order = pathCapability s handle path now order' := by
  rcases hpath with rfl | hsl
  · rfl
  · simp [pathCapability, statusHandle, hsl]

theorem dual_slash {familyA familyB} (h : dualStackFamilyPaths path = some (familyA, familyB)) :
    containsSlash familyA = true ∧ containsSlash familyB = true := by
  rw [dualStackFamilyPaths] at h
  split_ifs at h <;> cases h <;> decide

theorem ne_empty_of_slash (h : containsSlash path = true) : path ≠ "" := by
  rintro rfl
  revert h
  decide

theorem available_of_path (hc : CoherentStore s) (hne : path ≠ "") {order}
    (hopen : (pathCapability s handle path now order).known = true →
      (pathCapability s handle path now order).available = true) {r}
    (hr : (recordForKeyLocked s (transportKey handle path)).1 = some r)
    (hf : r.status.breaker = .halfOpen → r.halfOpenToken = 0) : availableReadOnly r now = true := by
  have hstat : statusHandle s handle .transport path "" order = r.status := by
    rw [statusHandle, ← transportKey, hr]
  have hcoh : Coherent r := by
    obtain ⟨k, -, hres⟩ := recordForKey_some s (transportKey handle path)
    rw [hres] at hr
    exact hc k r hr
  simp only [pathCapability, if_neg hne, hstat, classifyPathCapability] at hopen
  rw [availableReadOnly]
  cases hb : r.status.breaker with
  | opened => simp_all [hcoh.cooldown (.inl hb)]
  | cooldown => simp_all [hcoh.cooldown (.inr hb)]
  | halfOpen => simpa using hf hb
  | closed | unset | unknown => rfl

theorem eligible_order (hpath : path = "" ∨ containsSlash path = true) (orders orders') :
    transportPathEligible s handle path now orders = transportPathEligible s handle path now orders' := by
  rw [transportPathEligible, transportPathEligible, pathCapability_order hpath (orders 2) (orders' 2)]
  cases hdual : dualStackFamilyPaths path with
  | none => rfl
  | some families =>
    obtain ⟨hA, hB⟩ := dual_slash hdual
    dsimp only
    rw [pathCapability_order (.inr hA) (orders 0) (orders' 0), pathCapability_order (.inr hB) (orders 1) (orders' 1)]

/-- The ledger that a dial on an eligible path reserves is available, unless its recovery is in flight. -/
theorem dial_available (hc : CoherentStore s) (hsl : containsSlash path = true) {orders}
    (h : transportPathEligible s handle path now orders = true) {r} (hr : r ∈ dialLedger s handle path now orders)
    (hf : r.status.breaker = .halfOpen → r.halfOpenToken = 0) : availableReadOnly r now = true := by
  have hled : transportLedgerKey path = path := by
    rw [transportLedgerKey, normalizeHealthTransportPath]
    split_ifs <;> simp_all +decide
  have hpick {key} (order) (hk : containsSlash key = true)
      (hopen : (pathCapability s handle key now order).known = true →
        (pathCapability s handle key now order).available = true)
      (hr : r ∈ if key = "" then none else (recordForKeyLocked s (transportKey handle key)).1) :
      availableReadOnly r now = true := by
    rw [if_neg (ne_empty_of_slash hk)] at hr
    exact available_of_path hc (ne_empty_of_slash hk) hopen hr hf
  rw [dialLedger, dialTransportKey, hled] at hr
  rw [transportPathEligible] at h
  cases hdual : dualStackFamilyPaths path with
  | none =>
    rw [hdual] at h hr
    exact hpick (orders 2) hsl (by simpa [or_iff_not_imp_left] using h) hr
  | some families =>
    obtain ⟨hA, hB⟩ := dual_slash hdual
    rw [hdual] at h hr
    dsimp only at h hr
    rw [pathCapability_order (.inr hsl) (orders 2) (orders 3), pathCapability_order (.inr hA) (orders 0) (orders 4),
      pathCapability_order (.inr hB) (orders 1) (orders 5)] at h
    split at hr
    · split at hr
      · next ha => exact hpick (orders 4) hA (by simp_all) hr
      split at hr
      · next hb => exact hpick (orders 5) hB (by simp_all) hr
      · simp_all
    · next hown => exact hpick (orders 3) hsl (by simpa using hown) hr

theorem available_iff_uncontested (hc : CoherentStore s) {orders}
    (h : transportPathEligible s handle path now orders = true) {r} (hr : r ∈ dialLedger s handle path now orders) :
    availableReadOnly r now = true ↔ ¬Contested path now r := by
  by_cases hsl : containsSlash path = true
  · have havail := dial_available hc hsl h hr
    grind [availableReadOnly, Contested]
  · have hne : path ≠ "" := by
      rintro rfl
      cases hr
    grind [availableReadOnly, Contested]

variable {service : ServiceContext} {orders : Nat → RangeOrder HealthKey}

def Ready (s : HealthStore) (handle : NodeHandle) (service : ServiceContext) (now : Time) : Prop :=
  ∀ key ∈ [endpointKey handle, serviceKey handle service.id], ∀ r ∈ (recordForKeyLocked s key).1,
    availableReadOnly r now = true

theorem planned_iff : canAttemptHandleReadOnly s handle service now now orders = true ↔
    transportPathEligible s handle (serviceHealthTransport service) now orders = true ∧ Ready s handle service now := by
  simp [canAttemptHandleReadOnly, Ready, Option.all_eq_true]

theorem granted_iff (hc : CoherentStore s) :
    (tryAcquireAttemptPermitHandle s handle service now now now orders).2.isSome = true ↔
      transportPathEligible s handle (serviceHealthTransport service) now orders = true ∧ Ready s handle service now ∧
        ∀ r ∈ dialLedger s handle (serviceHealthTransport service) now orders,
          ¬Contested (serviceHealthTransport service) now r := by
  simp only [tryAcquireAttemptPermitHandle, tryAcquirePathPermit, ite_self]
  generalize serviceHealthTransport service = path
  cases h : transportPathEligible s handle path now orders with
  | false => simp
  | true =>
    have hf : (∀ r ∈ dialLedger s handle path now orders, ¬Contested path now r) ↔
        ∀ r ∈ dialLedger s handle path now orders, availableReadOnly r now = true :=
      forall₂_congr fun r hr => (available_iff_uncontested hc h hr).symm
    rw [hf, if_pos rfl, tryAcquirePermit, acquireLoop_isSome_iff now _ s [] hc (dialKeys_domains ..), dialKeys,
      dialLedger, Ready]
    simp only [forall_mem_append, forall_mem_cons]
    split
    · simp_all
      tauto
    · simp_all

end

/-- In every state of a run, the planning check and the grant of the permit agree exactly if, once endpoint and
service are available, an eligible path leaves nothing that contests the ledger of the dial. Only on a bare path
can the scans of the two calls differ. -/
theorem planned_iff_granted (retention : Duration) (maxEntries : Int) (breaker : BreakerConfig) (ops : List Op)
    (handle : NodeHandle) (service : ServiceContext) (time : Time) (orders orders' : Nat → RangeOrder HealthKey) :
    let s := (after retention maxEntries breaker ops).store
    let path := serviceHealthTransport service
    ((canAttemptHandleReadOnly s handle service time time orders = true ↔
        (tryAcquireAttemptPermitHandle s handle service time time time orders').2.isSome = true) ↔
      (Ready s handle service time →
        (transportPathEligible s handle path time orders = true ↔
          transportPathEligible s handle path time orders' = true ∧
            ∀ r ∈ dialLedger s handle path time orders', ¬Contested path time r))) ∧
    (path = "" ∨ containsSlash path = true →
      transportPathEligible s handle path time orders = transportPathEligible s handle path time orders') := by
  intro s path
  refine ⟨?_, fun hpath => eligible_order hpath orders orders'⟩
  have hc : CoherentStore s := (after_custody retention maxEntries breaker ops).sound.coherent
  rw [planned_iff, granted_iff hc]
  by_cases hrdy : Ready s handle service time
  · simp only [hrdy, and_true, true_and, forall_const]
    exact Iff.rfl
  · simp [hrdy]

def blockedPath : List Op := [.observe ⟨1, 1, 1, .transport, "tcp/any", "", .failure, 0, 100, ""⟩ true 1 0]

def overTCP : ServiceContext := ⟨"web", "tcp/any", ""⟩

theorem recovering_path_granted : (tryAcquireAttemptPermitHandle (after 3600 16 (plainBreaker 1) blockedPath).store
    firstNode overTCP 110 110 110 fun _ => .stored _).2.isSome = true := by
  have hagr := (planned_iff_granted 3600 16 (plainBreaker 1) blockedPath firstNode overTCP 110 (fun _ => .stored _)
    fun _ => .stored _).1.2
  refine (hagr fun _ => ⟨fun h => ⟨h, ?_⟩, And.left⟩).1 (by decide +kernel)
  have hf : (dialLedger (after 3600 16 (plainBreaker 1) blockedPath).store firstNode "tcp/any" 110
      fun _ => .stored _).all (·.halfOpenToken = 0) = true := by decide +kernel
  rintro r hr (⟨-, hown⟩ | ⟨hbare, -⟩)
  · exact hown (of_decide_eq_true (Option.all_eq_true _ _ |>.1 hf r hr))
  · cases hbare

/-- While the recovery attempt of the path is in flight, a second attempt is
planned and then refused. -/
theorem owned_path_refused :
    let s := (after 3600 16 (plainBreaker 1) (blockedPath ++ [.dial firstNode "tcp/any" none 110])).store
    canAttemptHandleReadOnly s firstNode overTCP 111 111 (fun _ => .stored _) = true ∧
      (tryAcquireAttemptPermitHandle s firstNode overTCP 111 111 111 fun _ => .stored _).2.isSome = false := by
  decide +kernel

/-- What can be read of a record, its availability at the given time included. -/
def observed (time : Time) (r : HealthRecord) : Bool × Nat × Time × Nat × Nat × Nat :=
  (availableReadOnly r time, r.halfOpenToken, r.openUntil, r.consecutiveFailure, r.reopenCount, r.recoverySuccesses)

/-- The ledgers that an acquisition enters before it is refused. -/
def entered (now : Time) : List HealthKey → HealthStore → List HealthKey
  | [], _ => []
  | key :: keys, s =>
    match acquireResolved s (recordForKeyLocked s key).1 (recordForKeyLocked s key).2 now with
    | (_, none) => []
    | (s', some e) => e.key :: entered now keys s'

/-- If the record waits for its next recovery, its cooldown is over. -/
def Elapsed (s : HealthStore) (time : Time) (k : HealthKey) : Prop :=
  ∀ r, s.entries.lookup k = some r → r.status.breaker = .halfOpen → r.halfOpenToken = 0 → r.openUntil ≤ time

/-- What will be read of a record once the entries are given back. -/
def seen (s : HealthStore) (time : Time) (entries : List PermitEntry) (k : HealthKey) :
    Option (Bool × Nat × Time × Nat × Nat × Nat) :=
  (s.entries.lookup k).map fun r => observed time (returned k entries r)

variable {s s' : HealthStore} {k key : HealthKey} {entries : List PermitEntry} {r : HealthRecord} {now time : Time}

theorem returned_eq (h : ∀ e ∈ entries, e.halfOpenToken ≠ 0 → r.halfOpenToken ≠ e.halfOpenToken) :
    returned k entries r = r := by
  induction entries with
  | nil => rfl
  | cons e entries ih =>
    have hsame : returnToken e r = r := if_neg fun hc => h e mem_cons_self hc.2.2.1 hc.2.1
    rw [returned, foldl_cons, hsame, ite_self]
    exact ih fun e' he' => h e' (mem_cons_of_mem _ he')

theorem observed_giveBack (ht : tripped r = true) (hz : r.halfOpenToken = 0) :
    observed time (giveBack r) = observed time r ↔ (r.status.breaker = .halfOpen → r.openUntil ≤ time) := by
  have hback : availableReadOnly (giveBack r) time = !decide (time < r.openUntil) := rfl
  rw [observed, observed, hback, hz, availableReadOnly]
  rcases (tripped_iff r).1 ht with hb | hb | hb <;> simp [hb, hz, giveBack]

theorem round_seen {e} (k time) (hold : ∀ e ∈ entries, e.halfOpenToken ≤ s.nextToken) (h : Round s key s' (some e)) :
    (k ≠ key → seen s' time (entries ++ [e]) k = seen s time entries k ∧ (Elapsed s' time k ↔ Elapsed s time k)) ∧
      Elapsed s' time key ∧ (seen s' time (entries ++ [e]) key = seen s time entries key ↔ Elapsed s time key) := by
  refine ⟨fun hk => ?_, ?_⟩
  · rw [seen, seen, Elapsed, Elapsed, h.others k hk]
    simp [returned, h.entry_key, hk]
  have hf {r} (hz : r.halfOpenToken = 0) : returned key entries r = r :=
    returned_eq fun e _ hne => hz ▸ hne.symm
  cases h with
  | absent h => simp [seen, Elapsed, h]
  | plain r h ht =>
    have helap : Elapsed s time key := fun r' hr' hb => by
      cases h.symm.trans hr'
      exact absurd ((tripped_iff r).2 (.inr (.inr hb))) (by simp [ht])
    simp [seen, h, returned, returnToken, helap]
  | reserved r h ht hz =>
    have hmine : returned key entries (reserve r (s.nextToken + 1)) = reserve r (s.nextToken + 1) :=
      returned_eq fun e he _ heq => absurd (hold e he) (heq ▸ Nat.not_succ_le_self _)
    rw [returned] at hmine
    have hback : returned key (entries ++ [{ key := key, version := r.version, halfOpenToken := s.nextToken + 1 }])
        (reserve r (s.nextToken + 1)) = giveBack r := by
      rw [returned, foldl_append, hmine, foldl_cons, if_pos rfl, returnToken,
        if_pos ⟨rfl, rfl, Nat.succ_ne_zero _, rfl⟩]
      rfl
    refine ⟨fun r' hr' _ hz' => ?_, ?_⟩
    · simp only [lookup_save, if_true] at hr'
      cases hr'
      cases hz'
    · simp [seen, Elapsed, lookup_save, h, hback, hf hz, observed_giveBack ht hz, hz]

theorem refusal_seen (hc : CoherentStore s) (h : Round s key s' none) (k) :
    seen s' time entries k = seen s time entries k := by
  by_cases hk : k = key
  case neg => rw [seen, seen, h.others k hk]
  subst hk
  cases h with
  | refused r h => simp [seen, lookup_save, h]
  | cooled r h hb =>
    have hz : r.halfOpenToken = 0 := (hc k r h).token_eq_zero (by simp [hb])
    have hf {r} (hz : r.halfOpenToken = 0) : returned k entries r = r :=
      returned_eq fun e _ hne => hz ▸ hne.symm
    have hsame : observed time (cool r) = observed time r := by
      rw [observed, observed, availableReadOnly, availableReadOnly, hb]
      rfl
    simp [seen, lookup_save, h, hf hz, hf (r := cool r) hz, hsame]

theorem acquireLoop_observed (keys) (hc : CoherentStore s) (hold : ∀ e ∈ entries, e.halfOpenToken ≤ s.nextToken)
    (href : (acquireLoop now keys s entries).2 = none) (k) :
    ((acquireLoop now keys s entries).1.entries.lookup k).map (observed time) = seen s time entries k ↔
      (k ∈ entered now keys s → Elapsed s time k) := by
  induction keys generalizing s entries with
  | nil => cases href
  | cons key keys ih =>
    obtain ⟨l, -, hl⟩ := recordForKey_some s key
    have hr := acquireResolved_round (hc l) now
    rw [acquireLoop, hl] at href ⊢
    rw [entered, hl]
    generalize acquireResolved s (s.entries.lookup l) l now = x at hr href ⊢
    obtain ⟨s', _ | e⟩ := x
    · rw [← refusal_seen hc hr k, releasePermit_lookup]
      simp [seen, Function.comp_def]
    dsimp only at hr
    obtain ⟨hoth, helap, hown⟩ := round_seen k time hold hr
    have hre := @ih s' (entries ++ [e]) (hr.coherent hc) (by
      intro e' he'
      rcases mem_append.1 he' with he' | he'
      · exact (hold e' he').trans hr.frame.1
      obtain rfl := mem_singleton.1 he'
      have htok := hr.token
      omega) href
    rw [mem_cons, hr.entry_key]
    rcases eq_or_ne k l with rfl | hk
    · rw [hre.2 fun _ => helap, hown]
      simp
    · rw [← (hoth hk).1, hre, (hoth hk).2]
      simp [hk]

/-- In every state of a run, a refused acquisition is not seen in any record exactly if no ledger that it entered
waits for its next recovery with a cooldown that ends later. -/
theorem refused_unobserved (retention : Duration) (maxEntries : Int) (breaker : BreakerConfig) (ops : List Op)
    (keys : List HealthKey) (now time : Time) :
    let s := (after retention maxEntries breaker ops).store
    (tryAcquirePermit s keys now).2 = none →
      ((∀ k, ((tryAcquirePermit s keys now).1.entries.lookup k).map (observed time) =
        (s.entries.lookup k).map (observed time)) ↔ ∀ k ∈ entered now keys s, Elapsed s time k) := by
  intro s href
  exact forall_congr' fun k => acquireLoop_observed keys
    (after_custody retention maxEntries breaker ops).sound.coherent (by simp) href k

/-- The endpoint had the first success of its recovery, and the path is open. -/
def halfRecovered : List Op := openAndProbe ++ [.complete 0 (endpointOutcome .success) 120 0 "",
  .observe ⟨1, 1, 1, .transport, "tcp/any", "", .failure, 0, 125, ""⟩ true 1 0]

theorem later_refusal_unobserved :
    let s := (after 3600 16 (plainBreaker 1) halfRecovered).store
    ((tryAcquirePermit s (dialKeys firstNode "tcp/any" none) 126).1.entries.lookup (endpointKey firstNode)).map
      (observed 126) = (s.entries.lookup (endpointKey firstNode)).map (observed 126) := by
  refine (refused_unobserved 3600 16 (plainBreaker 1) halfRecovered _ 126 126 (by decide +kernel)).2 ?_ _
  have hall : (entered 126 (dialKeys firstNode "tcp/any" none) (after 3600 16 (plainBreaker 1) halfRecovered).store).all
      (fun k => ((after 3600 16 (plainBreaker 1) halfRecovered).store.entries.lookup k).all (·.openUntil ≤ 126)) =
        true := by decide +kernel
  intro k hk r hr _ _
  have hover := all_eq_true.1 hall k hk
  rw [hr] at hover
  exact of_decide_eq_true hover

/-- The refusal gives the endpoint back as cooling down until 110, which it was
not before. -/
theorem earlier_refusal_observed :
    let s := (after 3600 16 (plainBreaker 1) halfRecovered).store
    let refused := tryAcquirePermit s (dialKeys firstNode "tcp/any" none) 126
    refused.2 = none ∧ (s.entries.lookup (endpointKey firstNode)).map (availableReadOnly · 105) = some true ∧
      (refused.1.entries.lookup (endpointKey firstNode)).map (availableReadOnly · 105) = some false := by
  decide +kernel

end SingBox.PermitAgreement
