import SingBox.SmartMetrics

namespace SingBox.FailureBursts

open List hiding after
open Option Maps Values Runs SmartMetrics

structure Trimmed (s s' : SmartStore) : Prop where
  metrics : Submap s'.metrics s.metrics
  failureBursts : s'.failureBursts = s.failureBursts
  breakerFailures : s'.breakerFailures = s.breakerFailures
  breakerCooldown : s'.breakerCooldown = s.breakerCooldown
  maxEntries : s'.maxEntries = s.maxEntries

section

variable (s : SmartStore) (now : Time)

section

variable (metrics : GoMap SmartMetricKey SmartMetric) (retention : Duration)

theorem Trimmed.refl : Trimmed s s := ⟨.refl _, rfl, rfl, rfl, rfl⟩

theorem Trimmed.trans {s s' s''} (h : Trimmed s s') (h' : Trimmed s' s'') : Trimmed s s'' :=
  ⟨h'.metrics.trans h.metrics, h'.failureBursts.trans h.failureBursts, h'.breakerFailures.trans h.breakerFailures,
    h'.breakerCooldown.trans h.breakerCooldown, h'.maxEntries.trans h.maxEntries⟩

theorem trimmed_of_submap {metrics} (h : Submap metrics s.metrics) :
    Trimmed s { s with metrics := metrics } := ⟨h, rfl, rfl, rfl, rfl⟩

theorem erase_all_submap (keys : List SmartMetricKey) (metrics : GoMap SmartMetricKey SmartMetric) :
    Submap (keys.foldl (fun metrics key => metrics.erase key) metrics) metrics :=
  foldl_submap erase_submap keys metrics

theorem dropExpired_submap : Submap (dropExpired metrics now retention) metrics := by
  refine foldl_submap (fun m key => ?_) metrics.keys metrics
  split
  · exact erase_submap m key
  · exact .refl m

theorem pruneLocked_trimmed (maxEntries : Int) (order : RangeOrder SmartMetricKey) :
    Trimmed s (pruneLocked s now retention maxEntries order) := by
  have hkept : Submap (if 0 < retention then dropExpired s.metrics now retention else s.metrics) s.metrics := by
    split
    · exact dropExpired_submap now s.metrics retention
    · exact .refl _
  rw [pruneLocked]
  generalize (if 0 < retention then dropExpired s.metrics now retention else s.metrics) = kept at hkept
  split
  · exact trimmed_of_submap s hkept
  · exact trimmed_of_submap s ((erase_all_submap _ _).trans hkept)

theorem length_pruneLocked_le {maxEntries} (hmax : 0 < maxEntries) (order : RangeOrder SmartMetricKey) :
    ((pruneLocked s now retention maxEntries order).metrics.keys.length : Int) ≤ maxEntries := by
  rw [pruneLocked]
  generalize (if 0 < retention then dropExpired s.metrics now retention else s.metrics) = kept
  split
  · rename_i hle
    exact hle.resolve_left (by omega)
  have hme : ∀ key, key ∈ (order.visit kept.keys).insertionSort (fun key key' => updatedAt kept key' ≤ updatedAt kept key) ↔
      key ∈ kept.keys := by
    intro key
    rw [List.mem_insertionSort, order.mem_visit]
  generalize (order.visit kept.keys).insertionSort (fun key key' => updatedAt kept key' ≤ updatedAt kept key) = ages
    at hme
  -- what is left is among the first `maxEntries` of the list
  have hsub : ∀ key ∈ ((ages.drop maxEntries.toNat).foldl (fun metrics => metrics.erase) kept).keys,
      key ∈ ages.take maxEntries.toNat := by
    intro key hk
    obtain ⟨m, hm⟩ := mem_keys_iff.1 hk
    have hsto : key ∈ kept.keys := mem_keys_iff.2 ⟨m, erase_all_submap _ _ key m hm⟩
    have hspl := (hme key).2 hsto
    rw [← List.take_append_drop maxEntries.toNat ages, List.mem_append] at hspl
    refine hspl.resolve_right fun hdrop => ?_
    have heras := lookup_foldl_erase id (ages.drop maxEntries.toNat) kept key
    rw [List.map_id, if_pos hdrop] at heras
    exact absurd (hm.symm.trans heras) (by simp)
  have hlen := (List.subperm_of_subset (AList.keys_nodup _) hsub).length_le
  rw [List.length_take] at hlen
  dsimp only
  omega

theorem oldest_mem {keys} (h : keys ≠ []) : ∃ key ∈ keys, keys.foldl (olderKey metrics) none = some key := by
  obtain ⟨k, rest, rfl⟩ := exists_cons_of_ne_nil h
  change ∃ key ∈ k :: rest, run (olderKey metrics) (some k) rest = some key
  refine run_keeps_mem (I := fun oldest => ∃ key ∈ k :: rest, oldest = some key) ?_ ⟨k, mem_cons_self, rfl⟩
  rintro _ key hk ⟨found, hf, rfl⟩
  rw [olderKey]
  split
  · exact ⟨key, mem_cons_of_mem _ hk, rfl⟩
  · exact ⟨found, hf, rfl⟩

end

theorem removeOldestLocked_trimmed (order) : Trimmed s (removeOldestLocked s order) := by
  rw [removeOldestLocked]
  split
  · exact .refl s
  · exact trimmed_of_submap s (erase_submap _ _)

theorem length_removeOldestLocked_lt (h : 0 < s.metrics.keys.length) (order) :
    (removeOldestLocked s order).metrics.keys.length < s.metrics.keys.length := by
  have hne : order.visit s.metrics.keys ≠ [] := by
    intro heq
    rw [← (order.perm _).length_eq, heq] at h
    exact absurd h (by simp)
  obtain ⟨key, hm, hk⟩ := oldest_mem s.metrics hne
  rw [removeOldestLocked, hk]
  exact length_keys_erase_lt (order.mem_visit.1 hm)

theorem makeRoom_trimmed (orders) : Trimmed s (makeRoom s now orders) := by
  rw [makeRoom]
  split
  · dsimp only
    have hpr := pruneLocked_trimmed s now s.retention (max 1 (s.maxEntries - s.maxEntries.tdiv 10)) (orders 0)
    split
    · exact hpr.trans (removeOldestLocked_trimmed ..)
    · exact hpr
  · exact .refl s

theorem length_makeRoom_lt (orders) (hmax : 0 < s.maxEntries) (h : (s.metrics.keys.length : Int) ≤ s.maxEntries) :
    ((makeRoom s now orders).metrics.keys.length : Int) < s.maxEntries := by
  rw [makeRoom]
  split
  · dsimp only
    have hpr := (pruneLocked_trimmed s now s.retention (max 1 (s.maxEntries - s.maxEntries.tdiv 10))
      (orders 0)).metrics.length_le
    split
    · have hlt := length_removeOldestLocked_lt (pruneLocked s now s.retention
        (max 1 (s.maxEntries - s.maxEntries.tdiv 10)) (orders 0)) (by omega) (orders 1)
      omega
    · omega
  · omega

end

structure Updated (s s' : SmartStore) (key : SmartMetricKey) (change : SmartMetric → SmartMetric) : Prop where
  own : ∀ m, s'.metrics.lookup key = some m → ∃ m₀, m = change m₀ ∧ (s.metrics.lookup key = some m₀ ∨ m₀ = {})
  others : ∀ k m, k ≠ key → s'.metrics.lookup k = some m → s.metrics.lookup k = some m
  failureBursts : s'.failureBursts = s.failureBursts
  breakerFailures : s'.breakerFailures = s.breakerFailures
  breakerCooldown : s'.breakerCooldown = s.breakerCooldown
  maxEntries : s'.maxEntries = s.maxEntries

def Bounded (s : SmartStore) : Prop := 0 < s.maxEntries → (s.metrics.keys.length : Int) ≤ s.maxEntries

section

variable (s : SmartStore) (now : Time) (key : SmartMetricKey) (orders : Nat → RangeOrder SmartMetricKey)
  (change : SmartMetric → SmartMetric)

theorem updateMetric_updated : Updated s (updateMetric s key now orders change) key change := by
  rw [updateMetric]
  split
  · rename_i m₀ hm₀
    refine ⟨fun m hm => ⟨m₀, ?_, .inl hm₀⟩, fun k m hk hm => ?_, rfl, rfl, rfl, rfl⟩
    · rw [AList.lookup_insert] at hm
      exact (some.inj hm).symm
    · rwa [AList.lookup_insert_ne hk] at hm
  · have hroom := makeRoom_trimmed s now orders
    refine { hroom with own := fun m hm => ⟨{}, ?_, .inr rfl⟩, others := fun k m hk hm => ?_ }
    · rw [AList.lookup_insert] at hm
      exact (some.inj hm).symm
    · rw [AList.lookup_insert_ne hk] at hm
      exact hroom.metrics k m hm

theorem updateMetric_bounded (h : Bounded s) : Bounded (updateMetric s key now orders change) := by
  intro hmax
  rw [(updateMetric_updated s now key orders change).maxEntries] at hmax ⊢
  have hle := h hmax
  rw [updateMetric]
  split
  · rename_i m₀ hm₀
    have hm : key ∈ s.metrics.keys := mem_keys_iff.2 ⟨m₀, hm₀⟩
    rw [AList.keys_insert, length_cons, length_erase_of_mem hm]
    omega
  · dsimp only
    have hroom := length_makeRoom_lt s now orders hmax hle
    have hins := length_keys_insert_le (makeRoom s now orders).metrics key (change {})
    omega

end

def CircuitAt (s : SmartStore) (key : SmartMetricKey) (until_ : Time) : Prop :=
  until_ ≠ 0 ∧ ∃ m, s.metrics.lookup key = some m ∧ m.circuitUntil = until_

def OpensOnly (reason : SmartMetricKey → Time → Prop) (s s' : SmartStore) : Prop :=
  ∀ k t, CircuitAt s' k t → CircuitAt s k t ∨ reason k t

structure SamePolicy (s s' : SmartStore) : Prop where
  breakerFailures : s'.breakerFailures = s.breakerFailures
  breakerCooldown : s'.breakerCooldown = s.breakerCooldown

section

variable {reason : SmartMetricKey → Time → Prop} {s s' s'' : SmartStore} {key : SmartMetricKey}
  {change : SmartMetric → SmartMetric}

theorem OpensOnly.refl (s) : OpensOnly reason s s := fun _ _ => .inl

theorem OpensOnly.trans (h : OpensOnly reason s s') (h' : OpensOnly reason s' s'') : OpensOnly reason s s'' := by
  intro k t ht
  rcases h' k t ht with ht | hreas
  · exact h k t ht
  · exact .inr hreas

theorem OpensOnly.imp {reason'} (h : OpensOnly reason s s') (himp : ∀ k t, reason k t → reason' k t) :
    OpensOnly reason' s s' := fun k t ht => (h k t ht).imp_right (himp k t)

theorem opens_of_submap (h : Submap s'.metrics s.metrics) : OpensOnly reason s s' := by
  rintro k t ⟨hne, m, hm, ht⟩
  exact .inl ⟨hne, m, h k m hm, ht⟩

theorem Updated.opens (h : Updated s s' key change) :
    OpensOnly (fun k t => k = key ∧ ∃ m₀, (change m₀).circuitUntil = t ∧ m₀.circuitUntil ≠ t) s s' := by
  rintro k t ⟨hne, m, hm, ht⟩
  by_cases hk : k = key
  · subst hk
    obtain ⟨m₀, rfl, hm₀⟩ := h.own m hm
    by_cases hsame : m₀.circuitUntil = t
    · rcases hm₀ with hm₀ | rfl
      · exact .inl ⟨hne, m₀, hm₀, hsame⟩
      · exact absurd hsame.symm hne
    · exact .inr ⟨rfl, m₀, ht, hsame⟩
  · exact .inl ⟨hne, m, h.others k m hk hm, ht⟩

theorem Updated.opens_none (h : Updated s s' key change)
    (hkeep : ∀ m, (change m).circuitUntil = m.circuitUntil ∨ (change m).circuitUntil = 0) : OpensOnly reason s s' := by
  rintro k t ht
  rcases h.opens k t ht with hold | ⟨-, m₀, rfl, hchg⟩
  · exact .inl hold
  rcases hkeep m₀ with heq | hzero
  · exact absurd heq.symm hchg
  · exact absurd hzero ht.1

theorem Updated.samePolicy (h : Updated s s' key change) : SamePolicy s s' := ⟨h.breakerFailures, h.breakerCooldown⟩

theorem SamePolicy.trans (h : SamePolicy s s') (h' : SamePolicy s' s'') : SamePolicy s s'' :=
  ⟨h'.breakerFailures.trans h.breakerFailures, h'.breakerCooldown.trans h.breakerCooldown⟩

theorem SamePolicy.burstWindow (h : SamePolicy s s') : burstWindow s' = burstWindow s := by
  rw [SmartMetrics.burstWindow, SmartMetrics.burstWindow, h.breakerCooldown]

end

structure Measured (s s' : SmartStore) : Prop where
  opens : ∀ reason, OpensOnly reason s s'
  failureBursts : s'.failureBursts = s.failureBursts
  policy : SamePolicy s s'
  bounded : Bounded s → Bounded s'

structure Succeeded (s s' : SmartStore) (key : SmartMetricKey) : Prop where
  opens : ∀ reason, OpensOnly reason s s'
  closed : ∀ m, s'.metrics.lookup key.ofAll = some m → m.circuitUntil = 0
  failureBursts : Submap s'.failureBursts s.failureBursts
  policy : SamePolicy s s'
  bounded : Bounded s → Bounded s'

section

variable (s : SmartStore) (now : Time) (key : SmartMetricKey) (orders : Nat → RangeOrder SmartMetricKey)

theorem Measured.refl : Measured s s := ⟨fun _ => .refl s, rfl, ⟨rfl, rfl⟩, id⟩

theorem Measured.trans {s s' s''} (h : Measured s s') (h' : Measured s' s'') : Measured s s'' :=
  ⟨fun reason => (h.opens reason).trans (h'.opens reason), h'.failureBursts.trans h.failureBursts,
    h.policy.trans h'.policy, fun hs => h'.bounded (h.bounded hs)⟩

theorem updateMetric_measured {change}
    (hkeep : ∀ m, (change m).circuitUntil = m.circuitUntil ∨ (change m).circuitUntil = 0) :
    Measured s (updateMetric s key now orders change) := by
  have hupd := updateMetric_updated s now key orders change
  exact ⟨fun _ => hupd.opens_none hkeep, hupd.failureBursts, hupd.samePolicy,
    updateMetric_bounded s now key orders change⟩

theorem updateBoth_measured {change} (hkeep : ∀ m, (change m).circuitUntil = m.circuitUntil) :
    Measured s (updateBoth s now key orders change) := by
  rw [updateBoth]
  split
  · exact (updateMetric_measured s now key.ofAll _ fun m => .inl (hkeep m)).trans
      (updateMetric_measured _ now key _ fun m => .inl (hkeep m))
  · exact updateMetric_measured s now key.ofAll _ fun m => .inl (hkeep m)

theorem updateBoth_measured_unless (skip) [Decidable skip] {change}
    (hkeep : ∀ m, (change m).circuitUntil = m.circuitUntil) :
    Measured s (if skip then s else updateBoth s now key orders change) := by
  split
  · exact .refl s
  · exact updateBoth_measured s now key orders hkeep

theorem Measured.succeeded {s s'} (h : Measured s s') {key}
    (hcl : ∀ m, s'.metrics.lookup key.ofAll = some m → m.circuitUntil = 0) : Succeeded s s' key :=
  ⟨h.opens, hcl, by rw [h.failureBursts]; exact .refl _, h.policy, h.bounded⟩

theorem Succeeded.forget {s s' key} (h : Succeeded s s' key) :
    Succeeded s { s' with failureBursts := s'.failureBursts.erase key.candidateKey } key :=
  ⟨h.opens, h.closed, (erase_submap _ _).trans h.failureBursts, ⟨h.policy.breakerFailures, h.policy.breakerCooldown⟩,
    h.bounded⟩

end

section

variable [MathFunctions] (s : SmartStore) (now : Time) (key : SmartMetricKey)
  (orders : Nat → RangeOrder SmartMetricKey)

section

variable (success : Bool) (elapsed : Duration) (m : SmartMetric)

theorem decay_circuit (halfLife : Duration) : (m.decay now halfLife).circuitUntil = m.circuitUntil := by
  rw [SmartMetric.decay]
  split <;> rfl

theorem dialed_success (weight updateBreaker m) :
    (dialed s now true elapsed weight updateBreaker m).circuitUntil = 0 := by
  rw [dialed]
  rw [if_pos rfl]
  split <;> rfl

theorem advised_circuit : (advised s now success elapsed m).circuitUntil = m.circuitUntil := by
  rw [advised, ← decay_circuit now m s.halfLife]
  split
  · split <;> rfl
  · rfl

theorem observeDialLocked_success (k elapsed weight updateBreaker) :
    Measured s (observeDialLocked s now k true elapsed weight updateBreaker orders) ∧
      ∀ m, (observeDialLocked s now k true elapsed weight updateBreaker orders).metrics.lookup k = some m →
        m.circuitUntil = 0 := by
  refine ⟨updateMetric_measured s now k orders fun m => .inr (dialed_success _ _ _ _ _ m), fun m hm => ?_⟩
  obtain ⟨m₀, rfl, -⟩ := (updateMetric_updated s now k orders _).own m hm
  exact dialed_success _ _ _ _ _ m₀

theorem observeDial_success : Succeeded s (observeDial s now key true elapsed orders) key := by
  rw [observeDial]
  generalize (if true = false ∧ key.site ≠ "" then _ else 1.0) = weight
  obtain ⟨hf, hcl⟩ := observeDialLocked_success s now _ key.ofAll elapsed weight _
  generalize observeDialLocked s now key.ofAll true elapsed weight _ _ = first at *
  rw [if_pos rfl]
  split
  · rename_i hsite
    obtain ⟨hsec, -⟩ := observeDialLocked_success first now _ key elapsed 1 true
    have hdone : Succeeded s (observeDialLocked first now key true elapsed 1 true (turn orders 1)) key := by
      refine (hf.trans hsec).succeeded fun m hm => hcl m ?_
      have hne : key.ofAll ≠ key := fun heq => hsite (congrArg (·.site) heq).symm
      exact (updateMetric_updated first now key ..).others _ m hne hm
    split
    · exact hdone.forget
    · exact hdone
  · exact (hf.succeeded hcl).forget

end

end

def failsAt : Op → Option SmartMetricKey
  | .observeDial _ key false _ _ => some key
  | .quarantine _ key _ _ => some key
  | _ => none

def Sited (op : Op) : Prop := ∀ key, failsAt op = some key → key.site ≠ ""

structure Failure where
  site : String
  now : Time
  deriving DecidableEq

def failed (key : SmartCandidateKey) : Op → Option Failure
  | .observeDial now dialed false _ _ => if dialed.candidateKey = key then some ⟨dialed.site, now⟩ else none
  | _ => none

/-- Why a call can have opened a circuit: it reports a failure there, or it is the failure that makes a burst of the
candidate spread over several sites. -/
def OpenedBy (s : SmartStore) (op : Op) (key : SmartMetricKey) (until_ : Time) : Prop :=
  failsAt op = some key ∨ key.site = "" ∧ ∃ f, failed key.candidateKey op = some f ∧
    until_ = f.now + s.breakerCooldown ∧ s.breakerFailures ≤ (joinBurst s f.now key.candidateKey f.site).total ∧
    2 ≤ (joinBurst s f.now key.candidateKey f.site).sites.keys.length

structure Stepped (s : SmartStore) (op : Op) (s' : SmartStore) : Prop where
  opens : OpensOnly (OpenedBy s op) s s'
  failureBursts : ∀ key burst, s'.failureBursts.lookup key = some burst →
    (failed key op = none ∧ s.failureBursts.lookup key = some burst) ∨
      ∃ f, failed key op = some f ∧ burst = joinBurst s f.now key f.site
  policy : SamePolicy s s'
  bounded : Bounded s → Bounded s'

section

variable {s s' : SmartStore} {op : Op}

theorem Measured.stepped (h : Measured s s') (hfail : ∀ key, failed key op = none) : Stepped s op s' := by
  refine ⟨h.opens _, fun key burst hb => .inl ⟨hfail key, ?_⟩, h.policy, h.bounded⟩
  rw [← h.failureBursts]
  exact hb

theorem joinBurst_congr (hbs : s'.failureBursts = s.failureBursts) (hpol : SamePolicy s s') (now key site) :
    joinBurst s' now key site = joinBurst s now key site := by
  rw [joinBurst, joinBurst, hbs, hpol.burstWindow]

variable [MathFunctions]

theorem observeDial_failure (s now) {key} (hsite : key.site ≠ "") (elapsed orders) :
    Stepped s (.observeDial now key false elapsed orders) (observeDial s now key false elapsed orders) := by
  rw [observeDial]
  rw [if_pos hsite, if_neg Bool.false_ne_true, if_pos ⟨rfl, hsite⟩, beq_eq_false_iff_ne.2 hsite]
  -- the record of the candidate only counts the failure
  have hf : Measured s (observeDialLocked s now key.ofAll false elapsed 0.25 false (turn orders 0)) :=
    updateMetric_measured s now key.ofAll _ fun m => .inl (decay_circuit now m s.halfLife)
  generalize observeDialLocked s now key.ofAll false elapsed 0.25 false _ = first at hf
  have hsec := updateMetric_updated first now key (turn orders 1) (dialed first now false elapsed 1 true)
  have hbd := updateMetric_bounded first now key (turn orders 1) (dialed first now false elapsed 1 true)
  rw [observeDialLocked]
  generalize updateMetric first key now _ _ = second at hsec hbd
  have hopens : OpensOnly (OpenedBy s (.observeDial now key false elapsed orders)) s second := by
    refine (hf.opens _).trans (hsec.opens.imp fun k t hk => .inl ?_)
    rw [hk.1]
    rfl
  have hpol := hf.policy.trans hsec.samePolicy
  have hbs := hsec.failureBursts.trans hf.failureBursts
  have hfail : failed key.candidateKey (.observeDial now key false elapsed orders) = some ⟨key.site, now⟩ := if_pos rfl
  have hjoin : ∀ k burst, (second.failureBursts.insert key.candidateKey (joinBurst s now key.candidateKey key.site)).lookup k =
      some burst → (failed k (.observeDial now key false elapsed orders) = none ∧ s.failureBursts.lookup k = some burst) ∨
        ∃ f, failed k (.observeDial now key false elapsed orders) = some f ∧ burst = joinBurst s f.now k f.site := by
    intro k burst hb
    rcases lookup_of_insert hb with ⟨rfl, rfl⟩ | ⟨hk, hb⟩
    · exact .inr ⟨_, hfail, rfl⟩
    · exact .inl ⟨if_neg fun heq => hk heq.symm, hbs ▸ hb⟩
  rw [observeCrossSiteFailureLocked, joinBurst_congr hbs hpol]
  split
  · exact ⟨hopens, hjoin, ⟨hpol.breakerFailures, hpol.breakerCooldown⟩, fun h => hbd (hf.bounded h)⟩
  rename_i hprom
  rw [not_or, not_lt, not_lt] at hprom
  have hthird := updateMetric_updated
    { second with
      failureBursts := second.failureBursts.insert key.candidateKey (joinBurst s now key.candidateKey key.site) }
    now (key.candidateKey.metricKey "") (turn orders 2) (promoted second now)
  have hsame := hthird.samePolicy
  refine ⟨hopens.trans (hthird.opens.imp ?_), fun k burst hb => hjoin k burst ?_,
    hpol.trans ⟨hsame.breakerFailures, hsame.breakerCooldown⟩,
    fun h => updateMetric_bounded _ _ _ _ _ (hbd (hf.bounded h))⟩
  case refine_2 => exact (congrArg _ hthird.failureBursts).symm.trans hb
  rintro k t ⟨rfl, m₀, rfl, -⟩
  refine .inr ⟨rfl, _, hfail, ?_, ?_, hprom.2⟩
  · exact congrArg (now + ·) hpol.breakerCooldown
  · rw [← hpol.breakerFailures]
    exact hprom.1

theorem step_stepped (s : SmartStore) {op} (h : Sited op) : Stepped s op (step s op) := by
  cases op with
  | observeDial now key success elapsed orders =>
    cases success with
    | false => exact observeDial_failure s now (h key rfl) elapsed orders
    | true =>
      have hdone := observeDial_success s now key orders elapsed
      exact ⟨hdone.opens _, fun k burst hb => .inl ⟨rfl, hdone.failureBursts k burst hb⟩, hdone.policy,
        hdone.bounded⟩
  | observeDialAdvisory now key success elapsed orders =>
    exact (updateBoth_measured s now key orders (advised_circuit s now success elapsed)).stepped fun _ => rfl
  | observeFirstByte now key _ orders | observeThroughput now key _ _ orders | observeRetransmit now key _ orders =>
    refine Measured.stepped (updateBoth_measured_unless s now key orders _ fun m => ?_) fun _ => rfl
    exact decay_circuit now m s.halfLife
  | quarantine now key duration orders =>
    rw [step, quarantineDataPlaneFailure]
    split
    · exact (Measured.refl s).stepped fun _ => rfl
    have hupd := updateMetric_updated s now key orders (quarantined s now duration)
    refine ⟨hupd.opens.imp fun k t hk => .inl ?_, fun k burst hb => .inl ⟨rfl, ?_⟩, hupd.samePolicy,
      updateMetric_bounded s now key orders _⟩
    · rw [hk.1]
      rfl
    · rw [← hupd.failureBursts]
      exact hb
  | pruneCandidates keep =>
    have hmetr : Submap (pruneCandidates s keep).metrics s.metrics := erase_all_submap _ _
    refine ⟨opens_of_submap hmetr, fun k burst hb => .inl ⟨rfl, ?_⟩, ⟨rfl, rfl⟩, fun hs hmax => ?_⟩
    · exact foldl_submap erase_submap _ _ k burst hb
    · have hle := hmetr.length_le
      have := hs hmax
      change ((pruneCandidates s keep).metrics.keys.length : Int) ≤ s.maxEntries
      omega
  | setBounds clock retention maxEntries order =>
    have htrim := pruneLocked_trimmed { s with retention := retention, maxEntries := maxEntries } clock retention
      maxEntries order
    refine ⟨opens_of_submap htrim.metrics, fun k burst hb => .inl ⟨rfl, ?_⟩,
      ⟨htrim.breakerFailures, htrim.breakerCooldown⟩, fun _ hmax => ?_⟩
    · exact htrim.failureBursts ▸ hb
    · rw [step, setBounds, htrim.maxEntries] at hmax ⊢
      exact length_pruneLocked_le _ clock retention hmax order
  | clear =>
    refine ⟨opens_of_submap fun k m hm => ?_, fun k burst hb => ?_, ⟨rfl, rfl⟩, fun _ hmax => ?_⟩
    · exact absurd hm (by simp [step, clear])
    · exact absurd hb (by simp [step, clear])
    · simpa [step, clear] using hmax.le

end

def failures (key : SmartCandidateKey) (ops : List Op) : List Failure := ops.filterMap (failed key)

structure InBurst (window : Duration) (seen : List Failure) (burst : SmartFailureBurst) (members : List Failure)
    (first : Failure) : Prop where
  suffix : members <:+ seen
  head : members.head? = some first
  opened : burst.first = first.now
  total : burst.total = members.length
  sites : ∀ site ∈ burst.sites.keys, ∃ f ∈ members, f.site = site
  within : ∀ f ∈ members, sub f.now first.now ≤ window

/-- The circuit of a candidate was opened by the last of several failures, on several sites, of one burst. -/
structure Promoted (s : SmartStore) (seen : List Failure) (until_ : Time) (burst : List Failure) (last : Failure) :
    Prop where
  seen : burst ++ [last] <:+: seen
  enough : s.breakerFailures ≤ (burst ++ [last]).length
  elsewhere : ∃ f ∈ burst, f.site ≠ last.site
  opened : until_ = last.now + s.breakerCooldown
  within : ∃ first, (burst ++ [last]).head? = some first ∧ ∀ f ∈ burst ++ [last], sub f.now first.now ≤ burstWindow s

structure Accounted (s : SmartStore) (ops : List Op) : Prop where
  bursts : ∀ key burst, s.failureBursts.lookup key = some burst →
    ∃ members first, InBurst (burstWindow s) (failures key ops) burst members first
  promoted : ∀ key until_, key.site = "" → CircuitAt s key until_ →
    ∃ burst last, Promoted s (failures key.candidateKey ops) until_ burst last
  local_ : ∀ key until_, key.site ≠ "" → CircuitAt s key until_ → ∃ op ∈ ops, failsAt op = some key

variable {until_ : Time} {burst : List Failure} {last : Failure}

section

variable {s s' : SmartStore} {seen : List Failure} {key : SmartCandidateKey} {f : Failure}

theorem sub_self_le (s t) : sub t t ≤ burstWindow s := by
  have hwind : 30 * second ≤ burstWindow s := by
    rw [burstWindow]
    split
    · exact le_rfl
    · rename_i hlong
      exact not_lt.1 hlong
  have hzero : sub t t = 0 := by
    rw [sub, Int.sub_self]
    decide
  rw [hzero]
  refine le_trans ?_ hwind
  decide

theorem joinBurst_inBurst (hbs : ∀ burst, s.failureBursts.lookup key = some burst →
      ∃ members first, InBurst (burstWindow s) seen burst members first) :
    ∃ earlier first, InBurst (burstWindow s) (seen ++ [f]) (joinBurst s f.now key f.site) (earlier ++ [f]) first := by
  have hf : InBurst (burstWindow s) (seen ++ [f]) ⟨f.now, 0 + 1, (∅ : GoMap String Unit).insert f.site ()⟩ ([] ++ [f]) f := by
    refine ⟨suffix_append .., rfl, rfl, rfl, fun site hsite => ⟨f, mem_cons_self, ?_⟩, fun g hg => ?_⟩
    · exact (mem_singleton.1 hsite).symm
    · rw [nil_append, mem_singleton] at hg
      rw [hg]
      exact sub_self_le s f.now
  rw [joinBurst]
  cases hb : s.failureBursts.lookup key with
  | none => exact ⟨[], f, hf⟩
  | some burst =>
    dsimp only
    split
    · exact ⟨[], f, hf⟩
    rename_i hwin
    obtain ⟨members, first, h⟩ := hbs burst hb
    refine ⟨members, first, ?_, ?_, h.opened, ?_, fun site hsite => ?_, fun g hg => ?_⟩
    · obtain ⟨rest, hr⟩ := h.suffix
      exact ⟨rest, by rw [← hr, append_assoc]⟩
    · rw [head?_append, h.head]
      rfl
    · rw [length_append, h.total]
      rfl
    · rw [AList.keys_insert] at hsite
      rcases mem_cons.1 hsite with rfl | hsite
      · exact ⟨f, mem_append_right _ mem_cons_self, rfl⟩
      · obtain ⟨g, hg, hsite⟩ := h.sites site (mem_of_mem_erase hsite)
        exact ⟨g, mem_append_left _ hg, hsite⟩
    · rcases mem_append.1 hg with hg | hg
      · exact h.within g hg
      · rw [mem_singleton.1 hg, ← h.opened]
        exact not_lt.1 hwin

theorem exists_other_site {sites : GoMap String Unit} (h : 2 ≤ sites.keys.length) (site) :
    ∃ other ∈ sites.keys, other ≠ site := by
  by_contra hall
  have hsub : sites.keys ⊆ [site] := by
    intro other hoth
    by_contra hne
    exact hall ⟨other, hoth, fun heq => hne (heq ▸ mem_cons_self)⟩
  have hlen := (subperm_of_subset (AList.keys_nodup sites) hsub).length_le
  rw [length_singleton] at hlen
  omega

theorem promoted_of_join {earlier} {first : Failure}
    (h : InBurst (burstWindow s) (seen ++ [f]) (joinBurst s f.now key f.site) (earlier ++ [f]) first)
    (henough : s.breakerFailures ≤ (joinBurst s f.now key f.site).total)
    (hsit : 2 ≤ (joinBurst s f.now key f.site).sites.keys.length) (hunt : until_ = f.now + s.breakerCooldown) :
    Promoted s (seen ++ [f]) until_ earlier f := by
  refine ⟨h.suffix.isInfix, h.total ▸ henough, ?_, hunt, first, h.head, h.within⟩
  obtain ⟨site, hsite, hne⟩ := exists_other_site hsit f.site
  obtain ⟨g, hg, rfl⟩ := h.sites site hsite
  rcases mem_append.1 hg with hg | hg
  · exact ⟨g, hg, hne⟩
  · rw [mem_singleton.1 hg] at hne
    exact absurd rfl hne

theorem Promoted.mono (h : Promoted s seen until_ burst last) (hpol : SamePolicy s s') {seen'}
    (hseen : seen <+: seen') : Promoted s' seen' until_ burst last := by
  refine ⟨h.seen.trans hseen.isInfix, ?_, h.elsewhere, ?_, ?_⟩
  · rw [hpol.breakerFailures]
    exact h.enough
  · rw [hpol.breakerCooldown]
    exact h.opened
  · rw [hpol.burstWindow]
    exact h.within

theorem sub_le_sub_left {t u v} (h : u ≤ v) : sub t v ≤ sub t u := by
  have : t - v ≤ t - u := Int.sub_le_sub_left h t
  exact max_le_max_left _ (min_le_min_left _ this)

theorem Promoted.ends (h : Promoted s seen until_ burst last) (hord : seen.Pairwise fun f g => f.now ≤ g.now) :
    ∀ f ∈ burst ++ [last], f.now ≤ last.now ∧ sub last.now f.now ≤ burstWindow s := by
  have hb : (burst ++ [last]).Pairwise fun f g => f.now ≤ g.now := hord.sublist h.seen.sublist
  obtain ⟨first, hfi, hwin⟩ := h.within
  intro f hf
  have hl : f.now ≤ last.now := by
    rcases mem_append.1 hf with hm | hm
    · exact (pairwise_append.1 hb).2.2 f hm last mem_cons_self
    · rw [mem_singleton.1 hm]
  have hstart : first.now ≤ f.now := by
    cases hlist : burst ++ [last] with
    | nil => exact absurd hlist (by simp)
    | cons g rest =>
      rw [hlist] at hfi hb hf
      obtain rfl : g = first := some.inj hfi
      rcases mem_cons.1 hf with rfl | hf
      · exact le_rfl
      · exact (pairwise_cons.1 hb).1 f hf
  refine ⟨hl, (sub_le_sub_left hstart).trans ?_⟩
  exact hwin last (mem_append_right _ mem_cons_self)

theorem failures_append (key ops op) : failures key (ops ++ [op]) = failures key ops ++ (failed key op).toList := by
  rw [failures, failures]
  cases hop : failed key op <;> simp [hop]

theorem failed_at {op} (h : failed key op = some f) : failsAt op = some (key.metricKey f.site) := by
  cases op with
  | observeDial now dialed success elapsed orders =>
    cases success with
    | true => cases h
    | false =>
      rw [failed] at h
      split at h
      · rename_i heq
        obtain rfl := some.inj h
        rw [← heq]
        rfl
      · cases h
  | _ => cases h

end

section

variable [MathFunctions] {s : SmartStore} {ops : List Op} {op : Op}

theorem Accounted.step (h : Accounted s ops) (hsit : Sited op) : Accounted (step s op) (ops ++ [op]) := by
  have hst := step_stepped s hsit
  refine ⟨fun key burst hb => ?_, fun key until_ hk hopen => ?_, fun key until_ hk hopen => ?_⟩
  · rw [failures_append, hst.policy.burstWindow]
    rcases hst.failureBursts key burst hb with ⟨hno, hold⟩ | ⟨f, hf, rfl⟩
    · rw [hno, toList_none, append_nil]
      exact h.bursts key burst hold
    rw [hf]
    obtain ⟨earlier, first, hjoin⟩ := joinBurst_inBurst (f := f) (h.bursts key)
    exact ⟨_, first, hjoin⟩
  · rw [failures_append]
    rcases hst.opens key until_ hopen with hold | hfails | ⟨-, f, hf, hunt, henough, hsites⟩
    · obtain ⟨burst, last, hprom⟩ := h.promoted key until_ hk hold
      exact ⟨burst, last, hprom.mono hst.policy (prefix_append ..)⟩
    · exact absurd hk (hsit key hfails)
    rw [hf]
    obtain ⟨earlier, first, hjoin⟩ := joinBurst_inBurst (f := f) (h.bursts key.candidateKey)
    exact ⟨earlier, f, (promoted_of_join hjoin henough hsites hunt).mono hst.policy (prefix_refl _)⟩
  · rcases hst.opens key until_ hopen with hold | hfails | ⟨hall, -⟩
    · obtain ⟨earlier, hm, hfails⟩ := h.local_ key until_ hk hold
      exact ⟨earlier, mem_append_left _ hm, hfails⟩
    · exact ⟨op, mem_append_right _ mem_cons_self, hfails⟩
    · exact absurd hall hk

theorem accounted_run (halfLife : Duration) (breakerFailures breakerCooldown) (hsit : ∀ op ∈ ops, Sited op) :
    Accounted (after halfLife breakerFailures breakerCooldown ops) ops := by
  induction ops using reverseRecOn with
  | nil =>
    refine ⟨fun key burst hb => ?_, fun key until_ _ hopen => ?_, fun key until_ _ hopen => ?_⟩
    · exact absurd hb (by simp [after, newSmartStore])
    all_goals
      obtain ⟨-, m, hm, -⟩ := hopen
      exact absurd hm (by simp [after, newSmartStore])
  | append_singleton ops op ih =>
    rw [after, run_append]
    refine (ih fun op' hop' => hsit op' (mem_append_left _ hop')).step ?_
    exact hsit op (mem_append_right _ mem_cons_self)

theorem bounded_run (halfLife : Duration) (breakerFailures breakerCooldown) (hsit : ∀ op ∈ ops, Sited op) :
    Bounded (after halfLife breakerFailures breakerCooldown ops) := by
  refine run_keeps_mem (I := Bounded) (fun s op hop => (step_stepped s (hsit op hop)).bounded) ?_
  intro hmax
  exact absurd hmax (by simp [newSmartStore])

/-- In a run whose failures have a site, the circuit of a candidate opens for failures on
several sites in one burst, and a success closes it. -/
theorem failures_isolated (halfLife : Duration) (breakerFailures : Int) (breakerCooldown : Duration) (ops : List Op)
    (hsited : ∀ op ∈ ops, Sited op) :
    ∀ s, s = after halfLife breakerFailures breakerCooldown ops →
      (∀ key until_, key.site = "" → CircuitAt s key until_ →
        ∃ burst last, Promoted s (failures key.candidateKey ops) until_ burst last ∧
          ((failures key.candidateKey ops).Pairwise (fun f g => f.now ≤ g.now) →
            ∀ f ∈ burst ++ [last], f.now ≤ last.now ∧ sub last.now f.now ≤ burstWindow s)) ∧
      (∀ (key : SmartCandidateKey) site,
        (∀ op ∈ ops, ∀ at_, failsAt op = some at_ → at_.candidateKey = key → at_.site = site) →
          ∀ other, other ≠ site → ∀ until_, ¬ CircuitAt s (key.metricKey other) until_) ∧
      (∀ now key elapsed orders until_, ¬ CircuitAt (step s (.observeDial now key true elapsed orders)) key.ofAll until_) ∧
      (0 < s.maxEntries → (s.metrics.keys.length : Int) ≤ s.maxEntries) := by
  rintro s rfl
  have hacc := accounted_run halfLife breakerFailures breakerCooldown hsited
  have hbd := bounded_run halfLife breakerFailures breakerCooldown hsited
  generalize after halfLife breakerFailures breakerCooldown ops = s at hacc hbd
  refine ⟨fun key until_ hk hopen => ?_, fun key site hconf other hoth until_ hopen => ?_, ?_, hbd⟩
  · obtain ⟨burst, last, hprom⟩ := hacc.promoted key until_ hk hopen
    exact ⟨burst, last, hprom, hprom.ends⟩
  · by_cases hall : other = ""
    · obtain ⟨burst, last, hprom⟩ := hacc.promoted (key.metricKey other) until_ hall hopen
      -- the failures of the burst are all on the one site
      have hone : ∀ f ∈ burst ++ [last], f.site = site := by
        intro f hf
        obtain ⟨op, hop, hfail⟩ := mem_filterMap.1 (hprom.seen.subset hf)
        exact hconf op hop _ (failed_at hfail) rfl
      obtain ⟨f, hf, hne⟩ := hprom.elsewhere
      refine hne ((hone f (mem_append_left _ hf)).trans ?_)
      exact (hone last (mem_append_right _ mem_cons_self)).symm
    · obtain ⟨op, hop, hfails⟩ := hacc.local_ (key.metricKey other) until_ hall hopen
      exact hoth (hconf op hop _ hfails rfl)
  · rintro now key elapsed orders until_ ⟨hne, m, hm, rfl⟩
    exact hne ((observeDial_success s now key orders elapsed).closed m hm)

end

/-- Functions to run the examples with. -/
local instance : MathFunctions := ⟨id, id⟩

def wifiNode (site : String) : SmartMetricKey := ⟨"wifi", site, "node", "tcp"⟩

def failingDial (now : Time) (site : String) : Op := .observeDial now (wifiNode site) false second fun _ => .stored _

theorem sited_of_failing {dials : List (Time × String)} (h : ∀ dial ∈ dials, dial.2 ≠ "") :
    ∀ op ∈ dials.map (fun dial => failingDial dial.1 dial.2), Sited op := by
  intro op hop
  obtain ⟨dial, hdial, rfl⟩ := mem_map.1 hop
  intro key hk
  obtain rfl := some.inj hk
  exact h dial hdial

def twoSites : List (Time × String) := [(100 * second, "a"), (110 * second, "a"), (120 * second, "b")]

theorem twoSites_promoted :
    ∃ burst last, Promoted (after 0 3 minute (twoSites.map fun dial => failingDial dial.1 dial.2))
      (failures (wifiNode "").candidateKey (twoSites.map fun dial => failingDial dial.1 dial.2)) (180 * second) burst last ∧
      ∀ f ∈ burst ++ [last], f.now ≤ last.now ∧ sub last.now f.now ≤ minute := by
  have hopen : ((after 0 3 minute (twoSites.map fun dial => failingDial dial.1 dial.2)).metrics.lookup (wifiNode "")).map
      (·.circuitUntil) = some (180 * second) := by
    decide +kernel
  obtain ⟨m, hm, hunt⟩ := map_eq_some_iff.1 hopen
  obtain ⟨burst, last, hprom, hends⟩ :=
    (failures_isolated 0 3 minute _ (sited_of_failing (by decide : ∀ dial ∈ twoSites, dial.2 ≠ ""))
    _ rfl).1 (wifiNode "") (180 * second) rfl ⟨by decide, m, hm, hunt⟩
  exact ⟨burst, last, hprom, hends (by decide +kernel)⟩

def outOfOrder : List (Time × String) := [(1000 * second, "a"), (second, "b")]

/-- The circuit opens at the time of the second one, and the window that ends there has this one failure alone. -/
theorem outOfOrder_alone :
    (∀ op ∈ outOfOrder.map (fun dial => failingDial dial.1 dial.2), Sited op) ∧
      CircuitAt (after 0 2 minute (outOfOrder.map fun dial => failingDial dial.1 dial.2)) (wifiNode "") (61 * second) ∧
      (after 0 2 minute (outOfOrder.map fun dial => failingDial dial.1 dial.2)).breakerFailures = 2 ∧
      (failures (wifiNode "").candidateKey (outOfOrder.map fun dial => failingDial dial.1 dial.2)).filter
        (fun f => decide (f.now ≤ second ∧ sub second f.now ≤ minute)) = [⟨"b", second⟩] := by
  have hopen : ((after 0 2 minute (outOfOrder.map fun dial => failingDial dial.1 dial.2)).metrics.lookup (wifiNode "")).map
      (·.circuitUntil) = some (61 * second) := by
    decide +kernel
  obtain ⟨m, hm, hunt⟩ := map_eq_some_iff.1 hopen
  exact ⟨sited_of_failing (by decide), ⟨by decide, m, hm, hunt⟩, by decide +kernel, by decide +kernel⟩

end SingBox.FailureBursts
