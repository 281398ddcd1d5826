import SingBox.ProbeRuns
import Mathlib.Data.List.ProdSigma

namespace SingBox.ProbeFindings

open List Option Values Maps Runs Observations ProbeVerdicts ProbeTally ProbeRuns

variable {now : Time} {maxSamples : Int} {a' : ProbeAggregator} {c : Call} {cs : List Call}
  {m : GoMap SampleKey ProbeSample} {s : ProbeSample}

section

theorem validateNodes_none {seen nodes} (h : validateNodes seen nodes = none) :
    nodes.Nodup ∧ ∀ n ∈ nodes, n ∉ seen := by
  induction nodes generalizing seen with
  | nil => exact ⟨nodup_nil, by simp⟩
  | cons n nodes ih =>
    rw [validateNodes] at h
    split at h
    · cases h
    split at h
    · cases h
    rename_i hn
    simpa using @nodup_cons_of_fresh _ _ id n nodes seen hn (by simpa using ih h)

variable {spec : ProbeRunSpec}

theorem validateTargets_none {seen targets} (h : validateTargets spec now seen targets = none) :
    (targets.map (·.id)).Nodup ∧ ∀ t ∈ targets, t.id ∉ seen := by
  induction targets generalizing seen with
  | nil => exact ⟨nodup_nil, by simp⟩
  | cons t targets ih =>
    rw [validateTargets] at h
    split at h
    · cases h
    split at h
    · cases h
    split at h
    · cases h
    split at h
    · cases h
    rename_i ht
    exact nodup_cons_of_fresh ht (ih h)

structure Validated (spec : ProbeRunSpec) (maxSamples : Int) : Prop where
  nodes : spec.nodes.Nodup
  targets : (spec.targets.map (·.id)).Nodup
  room : ((spec.nodes.length * spec.targets.length : Nat) : Int) ≤ maxSamples

theorem product_le {n t : Nat} {most} (hn : 0 < n) (hf : (n : Int) ≤ most) (ht : (t : Int) ≤ Int.tdiv most n) :
    ((n * t : Nat) : Int) ≤ most := by
  rw [Int.tdiv_eq_ediv_of_nonneg (by omega)] at ht
  have hmul : (n : Int) * (most / n) ≤ most := Int.mul_ediv_self_le (by omega)
  have hle : (n : Int) * t ≤ n * (most / n) := Int.mul_le_mul_of_nonneg_left ht (by omega)
  exact le_trans hle hmul

theorem validated (h : validateProbeRunSpec spec maxSamples now = none) : Validated spec maxSamples := by
  rw [validateProbeRunSpec] at h
  split at h
  · cases h
  rename_i hiden
  split at h
  · cases h
  split at h
  · cases h
  split at h
  · cases h
  split at h
  · cases h
  split at h
  · cases h
  split at h
  · cases h
  split at h
  · cases h
  rw [or_eq_none_iff] at h
  have hns : spec.nodes ≠ [] := by
    intro hemp
    simp [hemp] at hiden
  refine ⟨(validateNodes_none h.1).1, (validateTargets_none h.2).1, ?_⟩
  exact product_le (length_pos_iff.2 hns) (by omega) (by omega)

theorem held_nil (h : Validated spec maxSamples) (now id) : Held spec (newRun spec now id) [] ∅ := by
  refine ⟨⟨rfl, ?_, ?_, List.nodup_nil, by simp, by simp, by simp⟩, by simp⟩
  · have hns : (spec.nodes.map fun n => n).Nodup := by simpa using h.nodes
    have hp := perm_keys_foldl_insert (fun n => n) (fun _ => ()) hns
    rwa [List.map_id'] at hp
  · exact perm_keys_foldl_insert (fun t : ProbeTargetDescriptor => t.id) (fun t => t) h.targets

theorem tracked_of_accepted {a w} (hk : Keyed a) (h : begin_ a w spec = (a', some .accepted, none)) :
    ∃ first, a'.pending.lookup spec.runID = some first ∧ Tracked spec first [] a' := by
  have hk' : Keyed a' := by
    have hst : Keyed (begin_ a w spec).1 := keyed_step hk ⟨w, .begin_ spec⟩
    rwa [h] at hst
  have hexp : Settles spec.runID w.now a (expireLocked a w) := .expireLocked hk w
  rw [begin_] at h
  split at h
  · cases h
  rename_i hvalid
  dsimp only at h
  split at h
  · cases h
  rename_i hnew
  split at h
  · cases h
  obtain ⟨rfl, -⟩ := Prod.mk.inj h
  rw [not_or, not_isSome_iff_eq_none, not_isSome_iff_eq_none] at hnew
  have hlk : ((expireLocked a w).pending.insert spec.runID
      (newRun spec w.now (succ64 (expireLocked a w).nextID))).lookup spec.runID =
        some _ := AList.lookup_insert _
  have hheld := held_nil (validated hvalid) w.now (succ64 (expireLocked a w).nextID)
  refine ⟨_, hlk, hk', ?_, ⟨∅, hheld⟩, .inl ⟨∅, hlk, hheld, hnew.2⟩⟩
  rw [hexp.config]
  exact (validated hvalid).room

end

section

def resultBy (id : Nat) (a : ProbeAggregator) (c : Call) : Option ProbeRunResult :=
  match c.op with
  | .complete runID => if runID = id then (complete a c.surroundings id).2.toOption else none
  | .result runID => if runID = id then (result a c.surroundings id).2 else none
  | _ => none

def taken (id : Nat) : ProbeAggregator → List Call → List ProbeSample
  | _, [] => []
  | a, c :: cs => takenBy id a c ++ taken id (step a c) cs

def resultsOf (id : Nat) : ProbeAggregator → List Call → List ProbeRunResult
  | _, [] => []
  | a, c :: cs => (resultBy id a c).toList ++ resultsOf id (step a c) cs

structure Given (id : Nat) (r : ProbeRunResult) (a : ProbeAggregator) : Prop where
  keyed : Keyed a
  settled : a.pending.lookup id = none
  result : ∀ record, a.committed.lookup id = some record → record.result = r

variable {id : Nat} {r : ProbeRunResult} {a : ProbeAggregator}

theorem Given.settles (h : Given id r a) (hs : Settles id now a a') : Given id r a' := by
  rcases hs.moved with ⟨hp, hc⟩ | ⟨run, orders, hrun, -, -⟩
  · refine ⟨hs.keyed h.keyed, hp.trans h.settled, fun record hrec => h.result record ?_⟩
    rcases hc with hc | hc
    · exact hc ▸ hrec
    · rw [hc] at hrec
      cases hrec
  · rw [h.settled] at hrun
    cases hrun

theorem resultBy_cases (h : resultBy id a c = some r) : takenBy id a c = [] ∧
    ((∃ record, (expireLocked a c.surroundings).committed.lookup id = some record ∧ record.result = r ∧
        step a c = expireLocked a c.surroundings) ∨
      ∃ run, (expireLocked a c.surroundings).pending.lookup id = some run ∧
        commitLocked (expireLocked a c.surroundings) run c.surroundings.now (c.surroundings.orders id) = (step a c, r)) := by
  obtain ⟨w, op⟩ := c
  rw [resultBy] at h
  rw [step]
  cases op with
  | complete runID =>
    dsimp only at h ⊢
    split at h
    · rename_i hid
      subst hid
      rw [complete] at h ⊢
      split at h
      · rename_i record hrec
        exact ⟨rfl, .inl ⟨record, hrec, some.inj h, rfl⟩⟩
      split at h
      · cases h
      · rename_i run hrun
        obtain rfl := some.inj h
        exact ⟨rfl, .inr ⟨run, hrun, rfl⟩⟩
    · cases h
  | result runID =>
    dsimp only at h ⊢
    split at h
    · obtain ⟨record, hrec, heq⟩ := map_eq_some_iff.1 h
      exact ⟨rfl, .inl ⟨record, hrec, heq, rfl⟩⟩
    · cases h
  | begin_ | ingest | abort | stats => cases h

theorem Given.step (h : Given id r a) (halone : Alone id a c) :
    Given id r (step a c) ∧ takenBy id a c = [] ∧ ∀ r' ∈ resultBy id a c, r' = r := by
  have hexp := h.settles (Settles.expireLocked h.keyed c.surroundings)
  have htk : takenBy id a c = [] := by
    obtain ⟨w, op⟩ := c
    cases op with
    | ingest s guarded =>
      refine if_neg ?_
      rintro ⟨rfl, hans⟩
      rcases ingest_cases a w s guarded with ⟨hno, -⟩ | ⟨run, hrun, -⟩
      · exact hno hans
      · cases hexp.settled.symm.trans hrun
    | begin_ | complete | abort | result | stats => rfl
  refine ⟨h.settles (step_settles h.keyed halone htk), htk, fun r' hr' => ?_⟩
  obtain ⟨-, ⟨record, hrec, rfl, -⟩ | ⟨run, hrun, -⟩⟩ := resultBy_cases hr'
  · exact hexp.result record hrec
  · cases hexp.settled.symm.trans hrun

theorem Given.run (h : Given id r a) (halone : Meets ProbeRuns.step (Alone id) a cs) :
    taken id a cs = [] ∧ ∀ r' ∈ resultsOf id a cs, r' = r := by
  induction cs generalizing a with
  | nil => exact ⟨rfl, by simp [resultsOf]⟩
  | cons c cs ih =>
    obtain ⟨hgiv, htk, hres⟩ := h.step halone.1
    obtain ⟨htk', hres'⟩ := ih hgiv halone.2
    rw [taken, htk, htk']
    refine ⟨rfl, fun r' hr' => ?_⟩
    rcases mem_append.1 hr' with hr' | hr'
    · exact hres r' (mem_toList.1 hr')
    · exact hres' r' hr'

variable {spec : ProbeRunSpec} {first : AggregateProbeRun} {samples : List ProbeSample}

theorem pending_evictCommitted (n a) : (evictCommitted n a).pending = a.pending := by
  induction n generalizing a with
  | zero => rfl
  | succ n ih =>
    rw [evictCommitted]
    split
    · split
      · rfl
      · exact ih _
    · rfl

theorem evictCommitted_result (n) {record record'} (h : a.committed.lookup id = some record)
    (h' : (evictCommitted n a).committed.lookup id = some record') : record' = record := by
  have hset : Settles id 0 a (evictCommitted n a) := .evictCommitted n a
  rcases hset.moved with ⟨-, hc | hc⟩ | ⟨run, orders, hrun, hno, -⟩
  · rw [hc, h] at h'
    exact (some.inj h').symm
  · rw [hc] at h'
    cases h'
  · rw [pending_evictCommitted, hrun] at hno
    cases hno

theorem given_commitLocked {run} (hk : Keyed a) (hrun : a.pending.lookup run.spec.runID = some run) (now orders) :
    Given run.spec.runID (commitLocked a run now orders).2 (commitLocked a run now orders).1 := by
  have hset : Settles run.spec.runID now a (commitLocked a run now orders).1 := .commitLocked hrun
  refine ⟨hset.keyed hk, ?_, fun record hrec => ?_⟩
  · rw [commitLocked, pending_evictCommitted, lookup_del, if_pos rfl]
  · rw [commitLocked] at hrec ⊢
    rw [evictCommitted_result _ (AList.lookup_insert _) hrec]

theorem given_of_result (h : Tracked spec first samples a) (hr : resultBy spec.runID a c = some r) :
    Reached spec first samples r ∧ Given spec.runID r (step a c) ∧ takenBy spec.runID a c = [] := by
  have hexp := h.settles (.expireLocked h.keyed c.surroundings)
  obtain ⟨htk, ⟨record, hrec, rfl, hst⟩ | ⟨run, hrun, hst⟩⟩ := resultBy_cases hr
  · rw [hst]
    rcases hexp.stands with ⟨m, -, -, hno⟩ | ⟨hp, hres⟩
    · cases hno.symm.trans hrec
    refine ⟨hres record hrec, ⟨hexp.keyed, hp, fun record' hrec' => ?_⟩, htk⟩
    rw [mem_unique hrec hrec']
  · have hown := hexp.keyed _ _ hrun
    have hgiv := given_commitLocked hexp.keyed (hown.symm ▸ hrun) c.surroundings.now (c.surroundings.orders spec.runID)
    rw [hst, hown] at hgiv
    rcases hexp.stands with ⟨m, hp, hheld, -⟩ | ⟨hp, -⟩
    · obtain rfl := mem_unique hp hrun
      exact ⟨⟨m, _, _, hheld, (congrArg Prod.snd hst).symm⟩, hgiv, htk⟩
    · cases hp.symm.trans hrun

theorem tracked_run (h : Tracked spec first samples a) (halone : Meets step (Alone spec.runID) a cs) :
    Tracked spec first (samples ++ taken spec.runID a cs) (run step a cs) ∧
      (∀ r ∈ resultsOf spec.runID a cs, Reached spec first (samples ++ taken spec.runID a cs) r) ∧
      ∀ r ∈ resultsOf spec.runID a cs, ∀ r' ∈ resultsOf spec.runID a cs, r' = r := by
  induction cs generalizing a samples with
  | nil =>
    rw [taken, append_nil]
    exact ⟨h, by simp [resultsOf], by simp [resultsOf]⟩
  | cons c cs ih =>
    obtain ⟨htr, hrch, hsame⟩ := ih (h.step halone.1) halone.2
    rw [taken, ← append_assoc, resultsOf]
    cases hr : resultBy spec.runID a c with
    | none => exact ⟨htr, by simpa using hrch, by simpa using hsame⟩
    | some r =>
      obtain ⟨hrch', hgiv, htk⟩ := given_of_result h hr
      obtain ⟨hno, honly⟩ := hgiv.run halone.2
      rw [htk, hno, append_nil, append_nil] at hrch ⊢
      rw [htk, hno, append_nil, append_nil] at htr
      refine ⟨htr, fun r' hr' => ?_, fun r' hr' r'' hr'' => ?_⟩
      · rcases mem_append.1 hr' with hr' | hr'
        · obtain rfl := some.inj (mem_toList.1 hr')
          exact hrch'
        · exact hrch r' hr'
      · have hall : ∀ r' ∈ (some r).toList ++ resultsOf spec.runID (step a c) cs, r' = r := by
          intro r' hr'
          rcases mem_append.1 hr' with hr' | hr'
          · exact (some.inj (mem_toList.1 hr')).symm
          · exact honly r' hr'
        rw [hall r' hr', hall r'' hr'']

end

section

variable {spec : ProbeRunSpec} {first : AggregateProbeRun} {samples : List ProbeSample} {a : ProbeAggregator}

theorem room_for_sample (h : Held spec first samples m) (hvalid : sampleIdentityMatches first s = true)
    (hf : m.lookup s.key = none) : m.keys.length < spec.nodes.length * spec.targets.length := by
  have hprod : ∀ k ∈ s.key :: m.keys, k ∈ spec.nodes ×ˢ spec.targets.map (·.id) := by
    intro k hk
    rw [mem_product]
    rcases mem_cons.1 hk with rfl | hk
    · obtain ⟨hn, htgt, -⟩ := known_of_matches hvalid
      exact ⟨h.1.nodes.mem_iff.1 hn, h.1.targets.mem_iff.1 htgt⟩
    obtain ⟨s', hs'⟩ := mem_keys_iff.1 hk
    obtain ⟨hm, rfl⟩ := (h.1.filed k s').1 hs'
    exact h.1.known s' hm
  have hnd : (s.key :: m.keys).Nodup := nodup_cons.2 ⟨AList.lookup_eq_none.1 hf, m.keys_nodup⟩
  have hlen := (subperm_of_subset hnd hprod).length_le
  rw [length_product, length_map] at hlen
  exact hlen

theorem isSome_lookup_iff (h : Held spec first samples m) (k) :
    (m.lookup k).isSome = true ↔ k ∈ samples.map (·.key) := by
  rw [Option.isSome_iff_exists, List.mem_map]
  exact exists_congr (h.1.filed k)

theorem answer_of_pending (h : Tracked spec first samples a) (w) (hid : s.runID = spec.runID) (guarded)
    (hpend : ((ingest a w s guarded).1.pending.lookup spec.runID).isSome = true) : (ingest a w s guarded).2.1 =
      if sampleIdentityMatches first s && guarded then
        if s.key ∈ samples.map (·.key) then .duplicate else .accepted
      else .stale := by
  have hexp := h.settles (.expireLocked h.keyed w)
  rcases hexp.stands with ⟨m, hp, hheld, -⟩ | ⟨hp, -⟩
  · rw [ingest, hid, hp]
    dsimp only
    rw [matches_samples]
    by_cases hvalid : sampleIdentityMatches first s = true
    · cases guarded with
      | false => simp
      | true =>
        simp only [hvalid, Bool.not_true, Bool.or_self, Bool.false_eq_true, if_false, Bool.and_self, if_true]
        by_cases hk : s.key ∈ samples.map (·.key)
        · rw [if_pos hk, if_pos ((isSome_lookup_iff hheld _).2 hk)]
        have hno : (m.lookup s.key).isSome ≠ true := fun hsome => hk ((isSome_lookup_iff hheld _).1 hsome)
        have hroom := room_for_sample hheld hvalid (not_isSome_iff_eq_none.1 hno)
        have hmost := hexp.room
        rw [if_neg hk, if_neg hno, if_neg (by omega)]
    · have hfalse : sampleIdentityMatches first s = false := Bool.not_eq_true _ ▸ hvalid
      simp [hfalse]
  · rw [ingest, hid, hp] at hpend
    dsimp only at hpend
    split at hpend <;> rw [hp] at hpend <;> cases hpend

end

structure Findings (spec : ProbeRunSpec) (samples : List ProbeSample) (r : ProbeRunResult) : Prop where
  excluded : ∀ t ∈ spec.targets.map (·.id), (∃ i ∈ r.incidents, i.targetID = t) ↔ Excluded spec samples t
  incidents : ∀ i, i ∈ r.incidents ↔ i.targetID ∈ spec.targets.map (·.id) ∧ Incident spec samples i
  nodes : ∀ n, (∃ v ∈ r.verdicts, v.handle = n) ↔ n ∈ spec.nodes
  authoritative : ∀ v ∈ r.verdicts, v.authoritative = true ↔ ∃! c, Wins spec samples v.handle c

def SameFindings (r r' : ProbeRunResult) : Prop :=
  (∀ i, i ∈ r.incidents ↔ i ∈ r'.incidents) ∧ ∀ v, v ∈ r.verdicts ↔ v ∈ r'.verdicts

section

variable {spec : ProbeRunSpec} {first : AggregateProbeRun} {samples samples' : List ProbeSample}
  {r r' : ProbeRunResult}

theorem findings_of_reached (h : Reached spec first samples r) : Findings spec samples r := by
  obtain ⟨m, orders, now, ⟨hold, -⟩, rfl⟩ := h
  refine ⟨fun t ht => ?_, fun i => mem_incidents hold orders, fun n => ?_, fun v hv => ?_⟩
  · rw [← isSome_incidentOf hold orders, isSome_iff_exists]
    simp only [mem_incidents hold orders, incidentOf_eq_some hold orders]
    constructor
    · rintro ⟨i, ⟨-, hinc⟩, rfl⟩
      exact ⟨i, rfl, hinc⟩
    · rintro ⟨i, rfl, hinc⟩
      exact ⟨i, ⟨ht, hinc⟩, rfl⟩
  · simp only [mem_verdicts hold orders]
    constructor
    · rintro ⟨v, ⟨n', hn', rfl⟩, hv⟩
      rw [handle_verdictOf] at hv
      exact hv ▸ hn'
    · exact fun hn => ⟨_, ⟨n, hn, rfl⟩, handle_verdictOf ..⟩
  · obtain ⟨n, -, rfl⟩ := (mem_verdicts hold orders).1 hv
    rw [authoritative_iff hold, handle_verdictOf]

theorem same_of_reached (h : Reached spec first samples r) (h' : Reached spec first samples' r')
    (hp : samples.Perm samples') : SameFindings r r' := by
  obtain ⟨m, orders, now, ⟨hold, -⟩, rfl⟩ := h
  obtain ⟨m', orders', now', ⟨hold', -⟩, rfl⟩ := h'
  constructor
  · intro i
    rw [mem_incidents hold, mem_incidents hold']
    simp only [Incident, faulted_congr hp, reports_congr hp]
  · intro v
    rw [mem_verdicts hold, mem_verdicts hold']
    simp only [verdictOf_congr hold hold' hp orders orders']

end

theorem keyed_new (config) : Keyed (newProbeAggregator config) := by
  intro id run hrun
  cases hrun

/-- Whatever else goes on, the results of an accepted run say what its valid samples say. -/
theorem verdicts_follow_samples (config : ProbeAggregatorConfig) (earlier : List Call) (w : Surroundings)
    (spec : ProbeRunSpec)
    (hbegin : (begin_ (run step (newProbeAggregator config) earlier) w spec).2 = (some .accepted, none)) :
    ∃ first, (begin_ (run step (newProbeAggregator config) earlier) w spec).1.pending.lookup spec.runID = some first ∧
      ∀ a, a = (begin_ (run step (newProbeAggregator config) earlier) w spec).1 →
        ∀ cs, Meets step (Alone spec.runID) a cs →
          ((taken spec.runID a cs).map (·.key)).Nodup ∧
          (∀ s ∈ taken spec.runID a cs, sampleIdentityMatches first s = true) ∧
          (∀ w' s guarded, s.runID = spec.runID →
            ((ingest (run step a cs) w' s guarded).1.pending.lookup spec.runID).isSome = true →
              (ingest (run step a cs) w' s guarded).2.1 =
                if sampleIdentityMatches first s && guarded then
                  if s.key ∈ (taken spec.runID a cs).map (·.key) then .duplicate else .accepted
                else .stale) ∧
          (∀ r ∈ resultsOf spec.runID a cs, Findings spec (taken spec.runID a cs) r) ∧
          (∀ r ∈ resultsOf spec.runID a cs, ∀ r' ∈ resultsOf spec.runID a cs, r' = r) ∧
          ∀ cs', Meets step (Alone spec.runID) a cs' → (taken spec.runID a cs).Perm (taken spec.runID a cs') →
            ∀ r ∈ resultsOf spec.runID a cs, ∀ r' ∈ resultsOf spec.runID a cs', SameFindings r r' := by
  have hk : Keyed (run step (newProbeAggregator config) earlier) :=
    run_invariant (I := Keyed) (fun _ c h => keyed_step h c) (keyed_new config) earlier
  obtain ⟨first, hf, htr⟩ := tracked_of_accepted hk (Prod.ext rfl hbegin)
  refine ⟨first, hf, ?_⟩
  rintro a rfl cs halone
  obtain ⟨hrun, hrch, hsame⟩ := tracked_run htr halone
  obtain ⟨m, hold, hvalid⟩ := hrun.kept
  refine ⟨hold.distinct, hvalid, ?_, ?_, hsame, ?_⟩
  · intro w' s guarded hid hpend
    exact answer_of_pending hrun w' hid guarded hpend
  · exact fun r hr => findings_of_reached (hrch r hr)
  · intro cs' halone' hp r hr r' hr'
    obtain ⟨-, hrch', -⟩ := tracked_run htr halone'
    exact same_of_reached (hrch r hr) (hrch' r' hr') hp

def twoNodes : ProbeRunSpec :=
  { runID := 7, suite := .serviceCapability, runtimeEpochID := 1, catalogRevision := 1, sourceGeneration := 1,
    serviceID := "mail", source := .http, targetGeneration := 1,
    nodes := [⟨1, 1, 1, 1⟩, ⟨2, 2, 1, 1⟩],
    targets := [⟨1, 1, .http, 0, 1000 * second⟩, ⟨2, 1, .http, 0, 1000 * second⟩],
    quorum := 1, commonModeMinNodes := 0, deadline := 20 * second }

def sampleOf (handle : NodeHandle) (target : ProbeTargetID) (cls : ProbeSampleClass) (failure : FailureClass) :
    ProbeSample :=
  { runID := 7, suite := .serviceCapability, runtimeEpochID := 1, catalogRevision := 1, sourceGeneration := 1,
    handle, targetID := target, targetGeneration := 1, serviceID := "mail", capability := .http,
    sampleClass := cls, failure, time := 10 * second }

def calmly (now : Time) : Surroundings :=
  { now, pops := .stored _,
    orders := fun _ =>
      { targets := .stored _, samples := fun _ => .stored _, classes := fun _ => .stored _, excluded := .stored _,
        nodes := .stored _, nodeTargets := fun _ => .stored _, failures := fun _ => .stored _ } }

def twoNodesBegun : ProbeAggregator := (begin_ (newProbeAggregator ⟨0, 0, 0, 0⟩) (calmly (5 * second)) twoNodes).1

def blockedSamples : List Call :=
  [⟨calmly (11 * second), .ingest (sampleOf ⟨1, 1, 1, 1⟩ 1 .blocked .httpBlock) true⟩,
   ⟨calmly (11 * second), .ingest (sampleOf ⟨2, 2, 1, 1⟩ 1 .blocked .httpBlock) true⟩,
   ⟨calmly (11 * second), .ingest (sampleOf ⟨1, 1, 1, 1⟩ 2 .blocked .httpBlock) true⟩,
   ⟨calmly (12 * second), .ingest (sampleOf ⟨1, 1, 1, 1⟩ 2 .success .none) true⟩,
   ⟨calmly (12 * second), .ingest (sampleOf ⟨2, 2, 1, 1⟩ 2 .success .none) true⟩,
   ⟨calmly (13 * second), .complete 7⟩,
   ⟨calmly (14 * second), .result 7⟩]

theorem verdicts_of_blockedSamples :
    ((resultsOf 7 twoNodesBegun blockedSamples).map fun r =>
        (r.incidents.map (·.targetID), r.verdicts.map fun v => (v.handle.slot, v.authoritative))) =
      [([1], [(1, true), (2, true)]), ([1], [(1, true), (2, true)])] ∧
    ∀ r ∈ resultsOf 7 twoNodesBegun blockedSamples, Findings twoNodes (taken 7 twoNodesBegun blockedSamples) r := by
  refine ⟨by decide +kernel, ?_⟩
  obtain ⟨first, -, hall⟩ :=
    verdicts_follow_samples ⟨0, 0, 0, 0⟩ [] (calmly (5 * second)) twoNodes (by decide +kernel)
  exact (hall twoNodesBegun rfl blockedSamples (by simp [blockedSamples, Meets, Alone])).2.2.2.1

end SingBox.ProbeFindings
