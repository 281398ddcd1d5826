import Mathlib.Data.List.Dedup
import SingBox.EbpfLifecycle
import SingBox.Runs

namespace SingBox.EbpfQuarantine

open List Maps Values Runs EbpfAbi EbpfMemory EbpfLifecycle

/-- `enter` marks the start of an operation of the lifecycle. -/
inductive SinkCall
  | enter
  | control (enabled : Bool) (flags : UInt32) (ok : Bool)
  | macPolicies (ok : Bool)
  | other (ok : Bool)
  deriving DecidableEq

structure Recorded (σ : Type) where
  sink : σ
  log : List SinkCall := []

def Recorded.note {σ : Type} (r : Recorded σ) (call : Bool → SinkCall) (result : Bool × σ) : Bool × Recorded σ :=
  (result.1, ⟨result.2, r.log ++ [call result.1]⟩)

instance recording {σ ω : Type} [DataplaneSink σ ω] : DataplaneSink (Recorded σ) ω where
  publishStaticDirect w ps generation bank r :=
    r.note .other (DataplaneSink.publishStaticDirect w ps generation bank r.sink)
  mergeDynamicDirect w p ttl r := r.note .other (DataplaneSink.mergeDynamicDirect w p ttl r.sink)
  putDirectFlow w protocol source destination ttl r :=
    r.note .other (DataplaneSink.putDirectFlow w protocol source destination ttl r.sink)
  deleteDirectFlow w protocol source destination r :=
    r.note .other (DataplaneSink.deleteDirectFlow w protocol source destination r.sink)
  publishDNSHint w addr direct evidence generation ttl r :=
    r.note .other (DataplaneSink.publishDNSHint w addr direct evidence generation ttl r.sink)
  publishMACPolicies w entries r := r.note .macPolicies (DataplaneSink.publishMACPolicies w entries r.sink)
  deleteMergedStaticDirect w p r := r.note .other (DataplaneSink.deleteMergedStaticDirect w p r.sink)
  writeControlV3 w enabled flags bank generation mark r :=
    r.note (.control enabled flags) (DataplaneSink.writeControlV3 w enabled flags bank generation mark r.sink)
  invalidateFlowDirect w r := r.note .other (DataplaneSink.invalidateFlowDirect w r.sink)
  disable w r := r.note .other (DataplaneSink.disable w r.sink)
  policyGeneration r := DataplaneSink.policyGeneration ω r.sink

def entered {σ : Type} (l : Lifecycle (Recorded σ)) : Lifecycle (Recorded σ) :=
  { l with sink := { l.sink with log := l.sink.log ++ [.enter] } }

def recordedStep {σ ω : Type} [DataplaneSink σ ω] (l : Lifecycle (Recorded σ)) (e : Event ω) : Lifecycle (Recorded σ) :=
  step (entered l) e

theorem has_cleared (flags flag) : has (flags &&& ~~~flag) flag = false := by
  rw [has, UInt32.and_assoc]
  simp

theorem has_macSource (flags) : has (flags ||| flagMACSource) flagMACSource = true := by
  have habs : (flags ||| flagMACSource) &&& flagMACSource = flagMACSource := by
    refine UInt32.toBitVec_inj.1 (BitVec.eq_of_getLsbD_eq fun i _ => ?_)
    rw [UInt32.toBitVec_and, UInt32.toBitVec_or, BitVec.getLsbD_and, BitVec.getLsbD_or]
    cases flags.toBitVec.getLsbD i <;> simp
  rw [has, habs]
  decide

/-- Calls that a lifecycle makes between two states of its MAC quarantine. In quarantine the MAC flag is only written by
the call that published a complete snapshot, right after it. -/
inductive Fuse : Bool → List SinkCall → Bool → Prop
  | done (q : Bool) : Fuse q [] q
  | enter {q q' : Bool} {calls : List SinkCall} (h : Fuse q calls q') : Fuse q (.enter :: calls) q'
  | other {q q' : Bool} {calls : List SinkCall} (ok : Bool) (h : Fuse q calls q') : Fuse q (.other ok :: calls) q'
  | control {q q' : Bool} {calls : List SinkCall} {flags : UInt32} (enabled ok : Bool)
      (hflags : q = true → has flags flagMACSource = false) (h : Fuse q calls q') :
      Fuse q (.control enabled flags ok :: calls) q'
  | failed {q q' : Bool} {calls : List SinkCall} (h : Fuse true calls q') : Fuse q (.macPolicies false :: calls) q'
  | published {q' : Bool} {calls : List SinkCall} (h : Fuse false calls q') : Fuse false (.macPolicies true :: calls) q'
  | renewed {q' : Bool} {calls : List SinkCall} {flags : UInt32} (enabled ok : Bool)
      (hflags : has flags flagMACSource = true) (h : Fuse (!ok) calls q') :
      Fuse true (.macPolicies true :: .control enabled flags ok :: calls) q'

theorem Fuse.append {q q' q'' calls calls'} (h : Fuse q calls q') (h' : Fuse q' calls' q'') :
    Fuse q (calls ++ calls') q'' := by
  induction h with
  | done q => exact h'
  | enter h ih => exact .enter (ih h')
  | other ok h ih => exact .other ok (ih h')
  | control enabled ok hfl h ih => exact .control enabled ok hfl (ih h')
  | failed h ih => exact .failed (ih h')
  | published h ih => exact .published (ih h')
  | renewed enabled ok hfl h ih => exact .renewed enabled ok hfl (ih h')

theorem Fuse.after_failure {q q' before after} (h : Fuse q (before ++ .macPolicies false :: after) q') :
    Fuse true after q' := by
  generalize hcs : before ++ .macPolicies false :: after = calls at h
  induction h generalizing before with
  | done q => simp at hcs
  | enter h ih | other ok h ih | control enabled ok hfl h ih | published h ih =>
    cases before with
    | nil => simp at hcs
    | cons call before => exact ih (cons.inj hcs).2
  | failed h ih =>
    cases before with
    | nil => exact (cons.inj hcs).2 ▸ h
    | cons call before => exact ih (cons.inj hcs).2
  | renewed enabled ok hfl h ih =>
    -- the failure is neither the publication nor the write of a renewal
    rcases before with _ | ⟨call, _ | ⟨call', before⟩⟩
    · simp at hcs
    · simp at hcs
    · exact ih (cons.inj (cons.inj hcs).2).2

theorem Fuse.published_before {q q' between after enabled ok flags} (hfl : has flags flagMACSource = true)
    (h : Fuse q (between ++ .control enabled flags ok :: after) q') (hq : q = true) :
    .macPolicies true ∈ between := by
  generalize hcs : between ++ .control enabled flags ok :: after = calls at h
  induction h generalizing between with
  | done q => simp at hcs
  | published h ih => cases hq
  | enter h ih | other _ h ih =>
    cases between with
    | nil => simp at hcs
    | cons call between => exact mem_cons_of_mem _ (ih hq (cons.inj hcs).2)
  | failed h ih =>
    cases between with
    | nil => simp at hcs
    | cons call between => exact mem_cons_of_mem _ (ih rfl (cons.inj hcs).2)
  | control enabled' ok' hclear h ih =>
    cases between with
    | nil =>
      obtain ⟨-, rfl, -⟩ := SinkCall.control.inj (cons.inj hcs).1
      rw [hclear hq] at hfl
      cases hfl
    | cons call between => exact mem_cons_of_mem _ (ih hq (cons.inj hcs).2)
  | renewed enabled' ok' hfl' h ih =>
    cases between with
    | nil => simp at hcs
    | cons call between => exact mem_cons.2 (.inl (cons.inj hcs).1.symm)

theorem Fuse.renewal {q q' between after} (h : Fuse q (between ++ .macPolicies true :: after) q') (hq : q = true)
    (hf : .macPolicies true ∉ between) :
    ∃ enabled flags ok after', has flags flagMACSource = true ∧ after = .control enabled flags ok :: after' := by
  generalize hcs : between ++ .macPolicies true :: after = calls at h
  induction h generalizing between with
  | done q => simp at hcs
  | published h ih => cases hq
  | enter h ih | other _ h ih | control _ _ _ h ih =>
    cases between with
    | nil => simp at hcs
    | cons call between => exact ih hq (fun hm => hf (mem_cons_of_mem _ hm)) (cons.inj hcs).2
  | failed h ih =>
    cases between with
    | nil => simp at hcs
    | cons call between => exact ih rfl (fun hm => hf (mem_cons_of_mem _ hm)) (cons.inj hcs).2
  | @renewed q' calls flags enabled ok hfl h ih =>
    cases between with
    | nil => exact ⟨enabled, flags, ok, calls, hfl, (cons.inj hcs).2⟩
    | cons call between => exact absurd (mem_cons.2 (.inl (cons.inj hcs).1.symm)) hf

variable {p : Prefix}

section

variable {σ ω : Type} [DataplaneSink σ ω] {l l' l'' : Lifecycle (Recorded σ)} {calls calls' : List SinkCall}

/-- A quarantined dataplane is off in the model, and only a bound sink can have put MAC policies into quarantine. -/
structure Fused (l : Lifecycle (Recorded σ)) : Prop where
  off : l.dataplaneQuarantined = true → l.backend.control.enabled = false
  bound : l.macQuarantined = true → l.bound = true

structure Keeps (l l' : Lifecycle (Recorded σ)) (calls : List SinkCall) : Prop where
  log : l'.sink.log = l.sink.log ++ calls
  fuse : Fuse l.macQuarantined calls l'.macQuarantined
  fused : Fused l'
  lasting : l.dataplaneQuarantined = true → l'.dataplaneQuarantined = true
  off : l.dataplaneQuarantined = true → ∀ enabled flags ok, .control enabled flags ok ∈ calls → enabled = false

theorem Keeps.refl (h : Fused l) : Keeps l l [] :=
  ⟨(append_nil _).symm, .done _, h, id, fun _ _ _ _ hm => absurd hm not_mem_nil⟩

theorem Keeps.trans (h : Keeps l l' calls) (h' : Keeps l' l'' calls') : Keeps l l'' (calls ++ calls') := by
  refine ⟨by rw [h'.log, h.log, append_assoc], h.fuse.append h'.fuse, h'.fused, fun hq => h'.lasting (h.lasting hq),
    fun hq enabled flags ok hm => ?_⟩
  rcases mem_append.1 hm with hm | hm
  · exact h.off hq enabled flags ok hm
  · exact h'.off (h.lasting hq) enabled flags ok hm

theorem Keeps.update (h : Keeps l l' calls) {backend}
    (henab : backend.control.enabled = true → l'.backend.control.enabled = true) :
    Keeps l { l' with backend := backend } calls := by
  refine { h with fused := ⟨fun hq => ?_, h.fused.bound⟩ }
  have hoff := h.fused.off hq
  cases hon : backend.control.enabled with
  | false => rfl
  | true =>
    rw [henab hon] at hoff
    cases hoff

theorem Keeps.quarantine (h : Keeps l l' calls) : Keeps l l'.quarantineDataplane calls :=
  ⟨h.log, h.fuse, ⟨fun _ => rfl, h.fused.bound⟩, fun _ => rfl, h.off⟩

theorem keeps_other (h : Fused l) {f} (hf : ∀ r, ∃ result, f r = r.note .other result) :
    ∃ calls, Keeps l (l.call f).2 calls := by
  rw [Lifecycle.call]
  split
  · obtain ⟨result, hres⟩ := hf l.sink
    rw [hres]
    exact ⟨[.other result.1], rfl, .other _ (.done _), ⟨h.off, h.bound⟩, id,
      fun _ _ _ _ hm => absurd hm (by simp)⟩
  · exact ⟨[], .refl h⟩

omit [DataplaneSink σ ω] in
theorem call_bound (hbd : l.bound = true) (f) :
    l.call f = ((f l.sink).1, { l with sink := (f l.sink).2 }) := if_pos hbd

theorem call_backend {f} : (l.call f).2.backend = l.backend := by
  rw [Lifecycle.call]
  split <;> rfl

theorem Keeps.update_call {f} (h : Keeps l (l.call f).2 calls) {backend}
    (henab : backend.control.enabled = l.backend.control.enabled) :
    Keeps l { (l.call f).2 with backend := backend } calls := by
  refine h.update fun hon => ?_
  rw [call_backend, ← henab]
  exact hon

theorem keeps_writeControl (h : Fused l) (w : ω) (enabled) (flags mark : UInt32)
    (hoff : l.dataplaneQuarantined = true → enabled = false)
    (hfl : l.macQuarantined = true → has flags flagMACSource = false) :
    ∃ calls, Keeps l (l.writeControl w enabled flags mark).2 calls := by
  rw [Lifecycle.writeControl, Lifecycle.call]
  split
  · refine ⟨_, rfl, .control enabled _ hfl (.done _), ⟨h.off, h.bound⟩, id, fun hq enabled' flags' ok hm => ?_⟩
    obtain ⟨rfl, -, -⟩ := SinkCall.control.inj (mem_singleton.1 hm)
    exact hoff hq
  · exact ⟨[], .refl h⟩

omit [DataplaneSink σ ω] in
theorem invalidateGeneration_enabled (b generation) :
    (invalidateGeneration b generation).control.enabled = b.control.enabled := by
  rw [invalidateGeneration]
  split <;> rfl

theorem keeps_invalidate (h : Fused l) (w : ω) : ∃ calls, Keeps l (l.invalidate w).2 calls := by
  rw [Lifecycle.invalidate]
  split
  · obtain ⟨calls, hc⟩ := keeps_other h
      (f := DataplaneSink.invalidateFlowDirect w) fun _ => ⟨_, rfl⟩
    dsimp only
    split
    · exact ⟨calls, hc⟩
    split
    · exact ⟨calls, hc⟩
    exact ⟨calls, hc.update_call (invalidateGeneration_enabled ..)⟩
  · refine ⟨[], (Keeps.refl h).update fun hon => ?_⟩
    rw [invalidateGeneration_enabled] at hon
    exact hon

theorem keeps_applyControlFlags (h : Fused l) (w : ω) (v4 v6 tcp udp hijack : Bool) (mark) :
    ∃ calls, Keeps l (l.applyControlFlags w v4 v6 tcp udp hijack mark).2 calls := by
  rw [Lifecycle.applyControlFlags]
  generalize hfl : (if l.macQuarantined then controlFlags l.options v4 v6 tcp udp hijack &&& ~~~flagMACSource
    else controlFlags l.options v4 v6 tcp udp hijack) = flags
  obtain ⟨calls, hwrite⟩ := keeps_writeControl h w (l.backend.control.enabled && !l.dataplaneQuarantined)
    flags mark (fun hq => by rw [hq, Bool.not_true, Bool.and_false]) fun hq => by
      rw [← hfl, if_pos hq, has_cleared]
  split
  · refine ⟨calls, hwrite.update fun hon => ?_⟩
    rw [Lifecycle.writeControl, call_backend]
    exact (Bool.and_eq_true_iff.1 hon).1
  · exact ⟨calls, hwrite⟩

theorem keeps_disableMACSource (h : Fused l) (w : ω) : ∃ calls, Keeps l (l.disableMACSource w).2 calls := by
  rw [Lifecycle.disableMACSource]
  obtain ⟨calls, hwrite⟩ := keeps_writeControl h w l.backend.control.enabled
    (l.backend.control.flags &&& ~~~flagMACSource) l.backend.control.routingMark h.off fun _ => has_cleared ..
  split
  · exact ⟨calls, hwrite.update_call rfl⟩
  · exact ⟨calls, hwrite⟩

theorem keeps_recover (h : Fused l) (hbd : l.bound = true) (w : ω) :
    ∃ calls, Keeps { l with macQuarantined := true } (l.recoverMACPublishFailure w) calls := by
  have hquar : Fused { l with macQuarantined := true } := ⟨h.off, fun _ => hbd⟩
  rw [Lifecycle.recoverMACPublishFailure]
  dsimp only
  obtain ⟨calls, hdis⟩ := keeps_disableMACSource hquar w
  split
  · exact ⟨calls, hdis⟩
  obtain ⟨calls', hinv⟩ := keeps_invalidate hdis.fused w
  split
  · exact ⟨_, hdis.trans hinv⟩
  have hboth := hdis.trans hinv
  have hoff := hboth.quarantine
  obtain ⟨calls'', hdisa⟩ := keeps_other hoff.fused
    (f := DataplaneSink.disable w) fun _ => ⟨_, rfl⟩
  exact ⟨_, hoff.trans hdisa⟩

omit [DataplaneSink σ ω] in
theorem length_macSnapshot_le (generation entries) :
    (macSnapshot generation entries).keys.length ≤ ((entries.map (·.key)).filter (· ≠ zeroMACKey)).dedup.length := by
  refine (subperm_of_subset (AList.keys_nodup _) fun k hk => ?_).length_le
  obtain ⟨v, hv⟩ := mem_keys_iff.1 hk
  rw [mem_dedup, mem_filter, mem_map]
  obtain ⟨entry, he, rfl⟩ : ∃ entry ∈ entries.filter fun entry => entry.key ≠ zeroMACKey, entry.key = k :=
    key_of_foldl_insert hv
  obtain ⟨hm, hke⟩ := mem_filter.1 he
  exact ⟨⟨entry, hm, rfl⟩, hke⟩

theorem keeps_endMACQuarantine (h : Fused l) (w : ω) (hbd : l'.bound = true)
    (hmac : l'.macQuarantined = l.macQuarantined) (hdata : l'.dataplaneQuarantined = l.dataplaneQuarantined)
    (henab : l'.backend.control.enabled = l.backend.control.enabled)
    (hlog : l'.sink.log = l.sink.log ++ [.macPolicies true]) : ∃ calls, Keeps l (l'.endMACQuarantine w).2 calls := by
  have hoff : l'.dataplaneQuarantined = true → l'.backend.control.enabled = false := by
    rw [hdata, henab]
    exact h.off
  rw [Lifecycle.endMACQuarantine]
  split
  · -- the write that renews the flag is the next call of the sink
    rename_i hq
    rw [hmac] at hq
    dsimp only
    rw [Lifecycle.writeControl, call_bound hbd]
    generalize hres : DataplaneSink.writeControlV3 w l'.backend.control.enabled
      (l'.backend.control.flags ||| flagMACSource) l'.backend.publisher.active l'.backend.publisher.generation
      l'.backend.control.routingMark l'.sink = result
    have hwr : result.2.log = l.sink.log ++ [.macPolicies true,
        .control l'.backend.control.enabled (l'.backend.control.flags ||| flagMACSource) result.1] := by
      rw [← hres]
      exact (congrArg (· ++ _) hlog).trans (append_assoc ..)
    have hcs : l.dataplaneQuarantined = true → ∀ enabled flags ok, SinkCall.control enabled flags ok ∈
        [.macPolicies true, .control l'.backend.control.enabled (l'.backend.control.flags ||| flagMACSource) result.1] →
        enabled = false := by
      intro hd enabled flags ok hme
      rcases mem_cons.1 hme with hme | hme
      · cases hme
      · obtain ⟨rfl, -, -⟩ := SinkCall.control.inj (mem_singleton.1 hme)
        exact hoff (hdata.trans hd)
    split
    · rename_i hok
      refine ⟨_, hwr, ?_, ⟨hoff, fun hm => by cases hm⟩, hdata.trans, hcs⟩
      rw [hq]
      exact .renewed _ _ (has_macSource _) (by rw [hok]; exact .done _)
    · rename_i hok
      refine ⟨_, hwr, ?_, ⟨hoff, fun _ => hbd⟩, hdata.trans, hcs⟩
      rw [hq]
      exact .renewed _ _ (has_macSource _) (by rw [Bool.eq_false_iff.2 hok]; exact .done _)
  · rename_i hq
    have hf := Bool.eq_false_iff.2 (hmac ▸ hq)
    exact ⟨[.macPolicies true], hlog, hf ▸ .published (.done _), ⟨hoff, fun hm => by cases hm⟩,
      hdata.trans, fun _ _ _ _ hme => absurd hme (by simp)⟩

theorem keeps_publishMACSourcePolicies (h : Fused l) (w : ω) (entries) :
    ∃ calls, Keeps l (l.publishMACSourcePolicies w entries).2 calls := by
  rw [Lifecycle.publishMACSourcePolicies]
  split
  · exact ⟨[], .refl h⟩
  split
  · exact ⟨[], .refl h⟩
  rename_i hfits
  -- What the lifecycle lets through, the memory backend accepts.
  have hle := length_macSnapshot_le l.backend.control.policyGeneration entries
  rw [publishMACPolicies, if_neg (hle.trans (Nat.not_lt.1 hfits)).not_gt]
  dsimp only
  by_cases hbd : l.bound = true
  · rw [call_bound hbd]
    have hlog : (DataplaneSink.publishMACPolicies w entries l.sink).2.log =
        l.sink.log ++ [.macPolicies (DataplaneSink.publishMACPolicies w entries l.sink).1] := rfl
    split
    · rename_i hok
      rw [Bool.not_eq_true'] at hok
      rw [hok] at hlog
      have hnot : Fused { l with sink := (DataplaneSink.publishMACPolicies w entries l.sink).2 } := ⟨h.off, h.bound⟩
      obtain ⟨calls, hrec⟩ := keeps_recover hnot hbd w
      refine ⟨.macPolicies false :: calls, ?_, .failed hrec.fuse, hrec.fused, hrec.lasting,
        fun hd enabled flags ok hme => ?_⟩
      · rw [hrec.log, hlog, append_assoc]
        rfl
      · rcases mem_cons.1 hme with hme | hme
        · cases hme
        · exact hrec.off hd enabled flags ok hme
    · rename_i hok
      rw [Bool.not_eq_true', Bool.not_eq_false] at hok
      rw [hok] at hlog
      exact keeps_endMACQuarantine h w hbd rfl rfl rfl hlog
  · have hq : ¬ l.macQuarantined = true := fun hq => hbd (h.bound hq)
    have hf := Bool.eq_false_iff.2 hq
    rw [Lifecycle.call, if_neg hbd, Lifecycle.endMACQuarantine, if_neg hq]
    exact ⟨[], (append_nil _).symm, hf ▸ .done _, ⟨h.off, fun hm => by cases hm⟩, id,
      fun _ _ _ _ hme => absurd hme not_mem_nil⟩

omit [DataplaneSink σ ω] in
theorem mergeDynamicDirect_control {b b' ttl started now}
    (h : EbpfMemory.mergeDynamicDirect b p ttl started now = some b') : b'.control = b.control := by
  rw [EbpfMemory.mergeDynamicDirect] at h
  dsimp only at h
  split at h
  · cases h
  split at h
  · cases h
  split at h
  · rw [← Option.some.inj h]
  split at h
  · cases h
  · rw [← Option.some.inj h]

omit [DataplaneSink σ ω] in
theorem deleteMergedStaticDirect_control {b b'} (h : deleteMergedStaticDirect b p = some b') :
    b'.control = b.control := by
  rw [deleteMergedStaticDirect] at h
  split at h
  · cases h
  split at h
  · cases h
  · rw [← Option.some.inj h]

theorem keeps_publishPrepared (h : Fused l) (w : ω) (policies) (destinations : List Prefix) :
    ∃ calls, Keeps l (l.publishPrepared w policies destinations).2 calls := by
  rw [Lifecycle.publishPrepared]
  split
  · exact ⟨[], .refl h⟩
  rename_i prepared backend hprep
  have hctl : backend.control = l.backend.control := by rw [prepareStatic_eq hprep]
  obtain ⟨calls, hc⟩ := keeps_other h
    (f := DataplaneSink.publishStaticDirect w destinations 0 0) fun _ => ⟨_, rfl⟩
  dsimp only
  split
  · refine ⟨calls, hc.update_call ?_⟩
    rw [commitPreparedStatic, invalidateGeneration_enabled, hctl]
  · refine ⟨calls, hc.update_call ?_⟩
    rw [abortPreparedStatic, hctl]

theorem keeps_step (h : Fused l) (e : Event ω) : ∃ calls, Keeps l (step l e) calls := by
  cases e with
  | bindSink => exact ⟨[], (append_nil _).symm, .done _, ⟨h.off, fun _ => rfl⟩, id, by simp⟩
  | syncPolicyGeneration generation =>
    rw [step, Lifecycle.syncPolicyGeneration]
    split
    · exact ⟨[], .refl h⟩
    split
    · exact ⟨[], .refl h⟩
    refine ⟨[], (Keeps.refl h).update fun hon => ?_⟩
    rw [invalidateGeneration_enabled] at hon
    exact hon
  | applyControlFlags w v4 v6 tcp udp hijack mark => exact keeps_applyControlFlags h w v4 v6 tcp udp hijack mark
  | publishStaticRules w inputs =>
    rw [step, Lifecycle.publishStaticRules]
    split
    · exact ⟨[], .refl h⟩
    dsimp only
    split
    · exact ⟨[], .refl h⟩
    · exact keeps_publishPrepared h w ..
  | publishMACSourcePolicies w entries => exact keeps_publishMACSourcePolicies h w entries
  | publishStaticDirect w ps => exact keeps_publishPrepared h w ..
  | mergeDynamicDirect w p ttl times =>
    rw [step, Lifecycle.mergeDynamicDirect]
    split
    · exact ⟨[], .refl h⟩
    split
    · exact ⟨[], .refl h⟩
    rename_i canonical _
    obtain ⟨calls, hc⟩ := keeps_other h
      (f := DataplaneSink.mergeDynamicDirect w canonical ttl) fun _ => ⟨_, rfl⟩
    dsimp only
    split
    · exact ⟨calls, hc⟩
    split
    · split
      · obtain ⟨calls', hinv⟩ := keeps_invalidate hc.fused w
        exact ⟨_, hc.trans hinv⟩
      · exact ⟨calls, hc⟩
    · rename_i backend hmerg
      exact ⟨calls, hc.update_call (by rw [mergeDynamicDirect_control hmerg])⟩
  | revokeMergedStaticDirect w p =>
    obtain ⟨calls, hc⟩ := keeps_other h
      (f := DataplaneSink.deleteMergedStaticDirect w p) fun _ => ⟨_, rfl⟩
    rw [step, Lifecycle.revokeMergedStaticDirect]
    split
    · exact ⟨calls, hc⟩
    split
    · exact ⟨calls, hc⟩
    rename_i backend hdel
    exact ⟨calls, hc.update_call (by rw [deleteMergedStaticDirect_control hdel])⟩
  | learnFlow w client dest protocol bareDirect =>
    rw [step, Lifecycle.learnFlow]
    split
    · exact ⟨[], .refl h⟩
    split
    · exact ⟨[], .refl h⟩
    · exact keeps_other h fun _ => ⟨_, rfl⟩
  | revokeFlow w client dest protocol =>
    rw [step, Lifecycle.revokeFlow]
    split
    · exact ⟨[], .refl h⟩
    · exact keeps_other h fun _ => ⟨_, rfl⟩
  | observeDNS w order addr direct evidence ttl now current =>
    rw [step, Lifecycle.observeDNS]
    dsimp only
    generalize (if ttl ≤ 0 then minute else ttl) = ttl'
    split
    · exact ⟨[], .refl h⟩
    obtain ⟨calls, hc⟩ := keeps_other h
      (f := DataplaneSink.publishDNSHint w addr direct evidence 0 ttl') fun _ => ⟨_, rfl⟩
    split
    · exact ⟨calls, hc⟩
    exact ⟨calls, hc.update_call rfl⟩
  | invalidateGeneration w => exact keeps_invalidate h w
  | close => exact ⟨[], (Keeps.refl h).update fun hon => by cases hon⟩

theorem keeps_run (h : Fused l) (es : List (Event ω)) : ∃ calls, Keeps l (run recordedStep l es) calls := by
  induction es generalizing l with
  | nil => exact ⟨[], .refl h⟩
  | cons e es ih =>
    have hent : Keeps l (entered l) [.enter] :=
      ⟨rfl, .enter (.done _), ⟨h.off, h.bound⟩, id, fun _ _ _ _ hm => absurd hm (by simp)⟩
    obtain ⟨calls, hst⟩ := keeps_step hent.fused e
    obtain ⟨calls', hr⟩ := ih hst.fused
    exact ⟨_, (hent.trans hst).trans hr⟩

end

def start {σ : Type} (options : SharedNetworkOptions) (backend : MemoryBackend) (bound : Bool) (sink : σ) :
    Lifecycle (Recorded σ) where
  options := options
  backend := backend
  bound := bound
  sink := { sink := sink }

/-- In quarantine no write enables the dataplane, and none sets the MAC flag before a complete
publication. -/
theorem quarantine_holds {σ ω : Type} [DataplaneSink σ ω] (options : SharedNetworkOptions) (backend : MemoryBackend)
    (bound : Bool) (sink : σ) (es es' : List (Event ω)) :
    ((run recordedStep (start options backend bound sink) es).dataplaneQuarantined = true →
      ∃ calls, (run recordedStep (start options backend bound sink) (es ++ es')).sink.log =
          (run recordedStep (start options backend bound sink) es).sink.log ++ calls ∧
        ∀ flags ok, .control true flags ok ∉ calls) ∧
    (∀ before between after enabled flags ok, (run recordedStep (start options backend bound sink) es).sink.log =
        before ++ .macPolicies false :: (between ++ .control enabled flags ok :: after) →
      has flags flagMACSource = true → .macPolicies true ∈ between) ∧
    (∀ before between after, (run recordedStep (start options backend bound sink) es).sink.log =
        before ++ .macPolicies false :: (between ++ .macPolicies true :: after) →
      .macPolicies true ∉ between →
      ∃ enabled flags ok after', has flags flagMACSource = true ∧ after = .control enabled flags ok :: after') := by
  obtain ⟨calls, hrun⟩ := keeps_run (l := start options backend bound sink) ⟨nofun, nofun⟩ es
  have hcs : (run recordedStep (start options backend bound sink) es).sink.log = calls :=
    hrun.log.trans (nil_append _)
  have hfuse := hrun.fuse
  refine ⟨fun hq => ?_, fun before between after enabled flags ok hlog hfl => ?_,
    fun before between after hlog hf => ?_⟩
  · obtain ⟨calls', hrun'⟩ := keeps_run hrun.fused es'
    refine ⟨calls', by rw [run_append, hrun'.log], fun flags ok hm => ?_⟩
    cases hrun'.off hq true flags ok hm
  · rw [← hcs, hlog] at hfuse
    exact hfuse.after_failure.published_before hfl rfl
  · rw [← hcs, hlog] at hfuse
    exact hfuse.after_failure.renewal rfl hf

instance told : DataplaneSink Unit Bool where
  publishStaticDirect ok _ _ _ s := (ok, s)
  mergeDynamicDirect ok _ _ s := (ok, s)
  putDirectFlow ok _ _ _ _ s := (ok, s)
  deleteDirectFlow ok _ _ _ s := (ok, s)
  publishDNSHint ok _ _ _ _ _ s := (ok, s)
  publishMACPolicies ok _ s := (ok, s)
  deleteMergedStaticDirect ok _ s := (ok, s)
  writeControlV3 ok _ _ _ _ _ s := (ok, s)
  invalidateFlowDirect ok s := (ok, s)
  disable ok s := (ok, s)
  policyGeneration _ := 1

def macOptions : SharedNetworkOptions where
  policyOffload := { enabled := true, macSourcePolicy := true }

def renewedRun : List (Event Bool) :=
  [.publishMACSourcePolicies false [], .applyControlFlags true true false false false false 0,
    .publishMACSourcePolicies true []]

theorem renewedRun_holds :
    ((run recordedStep (start macOptions newMemoryBackend true ()) renewedRun).dataplaneQuarantined = true ∧
      (run recordedStep (start macOptions newMemoryBackend true ()) renewedRun).sink.log =
        [.enter, .macPolicies false, .control true newMemoryBackend.control.flags false, .other false, .other false, .enter,
          .control false (flagIPv4 ||| flagFailureProxy ||| flagSocketAssign) true, .enter, .macPolicies true,
          .control false (flagIPv4 ||| flagFailureProxy ||| flagSocketAssign ||| flagMACSource) true]) ∧
    ∃ calls, (run recordedStep (start macOptions newMemoryBackend true ())
        (renewedRun ++ [.applyControlFlags true true true true true false 0])).sink.log =
          (run recordedStep (start macOptions newMemoryBackend true ()) renewedRun).sink.log ++ calls ∧
        ∀ flags ok, .control true flags ok ∉ calls :=
  ⟨by decide +kernel, (quarantine_holds macOptions newMemoryBackend true () renewedRun
    [.applyControlFlags true true true true true false 0]).1 (by decide +kernel)⟩

end SingBox.EbpfQuarantine
