import Mathlib.Algebra.Order.Ring.Cast
import Mathlib.Algebra.Order.Ring.Rat
import Mathlib.Data.List.Find
import Mathlib.Data.Prod.Lex
import SingBox.KernelBinding
import SingBox.PolicySoundness

namespace SingBox.KernelParity

open List Machine Values OrderFree PolicyPlan KernelBinding
open SessionLeases (SessionLease)

/-- The doubles tell of the delays what the rational numbers tell, and of the
margin that it is `q`. -/
@[mk_iff] structure Exact (q : ℚ) (hostMargin kernelMargin : Float) (delays : List Duration) : Prop where
  finite : ∀ d ∈ delays, isFinite (delayMS d) = true
  positive : ∀ d ∈ delays, decide (delayMS d ≤ 0.0) = decide (d ≤ 0) ∧ decide (delayMS d > 0.0) = decide (0 < d)
  differs : ∀ d ∈ delays, ∀ d' ∈ delays, (delayMS d != delayMS d') = decide (d ≠ d')
  less : ∀ d ∈ delays, ∀ d' ∈ delays, decide (delayMS d < delayMS d') = decide (d < d')
  kernel : ∀ c ∈ delays, ∀ i ∈ delays,
    decide (delayMS c > delayMS i * (1.0 - clamp kernelMargin 0.0 0.95)) = decide ((i : ℚ) * (1 - q) < c)
  host : ∀ c ∈ delays, ∀ i ∈ delays,
    decide (Float.ofInt c ≤ Float.ofInt i * (1.0 - hostMargin)) = decide ((c : ℚ) ≤ i * (1 - q))
  zero : decide (hostMargin ≤ 0.0) = decide (q ≤ 0)

instance (q : ℚ) (hostMargin kernelMargin : Float) (delays : List Duration) :
    Decidable (Exact q hostMargin kernelMargin delays) :=
  decidable_of_iff _ (exact_iff ..).symm

section

variable {view : HealthView} {mode : PolicyMode} {eligible : List Candidate}

def rankKey (view : HealthView) (c : Candidate) : Int ×ₗ Int ×ₗ Nat :=
  toLex ((view c).healthPriority, toLex ((view c).weightedDelay, c.id.toNat))

theorem ranksBefore_iff (hmode : mode ≠ .bulk) (a b) :
    ranksBefore view mode a b = true ↔ rankKey view a < rankKey view b := by
  rw [rankKey, rankKey, Prod.Lex.toLex_lt_toLex, Prod.Lex.toLex_lt_toLex, ranksBefore]
  simp only [hmode, false_and, if_false]
  split
  · rename_i hpri
    simp [hpri]
  rename_i hpri
  rw [not_not] at hpri
  split
  · rename_i hdel
    simp [hpri, hdel]
  rename_i hdel
  rw [not_not] at hdel
  simp [hpri, hdel, BitVec.lt_def]

theorem rankKey_le {a b} (h : rankKey view a ≤ rankKey view b) : (view a).healthPriority < (view b).healthPriority ∨
      (view a).healthPriority = (view b).healthPriority ∧ (view a).weightedDelay ≤ (view b).weightedDelay := by
  rw [rankKey, rankKey, Prod.Lex.toLex_le_toLex, Prod.Lex.toLex_le_toLex] at h
  rcases h with hlt | ⟨heq, hlt | ⟨hdel, -⟩⟩
  · exact .inl hlt
  · exact .inr ⟨heq, hlt.le⟩
  · exact .inr ⟨heq, hdel.le⟩

theorem follows_ranksBefore (hmode : mode ≠ .bulk) (hids : (eligible.map (·.id)).Nodup) :
    Follows (ranksBefore view mode) (rankKey view) eligible := by
  refine ⟨fun a _ b _ => ranksBefore_iff hmode a b, fun a ha b hb hk => ?_⟩
  have hid : a.id.toNat = b.id.toNat := congrArg (fun k => (ofLex (ofLex k).2).2) hk
  exact inj_on_of_nodup_map hids ha hb (BitVec.eq_of_toNat_eq hid)

end

/-- What is asked of the eligible candidates: their delays compare exactly and are
positive, their priorities fit into 32 bits and their hashes tell them apart. -/
@[mk_iff] structure Comparable (q : ℚ) (hostMargin kernelMargin : Float) (view : HealthView) (eligible : List Candidate) :
    Prop where
  exact : Exact q hostMargin kernelMargin (eligible.map fun c => (view c).weightedDelay)
  positive : ∀ c ∈ eligible, 0 < (view c).weightedDelay
  priorities : ∀ c ∈ eligible, (Int32.ofInt (view c).healthPriority).toInt = (view c).healthPriority
  ids : (eligible.map (·.id)).Nodup
  hashes : (eligible.map fun c => kernelCandidateID c.id).Nodup

instance (q : ℚ) (hostMargin kernelMargin : Float) (view : HealthView) (eligible : List Candidate) :
    Decidable (Comparable q hostMargin kernelMargin view eligible) :=
  decidable_of_iff _ (comparable_iff ..).symm

variable {c : Candidate}

section

variable {q : ℚ} {hostMargin kernelMargin : Float} {view : HealthView} {service : ServiceContext}
  {lease : Option SessionLease} {pinned : Option NodeID} {mode : PolicyMode} {eligible : List Candidate}

theorem mem_delays (view : HealthView) (hc : c ∈ eligible) :
    (view c).weightedDelay ∈ eligible.map fun c => (view c).weightedDelay := mem_map_of_mem hc

theorem priority_eq_iff (h : Comparable q hostMargin kernelMargin view eligible) {a b} (ha : a ∈ eligible)
    (hb : b ∈ eligible) : Int32.ofInt (view a).healthPriority = Int32.ofInt (view b).healthPriority ↔
      (view a).healthPriority = (view b).healthPriority := by
  rw [← Int32.toInt_inj, h.priorities a ha, h.priorities b hb]

theorem sortKey_eq {a b} (h : kernelCandidateSortKey a = kernelCandidateSortKey b) : a = b := by
  obtain ⟨hhi, hlo⟩ := Prod.mk.inj h
  have hhi' := congrArg UInt64.toNat hhi
  have hlo' := congrArg UInt64.toNat hlo
  simp only [UInt64.toNat_ofNat'] at hhi' hlo'
  apply BitVec.eq_of_toNat_eq
  omega

theorem sortKey_lt {a b} : (if (kernelCandidateSortKey a).1 ≠ (kernelCandidateSortKey b).1 then
        decide ((kernelCandidateSortKey a).1 < (kernelCandidateSortKey b).1)
      else if (kernelCandidateSortKey a).2 ≠ (kernelCandidateSortKey b).2 then
        decide ((kernelCandidateSortKey a).2 < (kernelCandidateSortKey b).2)
      else decide (kernelCandidateID a < kernelCandidateID b)) = decide (a < b) := by
  have hhi : ∀ {x y : NodeID}, (kernelCandidateSortKey x).1 = (kernelCandidateSortKey y).1 ↔
      x.toNat / 2 ^ 64 = y.toNat / 2 ^ 64 := by
    intro x y
    rw [← UInt64.toNat_inj, kernelCandidateSortKey, kernelCandidateSortKey]
    simp only [UInt64.toNat_ofNat']
    omega
  split
  · rename_i hne
    rw [ne_eq, hhi] at hne
    rw [decide_eq_decide, UInt64.lt_iff_toNat_lt, BitVec.lt_def, kernelCandidateSortKey, kernelCandidateSortKey]
    simp only [UInt64.toNat_ofNat']
    omega
  · rename_i hsame
    rw [not_not, hhi] at hsame
    split
    · rw [decide_eq_decide, UInt64.lt_iff_toNat_lt, BitVec.lt_def, kernelCandidateSortKey, kernelCandidateSortKey]
      simp only [UInt64.toNat_ofNat']
      omega
    · rename_i hlo
      have hid : a = b := sortKey_eq (Prod.ext (hhi.2 hsame) (not_not.1 hlo))
      rw [hid]
      simp

theorem better_eq_ranksBefore (h : Comparable q hostMargin kernelMargin view eligible) (hmode : mode ≠ .bulk)
    {kernelMode} (hker : kernelMode ≠ 3) {a b} (ha : a ∈ eligible) (hb : b ∈ eligible) :
    AdaptiveKernel.better kernelMode (kernelCandidate view service lease pinned a)
      (kernelCandidate view service lease pinned b) = ranksBefore view mode a b := by
  have hdel : ∀ {c : Candidate}, c ∈ eligible →
      AdaptiveKernel.normalizedDelay (delayMS (view c).weightedDelay) = delayMS (view c).weightedDelay := by
    intro c hc
    rw [AdaptiveKernel.normalizedDelay, h.exact.finite _ (mem_delays view hc)]
    rfl
  have hpos : ∀ {c : Candidate}, c ∈ eligible → ¬ delayMS (view c).weightedDelay ≤ 0.0 := by
    intro c hc hle
    have hsame := (h.exact.positive _ (mem_delays view hc)).1
    rw [decide_eq_decide] at hsame
    exact absurd (hsame.1 hle) (Int.not_le.2 (h.positive c hc))
  have hdif := h.exact.differs _ (mem_delays view ha) _ (mem_delays view hb)
  have hless := h.exact.less _ (mem_delays view ha) _ (mem_delays view hb)
  rw [AdaptiveKernel.better, ranksBefore]
  dsimp only [kernelCandidate]
  simp only [hmode, hker, false_and, if_false, hdel ha, hdel hb, hpos ha, hpos hb, hdif, hless,
    decide_eq_true_eq, ne_eq, priority_eq_iff h ha hb]
  split
  · refine decide_eq_decide.2 ?_
    rw [Int32.lt_iff_toInt_lt, h.priorities a ha, h.priorities b hb]
  split
  · rfl
  · exact sortKey_lt

def hostCooling (e : PolicyEngine) (pref : StickyPreference) (now : Time) : Bool :=
  e.switchCooldown > 0 ∧ pref.until_ ≠ 0 ∧ ¬now > pref.until_

def kernelCooling (cooldownMs : UInt64) (pref : StickyPreference) (now : Time) : Bool :=
  AdaptiveKernel.cooling { stickyUntil := AdaptiveKernel.cooldownEnd (kernelNowMS pref.updatedAt) cooldownMs }
    (kernelNowMS now)

@[mk_iff] structure Standing (q : ℚ) (e : PolicyEngine) (cooldownMs : UInt64) (view : HealthView) (eligible : List Candidate)
    (pref : StickyPreference) (now : Time) : Prop where
  unexpired : ¬(pref.until_ ≠ 0 ∧ now > pref.until_ + 24 * hour)
  known : ∀ c ∈ eligible, kernelCandidateID c.id = kernelCandidateID pref.handle.nodeID → isIncumbent pref c = true
  cooldowns : kernelCooling cooldownMs pref now = hostCooling e pref now
  healthier : hostCooling e pref now = true → ∀ i ∈ eligible, isIncumbent pref i = true → ∀ c ∈ eligible,
    (view i).healthPriority ≤ (view c).healthPriority
  untied : q = 0 → ∀ i ∈ eligible, isIncumbent pref i = true → ∀ c ∈ eligible, c ≠ i →
    (view c).healthPriority = (view i).healthPriority → (view c).weightedDelay ≠ (view i).weightedDelay

instance (q : ℚ) (e : PolicyEngine) (cooldownMs : UInt64) (view : HealthView) (eligible : List Candidate)
    (pref : StickyPreference) (now : Time) : Decidable (Standing q e cooldownMs view eligible pref now) :=
  decidable_of_iff _ (standing_iff ..).symm

def stableChoice (e : PolicyEngine) (view : HealthView) (eligible : List Candidate) (pref : Option StickyPreference)
    (now : Time) (b : Candidate) : Candidate :=
  match pref.bind fun pref => (eligible.find? (isIncumbent pref)).map (pref, ·) with
  | some (pref, i) => if i ≠ b ∧ (keepsIncumbent e view pref b i now).isSome then i else b
  | none => b

theorem id_of_isIncumbent {pref} (hhd : c.handle.nodeID = c.id) (h : isIncumbent pref c = true) :
    c.id = pref.handle.nodeID := by
  simp only [isIncumbent, Bool.or_eq_true, decide_eq_true_eq, Bool.and_eq_true, beq_iff_eq] at h
  rcases h with h | h
  · rw [← hhd, h]
  · exact h.1.1

variable {e : PolicyEngine} {cooldownMs : UInt64} {pref : StickyPreference} {now : Time} {b i : Candidate}

variable {config : AdaptiveKernel.Config} {state : AdaptiveKernel.State} {sticky : Option StickyPreference}

theorem withinMargin_kernelCandidate (service) (lease : Option SessionLease) (pinned : Option NodeID)
    (h : Comparable q hostMargin kernelMargin view eligible) (hmarg : config.switchMargin = kernelMargin)
    (hb : b ∈ eligible) (hi : i ∈ eligible) :
    AdaptiveKernel.withinMargin config (kernelCandidate view service lease pinned b)
        (kernelCandidate view service lease pinned i) = true ↔ (view b).healthPriority = (view i).healthPriority ∧
        ((view i).weightedDelay : ℚ) * (1 - q) < (view b).weightedDelay := by
  have hpos : ∀ {c : Candidate}, c ∈ eligible → delayMS (view c).weightedDelay > 0.0 := by
    intro c hc
    have hsame := (h.exact.positive _ (mem_delays view hc)).2
    rw [decide_eq_decide] at hsame
    exact hsame.2 (h.positive c hc)
  have hker := decide_eq_decide.1
    (h.exact.kernel _ (mem_delays view hb) _ (mem_delays view hi))
  rw [AdaptiveKernel.withinMargin, hmarg]
  dsimp only [kernelCandidate]
  simp only [h.exact.finite _ (mem_delays view hb), h.exact.finite _ (mem_delays view hi), hpos hb, hpos hi,
    decide_true, Bool.and_true, Bool.and_eq_true, decide_eq_true_eq, priority_eq_iff h hb hi]
  exact and_congr_right fun _ => decide_eq_true_iff.trans hker

theorem significantlyFaster_iff (h : Comparable q e.switchMargin kernelMargin view eligible) (hq : 0 ≤ q)
    (hb : b ∈ eligible) (hi : i ∈ eligible) :
    significantlyFaster (view b).weightedDelay (view i).weightedDelay e.switchMargin = true ↔
      if q = 0 then (view b).weightedDelay < (view i).weightedDelay
      else ((view b).weightedDelay : ℚ) ≤ (view i).weightedDelay * (1 - q) := by
  have hhost := h.exact.host _ (mem_delays view hb) _ (mem_delays view hi)
  have hzero := h.exact.zero
  rw [decide_eq_decide] at hzero hhost
  have hq' : q ≤ 0 ↔ q = 0 := ⟨fun hle => le_antisymm hle hq, fun heq => heq.le⟩
  rw [significantlyFaster, if_neg (Int.not_le.2 (h.positive i hi)), if_neg (Int.not_le.2 (h.positive b hb))]
  by_cases hqzero : q = 0
  · rw [if_pos (hzero.2 (hq'.2 hqzero)), if_pos hqzero, decide_eq_true_eq]
  · rw [if_neg fun hle => hqzero (hq'.1 (hzero.1 hle)), if_neg hqzero, decide_eq_true_eq, hhost]

theorem keepsIncumbent_iff (h : Comparable q e.switchMargin kernelMargin view eligible) (hq : 0 ≤ q)
    (hstanding : Standing q e cooldownMs view eligible pref now) (hleast : Least (rankKey view) eligible b)
    (hi : i ∈ eligible) (hinc : isIncumbent pref i = true) (hne : b ≠ i) :
    (keepsIncumbent e view pref b i now).isSome = true ↔ kernelCooling cooldownMs pref now = true ∨
      (view b).healthPriority = (view i).healthPriority ∧
        ((view i).weightedDelay : ℚ) * (1 - q) < (view b).weightedDelay := by
  rw [hstanding.cooldowns, keepsIncumbent]
  split
  case isTrue hhl =>
    have hwarm : ¬hostCooling e pref now = true := fun hcool =>
      absurd (hstanding.healthier hcool i hi hinc b hleast.1) (Int.not_le.2 hhl)
    simp only [Option.isSome_none, Bool.false_eq_true, false_iff, not_or, not_and]
    exact ⟨hwarm, fun heq => absurd heq (ne_of_lt hhl)⟩
  case isFalse hhl =>
    obtain ⟨hpri, hdel⟩ := (rankKey_le (hleast.2 i hi)).resolve_left hhl
    by_cases hcool : e.switchCooldown > 0 ∧ pref.until_ ≠ 0 ∧ ¬now > pref.until_
    · simp [hostCooling, hcool]
    have hhost : hostCooling e pref now = false := decide_eq_false hcool
    rw [if_neg hcool, if_neg (not_lt.2 hpri.le), hhost]
    have hfast := significantlyFaster_iff h hq hleast.1 hi
    have hkeep : (if (!significantlyFaster (view b).weightedDelay (view i).weightedDelay e.switchMargin) = true then
        some DecisionReason.stickyMargin else none).isSome = true ↔
        ¬significantlyFaster (view b).weightedDelay (view i).weightedDelay e.switchMargin = true := by
      split <;> simp_all
    rw [hkeep, hfast]
    simp only [Bool.false_eq_true, false_or, hpri, true_and]
    by_cases hqzero : q = 0
    · have hnot := hstanding.untied hqzero i hi hinc b hleast.1 hne hpri
      have hlt : (view b).weightedDelay < (view i).weightedDelay := lt_of_le_of_ne hdel hnot
      simp [hqzero, hlt, hdel]
    · rw [if_neg hqzero, not_le]

theorem kernelCandidateID_ne_zero (id) : kernelCandidateID id ≠ 0 := by
  rw [kernelCandidateID]
  split
  · decide
  · assumption

theorem findByID_incumbent (hhandles : ∀ c ∈ eligible, c.handle.nodeID = c.id)
    (hkn : ∀ c ∈ eligible, kernelCandidateID c.id = kernelCandidateID pref.handle.nodeID → isIncumbent pref c = true) :
    AdaptiveKernel.findByID (eligible.map (kernelCandidate view service lease pinned))
      (kernelCandidateID pref.handle.nodeID) =
      (eligible.find? (isIncumbent pref)).map (kernelCandidate view service lease pinned) := by
  rw [AdaptiveKernel.findByID, if_neg (kernelCandidateID_ne_zero _), find?_map]
  congr 1
  apply find?_congr
  intro c hc
  rw [Bool.eq_iff_iff, Function.comp_apply, beq_iff_eq]
  constructor
  · exact hkn c hc
  · intro hinc
    exact congrArg kernelCandidateID (id_of_isIncumbent (hhandles c hc) hinc)

def Holds (state : AdaptiveKernel.State) (cooldownMs : UInt64) : Option StickyPreference → Prop
  | none => state.stickyID = 0
  | some pref => state.stickyID = kernelCandidateID pref.handle.nodeID ∧
      state.stickyUntil = AdaptiveKernel.cooldownEnd (kernelNowMS pref.updatedAt) cooldownMs

theorem propose_eq (h : Comparable q hostMargin kernelMargin view eligible)
    (hmode : config.mode = 0 ∨ config.mode = 1) (hunpinned : ∀ c ∈ eligible, pinned ≠ some c.id)
    (hleast : Least (rankKey view) eligible b) :
    AdaptiveKernel.propose state config (eligible.map (kernelCandidate view service lease pinned)) =
      match eligible.find? (leasedBy lease) with
      | some c => some (kernelCandidate view service lease pinned c, 2)
      | none => some (kernelCandidate view service lease pinned b, 0) := by
  have hthr : config.mode ≠ 3 := by
    rcases hmode with hmode | hmode <;> rw [hmode] <;> decide
  set cs := eligible.map (kernelCandidate view service lease pinned) with hcs
  have hpin : AdaptiveKernel.pinnedChoice cs = none := by
    rw [AdaptiveKernel.pinnedChoice, Option.map_eq_none_iff, find?_eq_none]
    intro x hx
    obtain ⟨c, hc, rfl⟩ := mem_map.1 hx
    simp [kernelCandidate, boolByte, hunpinned c hc]
  have hls : AdaptiveKernel.leasedChoice config cs =
      (eligible.find? (leasedBy lease)).map fun c => (kernelCandidate view service lease pinned c, 2) := by
    rw [AdaptiveKernel.leasedChoice, hcs, find?_map, Option.map_map]
    congr 1
    apply find?_congr
    intro c _
    cases hc : leasedBy lease c <;> simp [kernelCandidate, boolByte, hc, hthr, AdaptiveKernel.isEligible]
  have hbulk : AdaptiveKernel.bulkChoice state config cs = none := if_pos hthr
  have hrk : AdaptiveKernel.rankedChoice config cs = some (kernelCandidate view service lease pinned b, 0) := by
    have hall : cs.filter AdaptiveKernel.isEligible = cs := by
      rw [filter_eq_self]
      intro c hc
      obtain ⟨c, -, rfl⟩ := mem_map.1 hc
      rfl
    have hada : PolicyMode.adaptive ≠ .bulk := by decide
    rw [AdaptiveKernel.rankedChoice, hall, hcs,
      scan_map fun a ha c => better_eq_ranksBefore h hada hthr ha,
      scan_eq_of_least (follows_ranksBefore hada h.ids) hleast]
    rfl
  rw [AdaptiveKernel.propose, hpin, hls, hbulk, hrk]
  cases eligible.find? (leasedBy lease) <;> rfl

def firstChoice (e : PolicyEngine) (view : HealthView) (eligible : List Candidate) (lease : Option SessionLease)
    (sticky : Option StickyPreference) (now : Time) (b : Candidate) : Candidate :=
  (eligible.find? (leasedBy lease)).getD (stableChoice e view eligible sticky now b)

theorem stableChoice_mem (hb : b ∈ eligible) : stableChoice e view eligible sticky now b ∈ eligible := by
  rw [stableChoice]
  split
  · rename_i pref i hf
    split
    · obtain ⟨pref', -, hf⟩ := Option.bind_eq_some_iff.1 hf
      obtain ⟨i', hi', hpair⟩ := Option.map_eq_some_iff.1 hf
      rw [← (Prod.mk.inj hpair).2]
      exact mem_of_find?_eq_some hi'
    · exact hb
  · exact hb

theorem firstChoice_mem (hb : b ∈ eligible) : firstChoice e view eligible lease sticky now b ∈ eligible := by
  rw [firstChoice]
  cases hf : eligible.find? (leasedBy lease) with
  | none => exact stableChoice_mem hb
  | some c => exact mem_of_find?_eq_some hf

section

variable (service : ServiceContext) (lease : Option SessionLease)
  (h : Comparable q e.switchMargin config.switchMargin view eligible) (hq : 0 ≤ q)
  (hhandles : ∀ c ∈ eligible, c.handle.nodeID = c.id) (hmode : config.mode = 0 ∨ config.mode = 1)
  (hholds : Holds state cooldownMs sticky)
  (hstanding : ∀ pref ∈ sticky, Standing q e cooldownMs view eligible pref now)
  (hunpinned : ∀ c ∈ eligible, pinned ≠ some c.id)
include h hq hhandles hmode hholds hstanding hunpinned

theorem retain_eq (hunl : ∀ c ∈ eligible, leasedBy lease c = false) (hleast : Least (rankKey view) eligible b) :
    (AdaptiveKernel.retain state config (eligible.map (kernelCandidate view service lease pinned)) (kernelNowMS now)
      (kernelCandidate view service lease pinned b, 0)).1 =
      kernelCandidate view service lease pinned (stableChoice e view eligible sticky now b) := by
  rw [AdaptiveKernel.retain, if_pos ⟨hmode, rfl⟩]
  cases sticky with
  | none =>
    have hno : AdaptiveKernel.findByID (eligible.map (kernelCandidate view service lease pinned)) state.stickyID =
        none := if_pos hholds
    rw [hno]
    rfl
  | some pref =>
    have hstanding := hstanding pref rfl
    rw [hholds.1, findByID_incumbent hhandles hstanding.known, stableChoice, Option.bind_some]
    cases hf : eligible.find? (isIncumbent pref) with
    | none => rfl
    | some i =>
      have hi := mem_of_find?_eq_some hf
      have hinc := find?_some hf
      have hid : kernelCandidateID b.id = kernelCandidateID i.id ↔ i = b := by
        constructor
        · intro hid
          exact (inj_on_of_nodup_map h.hashes hleast.1 hi hid).symm
        · rintro rfl
          rfl
      have hcooli : AdaptiveKernel.cooling state (kernelNowMS now) = kernelCooling cooldownMs pref now := by
        rw [AdaptiveKernel.cooling, hholds.2]
        rfl
      dsimp only [Option.map_some]
      by_cases hsame : i = b
      · rw [if_neg fun hne => hne.2.2.2 (hid.2 hsame), if_neg fun hne => hne.1 hsame]
      have hkeeps := keepsIncumbent_iff h hq hstanding hleast hi hinc (Ne.symm hsame)
      have hmarg := withinMargin_kernelCandidate service lease pinned h rfl hleast.1 hi
      rw [if_pos ⟨rfl, by simp [kernelCandidate, boolByte, hunpinned i hi],
        by simp [kernelCandidate, boolByte, hunl i hi], fun heq => hsame (hid.1 heq)⟩, hcooli]
      by_cases hcool : kernelCooling cooldownMs pref now = true
      · rw [if_pos hcool, if_pos ⟨hsame, hkeeps.2 (.inl hcool)⟩]
      rw [if_neg hcool]
      by_cases hwin : AdaptiveKernel.withinMargin config (kernelCandidate view service lease pinned b)
          (kernelCandidate view service lease pinned i) = true
      · rw [if_pos hwin, if_pos ⟨hsame, hkeeps.2 (.inr (hmarg.1 hwin))⟩]
      rw [if_neg hwin, if_neg]
      rintro ⟨-, hkeep⟩
      exact (hkeeps.1 hkeep).elim hcool fun hm => hwin (hmarg.2 hm)

theorem choose_eq (hlen : eligible.length ≤ AdaptiveKernel.maxCandidates)
    (hleast : Least (rankKey view) eligible b) :
    (AdaptiveKernel.choose state config (eligible.map (kernelCandidate view service lease pinned))
        (kernelNowMS now)).1 = AdaptiveKernel.commit state config (kernelNowMS now)
          (kernelCandidateID (firstChoice e view eligible lease sticky now b).id) ∧
      (AdaptiveKernel.choose state config (eligible.map (kernelCandidate view service lease pinned))
        (kernelNowMS now)).2.selectedID = kernelCandidateID (firstChoice e view eligible lease sticky now b).id := by
  have hnon : eligible.length ≠ 0 := fun hzero => by
    rw [length_eq_zero_iff.1 hzero] at hleast
    exact absurd hleast.1 not_mem_nil
  rw [AdaptiveKernel.choose, length_map, if_neg (not_or.2 ⟨hnon, Nat.not_lt.2 hlen⟩),
    propose_eq h hmode hunpinned hleast, firstChoice]
  cases hf : eligible.find? (leasedBy lease) with
  | some c =>
    have hret : AdaptiveKernel.retain state config (eligible.map (kernelCandidate view service lease pinned))
        (kernelNowMS now) (kernelCandidate view service lease pinned c, 2) =
        (kernelCandidate view service lease pinned c, 2) := by
      rw [AdaptiveKernel.retain, if_neg]
      rintro ⟨-, hreas⟩
      have hnot : (2 : UInt8) ≠ 0 := by decide
      exact hnot hreas
    dsimp only
    rw [hret]
    exact ⟨rfl, rfl⟩
  | none =>
    have hunl : ∀ c ∈ eligible, leasedBy lease c = false := by
      intro c hc
      exact Bool.eq_false_iff.2 (find?_eq_none.1 hf c hc)
    have hret := retain_eq service lease h hq hhandles hmode hholds hstanding hunpinned hunl hleast
    dsimp only [AdaptiveKernel.decisionOf]
    rw [hret]
    exact ⟨rfl, rfl⟩

end

end

end SingBox.KernelParity
