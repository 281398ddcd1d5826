import SingBox.AdaptiveKernel
import SingBox.FloatOrder
import SingBox.Runs

namespace SingBox.AdaptiveOrder

open OrderFree FloatOrder AdaptiveKernel Runs

def throughputRank (mode : UInt8) (c : Candidate) : ℕ ×ₗ Placeᵒᵈ :=
  if mode = 3 then
    if throughputKnown c then toLex (0, OrderDual.toDual (key c.throughputBps))
    else toLex (1, OrderDual.toDual (triple 0 0 0))
  else toLex (0, OrderDual.toDual (triple 0 0 0))

def delayRank (c : Candidate) : ℕ ×ₗ Place :=
  if normalizedDelay c.weightedDelayMs ≤ 0.0 then toLex (1, triple 0 0 0)
  else toLex (0, key (normalizedDelay c.weightedDelayMs))

abbrev Rank := ℤ ×ₗ (ℕ ×ₗ Placeᵒᵈ) ×ₗ (ℕ ×ₗ Place) ×ₗ ℕ ×ₗ ℕ ×ₗ ℕ

def rank (mode : UInt8) (c : Candidate) : Rank :=
  toLex (c.healthPriority.toInt, toLex (throughputRank mode c, toLex (delayRank c,
    toLex (c.sortKeyHi.toNat, toLex (c.sortKeyLo.toNat, c.id.toNat)))))

variable {mode : UInt8} {a b : Candidate}

theorem rank_lt : rank mode a < rank mode b ↔
    a.healthPriority.toInt < b.healthPriority.toInt ∨ a.healthPriority.toInt = b.healthPriority.toInt ∧
      (throughputRank mode a < throughputRank mode b ∨ throughputRank mode a = throughputRank mode b ∧
        (delayRank a < delayRank b ∨ delayRank a = delayRank b ∧
          (a.sortKeyHi < b.sortKeyHi ∨ a.sortKeyHi = b.sortKeyHi ∧
            (a.sortKeyLo < b.sortKeyLo ∨ a.sortKeyLo = b.sortKeyLo ∧ a.id < b.id)))) := by
  simp only [rank, Prod.Lex.toLex_lt_toLex, UInt64.lt_iff_toNat_lt, UInt64.toNat_inj]

theorem id_of_rank_eq (h : rank mode a = rank mode b) : a.id = b.id := by
  simp only [rank, toLex_inj, Prod.mk.injEq] at h
  exact UInt64.toNat_inj.1 h.2.2.2.2.2

theorem isNumber_delay (value) : IsNumber (normalizedDelay value) := by
  rw [normalizedDelay]
  split
  case isTrue => exact isNumber_of_beq (by decide +kernel)
  case isFalse hfin => exact isNumber_of_isFinite (by simpa using hfin)

theorem isNumber_zero : IsNumber 0.0 := isNumber_of_beq (by decide +kernel)

theorem isNumber_throughput {c} (h : throughputKnown c = true) : IsNumber c.throughputBps := by
  rw [throughputKnown, Bool.and_eq_true] at h
  exact isNumber_of_isFinite h.2

def ThroughputDecides (mode : UInt8) (a b : Candidate) : Prop :=
  mode = 3 ∧ (throughputKnown a ≠ throughputKnown b ∨
    throughputKnown a = true ∧ (a.throughputBps != b.throughputBps) = true)

theorem throughputRank_eq (h : ¬ThroughputDecides mode a b) : throughputRank mode a = throughputRank mode b := by
  rw [throughputRank, throughputRank]
  by_cases hm : mode = 3
  · rw [if_pos hm]
    have hkn : throughputKnown a = throughputKnown b := by
      by_contra hne
      exact h ⟨hm, .inl hne⟩
    rw [← hkn]
    split
    case isTrue ha =>
      have hsame : (a.throughputBps == b.throughputBps) = true := by
        by_contra hne
        exact h ⟨hm, .inr ⟨ha, by simpa [bne] using hne⟩⟩
      rw [(beq_iff (isNumber_throughput ha) (isNumber_throughput (hkn ▸ ha))).1 hsame]
    case isFalse => rfl
  · rw [if_neg hm, if_neg hm]

theorem throughputRank_of_ne (hm : mode = 3) (hne : throughputKnown a ≠ throughputKnown b) :
    throughputRank mode a ≠ throughputRank mode b ∧
      (throughputKnown a = true ↔ throughputRank mode a < throughputRank mode b) := by
  rw [throughputRank, throughputRank, if_pos hm, if_pos hm]
  cases ha : throughputKnown a with
  | true =>
    have hb : throughputKnown b = false := by simpa [ha] using hne.symm
    simp [hb, Prod.Lex.toLex_lt_toLex]
  | false =>
    have hb : throughputKnown b = true := by simpa [ha] using hne.symm
    simp [hb, Prod.Lex.toLex_lt_toLex]

theorem throughputRank_of_known (hm : mode = 3) (ha : throughputKnown a = true) (hb : throughputKnown b = true)
    (hne : (a.throughputBps != b.throughputBps) = true) : throughputRank mode a ≠ throughputRank mode b ∧
      (a.throughputBps > b.throughputBps ↔ throughputRank mode a < throughputRank mode b) := by
  have hk : key a.throughputBps ≠ key b.throughputBps := by
    intro heq
    have hsame := (beq_iff (isNumber_throughput ha) (isNumber_throughput hb)).2 heq
    rw [bne, hsame] at hne
    cases hne
  rw [throughputRank, throughputRank, if_pos hm, if_pos hm, if_pos ha, if_pos hb, gt_iff_lt,
    lt_iff (isNumber_throughput hb) (isNumber_throughput ha), Prod.Lex.toLex_lt_toLex]
  simpa using hk

/-- Unknown delays, those that are not positive, are one and the same. -/
def UnknownAgree (a b : Candidate) : Prop :=
  normalizedDelay a.weightedDelayMs ≤ 0.0 → normalizedDelay b.weightedDelayMs ≤ 0.0 →
    (normalizedDelay a.weightedDelayMs == normalizedDelay b.weightedDelayMs) = true

theorem delayRank_eq (h : (normalizedDelay a.weightedDelayMs == normalizedDelay b.weightedDelayMs) = true) :
    delayRank a = delayRank b := by
  have hk := (beq_iff (isNumber_delay _) (isNumber_delay _)).1 h
  have hle : normalizedDelay a.weightedDelayMs ≤ 0.0 ↔ normalizedDelay b.weightedDelayMs ≤ 0.0 := by
    rw [le_iff (isNumber_delay _) isNumber_zero, le_iff (isNumber_delay _) isNumber_zero, hk]
  rw [delayRank, delayRank, hk]
  split
  case isTrue ha => rw [if_pos (hle.1 ha)]
  case isFalse ha => rw [if_neg fun hb => ha (hle.2 hb)]

theorem delayRank_of_ne (hagr : UnknownAgree a b)
    (hne : (normalizedDelay a.weightedDelayMs != normalizedDelay b.weightedDelayMs) = true) :
    delayRank a ≠ delayRank b ∧
      ((if normalizedDelay a.weightedDelayMs ≤ 0.0 then false
        else if normalizedDelay b.weightedDelayMs ≤ 0.0 then true
        else decide (normalizedDelay a.weightedDelayMs < normalizedDelay b.weightedDelayMs)) = true ↔
        delayRank a < delayRank b) := by
  have hk : key (normalizedDelay a.weightedDelayMs) ≠ key (normalizedDelay b.weightedDelayMs) := by
    intro heq
    rw [bne, (beq_iff (isNumber_delay _) (isNumber_delay _)).2 heq] at hne
    cases hne
  rw [delayRank, delayRank]
  by_cases ha : normalizedDelay a.weightedDelayMs ≤ 0.0
  · by_cases hb : normalizedDelay b.weightedDelayMs ≤ 0.0
    · rw [bne, hagr ha hb] at hne
      cases hne
    · rw [if_pos ha, if_pos ha, if_neg hb, Prod.Lex.toLex_lt_toLex]
      simp
  · by_cases hb : normalizedDelay b.weightedDelayMs ≤ 0.0
    · rw [if_neg ha, if_neg ha, if_pos hb, if_pos hb, Prod.Lex.toLex_lt_toLex]
      simp
    rw [if_neg ha, if_neg ha, if_neg hb, if_neg hb, decide_eq_true_eq,
      lt_iff (isNumber_delay _) (isNumber_delay _), Prod.Lex.toLex_lt_toLex]
    simpa using hk

theorem better_iff (hagr : UnknownAgree a b) : better mode a b = true ↔ rank mode a < rank mode b := by
  rw [better, rank_lt]
  by_cases hhl : a.healthPriority = b.healthPriority
  · rw [if_neg (not_not.2 hhl), hhl]
    by_cases hdec : ThroughputDecides mode a b
    · obtain ⟨hm, hne | ⟨ha, hne⟩⟩ := hdec
      · obtain ⟨hrank, hiff⟩ := throughputRank_of_ne hm hne
        rw [if_pos ⟨hm, hne⟩]
        simpa [hrank] using hiff
      · by_cases hkn : throughputKnown a = throughputKnown b
        · obtain ⟨hrank, hiff⟩ := throughputRank_of_known hm ha (hkn ▸ ha) hne
          rw [if_neg fun h => h.2 hkn, if_pos ⟨hm, ha, hne⟩]
          simpa [hrank] using hiff
        · obtain ⟨hrank, hiff⟩ := throughputRank_of_ne hm hkn
          rw [if_pos ⟨hm, hkn⟩]
          simpa [hrank] using hiff
    · rw [if_neg fun h => hdec ⟨h.1, .inl h.2⟩, if_neg fun h => hdec ⟨h.1, .inr h.2⟩,
        throughputRank_eq hdec]
      dsimp only
      split
      case isTrue hne =>
        obtain ⟨hrank, hiff⟩ := delayRank_of_ne hagr hne
        simpa [hrank] using hiff
      case isFalse heq =>
      have hsame : (normalizedDelay a.weightedDelayMs == normalizedDelay b.weightedDelayMs) = true := by
        simpa [bne] using heq
      rw [delayRank_eq hsame]
      by_cases hhi : a.sortKeyHi = b.sortKeyHi
      · by_cases hlo : a.sortKeyLo = b.sortKeyLo
        · simp [hhi, hlo]
        · simp [hhi, hlo]
      · simp [hhi]
  · rw [if_pos hhl, decide_eq_true_eq, Int32.lt_iff_toInt_lt]
    have hne : a.healthPriority.toInt ≠ b.healthPriority.toInt := fun h => hhl (Int32.toInt_inj.1 h)
    simp [hne]

/-- The candidates of a call: told apart by their ids, at most one pinned and
one leased, and the eligible ones with unknown delays have one and the same. -/
structure Listed (candidates : List Candidate) : Prop where
  ids : (candidates.map (·.id)).Nodup
  onePinned : ∀ a ∈ candidates, ∀ b ∈ candidates, a.pinned ≠ 0 → b.pinned ≠ 0 → a.id = b.id
  oneLeased : ∀ a ∈ candidates, ∀ b ∈ candidates, a.leased ≠ 0 → b.leased ≠ 0 → a.id = b.id
  unknownAgree : ∀ a ∈ candidates, ∀ b ∈ candidates, isEligible a = true → isEligible b = true → UnknownAgree a b

/-- Some candidate is eligible, or the fallback has no choice to make. -/
def FallbackClear (config : Config) (candidates : List Candidate) : Prop :=
  (∃ c ∈ candidates, isEligible c = true) ∨ config.manualFailure ≠ 0 ∨
    ∀ a ∈ candidates, ∀ b ∈ candidates, a.supported ≠ 0 → b.supported ≠ 0 → a.id = b.id

variable {candidates others : List Candidate}

section

variable (h : Listed candidates)
include h

theorem Listed.eq_of_id (ha : a ∈ candidates) (hb : b ∈ candidates) (hid : a.id = b.id) :
    a = b := List.inj_on_of_nodup_map h.ids ha hb hid

theorem Listed.follows (mode) : OrderFree.Follows (better mode) (rank mode) (candidates.filter isEligible) := by
  constructor
  · intro a ha b hb
    rw [List.mem_filter] at ha hb
    exact better_iff (h.unknownAgree a ha.1 b hb.1 ha.2 hb.2)
  · intro a ha b hb hrank
    exact h.eq_of_id (List.mem_of_mem_filter ha) (List.mem_of_mem_filter hb) (id_of_rank_eq hrank)

theorem Listed.rankedChoice_isSome (config) (hsome : ∃ c ∈ candidates, isEligible c = true) :
    ∃ choice, rankedChoice config candidates = some choice := by
  obtain ⟨c, hc, helig⟩ := hsome
  rw [rankedChoice]
  rcases scan_spec (h.follows config.mode) with ⟨hnil, -⟩ | ⟨a, ha, -⟩
  · have hm : c ∈ candidates.filter isEligible := List.mem_filter.2 ⟨hc, helig⟩
    rw [hnil] at hm
    cases hm
  · exact ⟨(a, 0), by rw [ha]; rfl⟩

section

variable (hperm : candidates.Perm others)
include hperm

section

variable (state : State) (config : Config) (now : UInt64) (choice : Choice)

theorem Listed.buildOrder_eq (mode) : buildOrder candidates mode = buildOrder others mode := by
  rw [buildOrder, buildOrder, sortFromEnd_eq_of_perm (h.follows mode) (hperm.filter _)]

theorem Listed.pinnedChoice_eq : pinnedChoice candidates = pinnedChoice others := by
  rw [pinnedChoice, pinnedChoice, find?_eq_of_perm hperm]
  intro a ha b hb hpa hpb
  rw [Bool.and_eq_true, bne_iff_ne] at hpa hpb
  exact h.eq_of_id ha hb (h.onePinned a ha b hb hpa.1 hpb.1)

theorem Listed.leasedChoice_eq : leasedChoice config candidates = leasedChoice config others := by
  rw [leasedChoice, leasedChoice, find?_eq_of_perm hperm]
  intro a ha b hb hpa hpb
  rw [Bool.and_eq_true, Bool.and_eq_true, bne_iff_ne, bne_iff_ne] at hpa hpb
  exact h.eq_of_id ha hb (h.oneLeased a ha b hb hpa.1.2 hpb.1.2)

theorem Listed.bulkChoice_eq : bulkChoice state config candidates = bulkChoice state config others := by
  rw [bulkChoice, bulkChoice, h.buildOrder_eq hperm, hperm.any_eq]

theorem Listed.rankedChoice_eq : rankedChoice config candidates = rankedChoice config others := by
  rw [rankedChoice, rankedChoice, scan_eq_of_perm (h.follows config.mode) (hperm.filter _)]

theorem Listed.findByID_eq (id) : findByID candidates id = findByID others id := by
  rw [findByID, findByID, find?_eq_of_perm hperm]
  intro a ha b hb hida hidb
  rw [beq_iff_eq] at hida hidb
  exact h.eq_of_id ha hb (hida.trans hidb.symm)

theorem Listed.propose_eq {config} (hclear : FallbackClear config candidates) :
    propose state config candidates = propose state config others := by
  rw [propose, propose, h.pinnedChoice_eq hperm, h.leasedChoice_eq hperm, h.bulkChoice_eq hperm,
    h.rankedChoice_eq hperm]
  congr 3
  rcases hclear with hsome | hcl | hsole
  · obtain ⟨choice, hchoice⟩ := h.rankedChoice_isSome config hsome
    rw [← h.rankedChoice_eq hperm, hchoice]
    rfl
  · rw [fallbackChoice, fallbackChoice, if_neg hcl, if_neg hcl]
  · rw [fallbackChoice, fallbackChoice, find?_eq_of_perm hperm]
    intro a ha b hb hsa hsb
    rw [bne_iff_ne] at hsa hsb
    exact h.eq_of_id ha hb (hsole a ha b hb hsa hsb)

theorem Listed.retain_eq :
    retain state config candidates now choice = retain state config others now choice := by
  rw [retain, retain, h.findByID_eq hperm]

theorem Listed.choose_eq {config} (hclear : FallbackClear config candidates) (now) :
    choose state config candidates now = choose state config others now := by
  rw [choose, choose, hperm.length_eq, h.propose_eq hperm state hclear]
  split
  · rfl
  split
  · rfl
  · rw [h.retain_eq hperm]

end

end

theorem Listed.pairwise_buildOrder (mode) :
    (buildOrder candidates mode).Pairwise fun a b => better mode a b = true := by
  have hfol := h.follows mode
  have hperm := perm_sortFromEnd (better mode) (candidates.filter isEligible)
  have hnd : (sortFromEnd (better mode) (candidates.filter isEligible)).Nodup := by
    rw [hperm.nodup_iff]
    exact (List.Nodup.of_map _ h.ids).filter _
  rw [buildOrder, List.pairwise_reverse]
  refine .imp_of_mem ?_ ((pairwise_sortFromEnd hfol).and hnd)
  rintro a b ha hb ⟨hle, hne⟩
  rw [hperm.mem_iff] at ha hb
  rw [hfol.lt b hb a ha]
  exact lt_of_le_of_ne hle fun heq => hne (hfol.inj b hb a ha heq).symm

end

structure StrictTotal (mode : UInt8) (candidates : List Candidate) : Prop where
  irrefl : ∀ a ∈ candidates, better mode a a = false
  trans : ∀ a ∈ candidates, ∀ b ∈ candidates, ∀ c ∈ candidates, better mode a b = true → better mode b c = true →
    better mode a c = true
  total : ∀ a ∈ candidates, ∀ b ∈ candidates, a.id ≠ b.id → better mode a b = true ∨ better mode b a = true

theorem Listed.strictTotal (h : Listed candidates) (mode) : StrictTotal mode (candidates.filter isEligible) := by
  have hfol := h.follows mode
  constructor
  · intro a ha
    rw [← Bool.not_eq_true, hfol.lt a ha a ha]
    exact lt_irrefl _
  · intro a ha b hb c hc hab hbc
    rw [hfol.lt a ha b hb] at hab
    rw [hfol.lt b hb c hc] at hbc
    rw [hfol.lt a ha c hc]
    exact lt_trans hab hbc
  · intro a ha b hb hne
    rw [hfol.lt a ha b hb, hfol.lt b hb a ha]
    exact lt_or_gt_of_ne fun heq => hne (id_of_rank_eq heq)

/-- The decision, and the state it leaves, do not depend on the order of the candidates. -/
theorem choose_ignores_order (state : State) (config : Config) (now : UInt64) (h : Listed candidates)
    (hperm : candidates.Perm others) :
    (FallbackClear config candidates →
      choose state config candidates now = choose state config others now) ∧
    ∀ mode, StrictTotal mode (candidates.filter isEligible) ∧
      (buildOrder candidates mode).Perm (candidates.filter isEligible) ∧
      (buildOrder candidates mode).Pairwise (fun a b => better mode a b = true) ∧
      buildOrder candidates mode = buildOrder others mode := by
  refine ⟨fun hclear => h.choose_eq hperm state hclear now, fun mode => ?_⟩
  refine ⟨h.strictTotal mode, ?_, h.pairwise_buildOrder mode, h.buildOrder_eq hperm mode⟩
  exact (List.reverse_perm _).trans (perm_sortFromEnd ..)

instance (a b : Candidate) : Decidable (UnknownAgree a b) :=
  inferInstanceAs (Decidable (_ → _ → _ = true))

def line (id : UInt64) (delay : Float) (eligible : UInt8) : Candidate :=
  { id := id, healthPriority := 0, weightedDelayMs := delay, throughputBps := 0.0, throughputSamples := 0.0
    supported := 1, eligible := eligible, pinned := 0, leased := 0 }

def latencyConfig : Config := { switchMargin := 0.15, switchCooldownMs := 0, mode := 2, manualFailure := 0 }

def threeLines : List Candidate := [line 1 0.0 1, line 2 25.0 1, line 3 0.0 1]

theorem listed_threeLines : Listed threeLines :=
  ⟨by decide +kernel, by decide +kernel, by decide +kernel, by decide +kernel⟩

theorem threeLines_reversed :
    choose {} latencyConfig threeLines 0 = choose {} latencyConfig threeLines.reverse 0 ∧
      (choose {} latencyConfig threeLines 0).2.selectedID = 2 :=
  ⟨(choose_ignores_order {} latencyConfig 0 listed_threeLines (List.reverse_perm _).symm).1
    (.inl ⟨line 2 25.0 1, by simp [threeLines], rfl⟩), by decide +kernel⟩

/-- Two eligible lines with different delays that are not positive, and two
lines of which none is eligible: the first one listed is taken. -/
theorem first_listed_is_taken :
    (choose {} latencyConfig [line 1 0.0 1, line 2 (-1.0) 1] 0).2.selectedID = 1 ∧
    (choose {} latencyConfig [line 2 (-1.0) 1, line 1 0.0 1] 0).2.selectedID = 2 ∧
    (choose {} latencyConfig [line 1 20.0 0, line 2 30.0 0] 0).2.selectedID = 1 ∧
    (choose {} latencyConfig [line 2 30.0 0, line 1 20.0 0] 0).2.selectedID = 2 := by
  decide +kernel

/-- The line is listed and eligible, and no candidate is pinned or leased. -/
structure Steady (id : UInt64) (candidates : List Candidate) : Prop where
  length : candidates.length ≤ maxCandidates
  found : ∃ c, findByID candidates id = some c ∧ isEligible c = true
  plain : ∀ c ∈ candidates, c.pinned = 0 ∧ c.leased = 0

theorem choose_steady {state config candidates now} (hm : config.mode = 0 ∨ config.mode = 1)
    (h : Steady state.stickyID candidates) (hcool : cooling state now = true) :
    (choose state config candidates now).1 = { state with selectedID := state.stickyID } := by
  obtain ⟨c, hf, helig⟩ := h.found
  have hfd := hf
  rw [findByID] at hfd
  split at hfd
  · cases hfd
  have hme := List.mem_of_find?_eq_some hfd
  have hid : c.id = state.stickyID := by simpa using List.find?_some hfd
  obtain ⟨d, hd⟩ : ∃ d, scan (better config.mode) (candidates.filter isEligible) = some d :=
    scan_isSome (List.ne_nil_of_mem (List.mem_filter.2 ⟨hme, helig⟩))
  have hplain := h.plain
  have hprop : propose state config candidates = some (d, 0) := by
    have hpin : pinnedChoice candidates = none := by simp [pinnedChoice]; grind
    have hls : leasedChoice config candidates = none := by simp [leasedChoice]; grind
    have hbulk : bulkChoice state config candidates = none := by grind [bulkChoice]
    rw [propose, hpin, hls, hbulk, rankedChoice, hd]
    rfl
  have hsome : ¬ (candidates.length = 0 ∨ candidates.length > maxCandidates) := by
    have := List.length_pos_of_mem hme
    have := h.length
    omega
  rw [choose, if_neg hsome, hprop]
  dsimp only
  rw [retain, if_pos ⟨hm, rfl⟩, hf]
  grind [commit]

/-- While it cools down, a line that is listed and eligible stays selected, however often it is chosen anew. -/
theorem selection_held {state : State} {config : Config} (hmode : config.mode = 0 ∨ config.mode = 1)
    {call : List Candidate × UInt64} {calls : List (List Candidate × UInt64)}
    (hcalls : ∀ c ∈ call :: calls, Steady state.stickyID c.1 ∧ cooling state c.2 = true) :
    run (fun s c => (choose s config c.1 c.2).1) state (call :: calls) = { state with selectedID := state.stickyID } := by
  induction calls generalizing state call with
  | nil => exact choose_steady hmode (hcalls call List.mem_cons_self).1 (hcalls call List.mem_cons_self).2
  | cons next calls ih =>
    obtain ⟨hc, hr⟩ := List.forall_mem_cons.1 hcalls
    rw [run_cons, choose_steady hmode hc.1 hc.2]
    exact ih hr

theorem slower_line_held :
    run (fun s c => (choose s { latencyConfig with mode := 1 } c.1 c.2).1) ⟨3, 3, 9, 0⟩
      [(threeLines, 1), (threeLines, 8)] = ⟨3, 3, 9, 0⟩ := by
  refine selection_held (.inr rfl) ?_
  have h : Steady 3 threeLines := ⟨by decide, ⟨line 3 0.0 1, rfl, rfl⟩, by simp [threeLines, line]⟩
  simp [h, cooling]

end SingBox.AdaptiveOrder
