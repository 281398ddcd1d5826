import SingBox.ProbeVerdicts

namespace SingBox.ProbeTally

open List Option Values Maps Observations OrderFree ProbeVerdicts

/-! # What a probe run finds out, in terms of its samples -/

section

variable (spec : ProbeRunSpec) (samples : List ProbeSample)

def Faulted (t : ProbeTargetID) : Prop := ∃ s ∈ samples, s.targetID = t ∧ s.sampleClass = .targetFault

instance (t : ProbeTargetID) : Decidable (Faulted samples t) :=
  inferInstanceAs (Decidable (∃ s ∈ samples, s.targetID = t ∧ s.sampleClass = .targetFault))

def failingClasses : List ProbeSampleClass := [.blocked, .nodeFailure]

def Reported (t : ProbeTargetID) (c : ProbeSampleClass) (n : NodeHandle) : Prop :=
  ∃ s ∈ samples, s.handle = n ∧ s.targetID = t ∧ s.sampleClass = c

instance (t : ProbeTargetID) (c : ProbeSampleClass) (n : NodeHandle) : Decidable (Reported samples t c n) :=
  inferInstanceAs (Decidable (∃ s ∈ samples, s.handle = n ∧ s.targetID = t ∧ s.sampleClass = c))

def reports (t : ProbeTargetID) (c : ProbeSampleClass) : Nat :=
  spec.nodes.countP fun n => decide (Reported samples t c n)

/-- The configured floor, or two, and more than half of the nodes. -/
def threshold : Int :=
  max (if spec.commonModeMinNodes ≤ 0 then 2 else spec.commonModeMinNodes) ((spec.nodes.length / 2 + 1 : Nat) : Int)

def Excluded (t : ProbeTargetID) : Prop :=
  Faulted samples t ∨ ∃ c ∈ failingClasses, threshold spec ≤ reports spec samples t c

instance (t : ProbeTargetID) : Decidable (Excluded spec samples t) :=
  inferInstanceAs (Decidable (_ ∨ _))

/-- The samples of the class from the node, over the targets that are not excluded. -/
def support (n : NodeHandle) (c : ProbeSampleClass) : Nat :=
  samples.countP fun s => decide (s.handle = n ∧ s.sampleClass = c ∧ ¬ Excluded spec samples s.targetID)

def Incident (i : ProbeCommonModeIncident) : Prop :=
  i.runID = spec.runID ∧
    ((Faulted samples i.targetID ∧ i.sampleClass = .targetFault ∧ i.nodes = 1) ∨
      (¬ Faulted samples i.targetID ∧ i.sampleClass ∈ failingClasses ∧
        i.nodes = reports spec samples i.targetID i.sampleClass ∧ threshold spec ≤ i.nodes))

end

structure Holding (spec : ProbeRunSpec) (samples : List ProbeSample) (run : AggregateProbeRun) : Prop where
  spec_eq : run.spec = spec
  nodes : run.nodes.keys.Perm spec.nodes
  targets : run.targets.keys.Perm (spec.targets.map (·.id))
  distinct : (samples.map (·.key)).Nodup
  filed : ∀ k s, run.samples.lookup k = some s ↔ s ∈ samples ∧ s.key = k
  known : ∀ s ∈ samples, s.handle ∈ spec.nodes ∧ s.targetID ∈ spec.targets.map (·.id)
  classed : ∀ s ∈ samples, s.sampleClass ≠ .other

variable {s : ProbeSample} {c' : ProbeSampleClass} {i : ProbeCommonModeIncident} {now : Time}

namespace Holding

variable {spec : ProbeRunSpec} {samples : List ProbeSample} {run : AggregateProbeRun}

section

variable (h : Holding spec samples run)
include h

theorem sample_unique {s'} (hs : s ∈ samples) (hs' : s' ∈ samples) (hk : s.key = s'.key) : s = s' := by
  have hfil := (h.filed s.key s).2 ⟨hs, rfl⟩
  have hfil' := (h.filed s.key s').2 ⟨hs', hk.symm⟩
  rw [hfil] at hfil'
  exact some.inj hfil'

theorem nodup : samples.Nodup := .of_map _ h.distinct

theorem nodup_nodes : spec.nodes.Nodup := h.nodes.nodup_iff.1 run.nodes.keys_nodup

theorem commonMin_eq : commonMin run = threshold spec := by
  rw [commonMin, threshold, h.spec_eq, h.nodes.length_eq]
  split <;> omega

end

theorem threshold_pos (spec) : 0 < threshold spec := by
  refine lt_of_lt_of_le ?_ (le_max_right ..)
  omega

end Holding

section

variable {spec : ProbeRunSpec} {samples : List ProbeSample} {run : AggregateProbeRun}

def Seen (run : AggregateProbeRun) (t : ProbeTargetID) (keys : List SampleKey) (s : ProbeSample) : Prop :=
  ∃ k ∈ keys, run.samples.lookup k = some s ∧ k.2 = t

variable {keys : List SampleKey} {c : ProbeSampleClass} {n : NodeHandle}

theorem seen_cons {t key} :
    Seen run t (key :: keys) s ↔ (run.samples.lookup key = some s ∧ key.2 = t) ∨ Seen run t keys s := by
  simp [Seen]

theorem scanTarget_eq_none {t classes} :
    scanTarget run t keys classes = none ↔ ∃ s, Seen run t keys s ∧ s.sampleClass = .targetFault := by
  induction keys generalizing classes with
  | nil => simp [scanTarget, Seen]
  | cons key keys ih =>
    rw [scanTarget]
    simp only [seen_cons]
    cases hs : run.samples.lookup key with
    | none => simp [ih]
    | some s =>
      by_cases ht : key.2 = t
      · rcases hc : s.sampleClass <;> simp [hc, ht, ih]
      · simp [ht, ih]

theorem mem_reporters_insert {classes d m} :
    n ∈ reporters (classes.insert d (((classes.lookup d).getD ∅).insert m ())) c ↔
      n ∈ reporters classes c ∨ (c = d ∧ n = m) := by
  rw [reporters, reporters, lookup_set]
  by_cases hc : c = d
  · rw [if_pos hc, hc]
    by_cases hn : n = m
    · simp [hn]
    · simp [hn]
  · simp [hc]

theorem mem_reporters_scanTarget {t classes classes'} (h : scanTarget run t keys classes = some classes') :
    n ∈ reporters classes' c ↔ n ∈ reporters classes c ∨
      ∃ s, Seen run t keys s ∧ s.sampleClass = c ∧ s.handle = n ∧ c ≠ .success ∧ c ≠ .deferred := by
  induction keys generalizing classes with
  | nil =>
    rw [some.inj h]
    simp [Seen]
  | cons key keys ih =>
    rw [scanTarget] at h
    simp only [seen_cons]
    cases hs : run.samples.lookup key with
    | none =>
      rw [hs] at h
      simpa using ih h
    | some s =>
      rw [hs] at h
      dsimp only at h
      split at h
      · rename_i hskip
        rw [ih h]
        constructor
        · rintro (hn | ⟨s', hseen, hr⟩)
          · exact .inl hn
          · exact .inr ⟨s', .inr hseen, hr⟩
        · rintro (hn | ⟨s', ⟨heq, ht⟩ | hseen, hc, hn, hne⟩)
          · exact .inl hn
          · obtain rfl := some.inj heq
            rcases hskip with hskip | hskip | hskip
            · exact absurd ht hskip
            · exact absurd (hc ▸ hskip) hne.1
            · exact absurd (hc ▸ hskip) hne.2
          · exact .inr ⟨s', hseen, hc, hn, hne⟩
      · rename_i hlk
        simp only [not_or, not_not] at hlk
        split at h
        · cases h
        rw [ih h, mem_reporters_insert]
        constructor
        · rintro ((hn | ⟨rfl, rfl⟩) | ⟨s', hseen, hr⟩)
          · exact .inl hn
          · exact .inr ⟨s, .inl ⟨rfl, hlk.1⟩, rfl, rfl, hlk.2⟩
          · exact .inr ⟨s', .inr hseen, hr⟩
        · rintro (hn | ⟨s', ⟨heq, ht⟩ | hseen, hc, hn, hne⟩)
          · exact .inl (.inl hn)
          · obtain rfl := some.inj heq
            exact .inl (.inr ⟨hc.symm, hn.symm⟩)
          · exact .inr ⟨s', hseen, hc, hn, hne⟩

theorem seen_iff (h : Holding spec samples run) (order : RangeOrder SampleKey) {t} :
    Seen run t (order.visit run.samples.keys) s ↔ s ∈ samples ∧ s.targetID = t := by
  constructor
  · rintro ⟨k, -, hs, ht⟩
    obtain ⟨hm, rfl⟩ := (h.filed k s).1 hs
    exact ⟨hm, ht⟩
  · rintro ⟨hs, ht⟩
    have hfil := (h.filed s.key s).2 ⟨hs, rfl⟩
    exact ⟨s.key, order.mem_visit.2 (mem_keys_iff.2 ⟨s, hfil⟩), hfil, ht⟩

variable {t : ProbeTargetID} {classes : GoMap ProbeSampleClass (GoMap NodeHandle Unit)} {order : RangeOrder SampleKey}

section

variable (h : Holding spec samples run)
include h

theorem scanTarget_none_iff (order : RangeOrder SampleKey) :
    scanTarget run t (order.visit run.samples.keys) ∅ = none ↔ Faulted samples t := by
  rw [scanTarget_eq_none]
  simp only [seen_iff h order, Faulted, and_assoc]

section

variable (hscan : scanTarget run t (order.visit run.samples.keys) ∅ = some classes)
include hscan

theorem mem_reporters_iff : n ∈ reporters classes c ↔ c ∈ failingClasses ∧ Reported samples t c n := by
  have hfault : ¬ Faulted samples t := by
    rw [← scanTarget_none_iff h order, hscan]
    nofun
  rw [mem_reporters_scanTarget hscan]
  simp only [seen_iff h order]
  constructor
  · rintro (hn | ⟨s, ⟨hs, ht⟩, hc, hn, hsuc, hdef⟩)
    · cases hn
    · refine ⟨?_, s, hs, hn, ht, hc⟩
      have hoth := h.classed s hs
      have hnof : s.sampleClass ≠ .targetFault := fun hf => hfault ⟨s, hs, ht, hf⟩
      cases hclass : s.sampleClass <;> simp_all [failingClasses]
  · rintro ⟨hfail, s, hs, hn, ht, hc⟩
    refine .inr ⟨s, ⟨hs, ht⟩, hc, hn, ?_, ?_⟩ <;> rintro rfl <;> simp [failingClasses] at hfail

theorem length_reporters (hc : c ∈ failingClasses) : (reporters classes c).length = reports spec samples t c := by
  have hperm : (reporters classes c).Perm (spec.nodes.filter fun n => decide (Reported samples t c n)) := by
    have hnd : (reporters classes c).Nodup := AList.keys_nodup _
    refine (perm_ext_iff_of_nodup hnd (h.nodup_nodes.filter _)).2 fun n => ?_
    rw [mem_reporters_iff h hscan, mem_filter, decide_eq_true_eq]
    constructor
    · rintro ⟨-, s, hs, hn, hr⟩
      exact ⟨hn ▸ (h.known s hs).1, s, hs, hn, hr⟩
    · exact fun hn => ⟨hc, hn.2⟩
  rw [hperm.length_eq, reports, countP_eq_length_filter]

end

theorem reported_class_unique (hc : Reported samples t c n) (hc' : Reported samples t c' n) : c = c' := by
  obtain ⟨s, hs, hn, ht, rfl⟩ := hc
  obtain ⟨s', hs', hn', ht', rfl⟩ := hc'
  rw [h.sample_unique hs hs' (Prod.ext (hn.trans hn'.symm) (ht.trans ht'.symm))]

/-- Two classes together have no more reporters than there are nodes, so only
one of them can have a strict majority. -/
theorem class_over_threshold_unique (hc : threshold spec ≤ reports spec samples t c)
    (hc' : threshold spec ≤ reports spec samples t c') : c = c' := by
  by_contra hne
  have hdisj : reports spec samples t c + reports spec samples t c' ≤ spec.nodes.length := by
    rw [length_eq_countP_add_countP fun n => decide (Reported samples t c n)]
    refine Nat.add_le_add_left (countP_mono_left fun n _ hn' => ?_) _
    rw [decide_eq_true_eq] at hn' ⊢
    intro hn
    exact hne (reported_class_unique h (of_decide_eq_true hn) hn')
  have hmaj : ((spec.nodes.length / 2 + 1 : Nat) : Int) ≤ threshold spec := le_max_right ..
  omega

section

variable (hscan : scanTarget run t (order.visit run.samples.keys) ∅ = some classes)
include hscan

theorem over_iff : threshold spec ≤ (reporters classes c).length ↔
      c ∈ failingClasses ∧ threshold spec ≤ reports spec samples t c := by
  constructor
  · intro hover
    have hpos := Holding.threshold_pos spec
    obtain ⟨n, hn⟩ := exists_mem_of_length_pos (l := reporters classes c) (by omega)
    have hc := ((mem_reporters_iff h hscan).1 hn).1
    rw [length_reporters h hscan hc] at hover
    exact ⟨hc, hover⟩
  · rintro ⟨hc, hover⟩
    rw [length_reporters h hscan hc]
    exact hover

theorem find_over (classOrder : RangeOrder ProbeSampleClass) :
    ((classOrder.visit classes.keys).find? fun c => decide (threshold spec ≤ (reporters classes c).length)) = some c ↔
      c ∈ failingClasses ∧ threshold spec ≤ reports spec samples t c := by
  rw [find?_eq_some_of_sole, decide_eq_true_eq, over_iff h hscan, RangeOrder.mem_visit]
  · refine ⟨fun hc => hc.2, fun hc => ⟨?_, hc⟩⟩
    by_contra hk
    have hover := (over_iff h hscan).2 hc
    have hpos := Holding.threshold_pos spec
    rw [reporters, AList.lookup_eq_none.2 hk] at hover
    exact absurd (lt_of_lt_of_le hpos hover) (lt_irrefl 0)
  · intro a _ b _ ha hb
    rw [decide_eq_true_eq, over_iff h hscan] at ha hb
    exact class_over_threshold_unique h ha.2 hb.2

end

theorem incidentOf_eq_some (orders : RangeOrders) :
    incidentOf run orders t = some i ↔ i.targetID = t ∧ Incident spec samples i := by
  rw [incidentOf, h.spec_eq]
  split
  · rename_i hscan
    have hfault := (scanTarget_none_iff h _).1 hscan
    constructor
    · intro hi
      obtain rfl := some.inj hi
      exact ⟨rfl, rfl, .inl ⟨hfault, rfl, rfl⟩⟩
    · rintro ⟨rfl, hrun, ⟨-, hc, hn⟩ | ⟨hno, -⟩⟩
      · rw [← hrun, ← hc, ← hn]
      · exact absurd hfault hno
  · rename_i classes hscan
    have hfault : ¬ Faulted samples t := by
      rw [← scanTarget_none_iff h _, hscan]
      nofun
    rw [map_eq_some_iff, h.commonMin_eq]
    simp only [find_over h hscan]
    constructor
    · rintro ⟨c, ⟨hc, hover⟩, rfl⟩
      have hlen := length_reporters h hscan hc
      refine ⟨rfl, rfl, .inr ⟨hfault, hc, hlen, ?_⟩⟩
      rw [hlen]
      exact hover
    · rintro ⟨rfl, hrun, ⟨hyes, -⟩ | ⟨-, hc, hn, hover⟩⟩
      · exact absurd hyes hfault
      · refine ⟨i.sampleClass, ⟨hc, hn ▸ hover⟩, ?_⟩
        rw [length_reporters h hscan hc, ← hn, ← hrun]

theorem isSome_incidentOf (orders) : (incidentOf run orders t).isSome = true ↔ Excluded spec samples t := by
  rw [isSome_iff_exists]
  simp only [incidentOf_eq_some h]
  constructor
  · rintro ⟨i, rfl, -, ⟨hfault, -⟩ | ⟨-, hc, hn, hover⟩⟩
    · exact .inl hfault
    · exact .inr ⟨i.sampleClass, hc, hn ▸ hover⟩
  · intro hexcl
    by_cases hfault : Faulted samples t
    · exact ⟨⟨spec.runID, t, .targetFault, 1⟩, rfl, rfl, .inl ⟨hfault, rfl, rfl⟩⟩
    · obtain ⟨c, hc, hover⟩ := hexcl.resolve_left hfault
      exact ⟨⟨spec.runID, t, c, reports spec samples t c⟩, rfl, rfl, .inr ⟨hfault, hc, rfl, hover⟩⟩

end

theorem lookup_excludedTargets (run orders t) :
    (excludedTargets run orders).lookup t = if t ∈ run.targets.keys then incidentOf run orders t else none := by
  rw [excludedTargets, lookup_foldl_choice (f := incidentOf run orders)]
  · simp [RangeOrder.mem_visit]
  · intro m t
    cases incidentOf run orders t <;> rfl

theorem mem_incidents (h : Holding spec samples run) (orders) :
    i ∈ (aggregateProbeVerdicts run orders now).incidents ↔
      i.targetID ∈ spec.targets.map (·.id) ∧ Incident spec samples i := by
  rw [aggregateProbeVerdicts, mem_insertionSort, mem_filterMap]
  simp only [RangeOrder.mem_visit, lookup_excludedTargets]
  constructor
  · rintro ⟨t, -, hi⟩
    split at hi
    · rename_i ht
      obtain ⟨rfl, hinc⟩ := (incidentOf_eq_some h orders).1 hi
      exact ⟨h.targets.mem_iff.1 ht, hinc⟩
    · cases hi
  · rintro ⟨ht, hinc⟩
    have hi : (excludedTargets run orders).lookup i.targetID = some i := by
      rw [lookup_excludedTargets, if_pos (h.targets.mem_iff.2 ht)]
      exact (incidentOf_eq_some h orders).2 ⟨rfl, hinc⟩
    refine ⟨i.targetID, mem_keys_iff.2 ⟨i, hi⟩, ?_⟩
    rwa [lookup_excludedTargets] at hi

end

def counted (run : AggregateProbeRun) (excluded : GoMap ProbeTargetID ProbeCommonModeIncident) (node : NodeHandle)
    (t : ProbeTargetID) : Option ProbeSample :=
  if (excluded.lookup t).isSome then none
  else (run.samples.lookup (node, t)).bind fun s =>
    if s.sampleClass = .deferred ∨ s.sampleClass = .targetFault then none else some s

theorem foldl_addTarget (run excluded node) (targets : List ProbeTargetID) (tally : Tally) :
    targets.foldl (addTarget run excluded node) tally =
      (targets.filterMap (counted run excluded node)).foldl addSample tally := by
  induction targets generalizing tally with
  | nil => rfl
  | cons t targets ih =>
    rw [foldl_cons, ih, filterMap_cons, addTarget, counted]
    by_cases hexcl : (excluded.lookup t).isSome = true
    · rw [if_pos hexcl, if_pos hexcl]
    rw [if_neg hexcl, if_neg hexcl]
    cases run.samples.lookup (node, t) with
    | none => rfl
    | some s =>
      by_cases hskip : s.sampleClass = .deferred ∨ s.sampleClass = .targetFault
      · simp [hskip]
      · simp [hskip]

def countOf (tally : Tally) (c : ProbeSampleClass) : Nat := (tally.counts.lookup c).getD 0

def failuresOf (tally : Tally) (c : ProbeSampleClass) : GoMap FailureClass Nat := (tally.failures.lookup c).getD ∅

def weight (m : GoMap FailureClass Nat) (f : FailureClass) : Nat := (m.lookup f).getD 0

theorem getD_bump {K : Type} [DecidableEq K] (m) (k k' : K) :
    ((bump m k).lookup k').getD 0 = (m.lookup k').getD 0 + if k' = k then 1 else 0 := by
  rw [bump, lookup_set]
  split
  · rename_i h
    rw [h]
    rfl
  · rfl

theorem countOf_foldl (samples : List ProbeSample) (tally : Tally) (c) : countOf (samples.foldl addSample tally) c =
      countOf tally c + samples.countP fun s => decide (s.sampleClass = c) := by
  induction samples generalizing tally with
  | nil => rfl
  | cons s samples ih =>
    have hone : countOf (addSample tally s) c = countOf tally c + if c = s.sampleClass then 1 else 0 := getD_bump ..
    rw [foldl_cons, ih, hone, countP_cons]
    simp only [decide_eq_true_eq, eq_comm (a := c)]
    omega

theorem failuresOf_addSample (tally s c) : failuresOf (addSample tally s) c =
      if s.failure ≠ .none ∧ c = s.sampleClass then bump (failuresOf tally c) s.failure else failuresOf tally c := by
  rw [addSample]
  by_cases hf : s.failure = .none
  · simp [hf, failuresOf]
  rcases eq_or_ne c s.sampleClass with rfl | hc
  · simp [hf, failuresOf]
  · simp [hf, hc, failuresOf]

def adds (c : ProbeSampleClass) (f : FailureClass) (s : ProbeSample) : Bool :=
  decide (s.sampleClass = c ∧ s.failure = f ∧ f ≠ .none)

theorem adds_of_not {c f} (h : ¬(s.failure ≠ .none ∧ c = s.sampleClass)) : adds c f s = false := by
  grind [adds]

theorem lookup_failuresOf (samples : List ProbeSample) (c f) : (failuresOf (samples.foldl addSample {}) c).lookup f =
      if samples.countP (adds c f) = 0 then none else some (samples.countP (adds c f)) := by
  induction samples using reverseRecOn with
  | nil => rfl
  | append_singleton samples s ih =>
    rw [foldl_append, foldl_cons, foldl_nil, failuresOf_addSample, countP_append,
      countP_singleton]
    by_cases hs : s.failure ≠ .none ∧ c = s.sampleClass
    · rw [if_pos hs, bump, lookup_set]
      by_cases hf : f = s.failure
      · have hadds : adds c f s = true := by simp [adds, hf, hs.1, hs.2]
        rw [if_pos hf, ← hf, ih]
        split <;> simp_all
      · simp [hf, ih, adds, eq_comm (a := s.failure)]
    · rw [if_neg hs, ih]
      simp [adds_of_not hs]

def ahead (m : GoMap FailureClass Nat) (a b : FailureClass) : Bool :=
  decide (weight m b < weight m a ∨ weight m a = weight m b ∧ a.text < b.text)

def standing (m : GoMap FailureClass Nat) (f : FailureClass) : ℕᵒᵈ ×ₗ String :=
  toLex (OrderDual.toDual (weight m f), f.text)

theorem follows_ahead (m l) : Follows (ahead m) (standing m) l := by
  refine ⟨fun a _ b _ => ?_, fun a _ b _ heq => ?_⟩
  · rw [ahead, decide_eq_true_eq, standing, standing, Prod.Lex.toLex_lt_toLex]
    exact or_congr .rfl (and_congr_left' OrderDual.toDual_inj.symm)
  · exact FailureClass.text_injective (Prod.mk.inj (toLex_inj.1 heq)).2

theorem majorityFailure_eq_scan (order m) :
    majorityFailure order m = (scan (ahead m) (order.visit m.keys)).getD .protocol := by
  rw [majorityFailure]
  generalize order.visit m.keys = l
  suffices hfold : l.foldl (weighFailure m) (.protocol, -1) =
        ((scan (ahead m) l).getD .protocol, ((scan (ahead m) l).map fun f => (weight m f : Int)).getD (-1)) by
    rw [hfold]
  induction l using reverseRecOn with
  | nil => rfl
  | append_singleton l f ih =>
    rw [foldl_append, ih, scan_append, improve]
    dsimp only [foldl_cons, weighFailure]
    rw [← weight]
    cases scan (ahead m) l with
    | none =>
      rfl
    | some g =>
      have hr : ((weight m f : Int) > weight m g ∨ (weight m f : Int) = weight m g ∧ f.text < g.text) ↔
          ahead m f g = true := by
        rw [ahead, decide_eq_true_eq]
        exact or_congr Int.ofNat_lt (and_congr_left' Int.ofNat_inj)
      simp only [getD_some, map_some, all_some, hr]
      split <;> rfl

theorem majorityFailure_congr {m m'} (hlk : ∀ f, m.lookup f = m'.lookup f) (order order') :
    majorityFailure order m = majorityFailure order' m' := by
  have hperm : (order.visit m.keys).Perm (order'.visit m'.keys) := by
    refine (perm_ext_iff_of_nodup (order.nodup_visit m.keys_nodup) (order'.nodup_visit m'.keys_nodup)).2 fun f => ?_
    rw [order.mem_visit, order'.mem_visit, mem_keys_iff, mem_keys_iff, hlk]
  have hahead : ahead m = ahead m' := by
    funext a b
    simp [ahead, weight, hlk]
  rw [majorityFailure_eq_scan, majorityFailure_eq_scan, ← hahead, scan_eq_of_perm (follows_ahead m _) hperm]

section

variable {spec : ProbeRunSpec} {samples : List ProbeSample} {run : AggregateProbeRun} {orders : RangeOrders}
  {n : NodeHandle}

def Counts (spec : ProbeRunSpec) (samples : List ProbeSample) (n : NodeHandle) (s : ProbeSample) : Prop :=
  s ∈ samples ∧ s.handle = n ∧ ¬ Excluded spec samples s.targetID ∧ s.sampleClass ≠ .deferred ∧
    s.sampleClass ≠ .targetFault

theorem counted_eq_some (h : Holding spec samples run) {t} (ht : t ∈ run.targets.keys) :
    counted run (excludedTargets run orders) n t = some s ↔ s.targetID = t ∧ Counts spec samples n s := by
  rw [counted, lookup_excludedTargets, if_pos ht]
  by_cases hexcl : (incidentOf run orders t).isSome = true
  · rw [if_pos hexcl]
    rw [isSome_incidentOf h] at hexcl
    refine ⟨nofun, ?_⟩
    rintro ⟨rfl, -, -, hno, -⟩
    exact absurd hexcl hno
  · rw [if_neg hexcl, bind_eq_some_iff]
    rw [isSome_incidentOf h] at hexcl
    constructor
    · rintro ⟨s', hs', hif⟩
      obtain ⟨hm, hk⟩ := (h.filed ..).1 hs'
      split at hif
      · cases hif
      rename_i hcnt
      obtain rfl := some.inj hif
      rw [not_or] at hcnt
      have ht' : s'.targetID = t := congrArg Prod.snd hk
      exact ⟨ht', hm, congrArg Prod.fst hk, ht' ▸ hexcl, hcnt⟩
    · rintro ⟨rfl, hm, rfl, -, hcnt⟩
      exact ⟨s, (h.filed ..).2 ⟨hm, rfl⟩, if_neg (not_or.2 hcnt)⟩

theorem targetID_of_counted (h : Holding spec samples run) {excluded t} (hs : counted run excluded n t = some s) :
    s.targetID = t := by
  rw [counted] at hs
  split at hs
  · cases hs
  obtain ⟨s', hs', hif⟩ := bind_eq_some_iff.1 hs
  split at hif
  · cases hif
  · rw [← some.inj hif]
    exact congrArg Prod.snd ((h.filed ..).1 hs').2

def tallyOf (run : AggregateProbeRun) (orders : RangeOrders) (n : NodeHandle) : Tally :=
  ((orders.nodeTargets n).visit run.targets.keys).foldl (addTarget run (excludedTargets run orders) n) {}

theorem exists_tallied (h : Holding spec samples run) (orders n) :
    ∃ l : List ProbeSample, tallyOf run orders n = l.foldl addSample {} ∧ l.Nodup ∧
      ∀ s, s ∈ l ↔ Counts spec samples n s := by
  refine ⟨((orders.nodeTargets n).visit run.targets.keys).filterMap _,
    foldl_addTarget .., ?_, ?_⟩
  · refine .filterMap ?_ ((orders.nodeTargets n).nodup_visit run.targets.keys_nodup)
    intro t t' s hs hs'
    exact (targetID_of_counted h hs).symm.trans (targetID_of_counted h hs')
  · intro s
    rw [mem_filterMap]
    constructor
    · rintro ⟨t, ht, hs⟩
      rw [RangeOrder.mem_visit] at ht
      exact ((counted_eq_some h ht).1 hs).2
    · intro hs
      have ht : s.targetID ∈ run.targets.keys := h.targets.mem_iff.2 (h.known s hs.1).2
      exact ⟨s.targetID, (RangeOrder.mem_visit _).2 ht, (counted_eq_some h ht).2 ⟨rfl, hs⟩⟩

variable {c : ProbeSampleClass}

theorem countOf_tallyOf (h : Holding spec samples run) (orders : RangeOrders) (n) (hdef : c ≠ .deferred)
    (hfault : c ≠ .targetFault) : countOf (tallyOf run orders n) c = support spec samples n c := by
  obtain ⟨l, htal, hnd, hm⟩ := exists_tallied h orders n
  have hzero : countOf {} c = 0 := rfl
  rw [htal, countOf_foldl, hzero, Nat.zero_add, support, countP_eq_length_filter, countP_eq_length_filter]
  refine List.Perm.length_eq ((perm_ext_iff_of_nodup (hnd.filter _) (h.nodup.filter _)).2 fun s => ?_)
  rw [mem_filter, mem_filter, hm, decide_eq_true_eq, decide_eq_true_eq]
  constructor
  · rintro ⟨⟨hs, hn, hexcl, -⟩, hc⟩
    exact ⟨hs, hn, hc, hexcl⟩
  · rintro ⟨hs, hn, rfl, hexcl⟩
    exact ⟨⟨hs, hn, hexcl, hdef, hfault⟩, rfl⟩

theorem candidate_counts {suite} (hc : c ∈ candidateClasses suite) : c ≠ .deferred ∧ c ≠ .targetFault := by
  rw [candidateClasses] at hc
  constructor <;> rintro rfl <;> split at hc <;> simp at hc

theorem nodup_candidateClasses (suite) : (candidateClasses suite).Nodup := by
  rw [candidateClasses]
  split <;> decide

def Wins (spec : ProbeRunSpec) (samples : List ProbeSample) (n : NodeHandle) (c : ProbeSampleClass) : Prop :=
  c ∈ candidateClasses spec.suite ∧ spec.quorum ≤ support spec samples n c

theorem mem_winners (h : Holding spec samples run) :
    c ∈ winners run (tallyOf run orders n) ↔ Wins spec samples n c := by
  rw [winners, mem_filter, decide_eq_true_eq, ← countOf, h.spec_eq]
  refine and_congr_right fun hc => ?_
  obtain ⟨hdef, hfault⟩ := candidate_counts hc
  rw [countOf_tallyOf h orders n hdef hfault]

theorem authoritative_verdictOf (run orders n) :
    (verdictOf run orders (excludedTargets run orders) n).authoritative = true ↔
      ∃ c, winners run (tallyOf run orders n) = [c] := by
  rw [verdictOf]
  split
  · rename_i c hc
    refine ⟨fun _ => ⟨c, hc⟩, fun _ => ?_⟩
    cases c <;> rfl
  · rename_i hoth
    exact ⟨nofun, fun ⟨c, hc⟩ => absurd hc (hoth c)⟩

theorem authoritative_iff (h : Holding spec samples run) :
    (verdictOf run orders (excludedTargets run orders) n).authoritative = true ↔ ∃! c, Wins spec samples n c := by
  have hnd : (winners run (tallyOf run orders n)).Nodup := (nodup_candidateClasses _).filter _
  rw [authoritative_verdictOf]
  constructor
  · rintro ⟨c, hc⟩
    have hwins : ∀ d, Wins spec samples n d ↔ d = c := by
      intro d
      rw [← mem_winners h, hc, mem_singleton]
    exact ⟨c, (hwins c).2 rfl, fun d => (hwins d).1⟩
  · rintro ⟨c, hc, honly⟩
    refine ⟨c, perm_singleton.1 ?_⟩
    refine (perm_ext_iff_of_nodup hnd (nodup_singleton c)).2 fun d => ?_
    rw [mem_winners h, mem_singleton]
    exact ⟨honly d, fun hd => hd ▸ hc⟩

theorem handle_verdictOf (run orders excluded n) : (verdictOf run orders excluded n).handle = n := by
  rw [verdictOf]
  split
  · rename_i c _
    cases c <;> rfl
  · rfl

theorem mem_verdicts (h : Holding spec samples run) (orders) {v} :
    v ∈ (aggregateProbeVerdicts run orders now).verdicts ↔
      ∃ n ∈ spec.nodes, v = verdictOf run orders (excludedTargets run orders) n := by
  rw [aggregateProbeVerdicts, List.mem_insertionSort, List.mem_map]
  simp only [RangeOrder.mem_visit, h.nodes.mem_iff, eq_comm (a := v)]

end

section

variable {spec : ProbeRunSpec} {samples samples' : List ProbeSample} {run run' : AggregateProbeRun}
  {orders orders' : RangeOrders}

section

variable (hperm : samples.Perm samples')
include hperm

theorem faulted_congr (t) : Faulted samples t ↔ Faulted samples' t := by
  simp only [Faulted, hperm.mem_iff]

theorem reports_congr (t c) : reports spec samples t c = reports spec samples' t c := by
  refine countP_congr fun n _ => ?_
  rw [decide_eq_true_eq, decide_eq_true_eq]
  simp only [Reported, hperm.mem_iff]

theorem excluded_congr (t) : Excluded spec samples t ↔ Excluded spec samples' t := by
  simp only [Excluded, faulted_congr hperm, reports_congr hperm]

end

theorem verdictOf_congr (h : Holding spec samples run) (h' : Holding spec samples' run')
    (hperm : samples.Perm samples') (orders orders' : RangeOrders) (n) :
    verdictOf run orders (excludedTargets run orders) n =
      verdictOf run' orders' (excludedTargets run' orders') n := by
  obtain ⟨l, htal, hnd, hm⟩ := exists_tallied h orders n
  obtain ⟨l', htal', hnd', hm'⟩ := exists_tallied h' orders' n
  have hl : l.Perm l' := by
    refine (perm_ext_iff_of_nodup hnd hnd').2 fun s => ?_
    rw [hm, hm', Counts, Counts, hperm.mem_iff, excluded_congr hperm]
  have hcnt : ∀ c, countOf (tallyOf run orders n) c = countOf (tallyOf run' orders' n) c := by
    intro c
    rw [htal, htal', countOf_foldl, countOf_foldl, hl.countP_eq]
  have hfail : majorityFailure (orders.failures n) (failuresOf (tallyOf run orders n) .nodeFailure) =
      majorityFailure (orders'.failures n) (failuresOf (tallyOf run' orders' n) .nodeFailure) := by
    refine majorityFailure_congr (fun f => ?_) ..
    rw [htal, htal', lookup_failuresOf, lookup_failuresOf, hl.countP_eq]
  have hwin : winners run (tallyOf run orders n) = winners run' (tallyOf run' orders' n) := by
    rw [winners, winners, h.spec_eq, h'.spec_eq]
    refine filter_congr fun c _ => ?_
    rw [← countOf, ← countOf, hcnt]
  rw [verdictOf, verdictOf, ← tallyOf, ← tallyOf, hwin, h.spec_eq, h'.spec_eq]
  split
  · rw [← countOf, ← countOf, ← failuresOf, ← failuresOf, hcnt, hfail]
  · rfl

end

end SingBox.ProbeTally
