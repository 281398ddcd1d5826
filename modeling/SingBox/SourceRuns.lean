import SingBox.SourceDeltas

namespace SingBox.SourceRuns

open List Option Maps Runs Values SourceSnapshots SourceListing SourceRuntime ProviderLog DeltaApplication
  DeltaGathering SourceDeltas

/-- A source runtime and a reader that keeps a publication: it takes over what
a full snapshot returns and applies the deltas to what it has. -/
structure System where
  runtime : A48SourceRuntimeV1
  published : Option SourcePublication := none

inductive Event
  | update (providerTag : String) (contents : Contents)
  | snapshot (generation : Nat)
  | delta (generation : Nat) (order : RangeOrder String)

variable {t : String} {order : RangeOrder String}

section

variable [NetworkNames] (hasher : IdentityHasher) (manager : List Outbound) (config : SourceRuntimeConfig)

def receive (published : Option SourcePublication) (d : SourceDeltaPublication) : Option SourcePublication :=
  published.map fun p =>
    match applySourceDelta p d with
    | .ok q => q
    | .error _ => p

def step (s : System) : Event → System
  | .update providerTag contents => { s with runtime := update s.runtime providerTag contents }
  | .snapshot generation =>
    match snapshot hasher manager config generation s.runtime with
    | .ok (publication, runtime) => ⟨runtime, some publication⟩
    | .error _ => s
  | .delta generation order =>
    match delta hasher manager config generation order s.runtime with
    | .ok (d, runtime) => ⟨runtime, receive s.published d⟩
    | .error _ => s

def ChangedOnce (r : A48SourceRuntimeV1) (providerTag : String) : Prop :=
  ∀ δ ∈ deltaOf r providerTag, δ.upserts.Nodup

instance (r : A48SourceRuntimeV1) (providerTag : String) : Decidable (ChangedOnce r providerTag) :=
  inferInstanceAs (Decidable (∀ δ ∈ deltaOf r providerTag, δ.upserts.Nodup))

/-- When the runtime reads, the leaves are plain and apart from each other, and a
delta has each changed tag once. -/
def Regular (s : System) : Event → Prop
  | .update _ _ => True
  | .snapshot _ => Orderly hasher manager config (outboundsOf s.runtime)
  | .delta _ _ =>
    Orderly hasher manager config (outboundsOf s.runtime) ∧
      ∀ t ∈ s.runtime.dirtyProviders.keys, ChangedOnce s.runtime t

instance (s : System) : ∀ e, Decidable (Regular hasher manager config s e)
  | .update _ _ => .isTrue trivial
  | .snapshot _ => inferInstanceAs (Decidable (Orderly hasher manager config (outboundsOf s.runtime)))
  | .delta _ _ => inferInstanceAs (Decidable (_ ∧ _))

structure Invariant (s : System) : Prop where
  tracked : s.published = s.runtime.lastPublication
  configured : ∀ t p, s.runtime.providers.lookup t = some p → t ∈ config.providerTags
  logged : ∀ t p, s.runtime.providers.lookup t = some p →
    WellLogged p ∧ (s.runtime.providerRevisions.lookup t).getD 0 ≤ p.deltaRevision
  clean : ∀ t, t ∉ s.runtime.dirtyProviders.keys → looked s.runtime t = held s.runtime t
  baseline : ∀ p, s.runtime.lastPublication = some p →
    Publishes p (Before hasher manager config s.runtime) ∧
      (∀ leaf, LeafAt manager config (looked s.runtime) leaf → (nodeOf hasher leaf).isSome = true) ∧
      ∃ statics, staticRoots manager config.staticTags = .ok statics

variable {hasher manager config}

omit [NetworkNames] in
theorem lookup_loadProviders {contents p} (h : (loadProviders config contents).lookup t = some p) :
    t ∈ config.providerTags ∧ p = { contents := contents t } := by
  have hlk := (lookup_foldl_choice (f := fun t => some ({ contents := contents t } : Provider))
    (fun _ _ => rfl) config.providerTags ∅ t).symm.trans h
  split at hlk
  · next ht => exact ⟨ht, (some.inj hlk).symm⟩
  · cases hlk

omit [NetworkNames] in
theorem lookup_revisionsOf (providers t) :
    (revisionsOf providers).lookup t = (providers.lookup t).map (·.deltaRevision) := by
  rw [revisionsOf, lookup_foldl_choice (f := fun tag => (providers.lookup tag).map (·.deltaRevision))]
  · split
    · simp
    rename_i hkeys
    have hno : providers.lookup t = none := AList.lookup_eq_none.2 hkeys
    rw [hno]
    rfl
  · intro m tag
    cases providers.lookup tag <;> rfl

variable {r : A48SourceRuntimeV1}

omit [NetworkNames] in
theorem looked_eq_held
    (h : ∀ p, r.providers.lookup t = some p → WellLogged p ∧ r.providerRevisions.lookup t = some p.deltaRevision) :
    looked r t = held r t := by
  funext tag
  rw [looked, held]
  cases hp : r.providers.lookup t with
  | none => rfl
  | some p =>
    obtain ⟨hlog, hcurs⟩ := h p hp
    rw [hcurs, bind_some]
    exact congrFun hlog.current tag

theorem invariant_start (contents) : Invariant hasher manager config ⟨start config contents, none⟩ := by
  have hlog : ∀ t p, (loadProviders config contents).lookup t = some p → WellLogged p := by
    intro t p hp
    rw [(lookup_loadProviders hp).2]
    exact wellLogged_new _
  have hcurs : ∀ t p, (loadProviders config contents).lookup t = some p →
      (revisionsOf (loadProviders config contents)).lookup t = some p.deltaRevision := by
    intro t p hp
    rw [lookup_revisionsOf, hp]
    rfl
  refine ⟨rfl, fun t p hp => (lookup_loadProviders hp).1, ?_, ?_, fun p hp => by cases hp⟩
  · intro t p hp
    refine ⟨hlog t p hp, ?_⟩
    have h := hcurs t p hp
    dsimp only [start] at *
    rw [h]
    exact Nat.le_refl _
  · intro t _
    exact looked_eq_held fun p hp => ⟨hlog t p hp, hcurs t p hp⟩

theorem looked_update {s} (h : Invariant hasher manager config s) (providerTag contents) :
    looked (update s.runtime providerTag contents) = looked s.runtime := by
  rw [update]
  split
  · rfl
  rename_i provider hprov
  obtain ⟨hlog, hcurs⟩ := h.logged _ _ hprov
  funext t tag
  rw [looked, looked, lookup_set]
  rcases eq_or_ne t providerTag with rfl | hne
  · rw [if_pos rfl, hprov]
    exact congrFun (version_recordOutboundDelta hlog contents hcurs) tag
  · rw [if_neg hne]

theorem invariant_update {s} (h : Invariant hasher manager config s) (providerTag contents) :
    Invariant hasher manager config { s with runtime := update s.runtime providerTag contents } := by
  have hlk := looked_update h providerTag contents
  cases hprov : s.runtime.providers.lookup providerTag with
  | none =>
    have hsame : update s.runtime providerTag contents = s.runtime := by
      rw [update, hprov]
    rw [hsame]
    exact h
  | some provider =>
    have hupd : update s.runtime providerTag contents =
        { s.runtime with
          providers := s.runtime.providers.insert providerTag (recordOutboundDelta provider contents)
          dirtyProviders := s.runtime.dirtyProviders.insert providerTag () } := by
      rw [update, hprov]
    obtain ⟨hlog, hcurs⟩ := h.logged _ _ hprov
    constructor
    · rw [hupd]
      exact h.tracked
    · intro t p hp
      rw [hupd] at hp
      rcases lookup_of_insert hp with ⟨rfl, -⟩ | ⟨-, hp⟩
      · exact h.configured _ provider hprov
      · exact h.configured t p hp
    · intro t p hp
      rw [hupd] at hp ⊢
      rcases lookup_of_insert hp with ⟨rfl, rfl⟩ | ⟨-, hp⟩
      · exact ⟨wellLogged_record hlog contents, hcurs.trans (le_recordOutboundDelta provider contents)⟩
      · exact h.logged t p hp
    · intro t ht
      rw [hlk]
      rw [hupd] at ht ⊢
      have hne : t ≠ providerTag := by
        rintro rfl
        exact ht (AList.mem_insert _ |>.2 (.inl rfl))
      have hclean : t ∉ s.runtime.dirtyProviders.keys := fun hin => ht (AList.mem_insert _ |>.2 (.inr hin))
      rw [h.clean t hclean]
      funext tag
      rw [held, held, lookup_set, if_neg hne]
    · intro p hp
      dsimp only [Before]
      rw [hlk]
      rw [hupd] at hp
      exact h.baseline p hp

theorem invariant_snapshot {s} (h : Invariant hasher manager config s) {generation publication runtime}
    (hord : Orderly hasher manager config (outboundsOf s.runtime))
    (hsnap : snapshot hasher manager config generation s.runtime = .ok (publication, runtime)) :
    Invariant hasher manager config ⟨runtime, some publication⟩ := by
  rw [snapshot] at hsnap
  split at hsnap
  · cases hsnap
  rename_i p hp
  obtain ⟨rfl, rfl⟩ := Prod.mk.inj (Except.ok.inj hsnap)
  obtain ⟨hpub, hiden, ⟨statics, hst⟩, -, -⟩ := snapshot_publishes hord hp
  have hcurs : ∀ t provider, s.runtime.providers.lookup t = some provider →
      (revisionsOf s.runtime.providers).lookup t = some provider.deltaRevision := by
    intro t provider hprov
    rw [lookup_revisionsOf, hprov]
    rfl
  have hlk : looked { s.runtime with
      lastPublication := some p, providerRevisions := revisionsOf s.runtime.providers, dirtyProviders := ∅ } =
      held s.runtime := by
    funext t
    refine looked_eq_held fun provider hprov => ⟨(h.logged t provider hprov).1, hcurs t provider hprov⟩
  have hlv : (· ∈ leavesOf manager config (outboundsOf s.runtime)) = LeafAt manager config (held s.runtime) := by
    funext leaf
    exact propext (mem_leavesOf hst)
  refine ⟨rfl, h.configured, ?_, ?_, ?_⟩
  · intro t provider hprov
    refine ⟨(h.logged t provider hprov).1, ?_⟩
    rw [hcurs t provider hprov]
    exact Nat.le_refl _
  · intro t _
    exact congrFun hlk t
  · intro q hq
    obtain rfl := some.inj hq
    dsimp only [Before]
    rw [hlk, ← hlv]
    exact ⟨hpub, hiden, statics, hst⟩

structure Adopted (tags : List String) (r r' : A48SourceRuntimeV1) : Prop where
  providers : r'.providers = r.providers
  lastPublication : r'.lastPublication = r.lastPublication
  cursor : ∀ t p, r.providers.lookup t = some p → t ∈ tags → r'.providerRevisions.lookup t = some p.deltaRevision
  others : ∀ t, t ∉ tags → r'.providerRevisions.lookup t = r.providerRevisions.lookup t
  dirty : ∀ t ∈ r'.dirtyProviders.keys, t ∈ r.dirtyProviders.keys ∧ t ∉ tags

omit [NetworkNames] in
theorem adopted_foldl {updates : List (String × Nat)}
    (h : ∀ u ∈ updates, ∃ p, r.providers.lookup u.1 = some p ∧ p.deltaRevision = u.2) :
    Adopted (updates.map (·.1)) r (updates.foldl adoptRevision r) := by
  induction updates generalizing r with
  | nil => exact ⟨rfl, rfl, by simp, by simp, by simp⟩
  | cons u updates ih =>
    obtain ⟨p, hp, hrev⟩ := h u mem_cons_self
    have hone : adoptRevision r u =
        { r with
          providerRevisions := r.providerRevisions.insert u.1 u.2
          dirtyProviders := r.dirtyProviders.erase u.1 } := by
      rw [adoptRevision, hp]
      simp [hrev]
    have hr := ih (r := adoptRevision r u) (by
      intro u' hu'
      exact h u' (mem_cons_of_mem _ hu'))
    rw [foldl_cons, map_cons]
    rw [hone] at hr ⊢
    refine ⟨hr.providers, hr.lastPublication, ?_, ?_, ?_⟩
    · intro t p' hp' ht
      by_cases hlat : t ∈ updates.map (·.1)
      · exact hr.cursor t p' hp' hlat
      obtain rfl := (mem_cons.1 ht).resolve_right hlat
      rw [hr.others _ hlat, lookup_set, if_pos rfl, ← hrev]
      rw [hp] at hp'
      rw [some.inj hp']
    · intro t ht
      rw [mem_cons, not_or] at ht
      rw [hr.others t ht.2, lookup_set, if_neg ht.1]
    · intro t ht
      obtain ⟨hin, hlat⟩ := hr.dirty t ht
      obtain ⟨hne, hin⟩ := AList.mem_erase.1 hin
      exact ⟨hin, not_mem_cons_of_ne_of_not_mem hne hlat⟩

structure DeltaTaken (hasher : IdentityHasher) (manager : List Outbound) (config : SourceRuntimeConfig)
    (generation : Nat) (dirty : List String) (r r' : A48SourceRuntimeV1) (d : SourceDeltaPublication)
    (previous current : SourcePublication) (g : Gathering) : Prop where
  last : r.lastPublication = some previous
  gathers : gather hasher manager config generation r previous dirty = .ok g
  returned : d = gathered generation g
  applies : applySourceDelta previous d = .ok current
  adopts : r' = g.updatedRevisions.foldl adoptRevision { r with lastPublication := some current }

theorem delta_taken {generation r' d} (h : delta hasher manager config generation order r = .ok (d, r')) :
    ∃ previous current g,
      DeltaTaken hasher manager config generation (order.visit r.dirtyProviders.keys) r r' d previous current g := by
  rw [delta] at h
  split at h
  · cases h
  rename_i previous hl
  split at h
  · cases h
  dsimp only at h
  split at h
  · cases h
  rename_i g hg
  split at h
  · cases h
  rename_i current happ
  obtain ⟨rfl, rfl⟩ := Prod.mk.inj (Except.ok.inj h)
  exact ⟨previous, current, g, hl, hg, rfl, happ, rfl⟩

theorem deltaOf_spec {s} (h : Invariant hasher manager config s) {δ} (hδ : deltaOf s.runtime t = some δ) :
    Truthful (looked s.runtime t) (held s.runtime t) δ.upserts δ.removes ∧
      ∃ p, s.runtime.providers.lookup t = some p ∧ p.deltaRevision = δ.revision := by
  obtain ⟨p, hp, hδ⟩ := bind_eq_some_iff.1 hδ
  obtain ⟨htruth, hrev⟩ := outboundDelta_truthful (h.logged t p hp).1 hδ
  have hlk : looked s.runtime t = version p ((s.runtime.providerRevisions.lookup t).getD 0) := by
    funext tag
    rw [looked, hp]
    rfl
  have hheld : held s.runtime t = p.contents.outbound := by
    funext tag
    rw [held, hp]
    rfl
  rw [hlk, hheld]
  exact ⟨htruth, p, hp, hrev.symm⟩

section

variable {s : System} {generation : Nat} {dirty : List String} {r' : A48SourceRuntimeV1} {d : SourceDeltaPublication}
  {previous current : SourcePublication} {g : Gathering}

theorem ready_of_invariant (hnames : "static" ∉ config.providerTags ∧ "" ∉ config.providerTags)
    (h : Invariant hasher manager config s) (hord : Orderly hasher manager config (outboundsOf s.runtime))
    (hl : s.runtime.lastPublication = some previous) (hdirty : ∀ t, t ∈ dirty ↔ t ∈ s.runtime.dirtyProviders.keys) :
    ∃ statics, Ready hasher manager config s.runtime previous statics dirty := by
  obtain ⟨hbas, -, statics, hst⟩ := h.baseline previous hl
  refine ⟨statics, hnames, h.configured, ?_, ?_, hst, hord, hbas⟩
  · intro t δ hδ
    exact (deltaOf_spec h hδ).1
  · intro t ht
    exact h.clean t fun hin => ht ((hdirty t).2 hin)

theorem adopted_of_taken (h : Invariant hasher manager config s)
    (htk : DeltaTaken hasher manager config generation dirty s.runtime r' d previous current g) :
    Adopted dirty { s.runtime with lastPublication := some current } r' := by
  obtain ⟨added, hg⟩ := gather_foldlM_ok htk.gathers
  have hrev := hg.revisions
  rw [List.nil_append] at hrev
  have hprov : ∀ u ∈ g.updatedRevisions, ∃ p, s.runtime.providers.lookup u.1 = some p ∧ p.deltaRevision = u.2 := by
    intro u hu
    rw [hrev] at hu
    obtain ⟨t, ht, rfl⟩ := List.mem_map.1 hu
    obtain ⟨-, δ, -, hδ⟩ := hg.answered t ht
    rw [hδ]
    exact (deltaOf_spec h hδ).2
  have hado := adopted_foldl (r := { s.runtime with lastPublication := some current }) hprov
  rw [← htk.adopts, hrev, List.map_map] at hado
  have hid : dirty.map (Prod.fst ∘ fun t => (t, ((deltaOf s.runtime t).map (·.revision)).getD 0)) = dirty :=
    List.map_id dirty
  rwa [hid] at hado

theorem looked_after (h : Invariant hasher manager config s)
    (hdirty : ∀ t, t ∈ dirty ↔ t ∈ s.runtime.dirtyProviders.keys)
    (hado : Adopted dirty { s.runtime with lastPublication := some current } r') :
    looked r' = held s.runtime := by
  funext t
  by_cases ht : t ∈ dirty
  · have hheld : held r' t = held s.runtime t := by
      funext tag
      rw [held, held, hado.providers]
    rw [← hheld]
    refine looked_eq_held fun p hp => ?_
    rw [hado.providers] at hp
    exact ⟨(h.logged t p hp).1, hado.cursor t p hp ht⟩
  · rw [← h.clean t fun hin => ht ((hdirty t).2 hin)]
    funext tag
    rw [looked, looked, hado.providers, hado.others t ht]

section

variable (hnames : "static" ∉ config.providerTags ∧ "" ∉ config.providerTags)
include hnames

theorem publishes_after
    (h : Invariant hasher manager config s) (hord : Orderly hasher manager config (outboundsOf s.runtime))
    (honce : ∀ t ∈ s.runtime.dirtyProviders.keys, ChangedOnce s.runtime t)
    (hdirty : ∀ t, t ∈ dirty ↔ t ∈ s.runtime.dirtyProviders.keys) (hnd : dirty.Nodup)
    (htk : DeltaTaken hasher manager config generation dirty s.runtime r' d previous current g) :
    Publishes current (Now hasher manager config s.runtime) ∧
      (∀ leaf, LeafAt manager config (held s.runtime) leaf → (nodeOf hasher leaf).isSome = true) := by
  obtain ⟨statics, hrdy⟩ := ready_of_invariant hnames h hord htk.last hdirty
  obtain ⟨added, hg⟩ := gather_foldlM_ok htk.gathers
  have hdis := hg.distinct hnd fun t ht => honce t ((hdirty t).1 ht)
  have happ := htk.applies
  rw [htk.returned] at happ
  refine ⟨gathered_publishes hrdy hg hdis (applySourceDelta_applied hrdy.baseline.ids happ), ?_⟩
  intro leaf hl
  exact identified_after hrdy hg (h.baseline previous htk.last).2.1 hl

theorem invariant_delta (h : Invariant hasher manager config s)
    (hord : Orderly hasher manager config (outboundsOf s.runtime))
    (honce : ∀ t ∈ s.runtime.dirtyProviders.keys, ChangedOnce s.runtime t)
    (hd : delta hasher manager config generation order s.runtime = .ok (d, r')) :
    Invariant hasher manager config ⟨r', receive s.published d⟩ ∧ looked r' = held r' ∧
      outboundsOf r' = outboundsOf s.runtime ∧ ∃ current, receive s.published d = some current := by
  obtain ⟨previous, current, g, htk⟩ := delta_taken hd
  have hdirty : ∀ t, t ∈ order.visit s.runtime.dirtyProviders.keys ↔ t ∈ s.runtime.dirtyProviders.keys := fun t =>
    order.mem_visit
  have hado := adopted_of_taken h htk
  have hlk := looked_after h hdirty hado
  obtain ⟨hpub, hiden⟩ := publishes_after hnames h hord honce hdirty
    (order.nodup_visit s.runtime.dirtyProviders.keys_nodup) htk
  have hl : r'.lastPublication = some current := hado.lastPublication
  have hrec : receive s.published d = some current := by
    rw [h.tracked, htk.last, receive, map_some, htk.applies]
  have hheld : held r' = held s.runtime := by
    funext t tag
    rw [held, held, hado.providers]
  refine ⟨⟨hrec.trans hl.symm, ?_, ?_, ?_, ?_⟩, hlk.trans hheld.symm, ?_, current, hrec⟩
  · intro t p hp
    rw [hado.providers] at hp
    exact h.configured t p hp
  · intro t p hp
    rw [hado.providers] at hp
    refine ⟨(h.logged t p hp).1, ?_⟩
    by_cases ht : t ∈ order.visit s.runtime.dirtyProviders.keys
    · rw [hado.cursor t p hp ht]
      exact Nat.le_refl _
    · rw [hado.others t ht]
      exact (h.logged t p hp).2
  · intro t _
    rw [hlk, hheld]
  · intro p hp
    obtain rfl := mem_unique hl hp
    dsimp only [Before]
    rw [hlk]
    exact ⟨hpub, hiden, (h.baseline previous htk.last).2.2⟩
  · funext t
    rw [outboundsOf, outboundsOf, hado.providers]

end

end

theorem invariant_step (hnames : "static" ∉ config.providerTags ∧ "" ∉ config.providerTags) (s e)
    (hreg : Regular hasher manager config s e) (h : Invariant hasher manager config s) :
    Invariant hasher manager config (step hasher manager config s e) := by
  cases e with
  | update providerTag contents => exact invariant_update h providerTag contents
  | snapshot generation =>
    rw [step]
    split
    · rename_i hsnap
      exact invariant_snapshot h hreg hsnap
    · exact h
  | delta generation order =>
    rw [step]
    split
    · rename_i hd
      exact (invariant_delta hnames h hreg.1 hreg.2 hd).1
    · exact h

/-- In every run that reads regular contents, a reader that has applied a delta
has what a full snapshot would give. -/
theorem deltas_reach_snapshot (hnames : "static" ∉ config.providerTags ∧ "" ∉ config.providerTags)
    (contents : String → Contents) (es : List Event) (generation : Nat) (order : RangeOrder String)
    (hregular : Meets (step hasher manager config) (Regular hasher manager config) ⟨start config contents, none⟩
      (es ++ [.delta generation order])) {d : SourceDeltaPublication} {r' : A48SourceRuntimeV1}
    (hdelta : delta hasher manager config generation order
      (run (step hasher manager config) ⟨start config contents, none⟩ es).runtime = .ok (d, r')) :
    ∃ p, run (step hasher manager config) ⟨start config contents, none⟩ (es ++ [.delta generation order]) =
        ⟨r', some p⟩ ∧
      ∀ generation' ≠ 0, ∃ q, snapshotA48RuntimeV1 hasher manager config (outboundsOf r') generation' = .ok q ∧
        SameContent p q := by
  rw [meets_append] at hregular
  have h := run_keeps (fun s e _ => invariant_step hnames s e) (invariant_start contents) hregular.1
  obtain ⟨-, ⟨hord, honce⟩, -⟩ := hregular
  obtain ⟨haft, hlk, houtb, p, hp⟩ := invariant_delta hnames h hord honce hdelta
  refine ⟨p, ?_, fun generation' hgen' => ?_⟩
  · rw [run_append, run_cons, run_nil, step, hdelta]
    dsimp only
    rw [hp]
  · have hl : r'.lastPublication = some p := haft.tracked.symm.trans hp
    obtain ⟨hpub, hiden, statics, hst⟩ := haft.baseline p hl
    dsimp only [Before] at hpub hiden
    rw [hlk] at hpub hiden
    rw [← houtb] at hord
    obtain ⟨q, hq⟩ := snapshot_ok hord hst hgen' fun leaf hle =>
      hiden leaf ((mem_leavesOf hst).1 hle)
    refine ⟨q, hq, hpub.sameContent ?_⟩
    have hlv : (· ∈ leavesOf manager config (outboundsOf r')) = LeafAt manager config (held r') := by
      funext leaf
      exact propext (mem_leavesOf hst)
    have hq' := (snapshot_publishes hord hq).1
    rwa [hlv] at hq'

end

def proxy (object : Nat) (tag options : String) : Outbound :=
  { object := object, tag := tag, type := "proxy", network := ["tcp"], dependencies := [], members := none
    options := some ⟨"proxy", options⟩ }

/-- The endpoint is the first letter of the options. -/
def letterHasher : IdentityHasher where
  fromCanonicalOptions o := some (.ofNat 128 (o.options.toList.foldl (fun h c => 256 * h + c.toNat) 0))
  fromEndpointOptions o := o.options.toList.head?.map fun c => .ofNat 128 c.toNat
  fromRuntimeDescriptor _ tag _ _ := .ofNat 128 tag.length

def alpha : Outbound := proxy 1 "a" "x1"

def beta : Outbound := proxy 2 "b" "x2"

def gamma : Outbound := proxy 3 "c" "y1"

def only (o : Outbound) : Contents := ⟨[o], List.nodup_singleton _⟩

def both (o o' : Outbound) (h : o.tag ≠ o'.tag) : Contents := ⟨[o, o'], by simpa using h⟩

def oneProvider : SourceRuntimeConfig := ⟨[], ["p"], none, none, none⟩

def twoProviders : SourceRuntimeConfig := ⟨[], ["p", "q"], none, none, none⟩

def compared (config : SourceRuntimeConfig) (es : List Event) : Option (SourcePublication × SourcePublication) :=
  let s := run (step letterHasher [] config) ⟨start config fun _ => only alpha, none⟩ es
  match s.published, snapshotA48RuntimeV1 letterHasher [] config (outboundsOf s.runtime) 9 with
  | some p, .ok q => some (p, q)
  | _, _ => none

theorem added_outbound_reached :
    ∃ p q r', run (step letterHasher [] oneProvider) ⟨start oneProvider fun _ => only alpha, none⟩
        [.snapshot 1, .update "p" (both alpha gamma (by decide)), .delta 2 (.stored _)] = ⟨r', some p⟩ ∧
      snapshotA48RuntimeV1 letterHasher [] oneProvider (outboundsOf r') 9 = .ok q ∧ SameContent p q := by
  obtain ⟨⟨d, r'⟩, hd⟩ : ∃ result, delta letterHasher [] oneProvider 2 (.stored _)
      (run (step letterHasher [] oneProvider) ⟨start oneProvider fun _ => only alpha, none⟩
        [.snapshot 1, .update "p" (both alpha gamma (by decide))]).runtime = .ok result := by
    have hok : ∀ x : Except SourceError (SourceDeltaPublication × A48SourceRuntimeV1), x.isOk = true →
        ∃ result, x = .ok result := by rintro (_ | result) ⟨⟩; exact ⟨result, rfl⟩
    exact hok _ (by decide +kernel)
  obtain ⟨p, hrun, hsame⟩ := deltas_reach_snapshot (by decide) (fun _ => only alpha)
    [.snapshot 1, .update "p" (both alpha gamma (by decide))] 2 (.stored _) (by decide +kernel) hd
  obtain ⟨q, hq, hpq⟩ := hsame 9 (by decide)
  exact ⟨p, q, r', hrun, hq, hpq⟩

def Diverges (config : SourceRuntimeConfig) (es : List Event) : Prop :=
  ∃ p q, compared config es = some (p, q) ∧ p.generation = 2 ∧ ¬ SameContent p q

theorem diverges_of_compared {config es} (h : (compared config es).any (fun pq => pq.1.generation = 2 ∧
      (¬ pq.1.nodes.Perm pq.2.nodes ∨ pq.1.inputLeafCount ≠ pq.2.inputLeafCount)) = true) : Diverges config es := by
  obtain ⟨⟨p, q⟩, hpq, hdif⟩ := (any_eq_true _ _).1 h
  obtain ⟨hgen, hdif⟩ := of_decide_eq_true hdif
  refine ⟨p, q, hpq, hgen, fun hsame => ?_⟩
  rcases hdif with hns | hcnt
  · exact hns hsame.nodes
  · exact hcnt hsame.count

/-- A second outbound at the endpoint of the first, a tag that changed twice, and a tag of two
providers. -/
theorem deltas_diverge :
    Diverges oneProvider [.snapshot 1, .update "p" (both alpha beta (by decide)), .delta 2 (.stored _)] ∧
      Diverges oneProvider
        [.snapshot 1, .update "p" (only (proxy 4 "a" "z1")), .update "p" (only alpha), .delta 2 (.stored _)] ∧
      Diverges twoProviders [.snapshot 1, .update "p" (only gamma), .delta 2 (.stored _)] := by
  refine ⟨?_, ?_, ?_⟩
  · apply diverges_of_compared
    decide +kernel
  · apply diverges_of_compared
    decide +kernel
  · apply diverges_of_compared
    decide +kernel

end SingBox.SourceRuns
