import SingBox.DeltaApplication
import SingBox.DeltaGathering
import SingBox.ProviderLog

namespace SingBox.SourceDeltas

open List Maps Values SourceSnapshots SourceListing SourceRuntime ProviderLog DeltaApplication DeltaGathering

variable {tag t : String} {n' : CanonicalNode} {a : Addition}

section

variable [NetworkNames] (hasher : IdentityHasher) (manager : List Outbound) (config : SourceRuntimeConfig)

/-- The leaves of the static tags, and those of the providers as a view shows them. -/
inductive LeafAt (view : String → String → Option Outbound) : A48SourceRoot → Prop
  | static {statics : List A48SourceRoot} {leaf : A48SourceRoot}
      (hstatics : staticRoots manager config.staticTags = .ok statics) (hleaf : leaf ∈ flattenRoots manager statics) :
      LeafAt view leaf
  | member {providerTag : String} {o : Outbound} (hprovider : providerTag ∈ config.providerTags)
      (hheld : view providerTag o.tag = some o) (hallowed : allowed config o.tag = true) :
      LeafAt view (memberRoot providerTag o)

def held (r : A48SourceRuntimeV1) (providerTag tag : String) : Option Outbound :=
  (r.providers.lookup providerTag).bind fun provider => provider.contents.outbound tag

def looked (r : A48SourceRuntimeV1) (providerTag tag : String) : Option Outbound :=
  (r.providers.lookup providerTag).bind fun provider =>
    version provider ((r.providerRevisions.lookup providerTag).getD 0) tag

variable {hasher manager config}

variable {providerTag : String} {leaf : A48SourceRoot}

omit [NetworkNames] in
theorem mem_outboundsOf {r o} : o ∈ outboundsOf r providerTag ↔ held r providerTag o.tag = some o := by
  rw [outboundsOf, held]
  cases r.providers.lookup providerTag with
  | none => simp
  | some provider =>
    rw [Option.bind_some, Contents.outbound_eq_some]
    simp

omit [NetworkNames] in
theorem mem_leavesOf {r statics} (hst : staticRoots manager config.staticTags = .ok statics) :
    leaf ∈ leavesOf manager config (outboundsOf r) ↔ LeafAt manager config (held r) leaf := by
  rw [leavesOf, hst]
  rw [mem_append]
  constructor
  · rintro (hl | hl)
    · exact .static hst hl
    · obtain ⟨t, ht, hmemb⟩ := mem_flatMap.1 hl
      obtain ⟨o, ho, rfl⟩ := mem_map.1 hmemb
      obtain ⟨ho, hallow⟩ := mem_filter.1 ho
      exact .member ht (mem_outboundsOf.1 ho) hallow
  · intro h
    cases h with
    | static hst' hl =>
      obtain rfl := Except.ok.inj (hst.symm.trans hst')
      exact .inl hl
    | member ht hheld hallow =>
      refine .inr (mem_flatMap.2 ⟨_, ht, mem_map.2 ⟨_, ?_, rfl⟩⟩)
      exact mem_filter.2 ⟨mem_outboundsOf.2 hheld, hallow⟩

omit [NetworkNames] in
theorem manualMatch_of_allowed (h : allowed config tag = true) : manualMatch config tag = false := by
  rw [allowed, Bool.and_eq_true, Bool.and_eq_true, Bool.not_eq_true', Bool.not_eq_true'] at h
  exact h.1.2

theorem comesFrom_member {providerTag' o n} (hprov : providerTag ≠ "")
    (hn : nodeOf hasher (memberRoot providerTag o) = some n) :
    comesFrom providerTag' tag n = true ↔ providerTag' = providerTag ∧ tag = o.tag := by
  obtain ⟨ids, -, rfl⟩ := identify_of_nodeOf hn
  have hmet : sourceMetadata providerTag = AList.singleton "source" providerTag := if_neg hprov
  simp only [comesFrom, canonicalNode, memberRoot, hmet, Bool.and_eq_true, decide_eq_true_eq]
  constructor
  · rintro ⟨⟨-, hprov⟩, htag⟩
    exact ⟨hprov.symm, htag.symm⟩
  · rintro ⟨rfl, rfl⟩
    exact ⟨⟨by simp [AList.ext_iff], rfl⟩, rfl⟩

theorem comesFrom_static {n} (hl : leaf.source = "static") (hn : nodeOf hasher leaf = some n)
    (h : comesFrom providerTag tag n = true) : providerTag = "static" := by
  obtain ⟨ids, -, rfl⟩ := identify_of_nodeOf hn
  simp only [comesFrom, canonicalNode, hl, Bool.and_eq_true, decide_eq_true_eq] at h
  exact h.1.2.symm

theorem leaf_unique {outbounds} (hord : Orderly hasher manager config outbounds) {leaf' n}
    (hl : leaf ∈ leavesOf manager config outbounds) (hl' : leaf' ∈ leavesOf manager config outbounds)
    (hn : nodeOf hasher leaf = some n) (hn' : nodeOf hasher leaf' = some n') (hid : n.nodeID = n'.nodeID) :
    leaf = leaf' := by
  by_contra hne
  have hsymm : Std.Symm (Apart hasher) := by
    constructor
    intro a b hab
    refine ⟨hab.1.symm, fun i hi j hj => ?_⟩
    have hij := hab.2 j hj i hi
    exact ⟨hij.1.symm, hij.2.symm⟩
  exact ((hord.apart.forall hl hl' hne).nodes hn hn').1 hid

end

section

variable [NetworkNames] {hasher : IdentityHasher} {manager : List Outbound} {config : SourceRuntimeConfig}
  {r : A48SourceRuntimeV1} {previous : SourcePublication} {statics : List A48SourceRoot} {dirty : List String}
  {added : List Addition} {byID : GoMap NodeID CanonicalNode} {g : Gathering}

structure Ready (hasher : IdentityHasher) (manager : List Outbound) (config : SourceRuntimeConfig)
    (r : A48SourceRuntimeV1) (previous : SourcePublication) (statics : List A48SourceRoot) (dirty : List String) :
    Prop where
  names : "static" ∉ config.providerTags ∧ "" ∉ config.providerTags
  configured : ∀ t p, r.providers.lookup t = some p → t ∈ config.providerTags
  truthful : ∀ t δ, deltaOf r t = some δ → Truthful (looked r t) (held r t) δ.upserts δ.removes
  clean : ∀ t, t ∉ dirty → looked r t = held r t
  statics : staticRoots manager config.staticTags = .ok statics
  orderly : Orderly hasher manager config (outboundsOf r)
  baseline : Publishes previous (Present hasher config (LeafAt manager config (looked r)))

abbrev opening (previous : SourcePublication) (byID : GoMap NodeID CanonicalNode) : Gathering :=
  { inputLeafCount := previous.inputLeafCount, currentByID := byID }

abbrev Now (hasher : IdentityHasher) (manager : List Outbound) (config : SourceRuntimeConfig)
    (r : A48SourceRuntimeV1) : CanonicalNode → Outbound → Prop :=
  Present hasher config (LeafAt manager config (held r))

abbrev Before (hasher : IdentityHasher) (manager : List Outbound) (config : SourceRuntimeConfig)
    (r : A48SourceRuntimeV1) : CanonicalNode → Outbound → Prop :=
  Present hasher config (LeafAt manager config (looked r))

theorem named_ne_empty (hready : Ready hasher manager config r previous statics dirty) (ht : t ∈ config.providerTags) :
    t ≠ "" := by
  rintro rfl
  exact hready.names.2 ht

variable {n : CanonicalNode} {o : Outbound}

theorem present_unique (hready : Ready hasher manager config r previous statics dirty) {o'}
    (h : Now hasher manager config r n o) (h' : Now hasher manager config r n' o') (hid : n.nodeID = n'.nodeID) :
    n = n' ∧ o = o' := by
  obtain ⟨leaf, hl, hn, rfl, -⟩ := h
  obtain ⟨leaf', hl', hn', rfl, -⟩ := h'
  obtain rfl := leaf_unique hready.orderly ((mem_leavesOf hready.statics).2 hl)
    ((mem_leavesOf hready.statics).2 hl') hn hn' hid
  exact ⟨Option.mem_unique hn hn', rfl⟩

section

variable (hready : Ready hasher manager config r previous statics dirty)
  (hgathers : Gathers hasher config r previous dirty added (opening previous byID) g)
include hready hgathers

theorem leaf_added (ha : a ∈ added) : LeafAt manager config (held r) (memberRoot a.providerTag a.outbound) ∧
      nodeOf hasher (memberRoot a.providerTag a.outbound) = some a.node := by
  obtain ⟨-, p, -, hp, -, -, hallow, hheld, hn⟩ := hgathers.additions a ha
  refine ⟨.member (hready.configured _ p hp) ?_ hallow, hn⟩
  rw [held, hp]
  exact hheld

theorem present_added (ha : a ∈ added) : Now hasher manager config r a.node a.outbound := by
  obtain ⟨hl, hn⟩ := leaf_added hready hgathers ha
  obtain ⟨-, -, -, -, -, -, hallow, -, -⟩ := hgathers.additions a ha
  exact ⟨_, hl, hn, rfl, manualMatch_of_allowed hallow⟩

theorem present_kept (h : Before hasher manager config r n o) (hkept : n.nodeID ∉ g.removes) :
    Now hasher manager config r n o := by
  have hls : n ∈ previous.nodes := (hready.baseline.listed n).2 ⟨o, h⟩
  obtain ⟨leaf, hl, hn, ho, hman⟩ := h
  cases hl with
  | static hst hl => exact ⟨leaf, .static hst hl, hn, ho, hman⟩
  | @member t o' ht hlk hallow =>
    refine ⟨_, .member ht ?_ hallow, hn, ho, hman⟩
    by_cases hdirty : t ∈ dirty
    · obtain ⟨p, δ, -, hδ⟩ := hgathers.answered t hdirty
      by_cases htch : o'.tag ∈ δ.removes ++ δ.upserts
      · have hcom := (comesFrom_member (named_ne_empty hready ht) hn).2 ⟨rfl, rfl⟩
        have hnam : Named previous t δ n.nodeID := ⟨o'.tag, htch, n, hls, hcom, rfl⟩
        exact absurd ((hgathers.removes n.nodeID).2 (.inr ⟨t, hdirty, δ, hδ, hnam⟩)) hkept
      · rw [mem_append, not_or] at htch
        rw [← (hready.truthful t δ hδ).untouched _ htch.2 htch.1]
        exact hlk
    · rw [← hready.clean t hdirty]
      exact hlk

theorem not_removed (hls : n ∈ previous.nodes)
    (h : ∀ t ∈ dirty, ∀ δ, deltaOf r t = some δ → ∀ tag ∈ δ.removes ++ δ.upserts, comesFrom t tag n = false) :
    n.nodeID ∉ g.removes := by
  intro hin
  rcases (hgathers.removes n.nodeID).1 hin with hno | ⟨t, ht, δ, hδ, tag, htag, m, hm, hcom, hid⟩
  · exact absurd hno not_mem_nil
  · rw [inj_on_of_nodup_map hready.baseline.ids hm hls hid, h t ht δ hδ tag htag] at hcom
    cases hcom

theorem added_or_unchanged (hheld : held r t o.tag = some o) (hallow : allowed config o.tag = true) :
    (∃ a ∈ added, a.outbound = o ∧ nodeOf hasher (memberRoot t o) = some a.node) ∨
      looked r t o.tag = some o ∧ (t ∈ dirty → ∀ δ, deltaOf r t = some δ → o.tag ∉ δ.removes ++ δ.upserts) := by
  by_cases hdirty : t ∈ dirty
  · obtain ⟨p, δ, hp, hδ⟩ := hgathers.answered t hdirty
    by_cases hups : o.tag ∈ δ.upserts
    · obtain ⟨a, ha, rfl, htag⟩ := hgathers.covers t hdirty δ hδ o.tag hups hallow
      obtain ⟨-, p', -, hp', -, -, -, hheld', hn'⟩ := hgathers.additions a ha
      rw [held, hp', Option.bind_some, ← htag, hheld'] at hheld
      obtain rfl := Option.some.inj hheld
      exact .inl ⟨a, ha, rfl, hn'⟩
    · have hrem : o.tag ∉ δ.removes := by
        intro hin
        apply hups
        apply (hready.truthful t δ hδ).present _ hin
        rw [hheld]
        exact Option.some_ne_none _
      refine .inr ⟨?_, ?_⟩
      · rw [(hready.truthful t δ hδ).untouched _ hups hrem]
        exact hheld
      · intro _ δ' hδ'
        obtain rfl := Option.mem_unique hδ hδ'
        rw [mem_append, not_or]
        exact ⟨hrem, hups⟩
  · refine .inr ⟨?_, fun hin => absurd hin hdirty⟩
    rw [hready.clean t hdirty]
    exact hheld

theorem added_or_kept (h : Now hasher manager config r n o) :
    (∃ a ∈ added, a.node = n ∧ a.outbound = o) ∨ Before hasher manager config r n o ∧ n.nodeID ∉ g.removes := by
  obtain ⟨leaf, hl, hn, ho, hman⟩ := h
  cases hl with
  | static hst hl =>
    have hbef : Before hasher manager config r n o := ⟨leaf, .static hst hl, hn, ho, hman⟩
    refine .inr ⟨hbef, not_removed hready hgathers ((hready.baseline.listed n).2 ⟨o, hbef⟩) ?_⟩
    intro t ht δ hδ tag _
    by_contra hcom
    have hstat := comesFrom_static (source_static hst hl) hn (Bool.eq_true_of_not_eq_false hcom)
    obtain ⟨p, -, hp, -⟩ := hgathers.answered t ht
    rw [hstat] at hp
    exact hready.names.1 (hready.configured _ p hp)
  | @member t o' ht hheld hallow =>
    rcases added_or_unchanged hready hgathers hheld hallow with ⟨a, ha, hout, hn'⟩ | ⟨hlk, hnot⟩
    · exact .inl ⟨a, ha, Option.mem_unique hn' hn, hout.trans ho⟩
    have hbef : Before hasher manager config r n o := ⟨_, .member ht hlk hallow, hn, ho, hman⟩
    refine .inr ⟨hbef, not_removed hready hgathers ((hready.baseline.listed n).2 ⟨o, hbef⟩) ?_⟩
    intro t' ht' δ hδ tag htag
    by_contra hcom
    obtain ⟨rfl, rfl⟩ :=
      (comesFrom_member (named_ne_empty hready ht) hn).1 (Bool.eq_true_of_not_eq_false hcom)
    exact hnot ht' δ hδ htag

theorem identified_after (h : ∀ leaf, LeafAt manager config (looked r) leaf → (nodeOf hasher leaf).isSome = true)
    {leaf} (hl : LeafAt manager config (held r) leaf) : (nodeOf hasher leaf).isSome = true := by
  cases hl with
  | static hst hl => exact h leaf (.static hst hl)
  | @member t o ht hheld hallow =>
    rcases added_or_unchanged hready hgathers hheld hallow with ⟨a, -, -, hn⟩ | ⟨hlk, -⟩
    · rw [hn]
      rfl
    · exact h _ (.member ht hlk hallow)

theorem added_nodup (hdis : (added.map fun a => (a.providerTag, a.outbound.tag)).Nodup) :
    (added.map fun a => a.node.nodeID).Nodup := by
  refine (nodup_map_iff_inj_on hdis.of_map).2 fun a ha b hb hid => ?_
  obtain ⟨hl, hn⟩ := leaf_added hready hgathers ha
  obtain ⟨hl', hn'⟩ := leaf_added hready hgathers hb
  have hsame := leaf_unique hready.orderly ((mem_leavesOf hready.statics).2 hl)
    ((mem_leavesOf hready.statics).2 hl') hn hn' hid
  refine inj_on_of_nodup_map hdis ha hb (Prod.ext ?_ ?_)
  · exact congrArg A48SourceRoot.source hsame
  · exact congrArg (·.outbound.tag) hsame

theorem removed_of_added (ha : a ∈ added) (hls : a.node ∈ previous.nodes) : a.node.nodeID ∈ g.removes := by
  obtain ⟨hdirty, p, δ, hp, hδ, hups, -, -, hn⟩ := hgathers.additions a ha
  have hcom := (comesFrom_member (named_ne_empty hready (hready.configured _ p hp)) hn).2 ⟨rfl, rfl⟩
  exact (hgathers.removes _).2
    (.inr ⟨_, hdirty, δ, hδ, _, mem_append_right _ hups, a.node, hls, hcom, rfl⟩)

end

omit [NetworkNames] in
theorem length_kept {nodes : List CanonicalNode} {removes : List NodeID} (hids : (nodes.map (·.nodeID)).Nodup)
    (hrem : removes.Nodup) (hsub : ∀ id ∈ removes, id ∈ nodes.map (·.nodeID)) :
    (nodes.filter fun n => n.nodeID ∉ removes).length + removes.length = nodes.length := by
  have hp : removes.Perm ((nodes.filter fun n => n.nodeID ∈ removes).map (·.nodeID)) := by
    refine (perm_ext_iff_of_nodup hrem (hids.sublist (filter_sublist.map _))).2 fun id => ?_
    rw [mem_map]
    constructor
    · intro hid
      obtain ⟨n, hn, rfl⟩ := mem_map.1 (hsub id hid)
      exact ⟨n, mem_filter.2 ⟨hn, decide_eq_true hid⟩, rfl⟩
    · rintro ⟨n, hn, rfl⟩
      exact of_decide_eq_true (mem_filter.1 hn).2
  rw [hp.length_eq, length_map, length_eq_length_filter_add (l := nodes) fun n => n.nodeID ∉ removes]
  simp only [decide_not, Bool.not_not]

abbrev gathered (generation : Nat) (g : Gathering) : SourceDeltaPublication :=
  { generation := generation, upserts := g.upserts, removes := g.removes, bindings := g.bindings
    inputLeafCount := g.inputLeafCount, duplicatesSuppressed := 0 }

theorem gathered_publishes {generation : Nat} {current : SourcePublication}
    (hready : Ready hasher manager config r previous statics dirty)
    (hgathers : Gathers hasher config r previous dirty added (opening previous byID) g)
    (hdis : (added.map fun a => (a.providerTag, a.outbound.tag)).Nodup)
    (happ : Applied previous (gathered generation g) current) :
    Publishes current (Now hasher manager config r) := by
  have hids := added_nodup hready hgathers hdis
  have hups : g.upserts = added.map (·.node) := hgathers.upserts
  have hupsertIDs : ∀ id, id ∈ g.upserts.map (·.nodeID) ↔ ∃ a ∈ added, a.node.nodeID = id := by
    intro id
    rw [hups, map_map]
    exact mem_map
  have hbi : ∀ id o, g.bindings.lookup id = some o ↔ ∃ a ∈ added, a.node.nodeID = id ∧ a.outbound = o := by
    intro id o
    rw [hgathers.bindings, lookup_foldl_insert (fun a : Addition => a.node.nodeID) (·.outbound) hids]
    simp
  have hns : ∀ n, n ∈ current.nodes ↔ n ∈ added.map (·.node) ∨ n ∈ previous.nodes ∧ n.nodeID ∉ g.removes := by
    intro n
    rw [happ.nodes, nodeAt_reverse (by rwa [gathered, hups, map_map]), ← hups]
    constructor
    · exact .imp_right fun h => ⟨h.1, h.2.1⟩
    · rintro (hadd | ⟨hls, hkept⟩)
      · exact .inl hadd
      · by_cases hupse : n.nodeID ∈ g.upserts.map (·.nodeID)
        · obtain ⟨a, ha, hid⟩ := (hupsertIDs _).1 hupse
          obtain ⟨o, ho⟩ := (hready.baseline.listed n).1 hls
          obtain ⟨rfl, -⟩ := present_unique hready (present_added hready hgathers ha)
            (present_kept hready hgathers ho hkept) hid
          have hnew : a.node ∈ g.upserts := by
            rw [hups]
            exact mem_map_of_mem ha
          exact .inl hnew
        · exact .inr ⟨hls, hkept, hupse⟩
  refine ⟨happ.ids, ?_, ?_, ?_, happ.suppressed⟩
  · intro n
    rw [hns]
    constructor
    · rintro (hadd | ⟨hls, hkept⟩)
      · obtain ⟨a, ha, rfl⟩ := mem_map.1 hadd
        exact ⟨a.outbound, present_added hready hgathers ha⟩
      · obtain ⟨o, ho⟩ := (hready.baseline.listed n).1 hls
        exact ⟨o, present_kept hready hgathers ho hkept⟩
    · rintro ⟨o, ho⟩
      rcases added_or_kept hready hgathers ho with ⟨a, ha, rfl, -⟩ | ⟨hbef, hkept⟩
      · exact .inl (mem_map_of_mem ha)
      · exact .inr ⟨(hready.baseline.listed n).2 ⟨o, hbef⟩, hkept⟩
  · intro id o
    rw [happ.bindings]
    constructor
    · rintro (⟨-, hport⟩ | ⟨-, hkept, -, hport⟩)
      · obtain ⟨a, ha, hid, rfl⟩ := (hbi id o).1 hport
        exact ⟨a.node, present_added hready hgathers ha, hid⟩
      · obtain ⟨n, hn, rfl⟩ := (hready.baseline.bindings id o).1 hport
        exact ⟨n, present_kept hready hgathers hn hkept, rfl⟩
    · rintro ⟨n, hn, rfl⟩
      by_cases hupse : n.nodeID ∈ g.upserts.map (·.nodeID)
      · obtain ⟨a, ha, hid⟩ := (hupsertIDs _).1 hupse
        obtain ⟨-, ho⟩ := present_unique hready (present_added hready hgathers ha) hn hid
        exact .inl ⟨hupse, (hbi ..).2 ⟨a, ha, hid, ho⟩⟩
      · rcases added_or_kept hready hgathers hn with ⟨a, ha, rfl, -⟩ | ⟨hbef, hkept⟩
        · exact absurd ((hupsertIDs _).2 ⟨a, ha, rfl⟩) hupse
        · refine .inr ⟨hupse, hkept, ?_, (hready.baseline.bindings ..).2 ⟨n, hbef, rfl⟩⟩
          exact mem_map_of_mem ((hready.baseline.listed n).2 ⟨o, hbef⟩)
  · -- the nodes are those kept and those added, and no node is both
    have hp : current.nodes.Perm ((previous.nodes.filter fun n => n.nodeID ∉ g.removes) ++ added.map (·.node)) := by
      have hadd : (added.map (·.node)).Nodup := by
        have hids' : ((added.map (·.node)).map (·.nodeID)).Nodup := by
          rw [map_map]
          exact hids
        exact hids'.of_map
      refine (perm_ext_iff_of_nodup happ.ids.of_map ?_).2 fun n => ?_
      · refine (hready.baseline.ids.of_map.filter _).append hadd ?_
        intro n hkept hnew
        obtain ⟨hls, hkept⟩ := mem_filter.1 hkept
        obtain ⟨a, ha, rfl⟩ := mem_map.1 hnew
        exact of_decide_eq_true hkept (removed_of_added hready hgathers ha hls)
      · rw [hns, mem_append, mem_filter, decide_eq_true_eq]
        exact or_comm
    have hkept := length_kept hready.baseline.ids (hgathers.nodup nodup_nil) (by
      intro id hid
      rcases (hgathers.removes id).1 hid with hno | ⟨t, -, δ, -, tag, -, n, hn, -, rfl⟩
      · exact absurd hno not_mem_nil
      · exact mem_map_of_mem hn)
    have hcnt := hgathers.count
    have hprev := hready.baseline.count
    rw [happ.count, hp.length_eq, length_append, length_map]
    dsimp only [length_nil] at hcnt ⊢
    omega

end

end SingBox.SourceDeltas
