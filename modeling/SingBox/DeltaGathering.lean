import SingBox.SourceListing
import SingBox.SourceRuntime

namespace SingBox.DeltaGathering

open List hiding flatten
open Values SourceSnapshots SourceListing SourceRuntime

section

variable {providerTag : String} {g : Gathering}

structure Taken (Gone : NodeID → Prop) (g g' : Gathering) : Prop where
  removes : ∀ id, id ∈ g'.removes ↔ id ∈ g.removes ∨ Gone id
  nodup : g.removes.Nodup → g'.removes.Nodup
  count : g'.inputLeafCount + g'.removes.length = g.inputLeafCount + g.removes.length
  upserts : g'.upserts = g.upserts
  bindings : g'.bindings = g.bindings
  updatedRevisions : g'.updatedRevisions = g.updatedRevisions

theorem Taken.none (g) : Taken (fun _ => False) g g :=
  ⟨fun id => by simp, id, rfl, rfl, rfl, rfl⟩

theorem Taken.trans {Gone Gone' g₁ g₂ g₃} (h : Taken Gone g₁ g₂) (h' : Taken Gone' g₂ g₃) :
    Taken (fun id => Gone id ∨ Gone' id) g₁ g₃ := by
  refine ⟨?_, fun hn => h'.nodup (h.nodup hn), h'.count.trans h.count, h'.upserts.trans h.upserts,
    h'.bindings.trans h.bindings, h'.updatedRevisions.trans h.updatedRevisions⟩
  intro id
  rw [h'.removes, h.removes, or_assoc]

theorem Taken.congr {Gone Gone' g g'} (h : Taken Gone g g') (hiff : ∀ id, Gone' id ↔ Gone id) : Taken Gone' g g' :=
  { h with removes := fun id => (h.removes id).trans (or_congr .rfl (hiff id).symm) }

theorem taken_gatherRemove (providerTag tag g node) :
    Taken (fun id => comesFrom providerTag tag node = true ∧ node.nodeID = id) g (gatherRemove providerTag tag g node) := by
  rw [gatherRemove]
  split
  · rename_i htake
    rw [Bool.and_eq_true, decide_eq_true_eq] at htake
    refine ⟨?_, ?_, ?_, rfl, rfl, rfl⟩
    · intro id
      rw [mem_append, mem_singleton]
      exact or_congr .rfl ⟨fun h => ⟨htake.1, h.symm⟩, fun h => h.2.symm⟩
    · intro hnd
      rw [nodup_append]
      refine ⟨hnd, nodup_singleton _, ?_⟩
      rintro id hid _ hid' rfl
      rw [mem_singleton.1 hid'] at hid
      exact htake.2 hid
    · dsimp only
      rw [length_append, length_singleton]
      omega
  · rename_i hkeep
    refine ⟨?_, id, rfl, rfl, rfl, rfl⟩
    intro id
    constructor
    · exact .inl
    · rintro (hin | ⟨hcom, rfl⟩)
      · exact hin
      · by_contra hout
        exact hkeep (by rw [hcom, decide_eq_true hout]; rfl)

theorem Taken.foldl {α : Type} {take} {Gone : α → NodeID → Prop} (h : ∀ g x, Taken (Gone x) g (take g x))
    (xs : List α) (g) : Taken (fun id => ∃ x ∈ xs, Gone x id) g (xs.foldl take g) := by
  induction xs generalizing g with
  | nil => exact (Taken.none g).congr fun id => by simp
  | cons x xs ih => exact ((h g x).trans (ih _)).congr fun id => by simp

end

variable {o : Outbound} {r : A48SourceRuntimeV1} {previous : SourcePublication}

theorem flattenRoots_member {manager providerTag} (hl : o.members = none) :
    flattenRoots manager [memberRoot providerTag o] = if o.tag = "" then [] else [memberRoot providerTag o] := by
  split
  · rename_i htag
    rw [flattenRoots, flattenAll, foldl_cons, depthLimit, flatten, if_pos (.inl htag)]
    rfl
  · rename_i htag
    refine flattenRoots_append (fun _ h => absurd h not_mem_nil) ?_ (nodup_singleton _)
    intro root hroot
    rw [mem_singleton.1 hroot]
    exact ⟨hl, htag⟩

section

variable [NetworkNames] {hasher : IdentityHasher} {manager : List Outbound} {config : SourceRuntimeConfig}
  {generation : Nat} {providerTag : String} {provider : Provider}

theorem soleNode_ok {n port} (hl : o.members = none)
    (h : soleNode hasher manager generation providerTag o = .ok (n, port)) :
    nodeOf hasher (memberRoot providerTag o) = some n ∧ port = some o := by
  rw [soleNode] at h
  split at h
  · rename_i g' node count suppressed bindings hsnap
    obtain ⟨rfl, rfl⟩ := Prod.mk.inj (Except.ok.inj h)
    have hroots := show flattenRoots manager [memberRoot providerTag o] =
        if o.tag = "" then [] else [memberRoot providerTag o] from flattenRoots_member hl
    have hapart : (flattenRoots manager [memberRoot providerTag o]).Pairwise (Apart hasher) := by
      rw [hroots]
      split
      · exact .nil
      · exact pairwise_singleton ..
    have hadd := (adapterSnapshot_added hapart hsnap).2
    rw [hroots] at hadd
    have hns := hadd.nodes
    split at hns
    · cases hns
    rename_i htag
    rw [if_neg htag] at hadd
    have hn : nodeOf hasher (memberRoot providerTag o) = some node := by
      cases hn : nodeOf hasher _ with
      | none =>
        rw [filterMap_cons, hn] at hns
        cases hns
      | some m =>
        rw [filterMap_cons, hn] at hns
        rw [(cons.inj hns).1]
    refine ⟨hn, ?_⟩
    exact (hadd.bindings ..).2 (.inr ⟨_, mem_singleton_self _, node, hn, rfl, rfl⟩)
  · cases h

structure Addition where
  providerTag : String
  node : CanonicalNode
  outbound : Outbound

structure Adds (hasher : IdentityHasher) (config : SourceRuntimeConfig) (providerTag : String) (provider : Provider)
    (tags : List String) (added : List Addition) : Prop where
  named : added.map (·.outbound.tag) = tags.filter (allowed config)
  source : ∀ a ∈ added, a.providerTag = providerTag
  held : ∀ a ∈ added, provider.contents.outbound a.outbound.tag = some a.outbound
  node : ∀ a ∈ added, nodeOf hasher (memberRoot providerTag a.outbound) = some a.node

structure Extends (added : List Addition) (g g' : Gathering) : Prop where
  removes : g'.removes = g.removes
  upserts : g'.upserts = g.upserts ++ added.map (·.node)
  bindings : g'.bindings = added.foldl (fun m a => m.insert a.node.nodeID a.outbound) g.bindings
  count : g'.inputLeafCount = g.inputLeafCount + added.length
  updatedRevisions : g'.updatedRevisions = g.updatedRevisions

variable {g g' : Gathering}

theorem gatherUpsert_ok {tag} (h : gatherUpsert hasher manager config generation providerTag provider g tag = .ok g') :
    ∃ added, Adds hasher config providerTag provider [tag] added ∧ Extends added g g' := by
  rw [gatherUpsert] at h
  split at h
  · rename_i hout
    obtain rfl := Except.ok.inj h
    rw [Bool.not_eq_true'] at hout
    exact ⟨[], ⟨by simp [hout], by simp, by simp, by simp⟩, ⟨rfl, by simp, rfl, by simp, rfl⟩⟩
  · rename_i hallow
    rw [Bool.not_eq_true'] at hallow
    split at h
    · cases h
    rename_i o ho
    split at h
    · cases h
    rename_i hl
    split at h
    · cases h
    rename_i n port hsole
    obtain ⟨hn, rfl⟩ := soleNode_ok (Option.not_isSome_iff_eq_none.1 hl) hsole
    split at h
    · cases h
    obtain rfl := Except.ok.inj h
    have htag : o.tag = tag := by
      have htag := find?_some ho
      exact eq_of_beq htag
    subst htag
    refine ⟨[⟨providerTag, n, o⟩], ⟨?_, ?_, ?_, ?_⟩, ⟨rfl, rfl, rfl, rfl, rfl⟩⟩
    · simp [hallow]
    · simp
    · simpa using ho
    · simpa using hn

theorem gatherUpserts_ok {tags}
    (h : tags.foldlM (gatherUpsert hasher manager config generation providerTag provider) g = .ok g') :
    ∃ added, Adds hasher config providerTag provider tags added ∧ Extends added g g' := by
  induction tags generalizing g with
  | nil =>
    obtain rfl := Except.ok.inj h
    exact ⟨[], ⟨rfl, by simp, by simp, by simp⟩, ⟨rfl, by simp, rfl, by simp, rfl⟩⟩
  | cons tag tags ih =>
    rw [foldlM_cons] at h
    cases hone : gatherUpsert hasher manager config generation providerTag provider g tag with
    | error failure =>
      rw [hone] at h
      cases h
    | ok g₁ =>
      rw [hone] at h
      obtain ⟨first, hf, hg₁⟩ := gatherUpsert_ok hone
      obtain ⟨rest, hr, hg'⟩ := ih h
      refine ⟨first ++ rest, ⟨?_, ?_, ?_, ?_⟩, ⟨?_, ?_, ?_, ?_, ?_⟩⟩
      · rw [map_append, hf.named, hr.named, ← filter_append]
        rfl
      · intro a ha
        exact (mem_append.1 ha).elim (hf.source a) (hr.source a)
      · intro a ha
        exact (mem_append.1 ha).elim (hf.held a) (hr.held a)
      · intro a ha
        exact (mem_append.1 ha).elim (hf.node a) (hr.node a)
      · exact hg'.removes.trans hg₁.removes
      · rw [hg'.upserts, hg₁.upserts, map_append, append_assoc]
      · rw [hg'.bindings, hg₁.bindings, foldl_append]
      · rw [hg'.count, hg₁.count, length_append]
        omega
      · exact hg'.updatedRevisions.trans hg₁.updatedRevisions

def deltaOf (r : A48SourceRuntimeV1) (providerTag : String) : Option ProviderDelta :=
  (r.providers.lookup providerTag).bind fun provider =>
    outboundDelta provider ((r.providerRevisions.lookup providerTag).getD 0)

/-- The id belongs to a node of the publication that the delta of the provider names. -/
def Named (previous : SourcePublication) (providerTag : String) (delta : ProviderDelta) (id : NodeID) : Prop :=
  ∃ tag ∈ delta.removes ++ delta.upserts, ∃ n ∈ previous.nodes, comesFrom providerTag tag n = true ∧ n.nodeID = id

structure Gathers (hasher : IdentityHasher) (config : SourceRuntimeConfig) (r : A48SourceRuntimeV1)
    (previous : SourcePublication) (dirty : List String) (added : List Addition) (g g' : Gathering) : Prop where
  answered : ∀ t ∈ dirty, ∃ p δ, r.providers.lookup t = some p ∧ deltaOf r t = some δ
  removes : ∀ id, id ∈ g'.removes ↔ id ∈ g.removes ∨ ∃ t ∈ dirty, ∃ δ, deltaOf r t = some δ ∧ Named previous t δ id
  nodup : g.removes.Nodup → g'.removes.Nodup
  upserts : g'.upserts = g.upserts ++ added.map (·.node)
  bindings : g'.bindings = added.foldl (fun m a => m.insert a.node.nodeID a.outbound) g.bindings
  count : g'.inputLeafCount + g'.removes.length = g.inputLeafCount + g.removes.length + added.length
  revisions : g'.updatedRevisions = g.updatedRevisions ++
    dirty.map fun t => (t, ((deltaOf r t).map (·.revision)).getD 0)
  additions : ∀ a ∈ added, a.providerTag ∈ dirty ∧ ∃ p δ, r.providers.lookup a.providerTag = some p ∧
    deltaOf r a.providerTag = some δ ∧ a.outbound.tag ∈ δ.upserts ∧ allowed config a.outbound.tag = true ∧
    p.contents.outbound a.outbound.tag = some a.outbound ∧
    nodeOf hasher (memberRoot a.providerTag a.outbound) = some a.node
  covers : ∀ t ∈ dirty, ∀ δ, deltaOf r t = some δ → ∀ tag ∈ δ.upserts, allowed config tag = true →
    ∃ a ∈ added, a.providerTag = t ∧ a.outbound.tag = tag
  distinct : dirty.Nodup → (∀ t ∈ dirty, ∀ δ, deltaOf r t = some δ → δ.upserts.Nodup) →
    (added.map fun a => (a.providerTag, a.outbound.tag)).Nodup

theorem gatherProvider_ok (h : gatherProvider hasher manager config generation r previous g providerTag = .ok g') :
    ∃ added, Gathers hasher config r previous [providerTag] added g g' := by
  rw [gatherProvider] at h
  split at h
  · cases h
  rename_i p hp
  split at h
  · cases h
  rename_i δ hδ
  have hd : deltaOf r providerTag = some δ := by
    rw [deltaOf, hp]
    exact hδ
  obtain ⟨added, hadds, hext⟩ := gatherUpserts_ok h
  have htk := Taken.foldl (fun g tag => .foldl (taken_gatherRemove providerTag tag) previous.nodes g)
    (δ.removes ++ δ.upserts) { g with updatedRevisions := g.updatedRevisions ++ [(providerTag, δ.revision)] }
  refine ⟨added, ⟨?_, ?_, ?_, ?_, ?_, ?_, ?_, ?_, ?_, ?_⟩⟩
  · intro t ht
    rw [mem_singleton.1 ht]
    exact ⟨p, δ, hp, hd⟩
  · intro id
    rw [hext.removes, htk.removes]
    refine or_congr .rfl ⟨?_, ?_⟩
    · intro hnam
      exact ⟨providerTag, mem_singleton_self _, δ, hd, hnam⟩
    · rintro ⟨t, ht, δ', hδ', hnam⟩
      rw [mem_singleton.1 ht] at hδ' hnam
      obtain rfl := Option.mem_unique hd hδ'
      exact hnam
  · intro hnd
    rw [hext.removes]
    exact htk.nodup hnd
  · rw [hext.upserts, htk.upserts]
  · rw [hext.bindings, htk.bindings]
  · have hcnt := htk.count
    rw [hext.count, hext.removes]
    dsimp only at hcnt
    omega
  · rw [hext.updatedRevisions, htk.updatedRevisions, map_singleton, hd]
    rfl
  · intro a ha
    have htag : a.outbound.tag ∈ δ.upserts.filter (allowed config) := by
      rw [← hadds.named]
      exact mem_map.2 ⟨a, ha, rfl⟩
    have hn := hadds.node a ha
    rw [hadds.source a ha]
    exact ⟨mem_singleton_self _, p, δ, hp, hd, (mem_filter.1 htag).1, (mem_filter.1 htag).2,
      hadds.held a ha, hn⟩
  · intro t ht δ' hδ' tag htag hallow
    rw [mem_singleton.1 ht] at hδ' ⊢
    obtain rfl := Option.mem_unique hd hδ'
    have hin : tag ∈ added.map (·.outbound.tag) := by
      rw [hadds.named]
      exact mem_filter.2 ⟨htag, hallow⟩
    obtain ⟨a, ha, rfl⟩ := mem_map.1 hin
    exact ⟨a, ha, hadds.source a ha, rfl⟩
  · intro _ hdis
    have htags : (added.map (·.outbound.tag)).Nodup := by
      rw [hadds.named]
      exact (hdis providerTag (mem_singleton_self _) δ hd).filter _
    refine .of_map Prod.snd ?_
    rwa [map_map]

theorem gather_foldlM_ok {dirty}
    (h : dirty.foldlM (gatherProvider hasher manager config generation r previous) g = .ok g') :
    ∃ added, Gathers hasher config r previous dirty added g g' := by
  induction dirty generalizing g with
  | nil =>
    obtain rfl := Except.ok.inj h
    exact ⟨[], ⟨by simp, by simp, id, by simp, rfl, by simp, by simp, by simp, by simp, by simp⟩⟩
  | cons t dirty ih =>
    rw [foldlM_cons] at h
    cases hone : gatherProvider hasher manager config generation r previous g t with
    | error failure =>
      rw [hone] at h
      cases h
    | ok g₁ =>
      rw [hone] at h
      obtain ⟨first, hf⟩ := gatherProvider_ok hone
      obtain ⟨rest, hr⟩ := ih h
      refine ⟨first ++ rest, ⟨?_, ?_, fun hn => hr.nodup (hf.nodup hn), ?_, ?_, ?_, ?_, ?_, ?_, ?_⟩⟩
      · intro t' ht'
        rcases mem_cons.1 ht' with rfl | ht'
        · exact hf.answered _ (mem_singleton_self _)
        · exact hr.answered t' ht'
      · intro id
        rw [hr.removes, hf.removes, or_assoc]
        refine or_congr .rfl ?_
        simp only [mem_cons, not_mem_nil, or_false, exists_eq_left, exists_eq_or_imp]
      · rw [hr.upserts, hf.upserts, map_append, append_assoc]
      · rw [hr.bindings, hf.bindings, foldl_append]
      · have h₁ := hf.count
        have h₂ := hr.count
        rw [length_append]
        omega
      · rw [hr.revisions, hf.revisions, append_assoc]
        rfl
      · intro a ha
        rcases mem_append.1 ha with ha | ha
        · obtain ⟨hin, hmore⟩ := hf.additions a ha
          rw [mem_singleton.1 hin] at hmore ⊢
          exact ⟨mem_cons_self, hmore⟩
        · obtain ⟨hin, hmore⟩ := hr.additions a ha
          exact ⟨mem_cons_of_mem _ hin, hmore⟩
      · intro t' ht' δ hδ tag htag hallow
        rcases mem_cons.1 ht' with rfl | ht'
        · obtain ⟨a, ha, hmore⟩ := hf.covers _ (mem_singleton_self _) δ hδ tag htag hallow
          exact ⟨a, mem_append_left _ ha, hmore⟩
        · obtain ⟨a, ha, hmore⟩ := hr.covers t' ht' δ hδ tag htag hallow
          exact ⟨a, mem_append_right _ ha, hmore⟩
      · intro hnd hdis
        obtain ⟨hnew, hnd⟩ := nodup_cons.1 hnd
        rw [map_append, nodup_append]
        refine ⟨?_, ?_, ?_⟩
        · refine hf.distinct (nodup_singleton _) fun t' ht' => ?_
          rw [mem_singleton.1 ht']
          exact hdis t mem_cons_self
        · exact hr.distinct hnd fun t' ht' => hdis t' (mem_cons_of_mem _ ht')
        · intro x hx y hy hxy
          obtain ⟨a, ha, rfl⟩ := mem_map.1 hx
          obtain ⟨b, hb, rfl⟩ := mem_map.1 hy
          have hta := mem_singleton.1 (hf.additions a ha).1
          have htb := (hr.additions b hb).1
          rw [← (Prod.mk.inj hxy).1, hta] at htb
          exact hnew htb

end

end SingBox.DeltaGathering
