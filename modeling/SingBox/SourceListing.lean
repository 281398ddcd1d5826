import SingBox.SourceSnapshots

namespace SingBox.SourceListing

open List hiding flatten
open Option Maps Values SourceSnapshots

variable {o : Outbound} {tag : String} {root' leaf : A48SourceRoot} {members : List A48SourceRoot} {n : CanonicalNode}
  {tags : List String}

section

variable {manager : List Outbound} {optionsByTag : GoMap String OutboundOptions}

def offStack (manager : List Outbound) (stack : List String) : Nat :=
  manager.countP fun o => o.tag ∉ stack

variable {stack : List String} {root : A48SourceRoot} {roots statics : List A48SourceRoot}
  {found : List String × List A48SourceRoot}

theorem offStack_push (ho : o ∈ manager) (hstack : o.tag ∉ stack) :
    offStack manager (o.tag :: stack) < offStack manager stack := by
  have hspl : manager.filter (fun a => a.tag ∉ o.tag :: stack) =
      (manager.filter fun a => a.tag ∉ stack).filter fun a => a.tag ≠ o.tag := by
    rw [List.filter_filter]
    congr 1
    funext a
    simp
  rw [offStack, offStack, List.countP_eq_length_filter, List.countP_eq_length_filter, hspl,
    List.length_filter_lt_length_iff_exists]
  exact ⟨o, List.mem_filter.2 ⟨ho, decide_eq_true hstack⟩, by simp⟩

theorem mem_of_resolve (h : resolve manager tag = some o) : o ∈ manager ∧ o.tag = tag := by
  have htag := find?_some h
  exact ⟨mem_of_find?_eq_some h, eq_of_beq htag⟩

theorem flatten_deeper {depth} (hdepth : offStack manager stack < depth ∨
      root.outbound ∈ manager ∧ offStack manager stack ≤ depth) (found) :
    flatten manager optionsByTag (depth + 1) root stack found = flatten manager optionsByTag depth root stack found := by
  induction depth generalizing root stack found with
  | zero =>
    have hin : root.outbound.tag ∈ stack := by
      by_contra hout
      obtain ⟨hroot, hle⟩ := hdepth.resolve_left (Nat.not_lt_zero _)
      have hlt := offStack_push hroot hout
      omega
    rw [flatten, flatten, if_pos (.inr hin)]
  | succ depth ih =>
    rw [flatten, flatten]
    split
    · rfl
    rename_i hleave
    rw [not_or] at hleave
    split
    · refine foldl_ext _ _ found fun found childTag _ => ?_
      split
      · rename_i child hchild
        refine ih (.inr ⟨(mem_of_resolve hchild).1, ?_⟩) found
        rcases hdepth with hlt | ⟨hroot, hle⟩
        · refine (countP_mono_left fun o _ ho => ?_).trans (Nat.lt_succ_iff.1 hlt)
          simp_all
        · have hlt := offStack_push hroot hleave.2
          omega
      · rfl
    · rfl

theorem flatten_depthLimit (root more found) :
    flatten manager optionsByTag (depthLimit manager + more) root [] found =
      flatten manager optionsByTag (depthLimit manager) root [] found := by
  induction more with
  | zero => rfl
  | succ more ih =>
    refine (flatten_deeper (.inl ?_) found).trans ih
    exact countP_le_length.trans_lt ((Nat.lt_succ_self _).trans_le (Nat.le_add_right _ more))

/-- A root as the static tags and the groups give it, and the same root after the
options of all roots were looked through. -/
structure SameRoot (optionsByTag : GoMap String OutboundOptions) (root root' : A48SourceRoot) : Prop where
  outbound : root'.outbound = root.outbound
  source : root'.source = root.source
  bare : root.options = none
  options : root'.options = none ∨ root'.options = optionsByTag.lookup root.outbound.tag

theorem SameRoot.withOptions (h : SameRoot optionsByTag root root') :
    withOptions optionsByTag root' = withOptions optionsByTag (SourceSnapshots.withOptions ∅ root) := by
  obtain ⟨outbound, options, source⟩ := root
  obtain ⟨outbound', options', source'⟩ := root'
  obtain ⟨rfl, rfl, rfl, hopt⟩ := h
  rcases hopt with hno | hlk
  · subst hno
    rfl
  · simp only at hlk
    subst hlk
    simp [SourceSnapshots.withOptions]

theorem flatten_withOptions (h : SameRoot optionsByTag root root') (depth stack found) :
    flatten manager optionsByTag depth root' stack (found.1, found.2.map (withOptions optionsByTag)) =
      ((flatten manager ∅ depth root stack found).1,
        (flatten manager ∅ depth root stack found).2.map (withOptions optionsByTag)) := by
  induction depth generalizing root root' stack found with
  | zero => rfl
  | succ depth ih =>
    rw [flatten, flatten, h.outbound]
    split
    · rfl
    split
    · rename_i members hm
      clear hm
      -- the children are the same, one after the other
      induction members generalizing found with
      | nil => rfl
      | cons childTag members ihm =>
        rw [foldl_cons, foldl_cons]
        cases hchild : resolve manager childTag with
        | none => exact ihm found
        | some child =>
          have hsame : SameRoot optionsByTag ⟨child, (∅ : GoMap String OutboundOptions).lookup childTag, root.source⟩
              ⟨child, optionsByTag.lookup childTag, root'.source⟩ :=
            ⟨rfl, h.source, rfl, .inr (by rw [(mem_of_resolve hchild).2])⟩
          dsimp only
          rw [ih hsame]
          exact ihm _
    · split
      · rfl
      · rw [h.withOptions, map_append]
        rfl

theorem lookup_foldl_addOptions {m options} (h : (roots.foldl addOptions m).lookup tag = some options) :
    (∃ root ∈ roots, root.outbound.tag = tag ∧ root.options = some options) ∨ m.lookup tag = some options := by
  induction roots generalizing m with
  | nil => exact .inr h
  | cons root roots ih =>
    rcases ih h with ⟨root', hm, htag, hopt⟩ | hlk
    · exact .inl ⟨root', mem_cons_of_mem _ hm, htag, hopt⟩
    rw [addOptions] at hlk
    split at hlk
    · rename_i options' hopt'
      rcases lookup_of_insert hlk with ⟨htag, hopt⟩ | ⟨-, hlk⟩
      · exact .inl ⟨root, mem_cons_self, htag.symm, hopt'.trans (congrArg some hopt.symm)⟩
      · exact .inr hlk
    · exact .inr hlk

theorem rootOptions_static (hst : ∀ root ∈ statics, root.options = none) : rootOptions statics = ∅ := by
  have hfold : ∀ m, statics.foldl addOptions m = m := by
    induction statics with
    | nil => exact fun m => rfl
    | cons root statics ih =>
      intro m
      rw [foldl_cons, addOptions, hst root mem_cons_self]
      exact ih (fun root' h => hst root' (mem_cons_of_mem _ h)) m
  exact hfold ∅

def Seen (found : List String × List A48SourceRoot) : Prop :=
  ∀ tag, tag ∈ found.1 ↔ tag ∈ found.2.map (·.outbound.tag)

theorem flatten_spec (depth root stack) (h : Seen found) :
    Seen (flatten manager optionsByTag depth root stack found) ∧
      ∀ leaf ∈ (flatten manager optionsByTag depth root stack found).2, leaf ∈ found.2 ∨ leaf.source = root.source := by
  induction depth generalizing root stack found with
  | zero => exact ⟨h, fun _ => .inl⟩
  | succ depth ih =>
    rw [flatten]
    split
    · exact ⟨h, fun _ => .inl⟩
    split
    · rename_i members hm
      clear hm
      induction members generalizing found with
      | nil => exact ⟨h, fun _ => .inl⟩
      | cons childTag members ihm =>
        rw [foldl_cons]
        cases resolve manager childTag with
        | none => exact ihm h
        | some child =>
          obtain ⟨hseen, hsrc⟩ := ih ⟨child, optionsByTag.lookup childTag, root.source⟩ _ h
          obtain ⟨hseen', hsrc'⟩ := ihm hseen
          exact ⟨hseen', fun leaf hl => (hsrc' leaf hl).elim (hsrc leaf) .inr⟩
    · split
      · exact ⟨h, fun _ => .inl⟩
      refine ⟨fun tag => ?_, fun leaf hl => ?_⟩
      · rw [mem_cons, h tag, map_append, mem_append, map_singleton, mem_singleton]
        exact or_comm
      · rcases mem_append.1 hl with hl | hl
        · exact .inl hl
        · rw [mem_singleton.1 hl]
          exact .inr rfl

theorem flattenAll_spec (roots) (h : Seen found) : Seen (flattenAll manager optionsByTag roots found) ∧
      ∀ leaf ∈ (flattenAll manager optionsByTag roots found).2, leaf ∈ found.2 ∨
        ∃ root ∈ roots, leaf.source = root.source := by
  induction roots generalizing found with
  | nil => exact ⟨h, fun _ => .inl⟩
  | cons root roots ih =>
    obtain ⟨hseen, hsrc⟩ := flatten_spec _ root [] h
    obtain ⟨hseen', hsrc'⟩ := ih hseen
    refine ⟨hseen', fun leaf hl => ?_⟩
    rcases hsrc' leaf hl with hl | ⟨root', hroot', hroots⟩
    · exact (hsrc leaf hl).imp_right fun hroot => ⟨root, mem_cons_self, hroot⟩
    · exact .inr ⟨root', mem_cons_of_mem _ hroot', hroots⟩

def Plain (root : A48SourceRoot) : Prop := root.outbound.members = none ∧ root.outbound.tag ≠ ""

instance (root : A48SourceRoot) : Decidable (Plain root) := inferInstanceAs (Decidable (_ ∧ _))

theorem flattenAll_plain (hseen : Seen found) (hplain : ∀ root ∈ members, Plain root)
    (hopt : ∀ root ∈ members, withOptions optionsByTag root = root)
    (htags : ((found.2 ++ members).map (·.outbound.tag)).Nodup) :
    (flattenAll manager optionsByTag members found).2 = found.2 ++ members := by
  induction members generalizing found with
  | nil => rw [append_nil]; rfl
  | cons root members ih =>
    obtain ⟨hl, htag⟩ := hplain root mem_cons_self
    have hnew : root.outbound.tag ∉ found.1 := by
      intro hin
      rw [map_append] at htags
      exact disjoint_of_nodup_append htags ((hseen _).1 hin) mem_cons_self
    have hst : flatten manager optionsByTag (depthLimit manager) root [] found =
        (root.outbound.tag :: found.1, found.2 ++ [root]) := by
      rw [depthLimit, flatten, if_neg (by simp [htag])]
      simp only [hl, if_neg hnew, hopt root mem_cons_self]
    have happ : found.2 ++ root :: members = (found.2 ++ [root]) ++ members := by
      rw [append_assoc, singleton_append]
    rw [flattenAll, foldl_cons, hst, happ]
    rw [happ] at htags
    refine ih ?_ (fun root' h => hplain root' (mem_cons_of_mem _ h))
      (fun root' h => hopt root' (mem_cons_of_mem _ h)) htags
    rw [← hst]
    exact (flatten_spec _ _ _ hseen).1

theorem flattenAll_static (hst : ∀ root ∈ statics, root.options = none) (found) :
    flattenAll manager optionsByTag statics (found.1, found.2.map (withOptions optionsByTag)) =
      ((flattenAll manager ∅ statics found).1,
        (flattenAll manager ∅ statics found).2.map (withOptions optionsByTag)) := by
  induction statics generalizing found with
  | nil => rfl
  | cons root statics ih =>
    have hbare := hst root mem_cons_self
    rw [flattenAll, foldl_cons, flatten_withOptions ⟨rfl, rfl, hbare, .inl hbare⟩]
    exact ih (fun root' h => hst root' (mem_cons_of_mem _ h)) _

theorem flattenRoots_append (hst : ∀ root ∈ statics, root.options = none) (hplain : ∀ root ∈ members, Plain root)
    (htags : ((flattenRoots manager statics ++ members).map (·.outbound.tag)).Nodup) :
    flattenRoots manager (statics ++ members) = flattenRoots manager statics ++ members := by
  have hlk : ∀ {tag : String} {options : OutboundOptions},
      (rootOptions (statics ++ members)).lookup tag = some options →
      ∃ root ∈ members, root.outbound.tag = tag ∧ root.options = some options := by
    intro tag options h
    obtain ⟨root, hroot, htag, hopt⟩ := (lookup_foldl_addOptions h).resolve_right nofun
    rcases mem_append.1 hroot with hroot | hroot
    · rw [hst root hroot] at hopt
      cases hopt
    · exact ⟨root, hroot, htag, hopt⟩
  have hwith : ∀ root ∈ flattenRoots manager statics ++ members,
      withOptions (rootOptions (statics ++ members)) root = root := by
    intro root hroot
    obtain ⟨outbound, options, source⟩ := root
    cases options with
    | some options => rfl
    | none =>
      rw [withOptions]
      cases hopt : (rootOptions _).lookup outbound.tag with
      | none => rfl
      | some options =>
        obtain ⟨root', hroot', htag, hopt'⟩ := hlk hopt
        have heq := inj_on_of_nodup_map htags (mem_append_right _ hroot') hroot htag
        rw [heq] at hopt'
        cases hopt'
  have hlv : (flattenAll manager ∅ statics ([], [])).2 = flattenRoots manager statics := by
    rw [flattenRoots, rootOptions_static hst]
  have hstat : flattenAll manager (rootOptions (statics ++ members)) statics ([], []) =
      ((flattenAll manager ∅ statics ([], [])).1, flattenRoots manager statics) := by
    refine (flattenAll_static hst ([], [])).trans ?_
    rw [hlv]
    refine Prod.ext rfl ((map_congr_left fun root hroot => ?_).trans (map_id _))
    exact hwith root (mem_append_left _ hroot)
  have hseen : Seen ((flattenAll manager ∅ statics ([], [])).1, flattenRoots manager statics) := by
    rw [← hlv]
    exact (flattenAll_spec statics fun tag => .rfl).1
  rw [flattenRoots, flattenAll, foldl_append]
  change (flattenAll manager _ members (flattenAll manager _ statics ([], []))).2 = _
  rw [hstat]
  exact flattenAll_plain hseen hplain (fun root hroot => hwith root (mem_append_right _ hroot)) htags

end

structure Publishes (publication : SourcePublication) (Present : CanonicalNode → Outbound → Prop) : Prop where
  ids : (publication.nodes.map (·.nodeID)).Nodup
  listed : ∀ n, n ∈ publication.nodes ↔ ∃ o, Present n o
  bindings : ∀ id o, publication.bindings.lookup id = some o ↔ ∃ n, Present n o ∧ n.nodeID = id
  count : publication.inputLeafCount = publication.nodes.length
  unsuppressed : publication.duplicatesSuppressed = 0

structure SameContent (p q : SourcePublication) : Prop where
  nodes : p.nodes.Perm q.nodes
  bindings : ∀ id, p.bindings.lookup id = q.bindings.lookup id
  count : p.inputLeafCount = q.inputLeafCount

theorem Publishes.sameContent {p q Present} (hp : Publishes p Present) (hq : Publishes q Present) :
    SameContent p q := by
  have hns : p.nodes.Perm q.nodes := by
    refine (perm_ext_iff_of_nodup hp.ids.of_map hq.ids.of_map).2 fun n => ?_
    rw [hp.listed, hq.listed]
  refine ⟨hns, ?_, ?_⟩
  · intro id
    apply Option.ext
    intro o
    rw [hp.bindings, hq.bindings]
  · rw [hp.count, hq.count, hns.length_eq]

section

variable [NetworkNames] {hasher : IdentityHasher}

def nodeOf (hasher : IdentityHasher) (leaf : A48SourceRoot) : Option CanonicalNode :=
  (identify hasher leaf).map (canonicalNode leaf)

def Apart (hasher : IdentityHasher) (a b : A48SourceRoot) : Prop :=
  a.outbound.tag ≠ b.outbound.tag ∧
    ∀ i ∈ identify hasher a, ∀ j ∈ identify hasher b, i.1 ≠ j.1 ∧ i.2 ≠ j.2

-- Named, because an identity is of a finite type and could also be searched for.
instance (a b : A48SourceRoot) : Decidable (Apart hasher a b) :=
  @instDecidableAnd _ _ inferInstance
    (@Option.decidableForallMem _ _ (fun _ => @Option.decidableForallMem _ _ inferInstance _) _)

theorem identify_of_nodeOf (h : nodeOf hasher leaf = some n) :
    ∃ ids, identify hasher leaf = some ids ∧ n = canonicalNode leaf ids := by
  obtain ⟨ids, hids, hn⟩ := map_eq_some_iff.1 h
  exact ⟨ids, hids, hn.symm⟩

theorem Apart.nodes {a b m} (h : Apart hasher a b) (hm : nodeOf hasher a = some m) (hn : nodeOf hasher b = some n) :
    m.nodeID ≠ n.nodeID ∧ m.endpointID ≠ n.endpointID := by
  obtain ⟨i, hi, rfl⟩ := identify_of_nodeOf hm
  obtain ⟨j, hj, rfl⟩ := identify_of_nodeOf hn
  exact h.2 i hi j hj

structure Added (hasher : IdentityHasher) (leaves : List A48SourceRoot) (p q : SourcePublication) : Prop where
  identified : ∀ leaf ∈ leaves, (nodeOf hasher leaf).isSome = true
  nodes : q.nodes = p.nodes ++ leaves.filterMap (nodeOf hasher)
  bindings : ∀ id o, q.bindings.lookup id = some o ↔
    p.bindings.lookup id = some o ∨ ∃ leaf ∈ leaves, ∃ n, nodeOf hasher leaf = some n ∧ n.nodeID = id ∧
      leaf.outbound = o
  count : q.inputLeafCount = p.inputLeafCount
  suppressed : q.duplicatesSuppressed = p.duplicatesSuppressed
  generation : q.generation = p.generation

variable {p q : SourcePublication} {leaves : List A48SourceRoot}

theorem addLeaf_new (h : addLeaf hasher p leaf = some q)
    (hnew : ∀ n, nodeOf hasher leaf = some n → ∀ m ∈ p.nodes, m.nodeID ≠ n.nodeID) :
    ∃ n, nodeOf hasher leaf = some n ∧
      q = { p with nodes := p.nodes ++ [n], bindings := p.bindings.insert n.nodeID leaf.outbound } := by
  rw [addLeaf] at h
  split at h
  · cases h
  rename_i ids hids
  have hn : nodeOf hasher leaf = some (canonicalNode leaf ids) := by
    rw [nodeOf, hids]
    rfl
  have hno : p.nodes.findIdx? (·.nodeID == ids.1) = none := by
    refine findIdx?_eq_none_iff.2 fun m hm => ?_
    exact beq_eq_false_iff_ne.2 (hnew _ hn m hm)
  rw [hno] at h
  exact ⟨_, hn, (some.inj h).symm⟩

theorem added_foldlM (h : leaves.foldlM (addLeaf hasher) p = some q) (hapart : leaves.Pairwise (Apart hasher))
    (hnew : ∀ leaf ∈ leaves, ∀ n, nodeOf hasher leaf = some n → ∀ m ∈ p.nodes, m.nodeID ≠ n.nodeID)
    (hbd : ∀ id, p.bindings.lookup id ≠ none → ∃ m ∈ p.nodes, m.nodeID = id) : Added hasher leaves p q := by
  induction leaves generalizing p with
  | nil =>
    obtain rfl := some.inj h
    exact ⟨fun _ h => absurd h not_mem_nil, by simp, by simp, rfl, rfl, rfl⟩
  | cons leaf leaves ih =>
    obtain ⟨p', hp', hr⟩ := bind_eq_some_iff.1 h
    obtain ⟨n, hn, rfl⟩ := addLeaf_new hp' (hnew leaf mem_cons_self)
    obtain ⟨hf, hpairs⟩ := pairwise_cons.1 hapart
    have hfr : p.bindings.lookup n.nodeID = none := by
      by_contra hsome
      obtain ⟨m, hm, hid⟩ := hbd _ hsome
      exact hnew leaf mem_cons_self n hn m hm hid
    have hadd := ih hr hpairs
      (by
        intro leaf' hl' n' hn' m hm
        rcases mem_append.1 hm with hm | hm
        · exact hnew leaf' (mem_cons_of_mem _ hl') n' hn' m hm
        · rw [mem_singleton.1 hm]
          exact ((hf leaf' hl').nodes hn hn').1)
      (by
        intro id hid
        rw [lookup_set] at hid
        split at hid
        case isTrue heq => exact ⟨n, by simp, heq.symm⟩
        case isFalse hne =>
          obtain ⟨m, hm, hmid⟩ := hbd id hid
          exact ⟨m, mem_append_left _ hm, hmid⟩)
    refine { hadd with identified := ?_, nodes := ?_, bindings := ?_ }
    · intro leaf' hl'
      rcases mem_cons.1 hl' with rfl | hl'
      · rw [hn]
        rfl
      · exact hadd.identified leaf' hl'
    · rw [hadd.nodes, filterMap_cons, hn, append_assoc]
      rfl
    · intro id o
      rw [hadd.bindings]
      constructor
      · rintro (hlk | ⟨leaf', hl', hr⟩)
        · rcases lookup_of_insert hlk with ⟨rfl, rfl⟩ | ⟨-, hlk⟩
          · exact .inr ⟨leaf, mem_cons_self, n, hn, rfl, rfl⟩
          · exact .inl hlk
        · exact .inr ⟨leaf', mem_cons_of_mem _ hl', hr⟩
      · rintro (hlk | ⟨leaf', hl', n', hn', hid, ho⟩)
        · refine .inl ?_
          rw [lookup_set, if_neg]
          · exact hlk
          · rintro rfl
            rw [hfr] at hlk
            cases hlk
        · rcases mem_cons.1 hl' with rfl | hl'
          · obtain rfl := mem_unique hn hn'
            refine .inl ?_
            rw [lookup_set, if_pos hid.symm, ho]
          · exact .inr ⟨leaf', hl', n', hn', hid, ho⟩

theorem foldlM_addLeaf_of_identified (h : ∀ leaf ∈ leaves, (nodeOf hasher leaf).isSome = true) (p) :
    ∃ q, leaves.foldlM (addLeaf hasher) p = some q := by
  induction leaves generalizing p with
  | nil => exact ⟨p, rfl⟩
  | cons leaf leaves ih =>
    have hl := h leaf mem_cons_self
    rw [nodeOf, isSome_map] at hl
    obtain ⟨ids, hids⟩ := isSome_iff_exists.1 hl
    have hadd : ∃ p', addLeaf hasher p leaf = some p' := by
      rw [addLeaf, hids]
      dsimp only
      split <;> exact ⟨_, rfl⟩
    obtain ⟨p', hp'⟩ := hadd
    obtain ⟨q, hq⟩ := ih (fun leaf' h' => h leaf' (mem_cons_of_mem _ h')) p'
    refine ⟨q, ?_⟩
    rw [foldlM_cons, hp']
    exact hq

omit [NetworkNames] in
theorem markConflict_of_nodup {nodes} (h : (nodes.map (·.endpointID)).Nodup) (n) : markConflict nodes n = n := by
  have hcnt : nodes.countP (·.endpointID == n.endpointID) ≤ 1 := by
    have hle := nodup_iff_count_le_one.1 h n.endpointID
    rwa [List.count, countP_map] at hle
  rw [markConflict, if_neg (Nat.not_lt.2 hcnt)]

def Present (hasher : IdentityHasher) (config : SourceRuntimeConfig) (Leaf : A48SourceRoot → Prop)
    (n : CanonicalNode) (o : Outbound) : Prop :=
  ∃ leaf, Leaf leaf ∧ nodeOf hasher leaf = some n ∧ leaf.outbound = o ∧ manualMatch config leaf.outbound.tag = false

theorem Added.nodup {β : Type} {field : CanonicalNode → β} (h : Added hasher leaves p q) (hemp : p.nodes = [])
      (hfield : leaves.Pairwise fun a b => ∀ m, nodeOf hasher a = some m → ∀ n, nodeOf hasher b = some n → field m ≠
      field n) : (q.nodes.map field).Nodup := by
  rw [h.nodes, hemp, nil_append, List.Nodup, pairwise_map, pairwise_filterMap]
  exact hfield

section

variable {manager : List Outbound} {config : SourceRuntimeConfig} {outbounds : String → List Outbound}
  {generation : Nat} {publication : SourcePublication}

theorem adapterSnapshot_added {roots : List A48SourceRoot} (hapart : (flattenRoots manager roots).Pairwise (Apart hasher))
    (h : adapterSnapshot hasher manager generation roots = .ok publication) : generation ≠ 0 ∧
      Added hasher (flattenRoots manager roots) ⟨generation, [], (flattenRoots manager roots).length, 0, ∅⟩ publication := by
  rw [adapterSnapshot] at h
  split at h
  · cases h
  rename_i hgen
  dsimp only at h
  split at h
  · cases h
  rename_i p hp
  have hadd := added_foldlM hp hapart (by simp) (by simp)
  have hendp : (p.nodes.map (·.endpointID)).Nodup := by
    refine hadd.nodup rfl (hapart.imp ?_)
    intro a b hab m hm n hn
    exact (hab.nodes hm hn).2
  have hmark : p.nodes.map (markConflict p.nodes) = p.nodes := by
    refine (map_congr_left fun n _ => ?_).trans (map_id _)
    exact markConflict_of_nodup hendp n
  rw [hmark] at h
  obtain rfl := Except.ok.inj h
  exact ⟨hgen, hadd⟩

theorem adapterSnapshot_ok {roots} (hgen : generation ≠ 0)
    (h : ∀ leaf ∈ flattenRoots manager roots, (nodeOf hasher leaf).isSome = true) :
    ∃ publication, adapterSnapshot hasher manager generation roots = .ok publication := by
  obtain ⟨q, hq⟩ := foldlM_addLeaf_of_identified h ⟨generation, [], (flattenRoots manager roots).length, 0, ∅⟩
  rw [adapterSnapshot, if_neg hgen]
  dsimp only
  rw [hq]
  exact ⟨_, rfl⟩

theorem excluded_iff (h : nodeOf hasher leaf = some n) :
    (manualMatch config n.sourceKey || n.aliases.any (manualMatch config)) = manualMatch config leaf.outbound.tag := by
  obtain ⟨ids, -, rfl⟩ := identify_of_nodeOf h
  simp [canonicalNode]

theorem publishes_filterManual {leaves : List A48SourceRoot} (hapart : leaves.Pairwise (Apart hasher))
    (h : Added hasher leaves ⟨generation, [], leaves.length, 0, ∅⟩ publication) :
    Publishes (filterManualSourcePublication config publication) (Present hasher config (· ∈ leaves)) := by
  have hids : (publication.nodes.map (·.nodeID)).Nodup := by
    refine h.nodup rfl (hapart.imp ?_)
    intro a b hab m hm n hn
    exact (hab.nodes hm hn).1
  have hns : publication.nodes = leaves.filterMap (nodeOf hasher) := h.nodes
  have hls : ∀ {leaf n}, leaf ∈ leaves → nodeOf hasher leaf = some n → n ∈ publication.nodes := by
    intro leaf n hl hn
    rw [hns]
    exact mem_filterMap.2 ⟨leaf, hl, hn⟩
  refine ⟨(filter_sublist.map _).nodup hids, ?_, ?_, ?_, h.suppressed⟩
  · intro n
    rw [filterManualSourcePublication, mem_filter, hns, mem_filterMap]
    constructor
    · rintro ⟨⟨leaf, hl, hn⟩, hkept⟩
      rw [excluded_iff hn, Bool.not_eq_true'] at hkept
      exact ⟨leaf.outbound, leaf, hl, hn, rfl, hkept⟩
    · rintro ⟨o, leaf, hl, hn, -, hkept⟩
      refine ⟨⟨leaf, hl, hn⟩, ?_⟩
      rw [excluded_iff hn, hkept]
      rfl
  · intro id o
    rw [filterManualSourcePublication]
    rw [lookup_foldl_erase]
    constructor
    · intro hlk
      split at hlk
      · cases hlk
      rename_i hkept
      rcases (h.bindings id o).1 hlk with hno | ⟨leaf, hl, n, hn, hid, ho⟩
      · cases hno
      refine ⟨n, ⟨leaf, hl, hn, ho, ?_⟩, hid⟩
      by_contra hman
      apply hkept
      refine mem_map.2 ⟨n, mem_filter.2 ⟨hls hl hn, ?_⟩, hid⟩
      rw [excluded_iff hn]
      exact Bool.eq_true_of_not_eq_false hman
    · rintro ⟨n, ⟨leaf, hl, hn, ho, hman⟩, hid⟩
      rw [if_neg]
      · exact (h.bindings id o).2 (.inr ⟨leaf, hl, n, hn, hid, ho⟩)
      · intro hexcl
        obtain ⟨m, hm, hmid⟩ := mem_map.1 hexcl
        obtain ⟨hm, hmatch⟩ := mem_filter.1 hm
        obtain rfl := inj_on_of_nodup_map hids hm (hls hl hn) (hmid.trans hid.symm)
        rw [excluded_iff hn, hman] at hmatch
        cases hmatch
  · rw [filterManualSourcePublication]
    dsimp only
    have hcnt : publication.inputLeafCount = publication.nodes.length := by
      rw [h.count, hns, filterMap_length_eq_length.2 h.identified]
    have hspl := publication.nodes.length_eq_length_filter_add fun node =>
      manualMatch config node.sourceKey || node.aliases.any (manualMatch config)
    omega

omit [NetworkNames] in
theorem filterManual_none (h : config.manualExclude = none) (hcnt : 0 ≤ publication.inputLeafCount) :
    filterManualSourcePublication config publication = publication := by
  have hkept : ∀ node : CanonicalNode,
      (manualMatch config node.sourceKey || node.aliases.any (manualMatch config)) = false := by
    simp [manualMatch, h]
  simp only [filterManualSourcePublication, hkept, Bool.not_false, filter_true, filter_false, foldl_nil,
    length_nil]
  simp [hcnt]

def leavesOf (manager : List Outbound) (config : SourceRuntimeConfig) (outbounds : String → List Outbound) :
    List A48SourceRoot :=
  match staticRoots manager config.staticTags with
  | .ok statics => flattenRoots manager statics ++ memberRoots config outbounds
  | .error _ => []

/-- No member is a group, and all leaves are apart. -/
@[mk_iff] structure Orderly (hasher : IdentityHasher) (manager : List Outbound) (config : SourceRuntimeConfig)
    (outbounds : String → List Outbound) : Prop where
  plain : ∀ root ∈ memberRoots config outbounds, Plain root
  apart : (leavesOf manager config outbounds).Pairwise (Apart hasher)

instance (config : SourceRuntimeConfig) (outbounds : String → List Outbound) :
    Decidable (Orderly hasher manager config outbounds) :=
  decidable_of_iff _ (orderly_iff ..).symm

variable {statics : List A48SourceRoot}

omit [NetworkNames] in
theorem staticRoots_spec (h : staticRoots manager tags = .ok statics) :
    ∀ root ∈ statics, root.options = none ∧ root.source = "static" := by
  induction tags generalizing statics with
  | nil =>
    obtain rfl := Except.ok.inj h
    exact fun _ h => absurd h not_mem_nil
  | cons tag tags ih =>
    rw [staticRoots] at h
    split at h
    · cases h
    cases hr : staticRoots manager tags with
    | error failure =>
      rw [hr] at h
      cases h
    | ok rest =>
      rw [hr] at h
      obtain rfl := Except.ok.inj h
      intro root hroot
      rcases mem_cons.1 hroot with rfl | hroot
      · exact ⟨rfl, rfl⟩
      · exact ih hr root hroot

omit [NetworkNames] in
theorem source_static (hst : staticRoots manager tags = .ok statics)
    (hl : leaf ∈ flattenRoots manager statics) : leaf.source = "static" := by
  rcases (flattenAll_spec statics fun tag => .rfl).2 leaf hl with hno | ⟨root, hroot, hsrc⟩
  · exact absurd hno not_mem_nil
  · rw [hsrc]
    exact (staticRoots_spec hst root hroot).2

section

variable (horderly : Orderly hasher manager config outbounds)
include horderly

omit [NetworkNames] in
theorem flattenRoots_of_orderly (hst : staticRoots manager config.staticTags = .ok statics) :
    flattenRoots manager (statics ++ memberRoots config outbounds) = leavesOf manager config outbounds := by
  have hlv : leavesOf manager config outbounds = flattenRoots manager statics ++ memberRoots config outbounds := by
    rw [leavesOf, hst]
  rw [hlv]
  refine flattenRoots_append (fun root hroot => (staticRoots_spec hst root hroot).1) horderly.plain ?_
  rw [← hlv, List.Nodup, pairwise_map]
  exact horderly.apart.imp fun hab => hab.1

theorem snapshot_publishes (h : snapshotA48RuntimeV1 hasher manager config outbounds generation = .ok publication) :
    Publishes publication (Present hasher config (· ∈ leavesOf manager config outbounds)) ∧
      (∀ leaf ∈ leavesOf manager config outbounds, (nodeOf hasher leaf).isSome = true) ∧
      (∃ statics, staticRoots manager config.staticTags = .ok statics) ∧
      publication.generation = generation ∧ generation ≠ 0 := by
  rw [snapshotA48RuntimeV1] at h
  split at h
  · cases h
  rename_i statics hst
  split at h
  · cases h
  rename_i p hp
  have hlv := flattenRoots_of_orderly horderly hst
  obtain ⟨hgen, hadd⟩ := adapterSnapshot_added (by rw [hlv]; exact horderly.apart) hp
  rw [hlv] at hadd
  have hfilt : filterManualSourcePublication config p = publication := by
    split at h
    · rename_i hno
      have hcnt : 0 ≤ p.inputLeafCount := hadd.count ▸ Int.natCast_nonneg _
      rw [filterManual_none (isNone_iff_eq_none.1 hno) hcnt]
      exact Except.ok.inj h
    · exact Except.ok.inj h
  rw [← hfilt]
  exact ⟨publishes_filterManual horderly.apart hadd, hadd.identified, ⟨statics, hst⟩, hadd.generation,
    hgen⟩

theorem snapshot_ok (hst : staticRoots manager config.staticTags = .ok statics) (hgen : generation ≠ 0)
    (h : ∀ leaf ∈ leavesOf manager config outbounds, (nodeOf hasher leaf).isSome = true) :
    ∃ publication, snapshotA48RuntimeV1 hasher manager config outbounds generation = .ok publication := by
  rw [← flattenRoots_of_orderly horderly hst] at h
  obtain ⟨p, hp⟩ := adapterSnapshot_ok hgen h
  rw [snapshotA48RuntimeV1, hst]
  dsimp only
  rw [hp]
  dsimp only
  split <;> exact ⟨_, rfl⟩

end

end

end

end SingBox.SourceListing
