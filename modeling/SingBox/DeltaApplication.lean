import SingBox.SourceListing

namespace SingBox.DeltaApplication

open List Option Maps Values SourceSnapshots

variable {previous current : SourcePublication} {delta : SourceDeltaPublication} {a b : Applying}
  {nodes upserts : List CanonicalNode} {id : NodeID} {n : CanonicalNode} {node : NodeID → Option CanonicalNode}
  {port : NodeID → Option Outbound}

theorem lookup_insertPort (m id port id') :
    (insertPort m id port).lookup id' = if id' = id then port else m.lookup id' := by
  cases port with
  | some port => exact lookup_set m id id' port
  | none => exact lookup_del m id id'

theorem lookup_startBindings (previous : SourcePublication) (nodes : List CanonicalNode) (m) (id : NodeID) :
    (nodes.foldl (fun m node => insertPort m node.nodeID (previous.bindings.lookup node.nodeID)) m).lookup id =
      if id ∈ nodes.map (·.nodeID) then previous.bindings.lookup id else m.lookup id := by
  induction nodes generalizing m with
  | nil => rfl
  | cons n nodes ih =>
    rw [foldl_cons, ih, lookup_insertPort]
    rcases eq_or_ne id n.nodeID with rfl | hid
    · simp
    · simp [hid]

/-- What is known while a delta is applied: how the ids are resolved, and that
the order has every id that is there. -/
structure Resolves (a : Applying) (node : NodeID → Option CanonicalNode) (port : NodeID → Option Outbound) : Prop where
  byID : ∀ id, a.byID.lookup id = node id
  bindings : ∀ id, a.bindings.lookup id = port id
  order : ∀ id, node id ≠ none → id ∈ a.order

def nodeAt (nodes : List CanonicalNode) (id : NodeID) : Option CanonicalNode := nodes.find? (·.nodeID == id)

theorem nodeAt_eq_some (hids : (nodes.map (·.nodeID)).Nodup) :
    nodeAt nodes id = some n ↔ n ∈ nodes ∧ n.nodeID = id := by
  constructor
  · intro h
    have hid := find?_some h
    exact ⟨mem_of_find?_eq_some h, eq_of_beq hid⟩
  · rintro ⟨hn, rfl⟩
    cases hf : nodeAt nodes n.nodeID with
    | none => exact absurd (beq_self_eq_true n.nodeID) (find?_eq_none.1 hf n hn)
    | some m =>
      have hid := find?_some hf
      rw [inj_on_of_nodup_map hids (mem_of_find?_eq_some hf) hn (eq_of_beq hid)]

theorem nodeAt_ne_none : nodeAt nodes id ≠ none ↔ id ∈ nodes.map (·.nodeID) := by
  constructor
  · intro hsome
    obtain ⟨n, hn⟩ := ne_none_iff_exists'.1 hsome
    have hid := find?_some hn
    exact mem_map.2 ⟨n, mem_of_find?_eq_some hn, eq_of_beq hid⟩
  · intro hm hno
    obtain ⟨n, hn, rfl⟩ := mem_map.1 hm
    exact find?_eq_none.1 hno n hn (beq_self_eq_true _)

theorem resolves_start (hids : (previous.nodes.map (·.nodeID)).Nodup) :
    Resolves (startApply previous) (nodeAt previous.nodes)
      (fun id => if id ∈ previous.nodes.map (·.nodeID) then previous.bindings.lookup id else none) := by
  constructor
  · intro id
    apply Option.ext
    intro n
    rw [nodeAt_eq_some hids]
    refine (lookup_foldl_insert _ _ hids ∅ id n).trans ⟨?_, ?_⟩
    · rintro (⟨m, hm, hid, rfl⟩ | ⟨-, hno⟩)
      · exact ⟨hm, hid⟩
      · cases hno
    · rintro ⟨hn, hid⟩
      exact .inl ⟨n, hn, hid, rfl⟩
  · intro id
    exact lookup_startBindings previous previous.nodes ∅ id
  · intro id hid
    exact nodeAt_ne_none.1 hid

theorem foldl_applyRemove (removes : List NodeID) (a) : removes.foldl applyRemove a =
    { a with
      byID := removes.foldl (fun m id => m.erase id) a.byID
      bindings := removes.foldl (fun m id => m.erase id) a.bindings } := by
  induction removes generalizing a with
  | nil => rfl
  | cons r removes ih => exact ih _

theorem resolves_removes (h : Resolves a node port) (removes : List NodeID) :
    Resolves (removes.foldl applyRemove a) (fun id => if id ∈ removes then none else node id)
      (fun id => if id ∈ removes then none else port id) := by
  rw [foldl_applyRemove]
  constructor
  · intro id
    rw [lookup_foldl_erase (fun id => id), List.map_id', h.byID]
  · intro id
    rw [lookup_foldl_erase (fun id => id), List.map_id', h.bindings]
  · intro id hid
    split at hid
    · exact absurd rfl hid
    · exact h.order id hid

theorem nodeAt_reverse (hids : (nodes.map (·.nodeID)).Nodup) : nodeAt nodes.reverse n.nodeID = some n ↔ n ∈ nodes := by
  rw [nodeAt_eq_some (by rwa [map_reverse, nodup_reverse]), mem_reverse]
  exact and_iff_left rfl

theorem resolves_upsert {o} (h : Resolves a node port) (u : CanonicalNode) : Resolves
    { byID := a.byID.insert u.nodeID u
      order := if (a.byID.lookup u.nodeID).isSome then a.order else a.order ++ [u.nodeID]
      bindings := a.bindings.insert u.nodeID o }
    (fun id => if id = u.nodeID then some u else node id) (fun id => if id = u.nodeID then some o else port id) := by
  constructor
  · intro id
    rw [lookup_set, h.byID]
  · intro id
    rw [lookup_set, h.bindings]
  · intro id hid
    rw [h.byID]
    by_cases heq : id = u.nodeID
    · subst heq
      split
      · rename_i hsome
        exact h.order _ (isSome_iff_ne_none.1 hsome)
      · simp
    · rw [if_neg heq] at hid
      split
      · exact h.order id hid
      · exact mem_append_left _ (h.order id hid)

theorem resolves_upserts (h : Resolves a node port) (happly : upserts.foldlM (applyUpsert delta) a = some b) :
    Resolves b (fun id => (nodeAt upserts.reverse id).or (node id))
      (fun id => if id ∈ upserts.map (·.nodeID) then delta.bindings.lookup id else port id) := by
  induction upserts generalizing a node port with
  | nil =>
    obtain rfl := some.inj happly
    simpa [nodeAt] using h
  | cons u upserts ih =>
    obtain ⟨a', ha', hr⟩ := bind_eq_some_iff.1 happly
    rw [applyUpsert] at ha'
    split at ha'
    · cases ha'
    split at ha'
    · cases ha'
    rename_i o ho
    obtain rfl := some.inj ha'
    have hfin := ih (resolves_upsert h u) hr
    have hns : ∀ id, (nodeAt (u :: upserts).reverse id).or (node id) =
        (nodeAt upserts.reverse id).or (if id = u.nodeID then some u else node id) := by
      intro id
      rw [nodeAt, reverse_cons, find?_append, Option.or_assoc, ← nodeAt]
      congr 1
      by_cases heq : id = u.nodeID
      · simp [heq]
      · simp [heq, Ne.symm heq]
    constructor
    · intro id
      rw [hfin.byID, hns]
    · intro id
      rw [hfin.bindings]
      by_cases heq : id = u.nodeID
      · subst heq
        simp [ho]
      · simp [heq]
    · intro id hid
      rw [hns] at hid
      exact hfin.order id hid

structure Applied (previous : SourcePublication) (delta : SourceDeltaPublication) (current : SourcePublication) :
    Prop where
  ids : (current.nodes.map (·.nodeID)).Nodup
  nodes : ∀ n, n ∈ current.nodes ↔ nodeAt delta.upserts.reverse n.nodeID = some n ∨
    n ∈ previous.nodes ∧ n.nodeID ∉ delta.removes ∧ n.nodeID ∉ delta.upserts.map (·.nodeID)
  bindings : ∀ id o, current.bindings.lookup id = some o ↔
    id ∈ delta.upserts.map (·.nodeID) ∧ delta.bindings.lookup id = some o ∨
    id ∉ delta.upserts.map (·.nodeID) ∧ id ∉ delta.removes ∧ id ∈ previous.nodes.map (·.nodeID) ∧
      previous.bindings.lookup id = some o
  count : current.inputLeafCount = delta.inputLeafCount
  suppressed : current.duplicatesSuppressed = delta.duplicatesSuppressed
  generation : current.generation = delta.generation
  newer : previous.generation < delta.generation

theorem applySourceDelta_applied (hprevi : (previous.nodes.map (·.nodeID)).Nodup)
    (h : applySourceDelta previous delta = .ok current) : Applied previous delta current := by
  rw [applySourceDelta] at h
  split at h
  · cases h
  rename_i hgen
  split at h
  · cases h
  rename_i a ha
  have hres := resolves_upserts (resolves_removes (resolves_start hprevi) delta.removes) ha
  have hsome : ∀ id n, a.byID.lookup id = some n ↔ nodeAt delta.upserts.reverse id = some n ∨
      id ∉ delta.upserts.map (·.nodeID) ∧ id ∉ delta.removes ∧ nodeAt previous.nodes id = some n := by
    intro id n
    rw [hres.byID, or_eq_some_iff]
    refine or_congr .rfl (and_congr (not_iff_not.1 ?_) ?_)
    · rw [not_not, ← mem_reverse, ← map_reverse]
      exact nodeAt_ne_none
    · by_cases hrem : id ∈ delta.removes <;> simp
  have hke : ∀ id n, a.byID.lookup id = some n → n.nodeID = id := by
    intro id n hn
    rcases (hsome id n).1 hn with hn | ⟨-, -, hn⟩
    · have hid := find?_some hn
      exact eq_of_beq hid
    · exact ((nodeAt_eq_some hprevi).1 hn).2
  obtain rfl := Except.ok.inj h
  generalize hkept : a.order.filter (fun id => id ∉ delta.removes) = kept
  have hme : ∀ n, n ∈ (drain kept a.byID).1 ++ (drain (delta.upserts.map (·.nodeID)) (drain kept a.byID).2).1 ↔
      a.byID.lookup n.nodeID = some n := by
    intro n
    rw [mem_append, mem_drain, mem_drain]
    constructor
    · rintro (⟨id, -, hn⟩ | ⟨id, -, hn⟩)
      · rwa [hke id n hn]
      · rw [lookup_drain] at hn
        split at hn
        · cases hn
        · rwa [hke id n hn]
    · intro hn
      have hord := hres.order n.nodeID (by rw [← hres.byID, hn]; exact some_ne_none n)
      by_cases hrem : n.nodeID ∈ delta.removes
      · -- removed and put back, so it is among the upserts
        have hups := ((hsome ..).1 hn).resolve_right fun h => h.2.1 hrem
        refine .inr ⟨n.nodeID, mem_map_of_mem (mem_reverse.1 (mem_of_find?_eq_some hups)), ?_⟩
        rw [lookup_drain, if_neg]
        · exact hn
        · intro hin
          rw [← hkept] at hin
          exact absurd hrem (of_decide_eq_true (mem_filter.1 hin).2)
      · exact .inl ⟨n.nodeID, hkept ▸ mem_filter.2 ⟨hord, decide_eq_true hrem⟩, hn⟩
  have hagain : ∀ id n, (drain kept a.byID).2.lookup id = some n → id ∉ kept ∧ a.byID.lookup id = some n := by
    intro id n hn
    rw [lookup_drain] at hn
    split at hn
    · cases hn
    · exact ⟨‹_›, hn⟩
  rw [not_or, Nat.not_le] at hgen
  refine ⟨?_, ?_, ?_, rfl, rfl, rfl, hgen.2⟩
  · rw [map_append, nodup_append]
    refine ⟨nodup_drain _ hke, nodup_drain _ fun id n hn => hke id n (hagain id n hn).2, ?_⟩
    intro id hid id' hid' heq
    obtain ⟨n, hn, rfl⟩ := mem_map.1 hid
    obtain ⟨m, hm, rfl⟩ := mem_map.1 hid'
    obtain ⟨k, hk, hlk⟩ := (mem_drain _ _ n).1 hn
    obtain ⟨k', -, hlk'⟩ := (mem_drain _ _ m).1 hm
    obtain ⟨hout, hm'⟩ := hagain k' m hlk'
    rw [← hke k' m hm', ← heq, hke k n hlk] at hout
    exact hout hk
  · intro n
    rw [hme, hsome, nodeAt_eq_some hprevi]
    simp only [and_true]
    refine or_congr .rfl ⟨?_, ?_⟩
    · rintro ⟨hups, hrem, hn⟩
      exact ⟨hn, hrem, hups⟩
    · rintro ⟨hn, hrem, hups⟩
      exact ⟨hups, hrem, hn⟩
  · intro id o
    rw [hres.bindings]
    by_cases hups : id ∈ delta.upserts.map (·.nodeID)
    · simp [hups]
    by_cases hrem : id ∈ delta.removes
    · simp [hrem]
    by_cases hprev : id ∈ previous.nodes.map (·.nodeID) <;> simp [hups]

/-- A key that is absent reads as the empty string. -/
def stringMapsEqual (first second : Metadata) : Bool :=
  first.keys.length = second.keys.length &&
    first.keys.all fun key => (second.lookup key).getD "" = (first.lookup key).getD ""

def canonicalNodeEqual (first second : CanonicalNode) : Bool :=
  first.nodeID = second.nodeID && first.endpointID = second.endpointID &&
    first.endpointConflictCount = second.endpointConflictCount && first.sourceKey = second.sourceKey &&
    first.identityStable = second.identityStable && first.aliases = second.aliases &&
    first.transport = second.transport && stringMapsEqual first.metadata second.metadata

section

-- nothing is assumed of the types of ports that can be compared
variable (comparable : Outbound → Bool)

def executionPortEqual : Option Outbound → Option Outbound → Bool
  | some first, some second => comparable first && first = second
  | first, second => first.isNone && second.isNone

def unchanged (previous current : SourcePublication) (old node : CanonicalNode) : Bool :=
  canonicalNodeEqual old node &&
    executionPortEqual comparable (previous.bindings.lookup node.nodeID) (current.bindings.lookup node.nodeID)

def diffSourcePublication (previous current : SourcePublication) : Except SourceError SourceDeltaPublication :=
  if current.generation = 0 ∨ previous.generation = 0 ∨ current.generation ≤ previous.generation then
    .error .generationOutOfOrder
  else
    let previousNodes : GoMap NodeID CanonicalNode := previous.nodes.foldl (fun m node => m.insert node.nodeID node) ∅
    let upserts := current.nodes.filter fun node =>
      !(previousNodes.lookup node.nodeID).any (unchanged comparable previous current · node)
    .ok
      { generation := current.generation, upserts
        removes := (previous.nodes.map (·.nodeID)).filter (· ∉ current.nodes.map (·.nodeID))
        bindings := upserts.foldl (fun m node => insertPort m node.nodeID (current.bindings.lookup node.nodeID)) ∅
        inputLeafCount := current.inputLeafCount, duplicatesSuppressed := current.duplicatesSuppressed }

/-- The ids are distinct and not zero, and every node has a port. -/
structure Bound (p : SourcePublication) : Prop where
  ids : (p.nodes.map (·.nodeID)).Nodup
  nonzero : ∀ n ∈ p.nodes, n.nodeID ≠ 0
  ports : ∀ n ∈ p.nodes, ∃ o, p.bindings.lookup n.nodeID = some o

def SameNode (n m : CanonicalNode) : Prop :=
  { n with metadata := ∅ } = { m with metadata := ∅ } ∧ ∀ key, n.metadata.lookup key = m.metadata.lookup key

theorem applyUpserts_some (h : ∀ n ∈ upserts, n.nodeID ≠ 0 ∧
    ∃ o, delta.bindings.lookup n.nodeID = some o) (a) : ∃ b, upserts.foldlM (applyUpsert delta) a = some b := by
  induction upserts generalizing a with
  | nil => exact ⟨a, rfl⟩
  | cons n upserts ih =>
    obtain ⟨hzero, o, ho⟩ := h n mem_cons_self
    rw [foldlM_cons, applyUpsert, if_neg hzero, ho]
    exact ih (fun m hm => h m (mem_cons_of_mem n hm)) _

variable {comparable}

/-- The two nodes pass for the same one: all but the metadata is equal, and a key
that `m` does not have reads as the empty string. -/
structure Matches (comparable : Outbound → Bool) (previous current : SourcePublication) (n m : CanonicalNode) :
    Prop where
  fields : { n with metadata := ∅ } = { m with metadata := ∅ }
  length : n.metadata.keys.length = m.metadata.keys.length
  values : ∀ key value, n.metadata.lookup key = some value → (m.metadata.lookup key).getD "" = value
  port : ∃ o, comparable o = true ∧ previous.bindings.lookup m.nodeID = some o ∧
    current.bindings.lookup m.nodeID = some o

theorem Matches.nodeID {m} (h : Matches comparable previous current n m) : n.nodeID = m.nodeID :=
  (CanonicalNode.mk.inj h.fields).1

theorem unchanged_iff {m} (hport : ∃ o, current.bindings.lookup m.nodeID = some o) :
    unchanged comparable previous current n m = true ↔ Matches comparable previous current n m := by
  obtain ⟨o, ho⟩ := hport
  have hports : executionPortEqual comparable (previous.bindings.lookup m.nodeID) (some o) = true ↔
      comparable o = true ∧ previous.bindings.lookup m.nodeID = some o := by
    cases previous.bindings.lookup m.nodeID with
    | none => simp [executionPortEqual]
    | some o' =>
      simp only [executionPortEqual, Bool.and_eq_true, decide_eq_true_eq, some.injEq]
      exact and_congr_left fun heq => by rw [heq]
  simp only [unchanged, canonicalNodeEqual, stringMapsEqual, Bool.and_eq_true, decide_eq_true_eq, List.all_eq_true, ho,
    hports]
  constructor
  · rintro ⟨⟨⟨⟨⟨⟨⟨⟨hid, hendp⟩, hcnt⟩, hk⟩, hstb⟩, halias⟩, htran⟩, hlen, hval⟩, hport⟩
    refine ⟨?_, hlen, fun key value hvalue => ?_, o, hport.1, hport.2, ho⟩
    · rw [CanonicalNode.mk.injEq]
      exact ⟨hid, hendp, hcnt, hk, halias, htran, rfl, hstb⟩
    · have hread := hval key (mem_keys_iff.2 ⟨value, hvalue⟩)
      rwa [hvalue] at hread
  · rintro ⟨hflds, hlen, hval, o', hcomp, hold, hnew⟩
    obtain rfl := some.inj (ho.symm.trans hnew)
    rw [CanonicalNode.mk.injEq] at hflds
    obtain ⟨hid, hendp, hcnt, hk, halias, htran, -, hstb⟩ := hflds
    refine ⟨⟨⟨⟨⟨⟨⟨⟨hid, hendp⟩, hcnt⟩, hk⟩, hstb⟩, halias⟩, htran⟩, hlen, ?_⟩, hcomp, hold⟩
    intro key hk
    obtain ⟨value, hvalue⟩ := mem_keys_iff.1 hk
    rw [hval key value hvalue, hvalue]
    rfl

/-- An empty value of the one may be missing in the other, and nothing else. -/
theorem Matches.sameNode {m} (h : Matches comparable previous current n m) :
    SameNode n m ↔ ∀ key, n.metadata.lookup key = some "" → m.metadata.lookup key ≠ none := by
  constructor
  · rintro ⟨-, hsame⟩ key hemp hgone
    rw [hsame, hgone] at hemp
    cases hemp
  intro hkept
  have hf : ∀ key value, n.metadata.lookup key = some value → m.metadata.lookup key = some value := by
    intro key value hval
    have hread := h.values key value hval
    cases hsec : m.metadata.lookup key with
    | none =>
      rw [hsec] at hread
      exact absurd hsec (hkept key (hval.trans (congrArg some hread.symm)))
    | some value' =>
      rw [hsec] at hread
      exact congrArg some hread
  have hkeys : m.metadata.keys ⊆ n.metadata.keys := by
    have hsub : n.metadata.keys ⊆ m.metadata.keys := fun k hk => by
      obtain ⟨value, hval⟩ := mem_keys_iff.1 hk
      exact mem_keys_iff.2 ⟨value, hf k value hval⟩
    exact ((List.subperm_of_subset n.metadata.keys_nodup hsub).perm_of_length_le h.length.ge).symm.subset
  refine ⟨h.fields, fun key => ?_⟩
  cases hval : n.metadata.lookup key with
  | some value => exact (hf key value hval).symm
  | none =>
    refine (Option.eq_none_iff_forall_ne_some.2 fun value hsec => ?_).symm
    obtain ⟨value', hval'⟩ := mem_keys_iff.1 (hkeys (mem_keys_iff.2 ⟨value, hsec⟩))
    rw [hval] at hval'
    cases hval'

structure Diffs (comparable : Outbound → Bool) (previous current : SourcePublication)
    (delta : SourceDeltaPublication) : Prop where
  upserts : delta.upserts.Sublist current.nodes
  kept : ∀ m ∈ current.nodes, m ∉ delta.upserts ↔ ∃ n ∈ previous.nodes, Matches comparable previous current n m
  removes : ∀ id, id ∈ delta.removes ↔ id ∈ previous.nodes.map (·.nodeID) ∧ id ∉ current.nodes.map (·.nodeID)
  bindings : ∀ id, id ∈ delta.upserts.map (·.nodeID) → delta.bindings.lookup id = current.bindings.lookup id
  generation : delta.generation = current.generation
  counts : delta.inputLeafCount = current.inputLeafCount ∧
    delta.duplicatesSuppressed = current.duplicatesSuppressed

theorem diffSourcePublication_diffs (hids : (previous.nodes.map (·.nodeID)).Nodup) (hcur : Bound current)
    (h : diffSourcePublication comparable previous current = .ok delta) :
    Diffs comparable previous current delta := by
  rw [diffSourcePublication] at h
  split at h
  · cases h
  obtain rfl := Except.ok.inj h
  refine ⟨List.filter_sublist, ?_, ?_, ?_, rfl, rfl, rfl⟩
  · intro m hm
    have hlk := (resolves_start hids).byID m.nodeID
    rw [List.mem_filter, not_and, Bool.not_eq_true', Bool.not_eq_false, Option.any_eq_true, imp_iff_right hm]
    constructor
    · rintro ⟨n, hn, hsame⟩
      exact ⟨n, ((nodeAt_eq_some hids).1 (hlk.symm.trans hn)).1, (unchanged_iff (hcur.ports m hm)).1 hsame⟩
    · rintro ⟨n, hn, hsame⟩
      exact ⟨n, hlk.trans ((nodeAt_eq_some hids).2 ⟨hn, hsame.nodeID⟩), (unchanged_iff (hcur.ports m hm)).2 hsame⟩
  · intro id
    rw [List.mem_filter, decide_eq_true_eq]
  · intro id hid
    exact (lookup_startBindings current _ ∅ id).trans (if_pos hid)

section

variable (hdif : Diffs comparable previous current delta) (hcur : Bound current)
include hdif hcur

theorem Diffs.out {m} (hm : m ∈ current.nodes) : m.nodeID ∉ delta.upserts.map (·.nodeID) ↔ m ∉ delta.upserts := by
  refine not_congr ⟨fun hin => ?_, mem_map_of_mem⟩
  obtain ⟨u, hu, hid⟩ := mem_map.1 hin
  rwa [← inj_on_of_nodup_map hcur.ids (hdif.upserts.subset hu) hm hid]

variable {applied : SourcePublication} (h : Applied previous delta applied)
include h

/-- What is not upserted is listed as it was. -/
theorem Diffs.stays {n m} (hn : n ∈ previous.nodes) (hm : m ∈ current.nodes)
    (hsame : Matches comparable previous current n m) : n ∈ applied.nodes := by
  refine (h.nodes n).2 (.inr ⟨hn, ?_, ?_⟩)
  · rw [hdif.removes, hsame.nodeID]
    exact fun hgone => hgone.2 (mem_map_of_mem hm)
  · rw [hsame.nodeID, hdif.out hcur hm, hdif.kept m hm]
    exact ⟨n, hn, hsame⟩

theorem Diffs.ports (id o) : applied.bindings.lookup id = some o ↔
    id ∈ current.nodes.map (·.nodeID) ∧ current.bindings.lookup id = some o := by
  rw [h.bindings]
  by_cases hin : id ∈ delta.upserts.map (·.nodeID)
  · simp only [hin, true_and, not_true, false_and, or_false, hdif.bindings id hin]
    exact (and_iff_right ((hdif.upserts.map _).subset hin)).symm
  simp only [hin, false_and, not_false_eq_true, true_and, false_or, hdif.removes]
  constructor
  · rintro ⟨hkept, hold, hport⟩
    rw [not_and, not_not] at hkept
    obtain ⟨m, hm, rfl⟩ := mem_map.1 (hkept hold)
    obtain ⟨n, -, hsame⟩ := (hdif.kept m hm).1 ((hdif.out hcur hm).1 hin)
    obtain ⟨o', -, ho', hnew⟩ := hsame.port
    exact ⟨hkept hold, hnew.trans (ho'.symm.trans hport)⟩
  · rintro ⟨hnew, hport⟩
    obtain ⟨m, hm, rfl⟩ := mem_map.1 hnew
    obtain ⟨n, hn, hsame⟩ := (hdif.kept m hm).1 ((hdif.out hcur hm).1 hin)
    obtain ⟨o', -, ho', hnew'⟩ := hsame.port
    exact ⟨fun hgone => hgone.2 hnew, mem_map.2 ⟨n, hn, hsame.nodeID⟩, ho'.trans (hnew'.symm.trans hport)⟩

end

/-- The content of a publication, the order of its nodes and the ports of other ids apart. -/
structure Reproduces (applied current : SourcePublication) : Prop where
  generation : applied.generation = current.generation
  counts : applied.inputLeafCount = current.inputLeafCount ∧
    applied.duplicatesSuppressed = current.duplicatesSuppressed
  ids : (applied.nodes.map (·.nodeID)).Nodup
  nodes : ∀ n ∈ applied.nodes, ∃ m ∈ current.nodes, SameNode n m
  all : ∀ m ∈ current.nodes, ∃ n ∈ applied.nodes, SameNode n m
  bindings : ∀ id o, applied.bindings.lookup id = some o ↔
    id ∈ current.nodes.map (·.nodeID) ∧ current.bindings.lookup id = some o

theorem diff_applies (comparable : Outbound → Bool) (hprevious : Bound previous) (hcurrent : Bound current)
    (hzero : previous.generation ≠ 0) (hnewer : previous.generation < current.generation) :
    ∃ delta applied, diffSourcePublication comparable previous current = .ok delta ∧
      applySourceDelta previous delta = .ok applied ∧
      (Reproduces applied current ↔ ∀ n ∈ previous.nodes, ∀ m ∈ current.nodes,
        Matches comparable previous current n m →
          ∀ key, n.metadata.lookup key = some "" → m.metadata.lookup key ≠ none) := by
  obtain ⟨delta, hd⟩ : ∃ delta, diffSourcePublication comparable previous current = .ok delta :=
    ⟨_, if_neg (by omega)⟩
  have hdif := diffSourcePublication_diffs hprevious.ids hcurrent hd
  have hme := hdif.upserts.subset
  have hport : ∀ n ∈ delta.upserts, n.nodeID ≠ 0 ∧ ∃ o, delta.bindings.lookup n.nodeID = some o := by
    intro n hn
    rw [hdif.bindings n.nodeID (mem_map_of_mem hn)]
    exact ⟨hcurrent.nonzero n (hme hn), hcurrent.ports n (hme hn)⟩
  obtain ⟨a, ha⟩ := applyUpserts_some hport (delta.removes.foldl applyRemove (startApply previous))
  obtain ⟨applied, happ⟩ : ∃ applied, applySourceDelta previous delta = .ok applied := by
    rw [applySourceDelta, if_neg (by rw [hdif.generation]; omega), ha]
    exact ⟨_, rfl⟩
  have h := applySourceDelta_applied hprevious.ids happ
  have hups := hcurrent.ids.sublist (hdif.upserts.map _)
  refine ⟨delta, applied, hd, happ, ?_, ?_⟩
  · intro hr n hn m hm hsame
    obtain ⟨n', hn', hsame'⟩ := hr.all m hm
    have hid := (CanonicalNode.mk.inj (hsame'.1.trans hsame.fields.symm)).1
    rw [← hsame.sameNode, ← inj_on_of_nodup_map h.ids hn' (hdif.stays hcurrent h hn hm hsame) hid]
    exact hsame'
  intro hkeys
  refine ⟨h.generation.trans hdif.generation,
    ⟨h.count.trans hdif.counts.1, h.suppressed.trans hdif.counts.2⟩, h.ids, ?_, ?_, hdif.ports hcurrent h⟩
  · intro n hn
    rcases (h.nodes n).1 hn with hin | ⟨hn, hkept, hnew⟩
    · exact ⟨n, hme ((nodeAt_reverse hups).1 hin), rfl, fun _ => rfl⟩
    rw [hdif.removes, not_and, not_not] at hkept
    obtain ⟨m, hm, hid⟩ := mem_map.1 (hkept (mem_map_of_mem hn))
    obtain ⟨n', hn', hsame⟩ := (hdif.kept m hm).1 ((hdif.out hcurrent hm).1 (hid ▸ hnew))
    obtain rfl := inj_on_of_nodup_map hprevious.ids hn' hn (hsame.nodeID.trans hid)
    exact ⟨m, hm, hsame.sameNode.2 (hkeys n' hn' m hm hsame)⟩
  · intro m hm
    by_cases hin : m ∈ delta.upserts
    · exact ⟨m, (h.nodes m).2 (.inl ((nodeAt_reverse hups).2 hin)), rfl, fun _ => rfl⟩
    · obtain ⟨n, hn, hsame⟩ := (hdif.kept m hm).1 hin
      exact ⟨n, hdif.stays hcurrent h hn hm hsame, hsame.sameNode.2 (hkeys n hn m hm hsame)⟩

def lone (generation : Nat) (metadata : Metadata) : SourcePublication :=
  ⟨generation, [⟨1, 1, 0, "a", ["a"], [], metadata, true⟩], 1, 0,
    .singleton 1 ⟨0, "a", "direct", [], [], none, none⟩⟩

theorem bound_lone (generation metadata) : Bound (lone generation metadata) := by
  refine ⟨nodup_singleton _, ?_, ?_⟩ <;> intro n hn <;> obtain rfl := mem_singleton.1 hn
  · exact (by decide : (1 : NodeID) ≠ 0)
  · exact ⟨_, rfl⟩

theorem lone_diff_applies : ∃ delta applied,
    diffSourcePublication (fun _ => true) (lone 1 ∅) (lone 2 (.singleton "source" "p")) = .ok delta ∧
      applySourceDelta (lone 1 ∅) delta = .ok applied ∧
      Reproduces applied (lone 2 (.singleton "source" "p")) := by
  obtain ⟨delta, applied, hd, happ, hiff⟩ :=
    diff_applies (fun _ => true) (bound_lone 1 ∅) (bound_lone 2 (.singleton "source" "p")) (by decide) (by decide)
  exact ⟨delta, applied, hd, happ, hiff.2 (by simp [lone])⟩

/-- The key changes, but either key reads as empty where it is absent. -/
theorem renamed_empty_value_missed : ∃ delta applied,
    Bound (lone 1 (.singleton "a" "")) ∧ Bound (lone 2 (.singleton "b" "")) ∧
      diffSourcePublication (fun _ => true) (lone 1 (.singleton "a" "")) (lone 2 (.singleton "b" "")) =
        .ok delta ∧
      applySourceDelta (lone 1 (.singleton "a" "")) delta = .ok applied ∧
      ¬ Reproduces applied (lone 2 (.singleton "b" "")) := by
  refine ⟨_, _, bound_lone 1 _, bound_lone 2 _, rfl, rfl, fun h => ?_⟩
  obtain ⟨n, hn, -, hmet⟩ := h.all _ mem_cons_self
  obtain rfl := mem_singleton.1 hn
  exact absurd (hmet "a") (by decide)

end

/-- The delta says something about the id. -/
def Names (id : NodeID) (delta : SourceDeltaPublication) : Prop :=
  id ∈ delta.removes ∨ id ∈ delta.upserts.map (·.nodeID)

/-- After any deltas, a node is there if the last one to name its id has it as the last upsert of that id, or if
none does and it was there. -/
theorem last_delta_wins {previous current : SourcePublication} {deltas : List SourceDeltaPublication}
    (hids : (previous.nodes.map (·.nodeID)).Nodup) (h : deltas.foldlM applySourceDelta previous = .ok current)
    (n : CanonicalNode) :
    n ∈ current.nodes ↔
      (∃ pre d post, deltas = pre ++ d :: post ∧ nodeAt d.upserts.reverse n.nodeID = some n ∧
        ∀ d ∈ post, ¬ Names n.nodeID d) ∨
      n ∈ previous.nodes ∧ ∀ d ∈ deltas, ¬ Names n.nodeID d := by
  induction deltas generalizing previous with
  | nil =>
    cases h
    simp
  | cons d deltas ih =>
    obtain ⟨next, hn, h⟩ : ∃ next, applySourceDelta previous d = .ok next ∧
        deltas.foldlM applySourceDelta next = .ok current := by
      rw [foldlM_cons] at h
      cases hd : applySourceDelta previous d with
      | error e => rw [hd] at h; cases h
      | ok next => exact ⟨next, rfl, by rwa [hd] at h⟩
    have happ := applySourceDelta_applied hids hn
    rw [ih happ.ids h, happ.nodes, forall_mem_cons]
    constructor
    · rintro (⟨pre, d', post, rfl, hin⟩ | ⟨hin | ⟨hold, hnot⟩, hlat⟩)
      · exact .inl ⟨d :: pre, d', post, rfl, hin⟩
      · exact .inl ⟨[], d, deltas, rfl, hin, hlat⟩
      · exact .inr ⟨hold, not_or.2 hnot, hlat⟩
    · rintro (⟨_ | ⟨d', pre⟩, d'', post, heq, hin⟩ | ⟨hold, hnot, hlat⟩)
      · cases heq
        exact .inr ⟨.inl hin.1, hin.2⟩
      · cases heq
        exact .inl ⟨pre, d'', post, rfl, hin⟩
      · exact .inr ⟨.inr ⟨hold, not_or.1 hnot⟩, hlat⟩

def outAndBack : List SourceDeltaPublication :=
  [⟨2, [], [1], ∅, 0, 0⟩, ⟨3, (lone 1 ∅).nodes, [], (lone 1 ∅).bindings, 1, 0⟩]

theorem removed_node_back : ∃ current, outAndBack.foldlM applySourceDelta (lone 1 ∅) = .ok current ∧
    ∀ n ∈ (lone 1 ∅).nodes, n ∈ current.nodes := by
  refine ⟨_, rfl, fun n hn => ?_⟩
  have hl := @last_delta_wins (lone 1 ∅) _ outAndBack (bound_lone 1 ∅).ids rfl n
  refine hl.2 (.inl ⟨[_], _, [], rfl, ?_, by simp⟩)
  obtain rfl := mem_singleton.1 hn
  rfl

end SingBox.DeltaApplication
