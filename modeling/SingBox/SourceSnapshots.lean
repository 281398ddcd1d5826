import SingBox.Maps
import SingBox.Values

namespace SingBox.SourceSnapshots

open Maps Values

structure OutboundOptions where
  type : String
  options : String
  deriving DecidableEq

/-- `object` tells outbounds apart that agree in everything else. `members` are
the tags of a group. `options` are those its provider keeps for its tag: when
they change, the provider makes a new outbound. -/
structure Outbound where
  object : Nat
  tag : String
  type : String
  network : List String
  dependencies : List String
  members : Option (List String)
  options : Option OutboundOptions
  deriving DecidableEq

/-- Nothing is assumed of the hashes. Hashing options may fail. -/
structure IdentityHasher where
  fromCanonicalOptions : OutboundOptions → Option NodeID
  fromEndpointOptions : OutboundOptions → Option NodeID
  fromRuntimeDescriptor : String → String → List String → List String → NodeID

/-- A nil map is not told apart from an empty one. -/
abbrev Metadata := GoMap String String

instance : DecidableEq Metadata := fun _ _ => decidable_of_iff _ AList.ext_iff.symm

structure CanonicalNode where
  nodeID : NodeID
  endpointID : NodeID
  endpointConflictCount : Nat := 0
  sourceKey : String
  aliases : List String
  transport : List String
  metadata : Metadata
  identityStable : Bool
  deriving DecidableEq

structure SourcePublication where
  generation : Nat
  nodes : List CanonicalNode
  inputLeafCount : Int
  duplicatesSuppressed : Nat
  bindings : GoMap NodeID Outbound

structure SourceDeltaPublication where
  generation : Nat
  upserts : List CanonicalNode
  removes : List NodeID
  bindings : GoMap NodeID Outbound
  inputLeafCount : Int
  duplicatesSuppressed : Nat

inductive SourceError
  | generationOutOfOrder
  | upsertInvalid
  | invalidAdapter
  | identityFailed
  | staticNotFound (tag : String)
  | baselineMissing
  | fullSnapshotRequired
  | noDeltaContract
  | cursorExpired
  | objectIncomplete
  | groupDelta
  | canonicalizationFailed
  | identityCollision
  deriving DecidableEq

structure A48SourceRoot where
  outbound : Outbound
  options : Option OutboundOptions
  source : String
  deriving DecidableEq

def sourceMetadata (source : String) : Metadata := if source = "" then ∅ else AList.singleton "source" source

def appendUnique (values : List String) (value : String) : List String :=
  if value = "" ∨ value ∈ values then values else values ++ [value]

def resolve (manager : List Outbound) (tag : String) : Option Outbound := manager.find? (·.tag == tag)

def withOptions (optionsByTag : GoMap String OutboundOptions) (root : A48SourceRoot) : A48SourceRoot :=
  { root with options := root.options.or (optionsByTag.lookup root.outbound.tag) }

/-- The tags seen and the leaves found so far. The first argument bounds the
depth of nested groups. -/
def flatten (manager : List Outbound) (optionsByTag : GoMap String OutboundOptions) :
    Nat → A48SourceRoot → List String → List String × List A48SourceRoot → List String × List A48SourceRoot
  | 0, _, _, found => found
  | depth + 1, root, stack, found =>
    if root.outbound.tag = "" ∨ root.outbound.tag ∈ stack then found
    else
      match root.outbound.members with
      | some members =>
        members.foldl
          (fun found childTag =>
            match resolve manager childTag with
            | some child =>
              flatten manager optionsByTag depth ⟨child, optionsByTag.lookup childTag, root.source⟩
                (root.outbound.tag :: stack) found
            | none => found)
          found
      | none =>
        if root.outbound.tag ∈ found.1 then found
        else (root.outbound.tag :: found.1, found.2 ++ [withOptions optionsByTag root])

def addOptions (optionsByTag : GoMap String OutboundOptions) (root : A48SourceRoot) : GoMap String OutboundOptions :=
  match root.options with
  | some options => optionsByTag.insert root.outbound.tag options
  | none => optionsByTag

def rootOptions (roots : List A48SourceRoot) : GoMap String OutboundOptions := roots.foldl addOptions ∅

/-- A group that is not on the stack uses up one outbound of the manager, the
one at the root apart. -/
def depthLimit (manager : List Outbound) : Nat := manager.length + 1

def flattenAll (manager : List Outbound) (optionsByTag : GoMap String OutboundOptions) (roots : List A48SourceRoot)
    (found : List String × List A48SourceRoot) : List String × List A48SourceRoot :=
  roots.foldl (fun found root => flatten manager optionsByTag (depthLimit manager) root [] found) found

def flattenRoots (manager : List Outbound) (roots : List A48SourceRoot) : List A48SourceRoot :=
  (flattenAll manager (rootOptions roots) roots ([], [])).2

section

variable [NetworkNames] (hasher : IdentityHasher)

def identify (leaf : A48SourceRoot) : Option (NodeID × NodeID) :=
  match leaf.options with
  | some options =>
    match hasher.fromCanonicalOptions options, hasher.fromEndpointOptions options with
    | some id, some endpointID => some (id, endpointID)
    | _, _ => none
  | none =>
    let id := hasher.fromRuntimeDescriptor leaf.outbound.type leaf.outbound.tag leaf.outbound.network
      leaf.outbound.dependencies
    some (id, id)

def canonicalNode (leaf : A48SourceRoot) (ids : NodeID × NodeID) : CanonicalNode :=
  { nodeID := ids.1, endpointID := ids.2, sourceKey := leaf.outbound.tag, aliases := [leaf.outbound.tag]
    transport := leaf.outbound.network.map NetworkNames.networkName, metadata := sourceMetadata leaf.source
    identityStable := leaf.options.isSome || leaf.source = "static" }

def addAlias (tag : String) (node : CanonicalNode) : CanonicalNode :=
  { node with aliases := appendUnique node.aliases tag }

def addLeaf (publication : SourcePublication) (leaf : A48SourceRoot) : Option SourcePublication :=
  match identify hasher leaf with
  | none => none
  | some ids =>
    match publication.nodes.findIdx? (·.nodeID == ids.1) with
    | some index =>
      some
        { publication with
          nodes := publication.nodes.modify index (addAlias leaf.outbound.tag)
          duplicatesSuppressed := publication.duplicatesSuppressed + 1 }
    | none =>
      some
        { publication with
          nodes := publication.nodes ++ [canonicalNode leaf ids]
          bindings := publication.bindings.insert ids.1 leaf.outbound }

def markConflict (nodes : List CanonicalNode) (node : CanonicalNode) : CanonicalNode :=
  let count := nodes.countP (·.endpointID == node.endpointID)
  if count > 1 then
    { node with
      endpointConflictCount := count
      metadata := node.metadata.insert "endpoint_conflict" "true" }
  else node

def adapterSnapshot (manager : List Outbound) (generation : Nat) (roots : List A48SourceRoot) :
    Except SourceError SourcePublication :=
  if generation = 0 then .error .invalidAdapter
  else
    let leaves := flattenRoots manager roots
    match leaves.foldlM (addLeaf hasher) ⟨generation, [], leaves.length, 0, ∅⟩ with
    | none => .error .identityFailed
    | some publication => .ok { publication with nodes := publication.nodes.map (markConflict publication.nodes) }

end

structure SourceRuntimeConfig where
  staticTags : List String
  providerTags : List String
  include_ : Option (String → Bool)
  exclude : Option (String → Bool)
  manualExclude : Option (String → Bool)

def manualMatch (config : SourceRuntimeConfig) (tag : String) : Bool :=
  config.manualExclude.any fun matches_ => tag ≠ "" && matches_ tag

def allowed (config : SourceRuntimeConfig) (tag : String) : Bool :=
  !config.exclude.any (fun matches_ => matches_ tag) && !manualMatch config tag &&
    config.include_.all fun matches_ => matches_ tag

def staticRoots (manager : List Outbound) : List String → Except SourceError (List A48SourceRoot)
  | [] => .ok []
  | tag :: tags =>
    match resolve manager tag with
    | none => .error (.staticNotFound tag)
    | some candidate => (staticRoots manager tags).map (⟨candidate, none, "static"⟩ :: ·)

def memberRoot (providerTag : String) (candidate : Outbound) : A48SourceRoot :=
  ⟨candidate, candidate.options, providerTag⟩

/-- `outbounds` are those of each provider; a provider that is not there has none. -/
def memberRoots (config : SourceRuntimeConfig) (outbounds : String → List Outbound) : List A48SourceRoot :=
  config.providerTags.flatMap fun providerTag =>
    ((outbounds providerTag).filter fun candidate => allowed config candidate.tag).map (memberRoot providerTag)

def filterManualSourcePublication (config : SourceRuntimeConfig) (publication : SourcePublication) :
    SourcePublication :=
  let excluded := publication.nodes.filter fun node =>
    manualMatch config node.sourceKey || node.aliases.any (manualMatch config)
  { publication with
    nodes := publication.nodes.filter fun node =>
      !(manualMatch config node.sourceKey || node.aliases.any (manualMatch config))
    bindings := excluded.foldl (fun bindings node => bindings.erase node.nodeID) publication.bindings
    inputLeafCount := max 0 (publication.inputLeafCount - excluded.length) }

def snapshotA48RuntimeV1 [NetworkNames] (hasher : IdentityHasher) (manager : List Outbound)
    (config : SourceRuntimeConfig) (outbounds : String → List Outbound) (generation : Nat) :
    Except SourceError SourcePublication :=
  match staticRoots manager config.staticTags with
  | .error failure => .error failure
  | .ok statics =>
    match adapterSnapshot hasher manager generation (statics ++ memberRoots config outbounds) with
    | .error failure => .error failure
    | .ok publication =>
      if config.manualExclude.isNone then .ok publication
      else .ok (filterManualSourcePublication config publication)

structure Applying where
  byID : GoMap NodeID CanonicalNode
  order : List NodeID
  bindings : GoMap NodeID Outbound

/-- An absent port is not told apart from none. -/
def insertPort (bindings : GoMap NodeID Outbound) (id : NodeID) : Option Outbound → GoMap NodeID Outbound
  | some port => bindings.insert id port
  | none => bindings.erase id

def startApply (previous : SourcePublication) : Applying :=
  { byID := previous.nodes.foldl (fun m node => m.insert node.nodeID node) ∅
    order := previous.nodes.map (·.nodeID)
    bindings :=
      previous.nodes.foldl (fun m node => insertPort m node.nodeID (previous.bindings.lookup node.nodeID)) ∅ }

def applyRemove (a : Applying) (id : NodeID) : Applying :=
  { a with byID := a.byID.erase id, bindings := a.bindings.erase id }

def applyUpsert (delta : SourceDeltaPublication) (a : Applying) (node : CanonicalNode) : Option Applying :=
  if node.nodeID = 0 then none
  else
    match delta.bindings.lookup node.nodeID with
    | none => none
    | some port =>
      some
        { byID := a.byID.insert node.nodeID node
          order := if (a.byID.lookup node.nodeID).isSome then a.order else a.order ++ [node.nodeID]
          bindings := a.bindings.insert node.nodeID port }

def applySourceDelta (previous : SourcePublication) (delta : SourceDeltaPublication) :
    Except SourceError SourcePublication :=
  if previous.generation = 0 ∨ delta.generation ≤ previous.generation then .error .generationOutOfOrder
  else
    match delta.upserts.foldlM (applyUpsert delta) (delta.removes.foldl applyRemove (startApply previous)) with
    | none => .error .upsertInvalid
    | some a =>
      let kept := drain (a.order.filter fun id => id ∉ delta.removes) a.byID
      let again := drain (delta.upserts.map (·.nodeID)) kept.2
      .ok
        { generation := delta.generation, nodes := kept.1 ++ again.1, inputLeafCount := delta.inputLeafCount
          duplicatesSuppressed := delta.duplicatesSuppressed, bindings := a.bindings }

end SingBox.SourceSnapshots
