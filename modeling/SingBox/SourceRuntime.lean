import SingBox.OrderFree
import SingBox.Runs
import SingBox.SourceSnapshots

namespace SingBox.SourceRuntime

open Maps Values SourceSnapshots OrderFree

structure ProviderDelta where
  baseRevision : Nat
  revision : Nat
  upserts : List String
  removes : List String
  deriving DecidableEq

/-- The outbounds of a provider have distinct tags. -/
structure Contents where
  outbounds : List Outbound
  distinct : (outbounds.map (·.tag)).Nodup

def Contents.outbound (c : Contents) (tag : String) : Option Outbound := c.outbounds.find? (·.tag == tag)

/-- `versions` are the contents at each revision and are not in the program. -/
structure Provider where
  contents : Contents
  deltaRevision : Nat := 0
  deltaHistory : List ProviderDelta := []
  versions : List Contents := [contents]

def providerDeltaHistoryLimit : Nat := 16

def sortTags (tags : List String) : List String := (sortFromEnd (fun a b => a < b) tags).reverse

def removedTags (previous current : Contents) : List String :=
  sortTags ((previous.outbounds.map (·.tag)).filter fun tag => (current.outbound tag).isNone)

def upsertedTags (previous current : Contents) : List String :=
  sortTags ((current.outbounds.map (·.tag)).filter fun tag => previous.outbound tag ≠ current.outbound tag)

def recordOutboundDelta (p : Provider) (current : Contents) : Provider :=
  let upserts := upsertedTags p.contents current
  let removes := removedTags p.contents current
  if upserts = [] ∧ removes = [] then { p with contents := current }
  else
    let history := p.deltaHistory ++ [⟨p.deltaRevision, p.deltaRevision + 1, upserts, removes⟩]
    { contents := current, deltaRevision := p.deltaRevision + 1
      deltaHistory := history.drop (history.length - providerDeltaHistoryLimit), versions := p.versions ++ [current] }

def collectDeltas (result : ProviderDelta) : List ProviderDelta → Option ProviderDelta
  | [] => some result
  | delta :: deltas =>
    if delta.baseRevision ≠ result.revision then none
    else
      collectDeltas
        { result with
          revision := delta.revision
          upserts := result.upserts ++ delta.upserts
          removes := result.removes ++ delta.removes }
        deltas

def outboundDelta (p : Provider) (afterRevision : Nat) : Option ProviderDelta :=
  if afterRevision = p.deltaRevision then some ⟨afterRevision, afterRevision, [], []⟩
  else if afterRevision > p.deltaRevision then none
  else
    match p.deltaHistory.dropWhile (·.baseRevision != afterRevision) with
    | [] => none
    | deltas => collectDeltas ⟨afterRevision, afterRevision, [], []⟩ deltas

structure A48SourceRuntimeV1 where
  providers : GoMap String Provider
  lastPublication : Option SourcePublication := none
  providerRevisions : GoMap String Nat
  dirtyProviders : GoMap String Unit := ∅

def outboundsOf (r : A48SourceRuntimeV1) (providerTag : String) : List Outbound :=
  ((r.providers.lookup providerTag).map (·.contents.outbounds)).getD []

def revisionsOf (providers : GoMap String Provider) : GoMap String Nat :=
  providers.keys.foldl
    (fun revisions tag =>
      match providers.lookup tag with
      | some provider => revisions.insert tag provider.deltaRevision
      | none => revisions)
    ∅

def loadProviders (config : SourceRuntimeConfig) (contents : String → Contents) : GoMap String Provider :=
  config.providerTags.foldl (fun providers tag => providers.insert tag { contents := contents tag }) ∅

def start (config : SourceRuntimeConfig) (contents : String → Contents) : A48SourceRuntimeV1 :=
  { providers := loadProviders config contents, providerRevisions := revisionsOf (loadProviders config contents) }

structure Gathering where
  removes : List NodeID := []
  upserts : List CanonicalNode := []
  bindings : GoMap NodeID Outbound := ∅
  inputLeafCount : Int
  currentByID : GoMap NodeID CanonicalNode
  updatedRevisions : List (String × Nat) := []

def comesFrom (providerTag tag : String) (node : CanonicalNode) : Bool :=
  node.metadata ≠ ∅ && (node.metadata.lookup "source").getD "" = providerTag && node.sourceKey = tag

def gatherRemove (providerTag tag : String) (g : Gathering) (node : CanonicalNode) : Gathering :=
  if comesFrom providerTag tag node && node.nodeID ∉ g.removes then
    { g with
      removes := g.removes ++ [node.nodeID]
      inputLeafCount := g.inputLeafCount - 1
      currentByID := g.currentByID.erase node.nodeID }
  else g

section

variable [NetworkNames] (hasher : IdentityHasher) (manager : List Outbound) (config : SourceRuntimeConfig)

def soleNode (generation : Nat) (providerTag : String) (candidate : Outbound) :
    Except SourceError (CanonicalNode × Option Outbound) :=
  match adapterSnapshot hasher manager generation [memberRoot providerTag candidate] with
  | .ok { nodes := [node], bindings, .. } => .ok (node, bindings.lookup node.nodeID)
  | _ => .error .canonicalizationFailed

def gatherUpsert (generation : Nat) (providerTag : String) (provider : Provider) (g : Gathering) (tag : String) :
    Except SourceError Gathering :=
  if !allowed config tag then .ok g
  else
    match provider.contents.outbound tag with
    | none => .error .objectIncomplete
    | some candidate =>
      if candidate.members.isSome then .error .groupDelta
      else
        match soleNode hasher manager generation providerTag candidate with
        | .error failure => .error failure
        | .ok (node, port) =>
          if (g.currentByID.lookup node.nodeID).any fun existing => existing.sourceKey ≠ tag then
            .error .identityCollision
          else
            .ok
              { g with
                currentByID := g.currentByID.insert node.nodeID node
                upserts := g.upserts ++ [node]
                bindings := insertPort g.bindings node.nodeID port
                inputLeafCount := g.inputLeafCount + 1 }

def gatherProvider (generation : Nat) (r : A48SourceRuntimeV1) (previous : SourcePublication) (g : Gathering)
    (providerTag : String) : Except SourceError Gathering :=
  match r.providers.lookup providerTag with
  | none => .error .noDeltaContract
  | some provider =>
    match outboundDelta provider ((r.providerRevisions.lookup providerTag).getD 0) with
    | none => .error .cursorExpired
    | some delta =>
      let g := (delta.removes ++ delta.upserts).foldl
        (fun g tag => previous.nodes.foldl (gatherRemove providerTag tag) g)
        { g with updatedRevisions := g.updatedRevisions ++ [(providerTag, delta.revision)] }
      delta.upserts.foldlM (gatherUpsert hasher manager config generation providerTag provider) g

def gather (generation : Nat) (r : A48SourceRuntimeV1) (previous : SourcePublication) (dirty : List String) :
    Except SourceError Gathering :=
  dirty.foldlM (gatherProvider hasher manager config generation r previous)
    { inputLeafCount := previous.inputLeafCount
      currentByID := previous.nodes.foldl (fun m node => m.insert node.nodeID node) ∅ }

def adoptRevision (r : A48SourceRuntimeV1) (updated : String × Nat) : A48SourceRuntimeV1 :=
  { r with
    providerRevisions := r.providerRevisions.insert updated.1 updated.2
    dirtyProviders :=
      if (r.providers.lookup updated.1).any fun provider => provider.deltaRevision = updated.2 then
        r.dirtyProviders.erase updated.1
      else r.dirtyProviders }

def delta (generation : Nat) (order : RangeOrder String) (r : A48SourceRuntimeV1) :
    Except SourceError (SourceDeltaPublication × A48SourceRuntimeV1) :=
  match r.lastPublication with
  | none => .error .baselineMissing
  | some previous =>
    if previous.duplicatesSuppressed ≠ 0 ∨ r.dirtyProviders.keys = [] then .error .fullSnapshotRequired
    else
      let dirty := order.visit r.dirtyProviders.keys
      match gather hasher manager config generation r previous dirty with
      | .error failure => .error failure
      | .ok g =>
        let delta : SourceDeltaPublication :=
          { generation := generation, upserts := g.upserts, removes := g.removes, bindings := g.bindings
            inputLeafCount := g.inputLeafCount, duplicatesSuppressed := 0 }
        match applySourceDelta previous delta with
        | .error failure => .error failure
        | .ok current =>
          .ok (delta, g.updatedRevisions.foldl adoptRevision { r with lastPublication := some current })

def snapshot (generation : Nat) (r : A48SourceRuntimeV1) :
    Except SourceError (SourcePublication × A48SourceRuntimeV1) :=
  match snapshotA48RuntimeV1 hasher manager config (outboundsOf r) generation with
  | .error failure => .error failure
  | .ok publication =>
    .ok (publication,
      { r with
        lastPublication := some publication
        providerRevisions := revisionsOf r.providers
        dirtyProviders := ∅ })

/-- A provider takes new outbounds over and calls the runtime back. -/
def update (r : A48SourceRuntimeV1) (providerTag : String) (contents : Contents) : A48SourceRuntimeV1 :=
  match r.providers.lookup providerTag with
  | none => r
  | some provider =>
    { r with
      providers := r.providers.insert providerTag (recordOutboundDelta provider contents)
      dirtyProviders := r.dirtyProviders.insert providerTag () }

end

end SingBox.SourceRuntime
