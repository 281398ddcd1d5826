import SingBox.Maps
import SingBox.Observations
import SingBox.OrderFree
import Mathlib.Data.Prod.Lex
import Mathlib.Data.String.Basic

namespace SingBox.ProbeVerdicts

open Values Maps BreakerRecord Observations

/-- `other` stands for the texts that the source has no name for. -/
inductive ProbeSuiteClass
  | endpointRecovery
  | serviceCapability
  | other
  deriving DecidableEq

inductive ProbeCapability
  | endpoint
  | tls
  | authHTTP
  | webWAF
  | http
  | http3
  | range
  | exitIdentity
  deriving DecidableEq

inductive ProbeSampleClass
  | success
  | blocked
  | nodeFailure
  | targetFault
  | deferred
  | other
  deriving DecidableEq

/-- `[16]byte`, read as one big-endian number. -/
abbrev ProbeTargetID := BitVec 128

structure ProbeTargetDescriptor where
  id : ProbeTargetID
  generation : Nat
  capability : ProbeCapability
  issuedAt : Time
  expiresAt : Time
  deriving DecidableEq

structure ProbeRunSpec where
  runID : Nat
  suite : ProbeSuiteClass
  runtimeEpochID : Nat
  catalogRevision : Nat
  sourceGeneration : Nat
  serviceID : String
  source : ObservationSource
  targetGeneration : Nat
  nodes : List NodeHandle
  targets : List ProbeTargetDescriptor
  quorum : Int
  commonModeMinNodes : Int
  deadline : Time
  deriving DecidableEq

structure ProbeSample where
  runID : Nat
  suite : ProbeSuiteClass
  runtimeEpochID : Nat
  catalogRevision : Nat
  sourceGeneration : Nat
  handle : NodeHandle
  targetID : ProbeTargetID
  targetGeneration : Nat
  serviceID : String
  capability : ProbeCapability
  sampleClass : ProbeSampleClass
  failure : FailureClass
  time : Time
  deriving DecidableEq

structure ProbeVerdict where
  runID : Nat
  suite : ProbeSuiteClass
  runtimeEpochID : Nat
  catalogRevision : Nat
  sourceGeneration : Nat
  handle : NodeHandle
  domain : FailureDomain
  serviceID : String
  source : ObservationSource
  outcome : ObservationOutcome
  failure : FailureClass := .none
  confidence : ObservationConfidence := .other
  breakerEligible : Bool := false
  authoritative : Bool := false
  support : Nat := 0
  deriving DecidableEq

structure ProbeCommonModeIncident where
  runID : Nat
  targetID : ProbeTargetID
  sampleClass : ProbeSampleClass
  nodes : Nat
  deriving DecidableEq

structure ProbeRunResult where
  runID : Nat
  verdicts : List ProbeVerdict
  incidents : List ProbeCommonModeIncident
  completed : Time
  deriving DecidableEq

abbrev SampleKey := NodeHandle × ProbeTargetID

def ProbeSample.key (s : ProbeSample) : SampleKey := (s.handle, s.targetID)

structure AggregateProbeRun where
  spec : ProbeRunSpec
  startedAt : Time
  nodes : GoMap NodeHandle Unit
  targets : GoMap ProbeTargetID ProbeTargetDescriptor
  samples : GoMap SampleKey ProbeSample
  deadlineID : Nat

structure RangeOrders where
  targets : RangeOrder ProbeTargetID
  samples : ProbeTargetID → RangeOrder SampleKey
  classes : ProbeTargetID → RangeOrder ProbeSampleClass
  excluded : RangeOrder ProbeTargetID
  nodes : RangeOrder NodeHandle
  nodeTargets : NodeHandle → RangeOrder ProbeTargetID
  failures : NodeHandle → RangeOrder FailureClass

variable (run : AggregateProbeRun) (orders : RangeOrders)

def commonMin : Int :=
  let floor := if run.spec.commonModeMinNodes ≤ 0 then 2 else run.spec.commonModeMinNodes
  let strictMajority : Int := (run.nodes.keys.length / 2 + 1 : Nat)
  if floor < strictMajority then strictMajority else floor

/-- The nodes that reported each failing class for one target. The loop ends
with `none` at a target fault. -/
def scanTarget (run : AggregateProbeRun) (targetID : ProbeTargetID) :
    List SampleKey → GoMap ProbeSampleClass (GoMap NodeHandle Unit) →
      Option (GoMap ProbeSampleClass (GoMap NodeHandle Unit))
  | [], classes => some classes
  | key :: keys, classes =>
    match run.samples.lookup key with
    | none => scanTarget run targetID keys classes
    | some sample =>
      if key.2 ≠ targetID ∨ sample.sampleClass = .success ∨ sample.sampleClass = .deferred then
        scanTarget run targetID keys classes
      else if sample.sampleClass = .targetFault then none
      else
        scanTarget run targetID keys (classes.insert sample.sampleClass
          (((classes.lookup sample.sampleClass).getD ∅).insert sample.handle ()))

def reporters (classes : GoMap ProbeSampleClass (GoMap NodeHandle Unit)) (c : ProbeSampleClass) : List NodeHandle :=
  ((classes.lookup c).getD ∅).keys

def incidentOf (targetID : ProbeTargetID) :
    Option ProbeCommonModeIncident :=
  match scanTarget run targetID ((orders.samples targetID).visit run.samples.keys) ∅ with
  | none => some ⟨run.spec.runID, targetID, .targetFault, 1⟩
  | some classes =>
    (((orders.classes targetID).visit classes.keys).find? fun c =>
        decide (commonMin run ≤ (reporters classes c).length)).map
      fun c => ⟨run.spec.runID, targetID, c, (reporters classes c).length⟩

def excludedTargets :
    GoMap ProbeTargetID ProbeCommonModeIncident :=
  (orders.targets.visit run.targets.keys).foldl
    (fun excluded targetID =>
      match incidentOf run orders targetID with
      | some incident => excluded.insert targetID incident
      | none => excluded)
    ∅

structure Tally where
  counts : GoMap ProbeSampleClass Nat := ∅
  failures : GoMap ProbeSampleClass (GoMap FailureClass Nat) := ∅

def bump {K : Type} [DecidableEq K] (m : GoMap K Nat) (k : K) : GoMap K Nat := m.insert k ((m.lookup k).getD 0 + 1)

def addSample (tally : Tally) (sample : ProbeSample) : Tally :=
  { counts := bump tally.counts sample.sampleClass
    failures :=
      if sample.failure ≠ .none then
        tally.failures.insert sample.sampleClass
          (bump ((tally.failures.lookup sample.sampleClass).getD ∅) sample.failure)
      else tally.failures }

def addTarget (excluded : GoMap ProbeTargetID ProbeCommonModeIncident) (node : NodeHandle)
    (tally : Tally) (targetID : ProbeTargetID) : Tally :=
  if (excluded.lookup targetID).isSome then tally
  else
    match run.samples.lookup (node, targetID) with
    | none => tally
    | some sample =>
      if sample.sampleClass = .deferred ∨ sample.sampleClass = .targetFault then tally else addSample tally sample

def weighFailure (counts : GoMap FailureClass Nat) (chosen : FailureClass × Int) (failure : FailureClass) :
    FailureClass × Int :=
  let count : Int := ((counts.lookup failure).getD 0 : Nat)
  if count > chosen.2 ∨ count = chosen.2 ∧ failure.text < chosen.1.text then (failure, count) else chosen

def majorityFailure (order : RangeOrder FailureClass) (counts : GoMap FailureClass Nat) : FailureClass :=
  ((order.visit counts.keys).foldl (weighFailure counts) (.protocol, -1)).1

def candidateClasses (suite : ProbeSuiteClass) : List ProbeSampleClass :=
  if suite = .endpointRecovery then [.success, .nodeFailure] else [.success, .blocked, .nodeFailure]

/-- The classes that reach the quorum; the verdict takes the last of them. -/
def winners (tally : Tally) : List ProbeSampleClass :=
  (candidateClasses run.spec.suite).filter fun c =>
    decide (run.spec.quorum ≤ (((tally.counts.lookup c).getD 0 : Nat) : Int))

def verdictOf
    (excluded : GoMap ProbeTargetID ProbeCommonModeIncident) (node : NodeHandle) : ProbeVerdict :=
  let tally := ((orders.nodeTargets node).visit run.targets.keys).foldl (addTarget run excluded node) {}
  let verdict : ProbeVerdict :=
    { runID := run.spec.runID
      suite := run.spec.suite
      runtimeEpochID := run.spec.runtimeEpochID
      catalogRevision := run.spec.catalogRevision
      sourceGeneration := run.spec.sourceGeneration
      handle := node
      domain := if run.spec.suite = .endpointRecovery then .endpoint else .service
      serviceID := run.spec.serviceID
      source := run.spec.source
      outcome := .deferred }
  match winners run tally with
  | [winning] =>
    let verdict := { verdict with
      authoritative := true
      confidence := .authoritative
      breakerEligible := true
      support := (tally.counts.lookup winning).getD 0 }
    match winning with
    | .success => { verdict with outcome := .success }
    | .blocked => { verdict with outcome := .blocked, failure := .httpBlock }
    | .nodeFailure =>
      { verdict with
        outcome := .failure
        failure := majorityFailure (orders.failures node) ((tally.failures.lookup .nodeFailure).getD ∅) }
    | _ => verdict
  | _ => verdict

/-- The order of the verdicts leaves `BornRevision` out. -/
def verdictBefore (a b : ProbeVerdict) : Bool :=
  if a.handle.nodeID ≠ b.handle.nodeID then decide (a.handle.nodeID < b.handle.nodeID)
  else if a.handle.slot ≠ b.handle.slot then decide (a.handle.slot < b.handle.slot)
  else decide (a.handle.version < b.handle.version)

def aggregateProbeVerdicts (now : Time) : ProbeRunResult :=
  let excluded := excludedTargets run orders
  { runID := run.spec.runID
    verdicts := ((orders.nodes.visit run.nodes.keys).map (verdictOf run orders excluded)).insertionSort
      fun a b => verdictBefore b a = false
    incidents := ((orders.excluded.visit excluded.keys).filterMap excluded.lookup).insertionSort
      fun a b => a.targetID ≤ b.targetID
    completed := now }

end SingBox.ProbeVerdicts
