import Mathlib.Data.String.Basic
import SingBox.BreakerRecord
import SingBox.Maps

namespace SingBox.ProbeTasks

open List Values Maps BreakerRecord

structure ProbeKey where
  runtimeEpochID : Nat
  catalogRevision : Nat
  sourceGeneration : Nat
  nodeID : NodeID
  nodeSlot : Nat
  nodeVersion : Nat
  suite : String
  target : String
  deriving DecidableEq

/-- A zero field matches every probe. -/
structure ProbeRemoval where
  epochID : Nat := 0
  revision : Nat := 0
  nodeID : NodeID := 0
  nodeSlot : Nat := 0
  nodeVersion : Nat := 0
  deriving DecidableEq

def remove (nodeID : NodeID) : ProbeRemoval := { nodeID := nodeID }

def removeVersion (nodeID : NodeID) (nodeVersion : Nat) : ProbeRemoval :=
  { nodeID := nodeID, nodeVersion := nodeVersion }

def removeHandle (handle : NodeHandle) : ProbeRemoval :=
  { nodeID := handle.nodeID, nodeSlot := handle.slot, nodeVersion := handle.version }

def removeRevision (epochID revision : Nat) : ProbeRemoval := { epochID := epochID, revision := revision }

def probeRemovalMatches (removal : ProbeRemoval) (key : ProbeKey) : Bool :=
  (removal.epochID = 0 ∨ key.runtimeEpochID = removal.epochID) ∧
    (removal.revision = 0 ∨ key.catalogRevision = removal.revision) ∧
    (removal.nodeID = 0 ∨ key.nodeID = removal.nodeID) ∧
    (removal.nodeSlot = 0 ∨ key.nodeSlot = removal.nodeSlot) ∧
    (removal.nodeVersion = 0 ∨ key.nodeVersion = removal.nodeVersion)

structure ProbeResult where
  outcome : ObservationOutcome
  delay : Duration := 0
  reason : String
  settled : Bool := false
  deriving DecidableEq

/-- `ProbePriority`, a `uint8` that callers may set to any value. -/
abbrev ProbePriority := Nat

def probePriorityCoverage : ProbePriority := 1

def probePriorityService : ProbePriority := 2

def probePriorityOnDemand : ProbePriority := 3

def probePriorityRecovery : ProbePriority := 4

def maxHighPriorityBurst : Nat := 8

/-- Functions are known by a number here, as the scheduler only calls them. -/
structure ProbeTask where
  key : ProbeKey
  source : String
  priority : ProbePriority
  dueAt : Time
  submittedAt : Time
  interval : Duration
  failureInterval : Duration
  failureStreak : Nat := 0
  successStreak : Nat := 0
  timeout : Duration
  freshAfterCurrent : Bool := false
  run : Option Nat
  observe : Option Nat
  deriving DecidableEq

def minute : Duration := 60 * second

def nextPeriodicProbeInterval (task : ProbeTask) (result : ProbeResult) : Duration :=
  match result.outcome with
  | .failure => match task.failureStreak with
    | 0 => 30 * second
    | 1 => minute
    | _ => 5 * minute
  | .success => match task.successStreak with
    | 0 => 5 * minute
    | 1 => 15 * minute
    | _ => 30 * minute
  | _ => task.interval

def nextRound (task : ProbeTask) (result : ProbeResult) (now later : Time) : ProbeTask :=
  let periodic := match result.outcome with
    | .failure => { task with
        failureStreak := if task.failureStreak < 3 then task.failureStreak + 1 else task.failureStreak
        successStreak := 0 }
    | .success => { task with
        failureStreak := 0
        successStreak := if task.successStreak < 3 then task.successStreak + 1 else task.successStreak }
    | _ => task
  { periodic with dueAt := now + nextPeriodicProbeInterval task result, submittedAt := later }

def mergeProbeTask (existing next : ProbeTask) : ProbeTask :=
  { existing with
    dueAt := if next.dueAt < existing.dueAt then next.dueAt else existing.dueAt
    priority := if next.priority > existing.priority then next.priority else existing.priority
    source := if existing.source = "" then next.source else existing.source
    run := next.run
    observe := next.observe
    interval := if next.interval > 0 ∨ existing.interval ≤ 0 then next.interval else existing.interval
    failureInterval := if next.failureInterval > 0 ∨ existing.failureInterval ≤ 0 then next.failureInterval
      else existing.failureInterval
    timeout := if next.timeout > 0 then next.timeout else existing.timeout }

/-- A probe with the callers that wait for its result, known by their ids. The
address tells apart two probes made one after the other under one key. -/
structure ScheduledProbe where
  addr : Nat
  task : ProbeTask
  waiters : List Nat
  deriving DecidableEq

def compareProbeKey (left right : ProbeKey) : Ordering :=
  (compare left.nodeID.toNat right.nodeID.toNat).then <|
    (compare left.nodeSlot right.nodeSlot).then <|
      (compare left.nodeVersion right.nodeVersion).then <|
        (compare left.suite right.suite).then (compare left.target right.target)

def priorityOf (entry : ScheduledProbe) : ProbePriority :=
  if entry.task.priority = 0 then probePriorityCoverage else entry.task.priority

def sourceOf (entry : ScheduledProbe) : String :=
  if entry.task.source = "" then "default" else entry.task.source

structure Selection where
  lastSource : GoMap ProbePriority String
  highBurst : Nat
  forcedPriority : ProbePriority

def readyProbes (now : Time) (pending : GoMap ProbeKey ScheduledProbe) (order : RangeOrder ProbeKey) :
    List ScheduledProbe :=
  ((order.visit pending.keys).filterMap pending.lookup).filter fun entry => !(entry.task.dueAt > now)

def highestPriority (ready : List ScheduledProbe) : ProbePriority :=
  ready.foldl (fun highest entry => if priorityOf entry > highest then priorityOf entry else highest) 0

def readyAt (ready : List ScheduledProbe) (priority : ProbePriority) : List ScheduledProbe :=
  ready.filter fun entry => priorityOf entry = priority

def lowerPriorities (ready : List ScheduledProbe) (highest : ProbePriority) : List ProbePriority :=
  (List.range' probePriorityCoverage (highest - probePriorityCoverage)).filter fun priority =>
    readyAt ready priority ≠ []

def selectPriority (sel : Selection) (ready : List ScheduledProbe) : ProbePriority × ProbePriority :=
  let highest := highestPriority ready
  if sel.highBurst ≥ maxHighPriorityBurst then
    match lowerPriorities ready highest with
    | [] => (highest, sel.forcedPriority)
    | first :: rest =>
      let selected := ((first :: rest).find? (· > sel.forcedPriority)).getD first
      (selected, selected)
  else (highest, sel.forcedPriority)

def sortedSources (candidates : List ScheduledProbe) : List String :=
  (candidates.map sourceOf).dedup.insertionSort (· ≤ ·)

/-- The source after the one that was served last, in turn. -/
def selectSource (sources : List String) (previous : String) : String :=
  if previous = "" then sources.headD ""
  else match sources.idxOf? previous with
    | none => sources.headD ""
    | some index => sources.getD ((index + 1) % sources.length) ""

def submittedBefore (a b : ScheduledProbe) : Bool :=
  if a.task.submittedAt ≠ b.task.submittedAt then a.task.submittedAt < b.task.submittedAt
  else compareProbeKey a.task.key b.task.key = .lt

/-- The first entry of the sorted list. The sort leaves equal entries in any
order; here they stay in the order of the loop over the map, which is any too. -/
def firstSubmitted : List ScheduledProbe → Option ScheduledProbe
  | [] => none
  | entry :: rest => match firstSubmitted rest with
    | none => some entry
    | some first => if submittedBefore first entry then some first else some entry

def nextScheduledProbe (now : Time) (pending : GoMap ProbeKey ScheduledProbe) (sel : Selection)
    (order : RangeOrder ProbeKey) : Option (ScheduledProbe × Selection) :=
  let ready := readyProbes now pending order
  let highest := highestPriority ready
  if highest = 0 then none
  else
    let (selected, forced) := selectPriority sel ready
    let candidates := readyAt ready selected
    let source := selectSource (sortedSources candidates) ((sel.lastSource.lookup selected).getD "")
    (firstSubmitted (candidates.filter fun entry => sourceOf entry = source)).map fun entry => (entry,
      { lastSource := sel.lastSource.insert selected source
        highBurst := if selected ≠ highest then 0 else sel.highBurst + 1
        forcedPriority := forced })

variable {entry : ScheduledProbe}

theorem firstSubmitted_mem {entries} (h : firstSubmitted entries = some entry) : entry ∈ entries := by
  induction entries generalizing entry with
  | nil => cases h
  | cons first rest ih =>
    rw [firstSubmitted] at h
    split at h
    · cases h
      exact mem_cons_self
    rename_i found hf
    split at h
    · cases h
      exact mem_cons_of_mem _ (ih hf)
    · cases h
      exact mem_cons_self

theorem nextScheduledProbe_pending {now pending sel sel' order}
    (h : nextScheduledProbe now pending sel order = some (entry, sel')) :
    ∃ key, pending.lookup key = some entry := by
  rw [nextScheduledProbe] at h
  split at h
  · cases h
  obtain ⟨found, hf, heq⟩ := Option.map_eq_some_iff.mp h
  cases heq
  have hrdy := (mem_filter.mp (mem_filter.mp (firstSubmitted_mem hf)).1).1
  obtain ⟨key, _, hk⟩ := mem_filterMap.mp (mem_filter.mp hrdy).1
  exact ⟨key, hk⟩

@[simp] theorem nextRound_key (task result now later) : (nextRound task result now later).key = task.key := by
  rw [nextRound]
  split <;> rfl

end SingBox.ProbeTasks
