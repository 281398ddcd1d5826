import SingBox.Arena
import SingBox.HealthReducer
import SingBox.Ingestion

namespace SingBox.Publications

open Values Observations HealthReducer Ingestion

/-- `custom` is any other reducer, with the error that it is going to return. -/
inductive Reducer
  | missing
  | health (reducer : HealthObservationReducer)
  | custom (err : Option String)

/-- `guard` is what the guard in force says of the evidence, if there is one. -/
inductive Call
  | publishGuarded (evidence : ObservationEvidence) (guard : Option Bool) (reducer : Reducer)
  | publishSettledObservationGuarded (evidence : ObservationEvidence) (guard : Option Bool)
      (reducer : Option HealthObservationReducer)

namespace Call

def evidence : Call → ObservationEvidence
  | publishGuarded e _ _ | publishSettledObservationGuarded e _ _ => e

def guard : Call → Option Bool
  | publishGuarded _ guard _ | publishSettledObservationGuarded _ guard _ => guard

def reducer : Call → Reducer
  | publishGuarded _ _ reducer => reducer
  | publishSettledObservationGuarded _ _ (some reducer) => .health reducer
  | publishSettledObservationGuarded _ _ none => .missing

def settlement : Call → Option AttemptPermitSettlement
  | publishSettledObservationGuarded _ _ (some reducer) => reducer.settlement
  | _ => none

def permit (c : Call) : Option Nat := c.settlement.bind (·.permit)

end Call

/-- A call is between two of these points when another one gets the processor:
before and after it has read the clock, once it has its reservation, between the
sections of its reducer, when the reducer is done, and when the ingestor is. -/
inductive Phase
  | called
  | clocked (domains : List DomainEvidence) (now : Time)
  | reserved (domains : List DomainEvidence) (records : List ObservationDedupRecord)
  | reducing (records : List ObservationDedupRecord) (began : Time) (sections : List Section) (err : Option String)
  | reduced (records : List ObservationDedupRecord) (err : Option String)
  | published (disposition : Option IngestDisposition) (err : Option String)
  | returned (disposition : Option IngestDisposition) (err : Option String)

structure Publication where
  call : Call
  phase : Phase

structure Reduction where
  owner : Nat
  key : ObservationDedupKey
  began : Time
  ended : Time
  deriving DecidableEq

/-- `reductions`, from the last to the first, and `evicted`, the owners of the
records that were evicted by capacity, are a history that nothing reads. -/
structure System where
  clock : Time
  ingestor : ObservationIngestor
  health : BreakerRuns.World
  publications : List Publication
  reductions : List Reduction
  evicted : List Nat

def start (clock : Time) (ttl : Duration) (maxEntries : Int) (health : BreakerRuns.World) : System :=
  ⟨clock, newObservationIngestor ttl maxEntries, health, [], [], []⟩

inductive Event
  | pass (d : Nat)
  | call (c : Call)
  | move (t : Nat)
  | health (op : BreakerRuns.Op)

def System.put (s : System) (t : Nat) (phase : Phase) : System :=
  { s with publications := s.publications.modify t fun p => { p with phase := phase } }

def perform (s : System) (sec : Section) : System := { s with health := BreakerRuns.step s.health (sec s.clock) }

def sectionsOf (c : Call) (domains : List DomainEvidence) : List Section × Option String :=
  match c.reducer with
  | .missing => ([], some "observation ingestor has no reducer")
  | .custom err => ([], err)
  | .health reducer => reduce reducer c.evidence domains

/-- `PublishSettledObservationGuarded` has to release what was not reduced. -/
def unsettled (c : Call) (disposition : Option IngestDisposition) (err : Option String) : Bool :=
  err.isSome || disposition != some .accepted || c.evidence.outcome == .deferred

def afterRelease (s : System) (c : Call) (disposition : Option IngestDisposition) (err : Option String) : System :=
  match c.settlement with
  | none => s
  | some settlement => if unsettled c disposition err then (releaseDeferred settlement).foldl perform s else s

def moveOn (s : System) (t : Nat) (p : Publication) : System :=
  match p.phase with
  | .called =>
    match checkObservation p.call.evidence p.call.guard with
    | .error (disposition, err) => s.put t (.published disposition err)
    | .ok domains => s.put t (.clocked domains s.clock)
  | .clocked domains now =>
    let res := reserveMapped s.ingestor now t p.call.evidence domains
    let s := { s with ingestor := res.ingestor, evicted := res.evicted.map ObservationDedupRecord.owner ++ s.evicted }
    if res.disposition = .accepted then s.put t (.reserved domains res.records)
    else s.put t (.published (some res.disposition) none)
  | .reserved domains records =>
    s.put t (.reducing records s.clock (sectionsOf p.call domains).1 (sectionsOf p.call domains).2)
  | .reducing records began (sec :: sections) err => (perform s sec).put t (.reducing records began sections err)
  | .reducing records began [] err =>
    let s := s.put t (.reduced records err)
    if err.isNone then
      { s with reductions := records.map (fun record => ⟨t, record.key, began, s.clock⟩) ++ s.reductions }
    else s
  | .reduced records (some err) =>
    { s with ingestor := abort s.ingestor records }.put t (.published none (some err))
  | .reduced records none =>
    let committed := commit s.ingestor s.clock records
    { s with ingestor := committed.1 }.put t
      (.published (if committed.2.isNone then some .accepted else none) committed.2)
  | .published disposition err => (afterRelease s p.call disposition err).put t (.returned disposition err)
  | .returned _ _ => s

def Call.entry : Call → Phase
  | .publishSettledObservationGuarded _ _ none => .returned none (some "settled observation pipeline is incomplete")
  | _ => .called

def Known (s : System) (c : Call) : Prop := ∀ permit ∈ c.permit, permit < s.health.permits.length

instance (s : System) (c : Call) : Decidable (Known s c) := Option.decidableForallMem _

/-- A call cannot have a permit that was not handed out. -/
def step (s : System) : Event → System
  | .pass d => { s with clock := s.clock + d }
  | .call c => if Known s c then { s with publications := s.publications ++ [⟨c, c.entry⟩] } else s
  | .move t =>
    match s.publications[t]? with
    | none => s
    | some p => moveOn s t p
  | .health op => { s with health := BreakerRuns.step s.health op }

end SingBox.Publications
