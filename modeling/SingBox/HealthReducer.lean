import SingBox.Arena
import SingBox.BreakerRuns
import SingBox.Observations

namespace SingBox.HealthReducer

open Arena Values Maps BreakerRecord HealthTransport HealthLedger BreakerRuns Observations

/-- The permit is named by its place among those that were handed out. -/
structure AttemptPermitSettlement where
  permit : Option Nat
  deriving DecidableEq

/-- How a call into foreign code ends. -/
inductive Reply
  | returned (err : Option String)
  | panicked (text : String)

/-- `store` says whether there is one, and `beforeReduce` is what the hook does, if there is one. -/
structure HealthObservationReducer where
  store : Bool
  settlement : Option AttemptPermitSettlement
  beforeReduce : Option Reply

/-- A critical section of the health store. It reads the clock when its turn comes. -/
abbrev Section := Time → Op

def healthObservationForDomain (e : ObservationEvidence) (domain : DomainEvidence) : Observation :=
  let path := if e.networkPath = "" then e.transport else e.networkPath
  { nodeID := e.handle.nodeID
    nodeSlot := e.handle.slot
    nodeVersion := e.handle.version
    scope := domain.domain
    outcome := domain.outcome
    delay := e.delay
    time := e.time
    reason := e.reason
    transport :=
      if domain.domain = .transport then
        if normalizeHealthTransportPath path ≠ "" then normalizeHealthTransportPath path else path
      else ""
    service := if domain.domain = .service then e.serviceID else "" }

def observeSection (e : ObservationEvidence) (domain : DomainEvidence) (eligible : Bool) : Section :=
  fun clock => .observe (healthObservationForDomain e domain) eligible domain.weight clock

def completeSection (settlement : AttemptPermitSettlement) (outcomes : GoMap FailureDomain ObservationOutcome)
    (e : ObservationEvidence) : List Section :=
  match settlement.permit with
  | none => []
  | some permit =>
    [fun clock =>
      .complete permit (fun domain => outcomes.lookup domain) (if isZero e.time then clock else e.time) e.delay
        e.reason]

def releaseDeferred (settlement : AttemptPermitSettlement) : List Section :=
  match settlement.permit with
  | none => []
  | some permit => [fun _ => .release permit]

def identityMatches (e : ObservationEvidence) (domain : DomainEvidence) : Bool :=
  domain.handle == e.handle && domain.runtimeEpochID == e.runtimeEpochID &&
    domain.catalogRevision == e.catalogRevision && domain.sourceGeneration == e.sourceGeneration &&
    domain.attemptID == e.attemptID

def outcomesOf (domains : List DomainEvidence) : GoMap FailureDomain ObservationOutcome :=
  domains.foldl (fun outcomes domain =>
    if domain.breakerEligible then outcomes.insert domain.domain domain.outcome else outcomes) ∅

/-- The critical sections that `Reduce` goes through, and its error. -/
def reduce (r : HealthObservationReducer) (e : ObservationEvidence) (domains : List DomainEvidence) :
    List Section × Option String :=
  if r.store = false then ([], some "health observation reducer has no store")
  else
    match r.beforeReduce.getD (.returned none) with
    | .panicked text => ([], some ("adaptive health observation reducer panic: " ++ text))
    | .returned (some err) => ([], some err)
    | .returned none =>
      if !domains.all (identityMatches e) then ([], some "health observation domain identity mismatch")
      else
        let quality := (domains.filter fun domain => !domain.breakerEligible).map fun domain =>
          observeSection e domain false
        match r.settlement with
        | some settlement =>
          if (outcomesOf domains).keys = [] then (quality ++ releaseDeferred settlement, none)
          else (quality ++ completeSection settlement (outcomesOf domains) e, none)
        | none =>
          (quality ++ (domains.filter fun domain => domain.breakerEligible).map fun domain =>
            observeSection e domain true, none)

def Ends (permit : Nat) (sec : Section) : Prop :=
  ∀ clock, sec clock = .release permit ∨
    ∃ outcomes time delay reason, sec clock = .complete permit outcomes time delay reason

theorem ends_of_reduce {r e domains permit} (hset : r.settlement = some ⟨some permit⟩) (hok : (reduce r e domains).2 = none) :
    ∃ sec ∈ (reduce r e domains).1, Ends permit sec := by
  rw [reduce] at hok ⊢
  split at hok
  · cases hok
  rename_i hstore
  rw [if_neg hstore]
  split at hok
  · cases hok
  · cases hok
  split at hok
  · cases hok
  rename_i hiden
  rw [if_neg hiden, hset]
  dsimp only
  split
  · exact ⟨_, List.mem_append_right _ List.mem_cons_self, fun clock => .inl rfl⟩
  · exact ⟨_, List.mem_append_right _ List.mem_cons_self, fun clock => .inr ⟨_, _, _, _, rfl⟩⟩

theorem permit_step {w} {i : Nat} {q : AttemptPermit} (hq : w.permits[i]? = some q) (op) :
    ∃ q', (step w op).permits[i]? = some q' ∧ q'.entries = q.entries ∧ (q.completed = true → q'.completed = true) := by
  have hiss : ∀ kind result, ∃ q', (issue w kind result).permits[i]? = some q' ∧ q'.entries = q.entries ∧
      (q.completed = true → q'.completed = true) := by
    intro kind result
    rw [issue]
    split
    · exact ⟨q, hq, rfl, id⟩
    · exact ⟨q, append_of hq, rfl, id⟩
  have hfin : ∀ j effect, ∃ q', (finish w j effect).permits[i]? = some q' ∧ q'.entries = q.entries ∧
      (q.completed = true → q'.completed = true) := by
    intro j effect
    rw [finish]
    split
    · exact ⟨q, hq, rfl, id⟩
    rename_i p hp
    split
    · exact ⟨q, hq, rfl, id⟩
    rcases eq_or_ne j i with rfl | hne
    · obtain rfl := Option.mem_unique hp hq
      exact ⟨_, set_self hq, rfl, fun _ => rfl⟩
    · exact ⟨q, (List.getElem?_set_ne hne).trans hq, rfl, id⟩
  cases op with
  | dial | domain | fallback => exact hiss ..
  | complete | release => exact hfin ..
  | observe | canAttempt | retire => exact ⟨q, hq, rfl, id⟩

end SingBox.HealthReducer
