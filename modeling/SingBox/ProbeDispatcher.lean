import SingBox.ProbeTasks
import SingBox.Runs

namespace SingBox.ProbeDispatcher

open Values Maps Runs ProbeTasks

inductive ProbeSubmitStatus
  | accepted
  | coalesced
  | deferred
  deriving DecidableEq

inductive ChanEvent
  | send (result : ProbeResult)
  | close
  deriving DecidableEq

inductive Place
  | pending
  | active
  | rerun
  deriving DecidableEq

/-- All that was done to the result channels of waiters and to observers. The
channel of a waiter is made for its id. -/
structure Outputs where
  log : List (Nat × ChanEvent)
  observed : List (ProbeTask × ProbeResult)

/-- The locals of `runDispatcher` with the requests that callers hold out to it,
the jobs the workers have, what it gave out, and its replies to the callers. -/
structure Dispatcher where
  waiterID : Nat
  requests : GoMap Nat ProbeTask
  probes : Place → GoMap ProbeKey ScheduledProbe
  selection : Selection
  ownerReady : Bool
  dispatch : Option (ProbeKey × Nat)
  jobs : List ProbeTask
  allocated : Nat
  out : Outputs
  answers : List (Nat × ProbeSubmitStatus)
  stopped : Bool

def newDispatcher (owned : Bool) : Dispatcher :=
  ⟨0, ∅, fun _ => ∅, ⟨∅, 0, 0⟩, !owned, none, [], 0, ⟨[], []⟩, [], false⟩

def effectiveQueueSize (queueSize : Int) : Nat := if queueSize ≤ 0 then 4096 else queueSize.toNat

structure Orders where
  probes : RangeOrder ProbeKey
  waiters : RangeOrder Nat

def errProbeQueueFull : String := "adaptive probe queue is full"

def errProbeSchedulerOwner : String := "adaptive probe scheduler is not active owner"

def submitTask (task : ProbeTask) (owned : Bool) (now later : Time) : Except String ProbeTask :=
  if task.run = none then .error "adaptive probe task has no runner"
  else if !owned then .error errProbeSchedulerOwner
  else .ok { task with
    dueAt := if isZero task.dueAt then now else task.dueAt
    submittedAt := if isZero task.submittedAt then later else task.submittedAt
    timeout := if task.timeout ≤ 0 then 5 * second else task.timeout
    priority := if task.priority = 0 then probePriorityCoverage else task.priority }

variable (s : Dispatcher) (place : Place) (key : ProbeKey)

def setProbes (probes : GoMap ProbeKey ScheduledProbe) : Dispatcher :=
  { s with probes := fun p => if p = place then probes else s.probes p }

def put (entry : ScheduledProbe) : Dispatcher :=
  setProbes s place ((s.probes place).insert key entry)

def drop : Dispatcher :=
  setProbes s place ((s.probes place).erase key)

def schedule (task : ProbeTask) (waiters : List Nat) : Dispatcher :=
  { put s place task.key ⟨s.allocated, task, waiters⟩ with allocated := s.allocated + 1 }

def queueLength : Nat := (s.probes .pending).keys.length + (s.probes .rerun).keys.length

def answer (out : Outputs) (waiter : Nat) (result : ProbeResult) : Outputs :=
  { out with log := out.log ++ [(waiter, .send result), (waiter, .close)] }

def finish (order : RangeOrder Nat) (out : Outputs) (entry : ScheduledProbe) (result : ProbeResult) : Outputs :=
  let out := (order.visit entry.waiters).foldl (fun out waiter => answer out waiter result) out
  match entry.task.observe with
  | none => out
  | some _ => { out with observed := out.observed ++ [(entry.task, result)] }

def takeOut (order : RangeOrder Nat) (place : Place) (result : ProbeResult) (s : Dispatcher) (key : ProbeKey) :
    Dispatcher :=
  match (s.probes place).lookup key with
  | none => s
  | some entry => { drop s place key with out := finish order s.out entry result }

def deferred (reason : String) : ProbeResult := { outcome := .deferred, reason := reason }

def deferWaiter (waiter : Nat) (reason : String) : Dispatcher :=
  { s with out := answer s.out waiter (deferred reason) }

def join (entry : ScheduledProbe) (task : ProbeTask) (waiter : Nat) : Dispatcher :=
  put s place key { entry with task := task, waiters := entry.waiters.insert waiter }

def acceptSubmission (queueSize : Nat) (s : Dispatcher) (task : ProbeTask) (waiter : Nat) :
    Dispatcher × ProbeSubmitStatus :=
  match (s.probes .pending).lookup task.key with
  | some existing => (join s .pending task.key existing (mergeProbeTask existing.task task) waiter, .coalesced)
  | none => match (s.probes .active).lookup task.key with
    | some running =>
      if !task.freshAfterCurrent then (join s .active task.key running running.task waiter, .coalesced)
      else match (s.probes .rerun).lookup task.key with
        | some existing => (join s .rerun task.key existing (mergeProbeTask existing.task task) waiter, .coalesced)
        | none =>
          if queueLength s ≥ queueSize then (deferWaiter s waiter errProbeQueueFull, .deferred)
          else (schedule s .rerun task [waiter], .coalesced)
    | none =>
      if queueLength s ≥ queueSize then (deferWaiter s waiter errProbeQueueFull, .deferred)
      else (schedule s .pending task [waiter], .accepted)

/-- Takes a waiter off a probe. A probe that nobody waits for and that is not
periodic is deleted, unless it runs. -/
def cancelAt (entry : ScheduledProbe) (waiter : Nat) : Dispatcher :=
  if waiter ∈ entry.waiters then
    let s := { s with out := answer s.out waiter (deferred "context canceled") }
    let rest := { entry with waiters := entry.waiters.erase waiter }
    if rest.waiters = [] ∧ entry.task.interval ≤ 0 ∧ place ≠ .active then drop s place key
    else put s place key rest
  else s

def cancelProbeWaiter (waiter : Nat) : Dispatcher :=
  match (s.probes .pending).lookup key with
  | some entry => cancelAt s .pending key entry waiter
  | none => match (s.probes .rerun).lookup key with
    | some entry => cancelAt s .rerun key entry waiter
    | none => match (s.probes .active).lookup key with
      | some running => cancelAt s .active key running waiter
      | none => s

def removeProbe (order : RangeOrder Nat) (removal : ProbeRemoval) (place : Place) (s : Dispatcher)
    (key : ProbeKey) : Dispatcher :=
  if probeRemovalMatches removal key then takeOut order place (deferred "probe identity retired") s key else s

/-- Running probes are cancelled only through their contexts. -/
def removeProbes (orders : Orders) (removal : ProbeRemoval) (s : Dispatcher) : Dispatcher :=
  let s := run (removeProbe orders.waiters removal .pending) s (orders.probes.visit (s.probes .pending).keys)
  run (removeProbe orders.waiters removal .rerun) s (orders.probes.visit (s.probes .rerun).keys)

/-- The probe selected for a worker is given up once it is not pending. -/
def releaseDispatch : Dispatcher :=
  match s.dispatch with
  | none => s
  | some (key, _) => match (s.probes .pending).lookup key with
    | none => { s with dispatch := none }
    | some _ => s

/-- A worker takes the job. The selected probe is the pending one of its key,
so that the other case does not occur. -/
def handOff : Dispatcher :=
  match s.dispatch with
  | none => s
  | some (key, addr) => match (s.probes .pending).lookup key with
    | none => s
    | some entry =>
      if entry.addr ≠ addr then s
      else { put (drop s .pending key) .active key entry with dispatch := none, jobs := s.jobs ++ [entry.task] }

/-- The probe that follows on a complete one: the one that waits for a rerun,
or the next round of a periodic one. -/
def followUp (addr : Nat) (task : ProbeTask) (result : ProbeResult) (now later : Time)
    (next : Option ScheduledProbe) : Option ScheduledProbe :=
  if task.interval > 0 then
    let periodic := nextRound task result now later
    match next with
    | none => some ⟨addr, periodic, []⟩
    | some next =>
      if next.task.interval ≤ 0 then some { next with task := { next.task with
        interval := periodic.interval
        failureInterval := periodic.failureInterval } }
      else some next
  else next

def settle (order : RangeOrder Nat) (s : Dispatcher) (i : Nat) (task : ProbeTask) (result : ProbeResult) :
    Dispatcher :=
  drop (takeOut order .active result { s with jobs := s.jobs.eraseIdx i } task.key) .rerun task.key

def complete (queueSize : Nat) (order : RangeOrder Nat) (s : Dispatcher) (i : Nat) (result : ProbeResult)
    (now later : Time) : Dispatcher :=
  match s.jobs[i]? with
  | none => s
  | some task => match (s.probes .active).lookup task.key with
    | none => { s with jobs := s.jobs.eraseIdx i }
    | some _ => match followUp s.allocated task result now later ((s.probes .rerun).lookup task.key) with
      | none => settle order s i task result
      | some next =>
        let s := { settle order s i task result with allocated := s.allocated + 1 }
        if queueLength s < queueSize then put s .pending next.task.key next
        else { s with out := finish order s.out next (deferred errProbeQueueFull) }

def takeOutAll (orders : Orders) (result : ProbeResult) (s : Dispatcher) (place : Place) : Dispatcher :=
  run (takeOut orders.waiters place result) s (orders.probes.visit (s.probes place).keys)

def stop (orders : Orders) (s : Dispatcher) : Dispatcher :=
  { run (takeOutAll orders (deferred "scheduler stopped")) s [.pending, .rerun, .active] with
    dispatch := none, jobs := [], stopped := true }

/-- The branches of the select statement; `idle` stands for the timers. -/
inductive Branch
  | idle
  | ownerReady
  | submit (waiter : Nat)
  | cancel (key : ProbeKey) (waiter : Nat)
  | remove (removal : ProbeRemoval) (orders : Orders)
  | handOff
  | complete (job : Nat) (result : ProbeResult) (now later : Time) (order : RangeOrder Nat)
  | stop (orders : Orders)

def submit (queueSize : Nat) (s : Dispatcher) (waiter : Nat) : Dispatcher :=
  match s.requests.lookup waiter with
  | none => s
  | some task =>
    let (s, status) := acceptSubmission queueSize { s with requests := s.requests.erase waiter } task waiter
    { s with answers := s.answers ++ [(waiter, status)] }

def branch (queueSize : Nat) (s : Dispatcher) : Branch → Dispatcher
  | .idle => s
  | .ownerReady => { s with ownerReady := true }
  | .submit waiter => submit queueSize s waiter
  | .cancel key waiter => releaseDispatch (cancelProbeWaiter s key waiter)
  | .remove removal orders => releaseDispatch (removeProbes orders removal s)
  | .handOff => handOff s
  | .complete job result now later order => complete queueSize order s job result now later
  | .stop orders => stop orders s

def select (now : Time) (order : RangeOrder ProbeKey) : Dispatcher :=
  if s.dispatch = none ∧ s.ownerReady = true then
    match nextScheduledProbe now (s.probes .pending) s.selection order with
    | none => s
    | some (entry, selection) => { s with dispatch := some (entry.task.key, entry.addr), selection := selection }
  else s

/-- A call of `Submit` up to its request, or one round of the dispatcher. -/
inductive Event
  | call (task : ProbeTask) (owned : Bool) (now later : Time)
  | round (now : Time) (order : RangeOrder ProbeKey) (branch : Branch)

def step (queueSize : Nat) (s : Dispatcher) : Event → Dispatcher
  | .call task owned now later => match submitTask task owned now later with
    | .error _ => s
    | .ok task => { s with waiterID := s.waiterID + 1, requests := s.requests.insert (s.waiterID + 1) task }
  | .round now order taken => if s.stopped then s else branch queueSize (select s now order) taken

def after (queueSize : Int) (owned : Bool) (events : List Event) : Dispatcher :=
  run (step (effectiveQueueSize queueSize)) (newDispatcher owned) events

end SingBox.ProbeDispatcher
