import SingBox.Races
import SingBox.Runs
import SingBox.Values

namespace SingBox.AttemptRunner

open Races Runs Values

structure Candidate where
  id : NodeID
  primaryTag : String
  deriving DecidableEq

structure DecisionPlan where
  candidates : List Candidate
  mode : PolicyMode
  disableHedge : Bool
  allowBlocked : Bool
  deriving DecidableEq

inductive DialError
  | breakerAttemptDeferred
  | begin (text : String)
  | executionBindingUnavailable
  | nilConnection
  | dial (text : String)
  | panicked (text : String)
  | context
  deriving DecidableEq

/-- What an attempt sends. The candidate is known by the attempt, and so is the
connection, as each attempt dials once. -/
inductive DialResult
  | connection
  | failure (err : DialError) (deferred : Bool)
  deriving DecidableEq

/-- How an attempt gave its permit back: by `ReleaseDeferred`, or by the call of
`complete` with the result, which is `ReleaseDeferred` where no `begin` is given. -/
inductive Settlement
  | released
  | completed (err : Option DialError) (deferred panicked : Bool)
  deriving DecidableEq

/-- How far the goroutine of an attempt is. `connected` stands before the first
look at the parent context, `cleared` and `failed` before the second one. -/
inductive Phase
  | starting
  | permitted
  | begun
  | executing
  | connected
  | cleared
  | failed (err : DialError)
  | passed (err : Option DialError)
  | sending (result : DialResult)
  deriving DecidableEq

structure Note where
  acquired : Nat := 0
  settlements : List Settlement := []
  connections : Nat := 0
  closed : Nat := 0
  deriving DecidableEq

/-- `Dial` is still in its loop, has left it with its result, or has returned.
`cancelAll` runs between the two. -/
inductive Status (ρ : Type)
  | looping
  | leaving (result : ρ)
  | returned (result : ρ)
  deriving DecidableEq

/-- The errors of the attempts come with the tags of their candidates. -/
inductive Returned
  | connection (attempt : Nat) (candidate : Candidate)
  | noEligibleCandidates
  | attemptErrors (errs : List (DialError × String))
  | callerContext (errs : List (DialError × String))
  deriving DecidableEq

structure Dial where
  board : Board Phase DialResult Note
  timer : Bool
  callerDone : Bool := false
  cancelled : Bool := false
  attemptErrors : List (DialError × String) := []
  status : Status Returned := .looping
  deriving DecidableEq

def hedges (plan : DecisionPlan) : Bool :=
  !plan.disableHedge && !plan.allowBlocked && plan.mode != .bulk && plan.mode != .strictAffinity &&
    decide (plan.candidates.length > 1)

def dial (plan : DecisionPlan) : Dial :=
  if plan.candidates.isEmpty then
    { board := .new 0 {}, timer := false, status := .returned .noEligibleCandidates }
  else { board := (Board.new plan.candidates.length {}).start .starting, timer := hedges plan }

inductive Resolved
  | loaded
  | unavailable
  | panicked (text : String)
  deriving DecidableEq

inductive Dialed
  | connection
  | nilConnection
  | error (text : String)
  | panicked (text : String)
  deriving DecidableEq

/-- The steps of the attempts, of the caller's context and of the loop, in any
order. `panics` is the text of a panic in `Close` or `RemoteAddr`. -/
inductive Event
  | cancelCaller
  | propagate
  | acquire (i : Nat) (allowed : Bool)
  | begin (i : Nat) (err : Option String)
  | resolve (i : Nat) (resolved : Resolved)
  | dialContext (i : Nat) (dialed : Dialed)
  | check (i : Nat) (panics : Option String)
  | recheck (i : Nat)
  | complete (i : Nat) (panics : Option String)
  | send (i : Nat)
  | fire
  | receive
  | contextDone
  | finish
  deriving DecidableEq

def settle (note : Note) (settlement : Settlement) : Note :=
  { note with settlements := note.settlements ++ [settlement] }

def sending (note : Note) (result : DialResult) : Entry Phase DialResult Note := ⟨.running (.sending result), note⟩

def recovered (note : Note) (text : String) : Entry Phase DialResult Note :=
  sending (settle note (.completed (some (.panicked text)) false true)) (.failure (.panicked text) false)

def acquire (note : Note) (allowed : Bool) : Entry Phase DialResult Note :=
  if allowed then ⟨.running .permitted, { note with acquired := note.acquired + 1 }⟩
  else sending note (.failure .breakerAttemptDeferred true)

def begin (note : Note) : Option String → Entry Phase DialResult Note
  | none => ⟨.running .begun, note⟩
  | some text => sending (settle note .released) (.failure (.begin text) true)

def resolve (note : Note) : Resolved → Entry Phase DialResult Note
  | .loaded => ⟨.running .executing, note⟩
  | .unavailable =>
    sending (settle note (.completed (some .executionBindingUnavailable) false false))
      (.failure .executionBindingUnavailable false)
  | .panicked text => recovered note text

def dialContext (note : Note) : Dialed → Entry Phase DialResult Note
  | .connection => ⟨.running .connected, { note with connections := note.connections + 1 }⟩
  | .nilConnection => ⟨.running (.failed .nilConnection), note⟩
  | .error text => ⟨.running (.failed (.dial text)), note⟩
  | .panicked text => recovered note text

/-- `if err == nil && parentCtx.Err() != nil`: the connection is closed, and
nothing is sent. -/
def check (cancelled : Bool) (note : Note) (panics : Option String) : Entry Phase DialResult Note :=
  if cancelled then
    let note := { note with closed := note.closed + 1 }
    match panics with
    | none => ⟨.silent, settle note (.completed (some .context) true false)⟩
    | some text => recovered note text
  else ⟨.running .cleared, note⟩

/-- `if parentCtx.Err() != nil`, with or without a connection. -/
def recheck (cancelled : Bool) (note : Note) (err : Option DialError) : Entry Phase DialResult Note :=
  if cancelled then
    sending (settle note (.completed (some .context) true false)) (.failure .context true)
  else ⟨.running (.passed err), note⟩

/-- `RemoteAddr` is asked of a connection only. -/
def complete (note : Note) (err : Option DialError) (panics : Option String) : Entry Phase DialResult Note :=
  match err, panics with
  | some err, _ => sending (settle note (.completed (some err) false false)) (.failure err false)
  | none, none => sending (settle note (.completed none false false)) .connection
  | none, some text => recovered note text

/-- One step of the goroutine of an attempt that changes no more than the attempt. -/
def advance (cancelled : Bool) (phase : Phase) (note : Note) : Event → Option (Entry Phase DialResult Note)
  | .acquire _ allowed => if phase = .starting then some (acquire note allowed) else none
  | .begin _ err => if phase = .permitted then some (begin note err) else none
  | .resolve _ resolved => if phase = .begun then some (resolve note resolved) else none
  | .dialContext _ dialed => if phase = .executing then some (dialContext note dialed) else none
  | .check _ panics => if phase = .connected then some (check cancelled note panics) else none
  | .recheck _ =>
    match phase with
    | .cleared => some (recheck cancelled note none)
    | .failed err => some (recheck cancelled note (some err))
    | _ => none
  | .complete _ panics =>
    match phase with
    | .passed err => some (complete note err panics)
    | _ => none
  | _ => none

def work (s : Dial) (i : Nat) (event : Event) : Dial :=
  match s.board.slots[i]? with
  | some ⟨.running phase, note⟩ =>
    match advance s.cancelled phase note event with
    | some e => { s with board := s.board.change i e }
    | none => s
  | _ => s

/-- A send waits while the buffer is full. -/
def send (s : Dial) (i : Nat) : Dial :=
  match s.board.slots[i]? with
  | some ⟨.running (.sending result), note⟩ =>
    if s.board.buffer.length < s.board.slots.length then { s with board := s.board.send i result note } else s
  | _ => s

/-- `for active > 0`. -/
def loop (s : Dial) : Dial :=
  if s.board.active > 0 then s
  else if s.attemptErrors.isEmpty then { s with status := .leaving .noEligibleCandidates }
  else { s with status := .leaving (.attemptErrors s.attemptErrors) }

def fire (s : Dial) : Dial :=
  if s.timer then
    let board := s.board.start .starting
    loop { s with board := board, timer := decide (board.started < board.slots.length) }
  else s

/-- A deferred result is reported as a deferral by the breaker, whatever its error is. -/
def receive (plan : DecisionPlan) (s : Dial) : Dial :=
  match s.board.take with
  | none => s
  | some (i, result, board) =>
    match plan.candidates[i]? with
    | none => s
    | some candidate =>
      match result with
      | .connection => { s with board := board, status := .leaving (.connection i candidate) }
      | .failure err deferred =>
        loop { s with
          board := board.start .starting
          attemptErrors := s.attemptErrors ++
            [(if deferred then .breakerAttemptDeferred else err, candidate.primaryTag)] }

def contextDone (s : Dial) : Dial :=
  if s.callerDone then { s with status := .leaving (.callerContext s.attemptErrors) } else s

def finish (s : Dial) : Dial :=
  match s.status with
  | .leaving result => { s with cancelled := true, status := .returned result }
  | _ => s

def step (plan : DecisionPlan) (s : Dial) : Event → Dial
  | .cancelCaller => { s with callerDone := true }
  | .propagate => if s.callerDone then { s with cancelled := true } else s
  | .acquire i allowed => work s i (.acquire i allowed)
  | .begin i err => work s i (.begin i err)
  | .resolve i resolved => work s i (.resolve i resolved)
  | .dialContext i dialed => work s i (.dialContext i dialed)
  | .check i panics => work s i (.check i panics)
  | .recheck i => work s i (.recheck i)
  | .complete i panics => work s i (.complete i panics)
  | .send i => send s i
  | .fire => if s.status = .looping then fire s else s
  | .receive => if s.status = .looping then receive plan s else s
  | .contextDone => if s.status = .looping then contextDone s else s
  | .finish => finish s

def after (plan : DecisionPlan) (events : List Event) : Dial := run (step plan) (dial plan) events

end SingBox.AttemptRunner
