import SingBox.Maps
import SingBox.Races
import SingBox.Runs

namespace SingBox.SmartDial

open Maps Races Runs

inductive CircuitState
  | unknown
  | healthy
  | warming
  | suspect
  | halfOpen
  | circuitOpen
  deriving DecidableEq

structure SmartRank where
  tag : String
  identity : String
  dialIdentity : String
  eligible : Bool
  state : CircuitState
  deriving DecidableEq

/-- `releases` counts how often the reservation of the attempt was released. -/
structure SmartDialAttempt where
  rankIndex : Nat
  attemptIndex : Nat
  candidate : String
  reserved : Bool
  releases : Nat := 0
  deriving DecidableEq

inductive Dialed
  | connection
  | failure (text : String)
  deriving DecidableEq

/-- How far the goroutine of an attempt is: in `DialContext`, before the release
of its reservation, before its look at the parent context, before its send. -/
inductive Phase
  | dialing
  | dialed (dialed : Dialed)
  | released (dialed : Dialed)
  | sending (dialed : Dialed)
  deriving DecidableEq

structure Note where
  connections : Nat := 0
  closed : Nat := 0
  deriving DecidableEq

/-- The errors of the attempts come with the tags of their candidates. -/
inductive Returned
  | connection (attempt : Nat)
  | noAttempts
  | attemptErrors (errs : List (String × String))
  | callerContext (errs : List (String × String))
  deriving DecidableEq

/-- `cleaning` stands at an attempt in the deferred loop over those not started. -/
inductive Progress
  | collecting (rankIndex : Nat) (seen : List String)
  | looping
  | won (attempt : Nat)
  | cleaning (result : Returned) (index : Nat)
  | returned (result : Returned)
  deriving DecidableEq

structure Request where
  ranks : List SmartRank
  networkKey : String
  siteKey : String
  transport : String
  maxAttempts : Int
  progress : Progress := .collecting 0 []
  attempts : List SmartDialAttempt := []
  board : Board Phase Dialed Note := { slots := [] }
  hedge : Bool := false
  callerDone : Bool := false
  cancelled : Bool := false
  attemptErrors : List (String × String) := []
  deriving DecidableEq

abbrev HalfOpen := GoMap String Unit

def halfOpenKey (candidate networkKey siteKey transport : String) : String :=
  networkKey ++ "\x00" ++ siteKey ++ "\x00" ++ candidate ++ "\x00" ++ transport

variable (halfOpen : HalfOpen) (r : Request)

def reserveHalfOpen (rank : SmartRank) (networkKey siteKey transport : String) : HalfOpen × Bool :=
  if rank.state ≠ .halfOpen then (halfOpen, false)
  else
    let key := halfOpenKey rank.tag networkKey siteKey transport
    match halfOpen.lookup key with
    | some _ => (halfOpen, false)
    | none => (halfOpen.insert key (), true)

def releaseHalfOpen (candidate networkKey siteKey transport : String) : HalfOpen :=
  halfOpen.erase (halfOpenKey candidate networkKey siteKey transport)

def dialIdentity (rank : SmartRank) : String :=
  if rank.dialIdentity ≠ "" then rank.dialIdentity
  else if rank.identity ≠ "" then rank.identity
  else rank.tag

def attemptLimit (maxAttempts : Int) : Int := if maxAttempts ≤ 0 then 3 else maxAttempts

/-- `smartHedgeDelay` is zero exactly if one attempt is allowed. -/
def resetHedge : Request :=
  { r with
    hedge := decide (r.board.started < r.board.slots.length ∧ r.board.active ≠ 0 ∧ r.maxAttempts > 1) }

def startAttempt : Request := { r with board := r.board.start .dialing }

/-- The end of `collectDialAttempts`. Without an attempt the request is answered at once. -/
def dialContextAdaptive : Request :=
  if r.attempts.isEmpty then { r with progress := .returned .noAttempts }
  else resetHedge (startAttempt { r with board := .new r.attempts.length {}, progress := .looping })

def collect : HalfOpen × Request :=
  match r.progress with
  | .collecting rankIndex seen =>
    if (r.attempts.length : Int) ≥ attemptLimit r.maxAttempts then (halfOpen, dialContextAdaptive r)
    else match r.ranks[rankIndex]? with
      | none => (halfOpen, dialContextAdaptive r)
      | some rank =>
        if !rank.eligible || rank.state = .circuitOpen then
          (halfOpen, { r with progress := .collecting (rankIndex + 1) seen })
        else if dialIdentity rank ∈ seen then
          (halfOpen, { r with progress := .collecting (rankIndex + 1) seen })
        else
          let (halfOpen, reserved) := reserveHalfOpen halfOpen rank r.networkKey r.siteKey r.transport
          let r := { r with progress := .collecting (rankIndex + 1) (dialIdentity rank :: seen) }
          if rank.state = .halfOpen ∧ !reserved then (halfOpen, r)
          else
            (halfOpen, { r with
              attempts := r.attempts ++
                [{ rankIndex := rankIndex, attemptIndex := r.attempts.length, candidate := rank.tag,
                   reserved := reserved }] })
  | _ => (halfOpen, r)

def release (i : Nat) : HalfOpen × Request :=
  match r.attempts[i]? with
  | none => (halfOpen, r)
  | some attempt =>
    if attempt.reserved then
      (releaseHalfOpen halfOpen attempt.candidate r.networkKey r.siteKey r.transport,
        { r with attempts := r.attempts.set i { attempt with releases := attempt.releases + 1 } })
    else (halfOpen, r)

inductive Event
  | collect
  | cancelCaller
  | propagate
  | dialContext (i : Nat) (dialed : Dialed)
  | release (i : Nat)
  | check (i : Nat)
  | send (i : Nat)
  | fire
  | receive
  | contextDone
  | cancelAll
  | cleanup
  deriving DecidableEq

def dialContext (i : Nat) (dialed : Dialed) : Request :=
  match r.board.slots[i]? with
  | some ⟨.running .dialing, note⟩ =>
    let note := if dialed = .connection then { note with connections := note.connections + 1 } else note
    { r with board := r.board.change i ⟨.running (.dialed dialed), note⟩ }
  | _ => r

def releaseAttempt (i : Nat) : HalfOpen × Request :=
  match r.board.slots[i]? with
  | some ⟨.running (.dialed dialed), note⟩ =>
    release halfOpen { r with board := r.board.change i ⟨.running (.released dialed), note⟩ } i
  | _ => (halfOpen, r)

/-- `if err == nil && parentCtx.Err() != nil`: the connection is closed, and
nothing is sent. -/
def check (i : Nat) : Request :=
  match r.board.slots[i]? with
  | some ⟨.running (.released dialed), note⟩ =>
    if dialed = .connection ∧ r.cancelled then
      { r with board := r.board.change i ⟨.silent, { note with closed := note.closed + 1 }⟩ }
    else { r with board := r.board.change i ⟨.running (.sending dialed), note⟩ }
  | _ => r

/-- A send waits while the buffer is full. -/
def send (i : Nat) : Request :=
  match r.board.slots[i]? with
  | some ⟨.running (.sending dialed), note⟩ =>
    if r.board.buffer.length < r.board.slots.length then { r with board := r.board.send i dialed note } else r
  | _ => r

/-- The deferred functions start with the first attempt that was not started. -/
def leave (result : Returned) : Request :=
  { r with progress := .cleaning result r.board.started }

def loop : Request :=
  if r.board.active > 0 then r else leave r (.attemptErrors r.attemptErrors)

def fire : Request :=
  if r.hedge then loop (resetHedge (startAttempt r)) else r

def closeTaken (board : Board Phase Dialed Note) (i : Nat) : Board Phase Dialed Note :=
  match board.slots[i]? with
  | some e => board.change i { e with note := { e.note with closed := e.note.closed + 1 } }
  | none => board

/-- The caller's context is looked at before the result is. -/
def receive : Request :=
  match r.board.take with
  | none => r
  | some (i, dialed, board) =>
    if r.callerDone then
      let board := if dialed = .connection then closeTaken board i else board
      leave { r with board := board } (.callerContext r.attemptErrors)
    else match dialed with
      | .connection => { r with board := board, progress := .won i }
      | .failure text =>
        let candidate := (r.attempts[i]?.map fun attempt => attempt.candidate).getD ""
        loop (resetHedge (startAttempt
          { r with board := board, attemptErrors := r.attemptErrors ++ [(text, candidate)] }))

def contextDone : Request :=
  if r.callerDone then leave r (.callerContext r.attemptErrors) else r

def cancelAll : Request :=
  match r.progress with
  | .won i => leave { r with cancelled := true } (.connection i)
  | _ => r

/-- One round of the deferred loop, or the deferred `cancelAll` and the return. -/
def cleanup : HalfOpen × Request :=
  match r.progress with
  | .cleaning result index =>
    if index < r.attempts.length then release halfOpen { r with progress := .cleaning result (index + 1) } index
    else (halfOpen, { r with cancelled := true, progress := .returned result })
  | _ => (halfOpen, r)

def requestStep : Event → HalfOpen × Request
  | .collect => collect halfOpen r
  | .cancelCaller => (halfOpen, { r with callerDone := true })
  | .propagate => (halfOpen, if r.callerDone then { r with cancelled := true } else r)
  | .dialContext i dialed => (halfOpen, dialContext r i dialed)
  | .release i => releaseAttempt halfOpen r i
  | .check i => (halfOpen, check r i)
  | .send i => (halfOpen, send r i)
  | .fire => (halfOpen, if r.progress = .looping then fire r else r)
  | .receive => (halfOpen, if r.progress = .looping then receive r else r)
  | .contextDone => (halfOpen, if r.progress = .looping then contextDone r else r)
  | .cancelAll => (halfOpen, cancelAll r)
  | .cleanup => cleanup halfOpen r

/-- `ListenPacket` holds one reservation at a time, while the outbound listens. -/
structure Listen where
  key : String
  holding : Bool
  deriving DecidableEq

structure Smart where
  halfOpen : HalfOpen := ∅
  requests : List Request := []
  listens : List Listen := []

inductive Op
  | request (ranks : List SmartRank) (networkKey siteKey transport : String) (maxAttempts : Int)
  | at (q : Nat) (event : Event)
  | listen (rank : SmartRank) (networkKey siteKey transport : String)
  | listened (p : Nat)
  deriving DecidableEq

def listen (s : Smart) (rank : SmartRank) (networkKey siteKey transport : String) : Smart :=
  let (halfOpen, reserved) := reserveHalfOpen s.halfOpen rank networkKey siteKey transport
  if reserved then
    { s with halfOpen := halfOpen, listens := s.listens ++ [⟨halfOpenKey rank.tag networkKey siteKey transport, true⟩] }
  else s

def listened (s : Smart) (p : Nat) : Smart :=
  match s.listens[p]? with
  | some ⟨key, true⟩ => { s with halfOpen := s.halfOpen.erase key, listens := s.listens.set p ⟨key, false⟩ }
  | _ => s

def step (s : Smart) : Op → Smart
  | .request ranks networkKey siteKey transport maxAttempts =>
    { s with requests := s.requests ++
        [{ ranks := ranks, networkKey := networkKey, siteKey := siteKey, transport := transport,
           maxAttempts := maxAttempts }] }
  | .at q event =>
    match s.requests[q]? with
    | none => s
    | some r =>
      let (halfOpen, r) := requestStep s.halfOpen r event
      { s with halfOpen := halfOpen, requests := s.requests.set q r }
  | .listen rank networkKey siteKey transport => listen s rank networkKey siteKey transport
  | .listened p => listened s p

def after (ops : List Op) : Smart := run step {} ops

end SingBox.SmartDial
