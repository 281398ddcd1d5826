import SingBox.Maps
import SingBox.Runs
import SingBox.Values

namespace SingBox.ProfileProbes

open Maps Runs Values

def nodeProfileRegistryLimit : Nat := 8192

/-- The capacity of the channel `slots`. -/
def slotLimit : Nat := 4

def minute : Duration := 60 * second

def hour : Duration := 60 * minute

structure NodeProfileResult where
  delay : UInt16 := 0
  success : Bool := false
  completedAt : Time := 0
  nextProbeAt : Time := 0
  successes : UInt8 := 0
  failures : UInt8 := 0
  deferred : Bool := false
  deriving DecidableEq

structure NodeProfileEntry where
  result : NodeProfileResult := {}
  inflight : Bool := false
  done : Option Nat := none
  deriving DecidableEq

/-- A channel with the call that made it, for `active` or for the entry, and how
often it was closed. -/
structure Channel where
  maker : Nat
  endpoint : Bool
  closes : Nat := 0
  deriving DecidableEq

inductive ProbeError
  | failed
  | deferred
  | context
  deriving DecidableEq

structure Answer where
  delay : UInt16
  error : Option ProbeError
  fresh : Bool
  deriving DecidableEq

/-- How far a call of `runProbeModeInternal` is: before it looks at the contexts,
before it takes the lock, waiting for the probe of its key, about to read that
probe's result, waiting for the probe of its endpoint, at the select for a slot,
in one of the `Done` cases of that select, in `probe`, and behind it. A call
that had an entry of its own ends as `settled`. -/
inductive Phase
  | start
  | checked
  | joined (entry done : Nat)
  | released (entry : Nat)
  | queued (done : Nat)
  | admitted (entry : Nat)
  | abandoned (entry : Nat)
  | probing (entry : Nat)
  | probed (entry : Nat) (delay : UInt16) (ok : Bool)
  | settled (entry : Nat) (result : NodeProfileResult) (answer : Answer)
  | returned (answer : Answer)
  deriving DecidableEq

structure Call where
  key : String
  endpointKey : String
  force : Bool
  retryAfterInflight : Bool
  phase : Phase := .start
  deriving DecidableEq

/-- `cells` are all entries ever made, `entries` leads to those of the table.
`done` and `cancelled` are the contexts of the registry and of the calls that
have ended, and `panicked` is the end of a program that closes no channel. The
cells made before `dropped` were taken out of the table by `close`. -/
structure NodeProfileRegistry where
  entries : GoMap String Nat := ∅
  cells : List NodeProfileEntry := []
  active : GoMap String Nat := ∅
  channels : List Channel := []
  slots : Nat := 0
  done : Bool := false
  cancelled : List Nat := []
  calls : List Call := []
  closing : Bool := false
  closeOnce : Bool := false
  dropped : Nat := 0
  panicked : Bool := false

def nodeProfileCadence (success : Bool) (successes failures : UInt8) : Duration :=
  if success then
    if successes = 0 ∨ successes = 1 then 5 * minute
    else if successes = 2 then 15 * minute
    else 30 * minute
  else if failures = 0 ∨ failures = 1 then 30 * second
  else if failures = 2 then minute
  else 5 * minute

variable (r : NodeProfileRegistry) (i : Nat)

def inflight (entry : Nat) : Bool :=
  match r.cells[entry]? with
  | some cell => cell.inflight
  | none => false

def completedAt (entry : Nat) : Time :=
  match r.cells[entry]? with
  | some cell => cell.result.completedAt
  | none => 0

def pruneOld (now : Time) (entries : GoMap String Nat) (key : String) : GoMap String Nat :=
  match entries.lookup key with
  | some entry =>
    if !inflight r entry && sub now (completedAt r entry) > hour then entries.erase key else entries
  | none => entries

def olderKey (entries : GoMap String Nat) (oldest : String × Time) (key : String) : String × Time :=
  match entries.lookup key with
  | some entry =>
    if inflight r entry then oldest
    else if oldest.1 = "" ∨ completedAt r entry < oldest.2 then (key, completedAt r entry)
    else oldest
  | none => oldest

def oldestKey (entries : GoMap String Nat) (order : RangeOrder String) : String :=
  ((order.visit entries.keys).foldl (olderKey r entries) ("", 0)).1

/-- The second loop of `pruneLocked`. It deletes a key in every round, so as
many rounds as there are keys are enough. -/
def evict (r : NodeProfileRegistry) (orders : Nat → RangeOrder String) : Nat → GoMap String Nat → GoMap String Nat
  | 0, entries => entries
  | n + 1, entries =>
    if entries.keys.length < nodeProfileRegistryLimit then entries
    else if oldestKey r entries (orders n) = "" then entries
    else evict r orders n (entries.erase (oldestKey r entries (orders n)))

def pruneLocked (now : Time) (order : RangeOrder String)
    (orders : Nat → RangeOrder String) : NodeProfileRegistry :=
  let entries := (order.visit r.entries.keys).foldl (pruneOld r now) r.entries
  { r with entries := evict r orders entries.keys.length entries }

def recordPassive (key : String) (success : Bool) (failureTTL : Duration) (now : Time)
    (order : RangeOrder String) (orders : Nat → RangeOrder String) : NodeProfileRegistry :=
  if key = "" then r
  else
    let (r, entry) := match r.entries.lookup key with
      | some entry => (r, entry)
      | none =>
        ({ r with entries := r.entries.insert key r.cells.length, cells := r.cells ++ [({} : NodeProfileEntry)] },
          r.cells.length)
    if inflight r entry then r
    else if success then { r with entries := r.entries.erase key }
    else
      let failureTTL := if failureTTL ≤ 0 then 30 * second else failureTTL
      pruneLocked
        { r with
          cells := r.cells.modify entry fun cell =>
            { cell with
              result :=
                { completedAt := now, nextProbeAt := now + failureTTL
                  failures := min (cell.result.failures + 1) 3 } } }
        now order orders

def setPhase (phase : Phase) : NodeProfileRegistry :=
  { r with calls := r.calls.modify i fun call => { call with phase := phase } }

def ended : Bool := r.cancelled.contains i || r.done

def contextAnswer : Answer := { delay := 0, error := some .context, fresh := false }

def deferredAnswer : Answer := { delay := 0, error := some .deferred, fresh := false }

def failedAnswer (fresh : Bool) : Answer := { delay := 0, error := some .failed, fresh := fresh }

def check : NodeProfileRegistry :=
  match r.calls[i]? with
  | some { phase := .start, .. } => setPhase r i (if ended r i then .returned contextAnswer else .checked)
  | _ => r

def makeChannel (endpoint : Bool) : NodeProfileRegistry :=
  { r with channels := r.channels ++ [{ maker := i, endpoint := endpoint }] }

def closeChannel (channel : Option Nat) : NodeProfileRegistry :=
  match channel with
  | some c => { r with channels := r.channels.modify c fun channel => { channel with closes := channel.closes + 1 } }
  | none => { r with panicked := true }

def claimEndpoint (endpointKey : String) : NodeProfileRegistry :=
  if endpointKey = "" then r
  else { makeChannel r i true with active := r.active.insert endpointKey r.channels.length }

def dropEndpoint (endpointKey : String) : NodeProfileRegistry :=
  if endpointKey = "" then r
  else { closeChannel r (r.active.lookup endpointKey) with active := r.active.erase endpointKey }

def cachedAnswer (result : NodeProfileResult) : Answer :=
  if result.success then { delay := result.delay, error := none, fresh := false }
  else if result.deferred then deferredAnswer
  else failedAnswer false

def admitProbe (key : String) : NodeProfileRegistry :=
  setPhase
    { makeChannel r i false with
      cells := r.cells ++ [{ inflight := true, done := some r.channels.length }]
      entries := r.entries.insert key r.cells.length }
    i (.admitted r.cells.length)

/-- The first critical section, from the check for an active probe of the endpoint on. -/
def register (call : Call) (now : Time) (order : RangeOrder String)
    (orders : Nat → RangeOrder String) : NodeProfileRegistry :=
  match if call.endpointKey = "" then none else r.active.lookup call.endpointKey with
  | some done => setPhase r i (.queued done)
  | none =>
    let r := claimEndpoint r i call.endpointKey
    if r.entries.keys.length < nodeProfileRegistryLimit then admitProbe r i call.key
    else
      let r := pruneLocked r now order orders
      if r.entries.keys.length < nodeProfileRegistryLimit then admitProbe r i call.key
      else setPhase (dropEndpoint r call.endpointKey) i (.returned deferredAnswer)

def enter (now : Time) (order : RangeOrder String)
    (orders : Nat → RangeOrder String) : NodeProfileRegistry :=
  match r.calls[i]? with
  | none => r
  | some call =>
    if call.phase ≠ .checked then r
    else
      match (r.entries.lookup call.key).bind fun entry => r.cells[entry]?.map fun cell => (entry, cell) with
      | none => register r i call now order orders
      | some (entry, cell) =>
        if cell.inflight then
          match cell.done with
          | some done => setPhase r i (.joined entry done)
          | none => r
        else if !call.force && now < cell.result.nextProbeAt then
          setPhase r i (.returned (cachedAnswer cell.result))
        else register r i call now order orders

def closed (channel : Nat) : Bool :=
  match r.channels[channel]? with
  | some channel => channel.closes ≠ 0
  | none => false

def wake : NodeProfileRegistry :=
  match r.calls[i]? with
  | some { phase := .joined entry done, .. } => if closed r done then setPhase r i (.released entry) else r
  | some { phase := .queued done, .. } => if closed r done then setPhase r i .start else r
  | _ => r

def leave : NodeProfileRegistry :=
  if !ended r i then r
  else
    match r.calls[i]? with
    | some { phase := .joined .., .. } => setPhase r i (.returned contextAnswer)
    | some { phase := .queued .., .. } => setPhase r i (.returned contextAnswer)
    | some { phase := .admitted entry, .. } => setPhase r i (.abandoned entry)
    | _ => r

def joinedPhase (call : Call) (result : NodeProfileResult) : Phase :=
  if result.success then .returned { delay := result.delay, error := none, fresh := !result.deferred }
  else if result.deferred then .returned deferredAnswer
  else if call.force && call.retryAfterInflight then .start
  else .returned (failedAnswer true)

def read : NodeProfileRegistry :=
  match r.calls[i]? with
  | none => r
  | some call =>
    match call.phase with
    | .released entry =>
      match r.cells[entry]? with
      | some cell => setPhase r i (joinedPhase call cell.result)
      | none => r
    | _ => r

def takeSlot : NodeProfileRegistry :=
  match r.calls[i]? with
  | some { phase := .admitted entry, .. } =>
    if r.slots < slotLimit then { setPhase r i (.probing entry) with slots := r.slots + 1 } else r
  | _ => r

def probe (delay : UInt16) (ok : Bool) : NodeProfileRegistry :=
  match r.calls[i]? with
  | some { phase := .probing entry, .. } =>
    { setPhase r i (.probed entry delay ok) with slots := r.slots - 1 }
  | _ => r

/-- The end of each critical section that gives up an entry. -/
def settle (endpointKey : String) (entry : Nat) (result : NodeProfileResult)
    (answer : Answer) : NodeProfileRegistry :=
  match r.cells[entry]? with
  | none => r
  | some cell =>
    let r := { closeChannel r cell.done with
      cells := r.cells.set entry { cell with result := result, inflight := false, done := none } }
    setPhase (dropEndpoint r endpointKey) i (.settled entry result answer)

def abandon (completedAt nextProbeAt : Time) : NodeProfileRegistry :=
  match r.calls[i]? with
  | some { endpointKey := endpointKey, phase := .abandoned entry, .. } =>
    settle r i endpointKey entry { completedAt := completedAt, nextProbeAt := nextProbeAt, deferred := true }
      deferredAnswer
  | _ => r

def deferredResult (previous : NodeProfileResult) (completedAt : Time) : NodeProfileResult :=
  { previous with completedAt := completedAt, nextProbeAt := completedAt, deferred := true }

def probeResult (previous : NodeProfileResult) (delay : UInt16) (ok : Bool) (completedAt : Time) :
    NodeProfileResult :=
  let successes := if ok then min (previous.successes + 1) 3 else 0
  let failures := if ok then 0 else min (previous.failures + 1) 3
  { delay := delay, success := ok, completedAt := completedAt
    nextProbeAt := completedAt + nodeProfileCadence ok successes failures
    successes := successes, failures := failures }

def previousResult (entry : Nat) : NodeProfileResult :=
  match r.cells[entry]? with
  | some cell => cell.result
  | none => {}

def finish (completedAt : Time) : NodeProfileRegistry :=
  match r.calls[i]? with
  | some { endpointKey := endpointKey, phase := .probed entry delay ok, .. } =>
    if ended r i then
      settle r i endpointKey entry (deferredResult (previousResult r entry) completedAt) deferredAnswer
    else
      settle r i endpointKey entry (probeResult (previousResult r entry) delay ok completedAt)
        (if ok then { delay := delay, error := none, fresh := true } else failedAnswer true)
  | _ => r

def closeStart : NodeProfileRegistry :=
  if r.closeOnce then r else { r with closeOnce := true, closing := true, done := true }

def closeClear : NodeProfileRegistry :=
  if r.closing then { r with closing := false, entries := ∅, dropped := r.cells.length } else r

inductive Op
  | call (key endpointKey : String) (force retryAfterInflight : Bool)
  | cancel (i : Nat)
  | cancelParent
  | check (i : Nat)
  | enter (i : Nat) (now : Time) (order : RangeOrder String) (orders : Nat → RangeOrder String)
  | wake (i : Nat)
  | leave (i : Nat)
  | read (i : Nat)
  | takeSlot (i : Nat)
  | probe (i : Nat) (delay : UInt16) (ok : Bool)
  | abandon (i : Nat) (completedAt nextProbeAt : Time)
  | finish (i : Nat) (completedAt : Time)
  | recordPassive (key : String) (success : Bool) (failureTTL : Duration) (now : Time) (order : RangeOrder String)
      (orders : Nat → RangeOrder String)
  | closeStart
  | closeClear

def step : Op → NodeProfileRegistry
  | .call key endpointKey force retryAfterInflight =>
    { r with
      calls := r.calls ++
        [{ key := key, endpointKey := endpointKey, force := force, retryAfterInflight := retryAfterInflight }] }
  | .cancel i => { r with cancelled := i :: r.cancelled }
  | .cancelParent => { r with done := true }
  | .check i => check r i
  | .enter i now order orders => enter r i now order orders
  | .wake i => wake r i
  | .leave i => leave r i
  | .read i => read r i
  | .takeSlot i => takeSlot r i
  | .probe i delay ok => probe r i delay ok
  | .abandon i completedAt nextProbeAt => abandon r i completedAt nextProbeAt
  | .finish i completedAt => finish r i completedAt
  | .recordPassive key success failureTTL now order orders =>
    recordPassive r key success failureTTL now order orders
  | .closeStart => closeStart r
  | .closeClear => closeClear r

def after (ops : List Op) : NodeProfileRegistry := run step {} ops

end SingBox.ProfileProbes
