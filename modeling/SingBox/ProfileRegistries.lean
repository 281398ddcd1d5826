import SingBox.Maps
import SingBox.Runs

namespace SingBox.ProfileRegistries

open Maps Runs

/-- What a shared registry is found by: the manager, or without one the `Done`
channel of the context. -/
inductive Scope
  | manager (managerKey : Nat)
  | process (processKey : Nat)
  deriving DecidableEq

def scopeOf (managerKey : Nat) (processKey : Option Nat) : Option Scope :=
  if managerKey ≠ 0 then some (.manager managerKey) else processKey.map .process

/-- `closes` counts the calls of `close` on the registry. -/
structure Reference where
  scope : Scope
  refs : Nat
  processKeys : List Nat
  closes : Nat := 0
  deriving DecidableEq

/-- A call of `acquireGroupProfileRegistry` with its release function, whose
`sync.Once` is used up when it is `released`. -/
structure Acquirer where
  reference : Nat
  scope : Scope
  processKey : Option Nat
  released : Bool := false
  deriving DecidableEq

/-- A goroutine that waits for the end of a context. -/
structure Watcher where
  key : Nat
  reference : Nat
  done : Bool := false
  deriving DecidableEq

/-- `byScope` holds `byProcess` and `byManager`. The references, acquirers and
watchers are all ever made. `closing` are the references deleted by a caller
that has left the lock and not yet closed the registry. -/
structure Registries where
  byScope : GoMap Scope Nat := ∅
  references : List Reference := []
  acquirers : List Acquirer := []
  watchers : List Watcher := []
  ended : List Nat := []
  closing : List Nat := []

def addKey (r : Reference) (managed : Bool) (processKey : Option Nat) : Reference × Option Nat :=
  match processKey with
  | some key => if managed && !r.processKeys.contains key then
      ({ r with processKeys := key :: r.processKeys }, some key) else (r, none)
  | none => (r, none)

def watch (s : Registries) (reference : Nat) (watchKey : Option Nat) : Registries :=
  match watchKey with
  | some key => { s with watchers := s.watchers ++ [{ key := key, reference := reference }] }
  | none => s

/-- The registries and the reference whose registry is returned. A call with
neither a manager nor a `Done` channel gets a registry that is shared with nobody. -/
def acquire (s : Registries) (managerKey : Nat) (processKey : Option Nat) : Registries × Option Nat :=
  match scopeOf managerKey processKey with
  | none => (s, none)
  | some scope =>
    match (s.byScope.lookup scope).bind fun j => s.references[j]?.map fun r => (j, r) with
    | none =>
      let j := s.references.length
      let s := watch s j processKey
      ({ s with
          byScope := s.byScope.insert scope j
          references := s.references ++ [{ scope := scope, refs := 1, processKeys := processKey.toList }]
          acquirers := s.acquirers ++ [{ reference := j, scope := scope, processKey := processKey }] },
        some j)
    | some (j, r) =>
      let (r, watchKey) := addKey r (managerKey ≠ 0) processKey
      let s := watch s j watchKey
      ({ s with
          references := s.references.set j { r with refs := r.refs + 1 }
          acquirers := s.acquirers ++ [{ reference := j, scope := scope, processKey := processKey }] },
        some j)

/-- `deleteNodeProfileRegistryLocked`, when nothing keeps the registry alive. A
context watched for a reference without a manager is the one it is found by. -/
def settle (s : Registries) (j : Nat) : Registries :=
  match s.references[j]? with
  | none => s
  | some r =>
    if r.refs = 0 ∧ r.processKeys = [] ∧ s.byScope.lookup r.scope = some j then
      { s with byScope := s.byScope.erase r.scope, closing := j :: s.closing }
    else s

def release (s : Registries) (i : Nat) : Registries :=
  match s.acquirers[i]? with
  | none => s
  | some a =>
    if a.released then s
    else
      let s := { s with acquirers := s.acquirers.set i { a with released := true } }
      if s.byScope.lookup a.scope = some a.reference then
        settle { s with references := s.references.modify a.reference fun r => { r with refs := r.refs - 1 } }
          a.reference
      else s

/-- The rest of a watcher, once its context has ended. -/
def watcherDone (s : Registries) (w : Nat) : Registries :=
  match s.watchers[w]? with
  | none => s
  | some watcher =>
    if watcher.done ∨ watcher.key ∉ s.ended then s
    else
      settle
        { s with
          watchers := s.watchers.set w { watcher with done := true }
          references := s.references.modify watcher.reference fun r =>
            { r with processKeys := r.processKeys.filter (· ≠ watcher.key) } }
        watcher.reference

def close (s : Registries) (j : Nat) : Registries :=
  if j ∈ s.closing then
    { s with
      closing := s.closing.erase j
      references := s.references.modify j fun r => { r with closes := r.closes + 1 } }
  else s

inductive Op
  | acquire (managerKey : Nat) (processKey : Option Nat)
  | release (acquirer : Nat)
  | cancel (processKey : Nat)
  | watcherDone (watcher : Nat)
  | close (reference : Nat)
  deriving DecidableEq

def step (s : Registries) : Op → Registries
  | .acquire managerKey processKey => (acquire s managerKey processKey).1
  | .release i => release s i
  | .cancel processKey => { s with ended := processKey :: s.ended }
  | .watcherDone w => watcherDone s w
  | .close j => close s j

def after (ops : List Op) : Registries := run step {} ops

end SingBox.ProfileRegistries
