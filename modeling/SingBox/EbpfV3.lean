import SingBox.EbpfLifecycle

namespace SingBox.EbpfV3

open Maps Values EbpfAbi EbpfMemory EbpfLifecycle

inductive Syscall
  | commit
  | restoreControl
  | bankDelete (p : Prefix)
  | bankWrite (p : Prefix)
  | rollbackDelete (p : Prefix)
  | rollbackWrite (p : Prefix)
  | dynamicDelete (p : Prefix)
  deriving DecidableEq

/-- Which system calls of an operation fail. -/
structure Surroundings where
  fails : Syscall → Bool := fun _ => false

/-- `kernel` is the record in the control map. A row of a bank is known by its generation, as all are DIRECT. -/
structure V3Backend where
  control : Control
  kernel : Control
  policy : Fin 2 → GoMap Prefix Nat := fun _ => ∅
  lastStatic : Fin 2 → List Prefix := fun _ => []
  dynamicDirects : GoMap Prefix Nat := ∅

def prepared (control : Control) : V3Backend where
  control := control
  kernel := control

def writeControl (w : Surroundings) (call : Syscall) (enabled : Bool) (b : V3Backend) : Bool × V3Backend :=
  if w.fails call then (false, b)
  else (true, { b with kernel := { b.control with enabled := enabled }, control := { b.control with enabled := enabled } })

def normalizePrefixSnapshot (ps : List Prefix) : List Prefix := distinct (ps.filterMap canonicalPrefix)

def removeStale (w : Surroundings) (next : List Prefix) : List Prefix → GoMap Prefix Nat → Bool × GoMap Prefix Nat
  | [], rows => (true, rows)
  | p :: ps, rows =>
    if p ∈ next then removeStale w next ps rows
    else if w.fails (.bankDelete p) then (false, rows)
    else removeStale w next ps (rows.erase p)

def writeRows (w : Surroundings) (generation : Nat) :
    List Prefix → List Prefix → GoMap Prefix Nat → Bool × List Prefix × GoMap Prefix Nat
  | [], written, rows => (true, written, rows)
  | p :: ps, written, rows =>
    if w.fails (.bankWrite p) then (false, written, rows)
    else writeRows w generation ps (written ++ [p]) (rows.insert p generation)

def rollbackV3StaticBank (w : Surroundings) (previous written : List Prefix) (generation : Nat)
    (rows : GoMap Prefix Nat) : GoMap Prefix Nat :=
  previous.foldl (fun rows p => if w.fails (.rollbackWrite p) then rows else rows.insert p generation)
    (written.foldl (fun rows p => if p ∈ previous ∨ w.fails (.rollbackDelete p) then rows else rows.erase p) rows)

def setBank (b : V3Backend) (bank : Fin 2) (rows : GoMap Prefix Nat) : V3Backend :=
  { b with policy := Function.update b.policy bank rows }

/-- `PublishStaticDirect` up to its commit. An error comes with the backend that is left. -/
def commitStaticDirect (w : Surroundings) (prefixes : List Prefix) (generation : Nat) (b : V3Backend) :
    Except V3Backend V3Backend :=
  let generation := if generation = 0 then nextGeneration b.control.policyGeneration else generation
  let inactive := other b.control.activeBank
  let next := normalizePrefixSnapshot prefixes
  let previous := b.lastStatic inactive
  let undo := rollbackV3StaticBank w previous
  if exceedsPolicyLPM next then .error b
  else
    let removed := removeStale w next previous (b.policy inactive)
    if !removed.1 then .error (setBank b inactive (undo [] b.control.policyGeneration removed.2))
    else
      let written := writeRows w generation next [] removed.2
      if !written.1 then .error (setBank b inactive (undo written.2.1 b.control.policyGeneration written.2.2))
      else
        let committed := writeControl w .commit b.control.enabled
          { setBank b inactive written.2.2 with
            control := { b.control with activeBank := inactive, policyGeneration := generation } }
        if committed.1 then .ok { committed.2 with lastStatic := Function.update b.lastStatic inactive next }
        else .error (writeControl w .restoreControl b.control.enabled
          (setBank b inactive (undo written.2.1 b.control.policyGeneration written.2.2))).2

def clearDynamicDirect (w : Surroundings) (b : V3Backend) : Bool × V3Backend :=
  if b.dynamicDirects.keys.any fun p => w.fails (.dynamicDelete p) then (false, b)
  else (true, { b with dynamicDirects := ∅ })

def publishStaticDirect (w : Surroundings) (prefixes : List Prefix) (generation : Nat) (b : V3Backend) :
    Bool × V3Backend :=
  match commitStaticDirect w prefixes generation b with
  | .error b => (false, b)
  | .ok b => clearDynamicDirect w b

end SingBox.EbpfV3
