import SingBox.EbpfAbi

namespace SingBox.EbpfMemory

open Maps Values EbpfAbi

structure DNSHintTable where
  entries : GoMap Addr DNSIPValue := ∅
  nextPruneNs : Nat := 0

def maxDNSHintEntries : Nat := 8192

def dnsHintPruneIntervalNs : Nat := 30 * 1000000000

def evidenceRank (e : UInt8) : Nat :=
  if e = dnsEvidenceFakeIP then 3 else if e = dnsEvidenceStrong then 2 else if e = dnsEvidenceWeak then 1 else 0

/-- `refs++` on a counter that stops at its greatest value. -/
def bump (refs : Nat) : Nat := if refs = 2 ^ 32 - 1 then refs else refs + 1

def outdated (nowNs : Nat) (v : DNSIPValue) : Bool := v.expiresNs ≠ 0 && decide (v.expiresNs ≤ nowNs)

def pruneExpired (t : DNSHintTable) (nowNs : Nat) : DNSHintTable :=
  { t with entries := dropIf (outdated nowNs) t.entries }

def olderHint (entries : GoMap Addr DNSIPValue) (oldest : Option (Addr × Nat)) (key : Addr) : Option (Addr × Nat) :=
  match entries.lookup key, oldest with
  | none, _ => oldest
  | some v, none => some (key, v.lastSeenNs)
  | some v, some (_, least) => if v.lastSeenNs < least then some (key, v.lastSeenNs) else oldest

def evictOldest (order : RangeOrder Addr) (t : DNSHintTable) : DNSHintTable :=
  match (order.visit t.entries.keys).foldl (olderHint t.entries) none with
  | none => t
  | some (key, _) => { t with entries := t.entries.erase key }

def prunedFor (t : DNSHintTable) (nowNs : Nat) : DNSHintTable :=
  if nowNs ≠ 0 ∧ (t.nextPruneNs = 0 ∨ t.nextPruneNs ≤ nowNs) then
    { pruneExpired t nowNs with nextPruneNs := (nowNs + dnsHintPruneIntervalNs) % 2 ^ 64 }
  else t

/-- The row that an observation counts in: the one found or, for a new epoch, a fresh one. -/
def epochRow (found : Option DNSIPValue) (evidence : UInt8) (policyID : UInt32) (generation nowNs : Nat) : DNSIPValue :=
  match found with
  | none => { policyID := policyID, generation := generation, evidence := evidence }
  | some cur =>
    if cur.generation ≠ generation ∨ cur.expiresNs ≠ 0 ∧ nowNs ≠ 0 ∧ cur.expiresNs ≤ nowNs then
      { policyID := policyID, generation := generation, evidence := evidence }
    else cur

def countRefs (direct : Bool) (cur : DNSIPValue) : DNSIPValue :=
  if direct then { cur with directRefs := bump cur.directRefs } else { cur with proxyRefs := bump cur.proxyRefs }

def strengthen (evidence : UInt8) (cur : DNSIPValue) : DNSIPValue :=
  let cur := if evidenceRank cur.evidence < evidenceRank evidence ∧ cur.proxyRefs = 0 then
    { cur with evidence := evidence } else cur
  if 0 < cur.proxyRefs ∧ 0 < cur.directRefs then { cur with evidence := dnsEvidenceWeak } else cur

def observe (order : RangeOrder Addr) (t : DNSHintTable) (key : Addr) (direct : Bool) (evidence : UInt8)
    (policyID : UInt32) (generation expiresNs nowNs : Nat) : DNSHintTable :=
  let t := prunedFor t nowNs
  let found := t.entries.lookup key
  let t := if found.isNone && decide (maxDNSHintEntries ≤ t.entries.keys.length) then evictOldest order t else t
  let cur := strengthen evidence (countRefs direct (epochRow found evidence policyID generation nowNs))
  let cur := { cur with
    expiresNs := expiresNs, lastSeenNs := nowNs, policyID := policyID, generation := generation }
  { t with entries := t.entries.insert key cur }

def dropGenerations (t : DNSHintTable) (generation : Nat) : DNSHintTable :=
  { entries := dropIf (fun v => decide (v.generation ≠ generation)) t.entries, nextPruneNs := 0 }

structure BankPublisher where
  active : Fin 2 := 0
  generation : Nat := 1
  compiling : Bool := false
  deriving DecidableEq

def other (bank : Fin 2) : Fin 2 := 1 - bank

def beginCompile (p : BankPublisher) : Option (Fin 2 × BankPublisher) :=
  if p.compiling then none else some (other p.active, { p with compiling := true })

def abortCompile (p : BankPublisher) : BankPublisher := { p with compiling := false }

def syncGeneration (p : BankPublisher) (generation : Nat) : BankPublisher :=
  if generation = 0 then p
  else if p.generation ≠ 0 ∧ generation < p.generation then p
  else { p with generation := generation }

def commit (p : BankPublisher) : BankPublisher :=
  { active := other p.active, generation := nextGeneration p.generation, compiling := false }

inductive Family
  | inet
  | inet6
  deriving DecidableEq

def Prefix.family : Prefix → Option Family
  | .invalid => none
  | .v4 _ _ => some .inet
  | .v6 _ _ => some .inet6

structure CompiledPolicy where
  destination : Prefix
  value : PolicyValue
  deriving DecidableEq

/-- The rows of both families are in one map, for their keys tell them apart. -/
structure MemoryBackend where
  control : Control
  policy : Fin 2 → GoMap Prefix PolicyValue
  dns : DNSHintTable
  macPolicies : GoMap MACKey MACPolicyValue
  dynamicDirects : Family → GoMap Prefix Time
  publisher : BankPublisher

def newMemoryBackend : MemoryBackend where
  control :=
    { enabled := true
      flags := flagIPv4 ||| flagIPv6 ||| flagTCP ||| flagUDP ||| flagSocketAssign ||| flagStaticPolicy |||
        flagExactFlow ||| flagDNSHint ||| flagFakeIP ||| flagFailureProxy
      activeBank := 0
      policyGeneration := 1 }
  policy := fun _ => ∅
  dns := {}
  macPolicies := ∅
  dynamicDirects := fun _ => ∅
  publisher := {}

structure PreparedStatic where
  inactive : Fin 2
  policy : GoMap Prefix PolicyValue

def compileBank (generation : Nat) : List CompiledPolicy → GoMap Prefix PolicyValue → Option (GoMap Prefix PolicyValue)
  | [], rows => some rows
  | p :: policies, rows =>
    match canonicalPrefix p.destination with
    | none => none
    | some key => compileBank generation policies (rows.insert key { p.value with generation := generation })

def countFamily (rows : List Prefix) (is4 : Bool) : Nat := (rows.filter fun p => p.is4 == is4).length

def exceedsPolicyLPM (rows : List Prefix) : Bool :=
  decide (defaultPolicyLPM < countFamily rows true) || decide (defaultPolicyLPM < countFamily rows false)

variable (b : MemoryBackend)

def prepareStatic (policies : List CompiledPolicy) : Option (PreparedStatic × MemoryBackend) :=
  match beginCompile b.publisher with
  | none => none
  | some (inactive, publisher) =>
    match compileBank (nextGeneration b.publisher.generation) policies ∅ with
    | none => none
    | some rows =>
      if exceedsPolicyLPM rows.keys then none else some (⟨inactive, rows⟩, { b with publisher := publisher })

theorem prepareStatic_eq {b b' policies prepared} (h : prepareStatic b policies = some (prepared, b')) :
    b' = { b with publisher := { b.publisher with compiling := true } } := by
  rw [prepareStatic, beginCompile] at h
  split at h
  · cases h
  rename_i hbeg
  split at hbeg
  · cases hbeg
  obtain ⟨-, rfl⟩ := Prod.mk.inj (Option.some.inj hbeg)
  split at h
  · cases h
  split at h
  · cases h
  obtain ⟨-, rfl⟩ := Prod.mk.inj (Option.some.inj h)
  rfl

def abortPreparedStatic : MemoryBackend := { b with publisher := abortCompile b.publisher }

/-- `invalidateGenerationMaps`: what was learned for another generation is dropped. -/
def invalidateGeneration (generation : Nat) : MemoryBackend :=
  if generation = 0 then b
  else { b with dns := dropGenerations b.dns generation, dynamicDirects := fun _ => ∅, macPolicies := ∅ }

def commitPreparedStatic (prepared : PreparedStatic) : MemoryBackend :=
  let publisher := commit b.publisher
  invalidateGeneration
    { b with
      policy := Function.update b.policy prepared.inactive prepared.policy
      publisher := publisher
      control := { b.control with activeBank := publisher.active, policyGeneration := publisher.generation } }
    publisher.generation

def defaultDynamicTTL : Duration := 300 * second

def validateDynamicDirect (p : Prefix) (now : Time) : Option Prefix :=
  match canonicalPrefix p with
  | none => none
  | some canonical =>
    match Prefix.family canonical with
    | none => none
    | some family =>
      let entries := b.dynamicDirects family
      if (entries.lookup canonical).any fun expiry => decide (now < expiry) then some canonical
      else if defaultDynamicDirect ≤ (entries.entries.filter fun row => decide (now < row.2)).length then none
      else some canonical

/-- `MergeDynamicDirect`: the clock is read once for the expiry and once for the purge. -/
def mergeDynamicDirect (p : Prefix) (ttl : Duration) (started now : Time) : Option MemoryBackend :=
  let ttl := if ttl ≤ 0 then defaultDynamicTTL else ttl
  match canonicalPrefix p with
  | none => none
  | some canonical =>
    match Prefix.family canonical with
    | none => none
    | some family =>
      let entries := dropIf (fun expiry => decide (expiry ≤ now)) (b.dynamicDirects family)
      let merged := { b with
        dynamicDirects := Function.update b.dynamicDirects family (entries.insert canonical (started + ttl)) }
      if (entries.lookup canonical).any fun expiry => decide (now < expiry) then some merged
      else if defaultDynamicDirect ≤ entries.keys.length then none
      else some merged

def deleteMergedStaticDirect (p : Prefix) : Option MemoryBackend :=
  match canonicalPrefix p with
  | none => none
  | some canonical =>
    match Prefix.family canonical with
    | none => none
    | some family =>
      some { b with
        dynamicDirects := Function.update b.dynamicDirects family ((b.dynamicDirects family).erase canonical) }

def macSnapshot (generation : Nat) (entries : List MACPolicyEntry) : GoMap MACKey MACPolicyValue :=
  (entries.filter fun entry => entry.key ≠ zeroMACKey).foldl
    (fun snapshot entry =>
      snapshot.insert entry.key
        { entry.value with
          generation := if generation = 0 then 1 else generation
          source := if entry.value.source = .unset then .static else entry.value.source })
    ∅

def publishMACPolicies (entries : List MACPolicyEntry) : Option MemoryBackend :=
  let snapshot := macSnapshot b.control.policyGeneration entries
  if maxSourcePolicies < snapshot.keys.length then none else some { b with macPolicies := snapshot }

end SingBox.EbpfMemory
