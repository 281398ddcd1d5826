import Mathlib.Data.Fin.Basic
import Mathlib.Data.UInt
import SingBox.Maps
import SingBox.Values

namespace SingBox.EbpfAbi

open Values

/-- `netip.Addr` without its zone. -/
inductive Addr
  | invalid
  | v4 (bits : BitVec 32)
  | v6 (bits : BitVec 128)
  deriving DecidableEq

def is4In6 (bits : BitVec 128) : Bool := bits >>> 32 == 0xffff

def Addr.unmap : Addr → Addr
  | .invalid => .invalid
  | .v4 bits => .v4 bits
  | .v6 bits => if is4In6 bits then .v4 (bits.setWidth 32) else .v6 bits

def Addr.isValid : Addr → Bool
  | .invalid => false
  | .v4 _ | .v6 _ => true

structure AddrPort where
  addr : Addr
  port : UInt16
  deriving DecidableEq

/-- `netip.Prefix`. What is not a valid prefix is not told apart. -/
inductive Prefix
  | invalid
  | v4 (bits : BitVec 32) (len : Fin 33)
  | v6 (bits : BitVec 128) (len : Fin 129)
  deriving DecidableEq

def mask {w : Nat} (bits : BitVec w) (len : Nat) : BitVec w := (bits >>> (w - len)) <<< (w - len)

def Prefix.masked : Prefix → Prefix
  | .invalid => .invalid
  | .v4 bits len => .v4 (mask bits len) len
  | .v6 bits len => .v6 (mask bits len) len

def Prefix.isValid : Prefix → Bool
  | .invalid => false
  | .v4 _ _ | .v6 _ _ => true

def Prefix.is4 : Prefix → Bool
  | .v4 _ _ => true
  | .invalid | .v6 _ _ => false

def canonicalPrefix : Prefix → Option Prefix
  | .invalid => none
  | .v4 bits len => some (.v4 (mask bits len) len)
  | .v6 bits len =>
    if is4In6 bits then
      if 96 ≤ len.val then some (.v4 (mask (bits.setWidth 32) (len - 96)) ⟨len - 96, by omega⟩) else none
    else some (.v6 (mask bits len) len)

inductive Verdict
  | unseen
  | direct
  | proxy
  | block
  | mustControl
  deriving DecidableEq

inductive Source
  | unset
  | static
  | exactFlow
  | dnsWeak
  | fakeIP
  deriving DecidableEq

inductive Reason
  | none
  | staticDirect
  | flowDirect
  | fakeIPDirect
  | dnsHintDirect
  | policyProxy
  | mapMissProxy
  | generationMissProxy
  | parseFailProxy
  | socketAssignOK
  | socketAssignFail
  | blocked
  | dnsHintConflict
  | mapCapacityReject
  | securityBypass
  | establishedBypass
  | staticProxy
  | staticBlock
  | mustControl
  | dnsHijackProxy
  | flowProxy
  | flowBlock
  deriving DecidableEq

def confidenceNone : UInt8 := 0

def confidenceStrong : UInt8 := 2

def dnsEvidenceFakeIP : UInt8 := 1

def dnsEvidenceStrong : UInt8 := 2

def dnsEvidenceWeak : UInt8 := 3

def flagIPv4 : UInt32 := (1 : UInt32) <<< 0

def flagIPv6 : UInt32 := (1 : UInt32) <<< 1

def flagTCP : UInt32 := (1 : UInt32) <<< 2

def flagUDP : UInt32 := (1 : UInt32) <<< 3

def flagDNSHijack : UInt32 := (1 : UInt32) <<< 4

def flagDropUDP443 : UInt32 := (1 : UInt32) <<< 5

def flagSocketAssign : UInt32 := (1 : UInt32) <<< 6

def flagStaticPolicy : UInt32 := (1 : UInt32) <<< 7

def flagExactFlow : UInt32 := (1 : UInt32) <<< 8

def flagDNSHint : UInt32 := (1 : UInt32) <<< 9

def flagFakeIP : UInt32 := (1 : UInt32) <<< 10

def flagMACSource : UInt32 := (1 : UInt32) <<< 11

def flagFailureProxy : UInt32 := (1 : UInt32) <<< 12

def flagDNSSniff : UInt32 := (1 : UInt32) <<< 13

def has (flags flag : UInt32) : Bool := flags &&& flag != 0

def defaultPolicyLPM : Nat := 16384

def defaultDynamicDirect : Nat := 8192

def maxSourcePolicies : Nat := 8192

/-- `generation + 1` on `uint32`, without zero. -/
def nextGeneration (generation : Nat) : Nat := if (generation + 1) % 2 ^ 32 = 0 then 1 else (generation + 1) % 2 ^ 32

structure Control where
  enabled : Bool
  flags : UInt32
  activeBank : Fin 2
  policyGeneration : Nat
  routingMark : UInt32 := 0
  deriving DecidableEq

structure PolicyValue where
  verdict : Verdict
  source : Source
  confidence : UInt8
  reasonCode : Reason
  matchProtocol : UInt16 := 0
  matchDPortMin : UInt16 := 0
  matchDPortMax : UInt16 := 0
  policyID : UInt32 := 0
  generation : Nat
  deriving DecidableEq

/-- `direction` is zero in every key, and the family is the one of the addresses. -/
structure FlowKey where
  protocol : UInt8
  sport : UInt16
  dport : UInt16
  saddr : Addr
  daddr : Addr
  deriving DecidableEq

structure FlowValue where
  verdict : Verdict
  source : Source
  confidence : UInt8
  reasonCode : Reason
  policyID : UInt32 := 0
  generation : Nat
  expiresNs : Nat
  deriving DecidableEq

/-- The keys are unmapped addresses. -/
structure DNSIPValue where
  directRefs : Nat := 0
  proxyRefs : Nat := 0
  policyID : UInt32 := 0
  generation : Nat := 0
  expiresNs : Nat := 0
  lastSeenNs : Nat := 0
  evidence : UInt8 := 0
  deriving DecidableEq

structure MACKey where
  addr : BitVec 48
  reserved : BitVec 16 := 0
  ifindex : UInt32 := 0
  deriving DecidableEq

structure MACPolicyValue where
  verdict : Verdict
  source : Source := .unset
  confidence : UInt8 := 0
  reasonCode : Reason := .none
  policyID : UInt32 := 0
  generation : Nat := 0
  deriving DecidableEq

structure MACPolicyEntry where
  key : MACKey
  value : MACPolicyValue
  deriving DecidableEq

def zeroMACKey : MACKey := { addr := 0 }

def dnsHintAllowsDirect (v : DNSIPValue) (generation nowNs : Nat) : Bool × Reason :=
  if v.generation ≠ generation then (false, .generationMissProxy)
  else if v.expiresNs ≠ 0 ∧ v.expiresNs ≤ nowNs then (false, .mapMissProxy)
  else if v.proxyRefs ≠ 0 then (false, .dnsHintConflict)
  else if v.directRefs = 0 then (false, .mapMissProxy)
  else if v.evidence = dnsEvidenceFakeIP then (true, .fakeIPDirect)
  else if v.evidence = dnsEvidenceStrong then (true, .dnsHintDirect)
  else if v.evidence = dnsEvidenceWeak then (false, .mustControl)
  else (false, .mapMissProxy)

/-- `UnixNano` as `uint64`. -/
def unixNano (t : Time) : Nat := ((t - 62135596800 * second) % 2 ^ 64).toNat

end SingBox.EbpfAbi
