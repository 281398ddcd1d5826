import SingBox.EbpfMemory

namespace SingBox.EbpfLifecycle

open Maps Values EbpfAbi EbpfMemory

inductive RuleKind
  | static
  | needsControl
  | dynamicGroup
  deriving DecidableEq

structure CompileInput where
  destination : Prefix
  protocol : UInt8 := 0
  dportMin : UInt16 := 0
  dportMax : UInt16 := 0
  verdict : Verdict
  kind : RuleKind := .static
  policyID : UInt32 := 0
  domainBound : Bool := false
  usesSniff : Bool := false
  usesProviderRuntime : Bool := false
  usesNetworkType : Bool := false
  leafIsGroup : Bool := false
  deriving DecidableEq

def eligibleForStaticSink (input : CompileInput) : Bool :=
  input.kind == .static && !input.domainBound && !input.usesSniff && !input.usesProviderRuntime &&
    !input.usesNetworkType && !input.leafIsGroup && input.destination.isValid && input.verdict != .unseen

def reasonForStatic : Verdict → Reason
  | .direct => .staticDirect
  | .proxy => .staticProxy
  | .block => .staticBlock
  | .mustControl => .mustControl
  | .unseen => .none

def compilePolicy (generation : Nat) (input : CompileInput) : CompiledPolicy where
  destination := input.destination.masked
  value :=
    { verdict := input.verdict
      source := .static
      confidence := if input.verdict = .mustControl then confidenceNone else confidenceStrong
      reasonCode := reasonForStatic input.verdict
      matchProtocol := input.protocol.toUInt16
      matchDPortMin := input.dportMin
      matchDPortMax := input.dportMax
      policyID := input.policyID
      generation := generation }

def compileStatic (inputs : List CompileInput) (generation : Nat) : List CompiledPolicy × Nat :=
  ((inputs.filter eligibleForStaticSink).map (compilePolicy generation),
    (inputs.filter fun input => !eligibleForStaticSink input).length)

def wholeDirect (policy : CompiledPolicy) : Bool :=
  policy.value.verdict == .direct && policy.value.matchProtocol == 0 && policy.value.matchDPortMin == 0 &&
    policy.value.matchDPortMax == 0

def distinct (ps : List Prefix) : List Prefix := ps.foldl (fun out p => if p ∈ out then out else out ++ [p]) []

def directPolicy (destination : Prefix) : CompiledPolicy where
  destination := destination
  value :=
    { verdict := .direct, source := .static, confidence := confidenceStrong, reasonCode := .staticDirect
      generation := 0 }

def protocolTCP : UInt8 := 6

def protocolUDP : UInt8 := 17

structure FlowPublishRequest where
  client : AddrPort
  destination : AddrPort
  protocol : UInt8
  verdict : Verdict
  leafIsBareDirect : Bool := false
  deriving DecidableEq

def sameFamily : Addr → Addr → Bool
  | .v4 _, .v4 _ | .v6 _, .v6 _ => true
  | _, _ => false

def flowReason : Verdict → Option (Reason × UInt8)
  | .direct => some (.flowDirect, confidenceStrong)
  | .proxy => some (.flowProxy, confidenceStrong)
  | .block => some (.flowBlock, confidenceStrong)
  | .mustControl => some (.mustControl, confidenceNone)
  | .unseen => none

def buildFlowPair (req : FlowPublishRequest) (generation expireNs : Nat) : Option (FlowKey × FlowKey × FlowValue) :=
  let saddr := req.client.addr.unmap
  let daddr := req.destination.addr.unmap
  if !req.client.addr.isValid || !req.destination.addr.isValid then none
  else if req.protocol ≠ protocolTCP ∧ req.protocol ≠ protocolUDP then none
  else if req.verdict = .direct ∧ req.leafIsBareDirect = false then none
  else if req.destination.port = 53 ∧ req.verdict = .direct then none
  else if !sameFamily saddr daddr then none
  else (flowReason req.verdict).map fun reason =>
    (⟨req.protocol, req.client.port, req.destination.port, saddr, daddr⟩,
      ⟨req.protocol, req.destination.port, req.client.port, daddr, saddr⟩,
      { verdict := req.verdict, source := .exactFlow, confidence := reason.2, reasonCode := reason.1
        generation := generation, expiresNs := expireNs })

/-- What the lifecycle publishes to. Each call says whether it succeeded. What decides on that and is not in the
sink, such as the failures of system calls and the clock, is in `ω`. -/
class DataplaneSink (σ ω : Type) where
  publishStaticDirect : ω → List Prefix → Nat → Nat → σ → Bool × σ
  mergeDynamicDirect : ω → Prefix → Duration → σ → Bool × σ
  putDirectFlow : ω → UInt8 → AddrPort → AddrPort → Duration → σ → Bool × σ
  deleteDirectFlow : ω → UInt8 → AddrPort → AddrPort → σ → Bool × σ
  publishDNSHint : ω → Addr → Bool → UInt8 → Nat → Duration → σ → Bool × σ
  publishMACPolicies : ω → List MACPolicyEntry → σ → Bool × σ
  deleteMergedStaticDirect : ω → Prefix → σ → Bool × σ
  writeControlV3 : ω → Bool → UInt32 → Fin 2 → Nat → UInt32 → σ → Bool × σ
  invalidateFlowDirect : ω → σ → Bool × σ
  disable : ω → σ → Bool × σ
  policyGeneration : σ → Nat

structure PolicyOffload where
  enabled : Bool := false
  staticRules : Bool := false
  exactFlowLearning : Bool := false
  dnsIPHint : String := ""
  fakeIP : Bool := false
  macSourcePolicy : Bool := false
  deriving DecidableEq

structure SharedNetworkOptions where
  dropUDP443 : Option Bool := none
  dataPlane : String := ""
  policyOffload : PolicyOffload := {}
  deriving DecidableEq

structure Lifecycle (σ : Type) where
  options : SharedNetworkOptions := {}
  backend : MemoryBackend := newMemoryBackend
  sink : σ
  bound : Bool := false
  flowTTL : Duration := 600 * second
  macQuarantined : Bool := false
  dataplaneQuarantined : Bool := false

def flagIf (condition : Bool) (flag : UInt32) : UInt32 := if condition then flag else 0

def controlFlags (options : SharedNetworkOptions) (enableIPv4 enableIPv6 enableTCP enableUDP dnsHijack : Bool) :
    UInt32 :=
  let po := options.policyOffload
  let dnsHint := po.enabled && (po.dnsIPHint == "safe" || po.dnsIPHint == "strong")
  flagIf enableIPv4 flagIPv4 ||| flagIf enableIPv6 flagIPv6 ||| flagIf enableTCP flagTCP ||| flagIf enableUDP flagUDP |||
    flagIf dnsHijack flagDNSHijack ||| flagIf (options.dropUDP443.getD false) flagDropUDP443 |||
    flagIf (options.dataPlane == "" || options.dataPlane == "socket_assign") flagSocketAssign ||| flagFailureProxy |||
    flagIf (po.enabled && po.staticRules) flagStaticPolicy ||| flagIf (po.enabled && po.exactFlowLearning) flagExactFlow |||
    flagIf dnsHint flagDNSHint ||| flagIf dnsHint flagDNSSniff ||| flagIf (po.enabled && po.fakeIP) flagFakeIP |||
    flagIf (po.enabled && po.macSourcePolicy) flagMACSource

section

variable {σ ω : Type} [DataplaneSink σ ω]

variable (l : Lifecycle σ) (w : ω)

def Lifecycle.call (f : σ → Bool × σ) : Bool × Lifecycle σ :=
  if l.bound then ((f l.sink).1, { l with sink := (f l.sink).2 }) else (true, l)

def Lifecycle.syncPolicyGeneration (generation : Nat) : Lifecycle σ :=
  if generation = 0 then l
  else if l.backend.control.policyGeneration ≠ 0 ∧ generation < l.backend.control.policyGeneration then l
  else
    { l with
      backend := invalidateGeneration
        { l.backend with
          control := { l.backend.control with policyGeneration := generation }
          publisher := syncGeneration l.backend.publisher generation }
        generation }

def Lifecycle.writeControl (enabled : Bool) (flags routingMark : UInt32) : Bool × Lifecycle σ :=
  l.call (DataplaneSink.writeControlV3 w enabled flags l.backend.publisher.active l.backend.publisher.generation
    routingMark)

def Lifecycle.applyControlFlags (enableIPv4 enableIPv6 enableTCP enableUDP dnsHijack : Bool)
    (routingMark : UInt32) : Bool × Lifecycle σ :=
  let flags := controlFlags l.options enableIPv4 enableIPv6 enableTCP enableUDP dnsHijack
  let flags := if l.macQuarantined then flags &&& ~~~flagMACSource else flags
  let enabled := l.backend.control.enabled && !l.dataplaneQuarantined
  let called := l.writeControl w enabled flags routingMark
  if called.1 then
    (true, { called.2 with
      backend := { l.backend with
        control := { l.backend.control with enabled := enabled, flags := flags, routingMark := routingMark } } })
  else called

def Lifecycle.publishPrepared (policies : List CompiledPolicy) (destinations : List Prefix) :
    Bool × Lifecycle σ :=
  match prepareStatic l.backend policies with
  | none => (false, l)
  | some (prepared, backend) =>
    let called := l.call (DataplaneSink.publishStaticDirect w destinations 0 0)
    if called.1 then (true, { called.2 with backend := commitPreparedStatic backend prepared })
    else (false, { called.2 with backend := abortPreparedStatic backend })

structure StaticOutcome where
  accepted : Nat
  rejected : Nat
  ok : Bool
  deriving DecidableEq

def Lifecycle.publishStaticRules (inputs : List CompileInput) : StaticOutcome × Lifecycle σ :=
  if !l.options.policyOffload.enabled || !l.options.policyOffload.staticRules then (⟨0, inputs.length, true⟩, l)
  else
    let compiled := compileStatic inputs l.backend.control.policyGeneration
    let direct := compiled.1.filter wholeDirect
    let rejected := compiled.2 + (compiled.1.length - direct.length)
    match prepareStatic l.backend direct with
    | none => (⟨0, 0, false⟩, l)
    | some _ =>
      let published := l.publishPrepared w direct (direct.map (·.destination))
      (⟨direct.length, rejected, published.1⟩, published.2)

def Lifecycle.publishStaticDirect (ps : List Prefix) : Bool × Lifecycle σ :=
  let normalized := distinct ((ps.map Prefix.masked).filter Prefix.isValid)
  l.publishPrepared w (normalized.map directPolicy) normalized

def Lifecycle.invalidate : Bool × Lifecycle σ :=
  if l.bound then
    let called := l.call (DataplaneSink.invalidateFlowDirect w)
    if !called.1 then called
    else
      let generation := DataplaneSink.policyGeneration ω called.2.sink
      if generation = 0 then (false, called.2)
      else
        (true, { called.2 with
          backend := invalidateGeneration
            { l.backend with
              control := { l.backend.control with policyGeneration := generation }
              publisher := syncGeneration l.backend.publisher generation }
            generation })
  else
    let generation := nextGeneration l.backend.control.policyGeneration
    (true, { l with
      backend := invalidateGeneration
        { l.backend with
          control := { l.backend.control with policyGeneration := generation }
          publisher := syncGeneration l.backend.publisher generation }
        generation })

def Lifecycle.disableMACSource : Bool × Lifecycle σ :=
  let flags := l.backend.control.flags &&& ~~~flagMACSource
  let called := l.writeControl w l.backend.control.enabled flags l.backend.control.routingMark
  if called.1 then
    (true, { called.2 with backend := { l.backend with control := { l.backend.control with flags := flags } } })
  else called

/-- The last fuse: the dataplane is off in the model, whatever the sink makes of the call that follows. -/
def Lifecycle.quarantineDataplane : Lifecycle σ :=
  { l with
    dataplaneQuarantined := true
    backend := { l.backend with control := { l.backend.control with enabled := false } } }

/-- `recoverMACPublishFailureLocked`, which always returns an error. -/
def Lifecycle.recoverMACPublishFailure : Lifecycle σ :=
  let disabled := { l with macQuarantined := true }.disableMACSource w
  if disabled.1 then disabled.2
  else
    let invalidated := disabled.2.invalidate w
    if invalidated.1 then invalidated.2
    else
      (invalidated.2.quarantineDataplane.call (DataplaneSink.disable w)).2

def Lifecycle.endMACQuarantine : Bool × Lifecycle σ :=
  if l.macQuarantined then
    let flags := l.backend.control.flags ||| flagMACSource
    let called := l.writeControl w l.backend.control.enabled flags l.backend.control.routingMark
    if called.1 then
      (true, { called.2 with
        backend := { l.backend with control := { l.backend.control with flags := flags } }
        macQuarantined := false })
    else (false, { called.2 with macQuarantined := true })
  else (true, { l with macQuarantined := false })

def Lifecycle.publishMACSourcePolicies (entries : List MACPolicyEntry) : Bool × Lifecycle σ :=
  if !l.options.policyOffload.enabled || !l.options.policyOffload.macSourcePolicy then (true, l)
  else if maxSourcePolicies < (((entries.map (·.key)).filter (· ≠ zeroMACKey)).dedup).length then (false, l)
  else
    let called := l.call (DataplaneSink.publishMACPolicies w entries)
    if !called.1 then (false, called.2.recoverMACPublishFailure w)
    else
      match publishMACPolicies l.backend entries with
      | none => (false, called.2.recoverMACPublishFailure w)
      | some backend => { called.2 with backend := backend }.endMACQuarantine w

structure MergeTimes where
  validated : Time
  started : Time
  now : Time
  deriving DecidableEq

def Lifecycle.mergeDynamicDirect (p : Prefix) (ttl : Duration) (times : MergeTimes) :
    Bool × Lifecycle σ :=
  if !l.options.policyOffload.enabled then (true, l)
  else
    match validateDynamicDirect l.backend p times.validated with
    | none => (false, l)
    | some canonical =>
      let called := l.call (DataplaneSink.mergeDynamicDirect w canonical ttl)
      if !called.1 then called
      else
        match EbpfMemory.mergeDynamicDirect l.backend canonical ttl times.started times.now with
        | none => if l.bound then (false, (called.2.invalidate w).2) else (false, called.2)
        | some backend => (true, { called.2 with backend := backend })

def Lifecycle.revokeMergedStaticDirect (p : Prefix) : Bool × Lifecycle σ :=
  let called := l.call (DataplaneSink.deleteMergedStaticDirect w p)
  if !called.1 then called
  else
    match deleteMergedStaticDirect l.backend p with
    | none => (false, called.2)
    | some backend => (true, { called.2 with backend := backend })

/-- `LearnFlow`. The flows of the memory backend are left out: nothing else reads them. -/
def Lifecycle.learnFlow (client dest : AddrPort) (protocol : UInt8) (bareDirect : Bool) :
    Bool × Lifecycle σ :=
  if !l.options.policyOffload.enabled || !l.options.policyOffload.exactFlowLearning || !bareDirect then (true, l)
  else
    match buildFlowPair ⟨client, dest, protocol, .direct, true⟩ l.backend.control.policyGeneration 1 with
    | none => (false, l)
    | some _ => l.call (DataplaneSink.putDirectFlow w protocol client dest l.flowTTL)

def Lifecycle.revokeFlow (client dest : AddrPort) (protocol : UInt8) : Bool × Lifecycle σ :=
  match buildFlowPair ⟨client, dest, protocol, .proxy, false⟩ l.backend.control.policyGeneration 1 with
  | none => (false, l)
  | some _ => l.call (DataplaneSink.deleteDirectFlow w protocol client dest)

def minute : Duration := 60 * second

/-- `ObserveDNS`. `current` is the time now, for a call that gives none. -/
def Lifecycle.observeDNS (order : RangeOrder Addr) (addr : Addr) (direct : Bool)
    (evidence : UInt8) (ttl : Duration) (now current : Time) : Bool × Lifecycle σ :=
  let key := addr.unmap
  let ttl := if ttl ≤ 0 then minute else ttl
  let now := if isZero now then current else now
  if !l.options.policyOffload.enabled || !key.isValid then (true, l)
  else
    let called := l.call (DataplaneSink.publishDNSHint w addr direct evidence 0 ttl)
    if !called.1 then called
    else
      (true, { called.2 with
        backend := { l.backend with
          dns := observe order l.backend.dns key direct evidence 0 l.backend.control.policyGeneration
            (unixNano (now + ttl)) (unixNano now) } })

def Lifecycle.close : Lifecycle σ :=
  { l with backend := { l.backend with control := { l.backend.control with enabled := false } } }

end

inductive Event (ω : Type)
  | bindSink
  | syncPolicyGeneration (generation : Nat)
  | applyControlFlags (w : ω) (enableIPv4 enableIPv6 enableTCP enableUDP dnsHijack : Bool) (routingMark : UInt32)
  | publishStaticRules (w : ω) (inputs : List CompileInput)
  | publishMACSourcePolicies (w : ω) (entries : List MACPolicyEntry)
  | publishStaticDirect (w : ω) (ps : List Prefix)
  | mergeDynamicDirect (w : ω) (p : Prefix) (ttl : Duration) (times : MergeTimes)
  | revokeMergedStaticDirect (w : ω) (p : Prefix)
  | learnFlow (w : ω) (client dest : AddrPort) (protocol : UInt8) (bareDirect : Bool)
  | revokeFlow (w : ω) (client dest : AddrPort) (protocol : UInt8)
  | observeDNS (w : ω) (order : RangeOrder Addr) (addr : Addr) (direct : Bool) (evidence : UInt8) (ttl : Duration)
      (now current : Time)
  | invalidateGeneration (w : ω)
  | close

def step {σ ω : Type} [DataplaneSink σ ω] (l : Lifecycle σ) : Event ω → Lifecycle σ
  | .bindSink => { l with bound := true }
  | .syncPolicyGeneration generation => l.syncPolicyGeneration generation
  | .applyControlFlags w v4 v6 tcp udp hijack mark => (l.applyControlFlags w v4 v6 tcp udp hijack mark).2
  | .publishStaticRules w inputs => (l.publishStaticRules w inputs).2
  | .publishMACSourcePolicies w entries => (l.publishMACSourcePolicies w entries).2
  | .publishStaticDirect w ps => (l.publishStaticDirect w ps).2
  | .mergeDynamicDirect w p ttl times => (l.mergeDynamicDirect w p ttl times).2
  | .revokeMergedStaticDirect w p => (l.revokeMergedStaticDirect w p).2
  | .learnFlow w client dest protocol bareDirect => (l.learnFlow w client dest protocol bareDirect).2
  | .revokeFlow w client dest protocol => (l.revokeFlow w client dest protocol).2
  | .observeDNS w order addr direct evidence ttl now current =>
    (l.observeDNS w order addr direct evidence ttl now current).2
  | .invalidateGeneration w => (l.invalidate w).2
  | .close => l.close

end SingBox.EbpfLifecycle
