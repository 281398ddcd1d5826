import SingBox.BreakerRecord

namespace SingBox.Observations

open Values BreakerRecord

/-- `other` stands for the texts that the source has no name for. -/
inductive ObservationSource
  | dial
  | tls
  | dns
  | firstByte
  | http
  | udp
  | probe
  | throughput
  | other
  deriving DecidableEq

inductive ObservationStage
  | proxyTunnel
  | destinationTransport
  | serviceApplication
  | resolverBootstrap
  | businessDNS
  | dnsHealth
  | other
  deriving DecidableEq

inductive FailureClass
  | none
  | dns
  | connect
  | timeout
  | tls
  | protocol
  | httpBlock
  | noPayload
  | identity
  | canceled
  deriving DecidableEq

/-- Failure classes are compared by their texts. -/
def FailureClass.text : FailureClass → String
  | none => ""
  | dns => "dns"
  | connect => "connect"
  | timeout => "timeout"
  | tls => "tls"
  | protocol => "protocol"
  | httpBlock => "http_block"
  | noPayload => "no_payload"
  | identity => "identity_changed"
  | canceled => "canceled"

theorem FailureClass.text_injective : Function.Injective FailureClass.text := by
  intro a b h
  cases a <;> cases b <;> first | rfl | exact absurd h (by decide)

inductive ObservationConfidence
  | low
  | medium
  | high
  | authoritative
  | other
  deriving DecidableEq

structure ObservationEvidence where
  runtimeEpochID : Nat
  catalogRevision : Nat
  sourceGeneration : Nat
  handle : NodeHandle
  source : ObservationSource
  stage : ObservationStage
  failure : FailureClass
  confidence : ObservationConfidence
  outcome : ObservationOutcome
  serviceID : String
  transport : String
  networkPath : String
  attemptID : Nat
  delay : Duration
  throughputBPS : Float
  time : Time
  reason : String

structure DomainEvidence where
  runtimeEpochID : Nat
  catalogRevision : Nat
  sourceGeneration : Nat
  handle : NodeHandle
  domain : FailureDomain
  outcome : ObservationOutcome
  failure : FailureClass
  confidence : ObservationConfidence
  attemptID : Nat
  breakerEligible : Bool
  weight : ℚ

def networkPaths : List String :=
  ["tcp/any", "tcp/ipv4", "tcp/ipv6", "udp_dns/any", "udp_dns/ipv4", "udp_dns/ipv6", "udp_data/any", "udp_data/ipv4",
    "udp_data/ipv6"]

/-- The stages that the last switch of `ValidateShape` allows a source, and the error for the others. -/
def stagesOf : ObservationSource → List ObservationStage × String
  | .dns => ([.resolverBootstrap, .businessDNS, .dnsHealth], "dns source has incompatible stage")
  | .http | .firstByte | .throughput => ([.serviceApplication], "business source has incompatible stage")
  | .udp => ([.serviceApplication, .destinationTransport], "UDP source has incompatible stage")
  | .dial => ([.proxyTunnel, .destinationTransport], "dial source has incompatible stage")
  | .tls => ([.proxyTunnel, .destinationTransport, .serviceApplication], "tls source has incompatible stage")
  | .probe => ([.proxyTunnel], "probe source has incompatible stage")
  | .other => ([], "adaptive observation has unknown source")

def validateReport (e : ObservationEvidence) : Except String Unit :=
  if e.outcome ≠ .success ∧ e.outcome ≠ .failure ∧ e.outcome ≠ .blocked then
    .error "adaptive observation has invalid outcome"
  else if e.outcome = .success ∧ e.failure ≠ .none then
    .error "successful adaptive observation cannot contain failure class"
  else if (e.outcome = .failure ∨ e.outcome = .blocked) ∧ e.failure = .none then
    .error "failed adaptive observation requires failure class"
  else if (e.stage = .serviceApplication ∨ e.stage = .businessDNS) ∧ e.serviceID = "" then
    .error "business observation requires service id"
  else if (e.source = .firstByte ∨ e.source = .http) ∧ (e.stage ≠ .serviceApplication ∨ e.serviceID = "") then
    .error "business source requires service application stage and service id"
  else if e.source = .throughput ∧ (e.stage ≠ .serviceApplication ∨ e.serviceID = "" ∨ e.outcome ≠ .success ∨
      e.failure ≠ .none ∨ e.confidence ≠ .medium ∨ e.throughputBPS ≤ 0) then
    .error "throughput observation is invalid"
  else if e.source ≠ .throughput ∧ e.throughputBPS != 0 then
    .error "non-throughput observation contains throughput"
  else if e.stage ∉ (stagesOf e.source).1 then .error (stagesOf e.source).2
  else if e.source = .probe ∧ e.stage ≠ .proxyTunnel then
    .error "generic probe is limited to proxy tunnel evidence"
  else if e.source = .probe ∧ e.serviceID ≠ "" then .error "generic probe cannot claim service evidence"
  else .ok ()

def validateShape (e : ObservationEvidence) : Except String Unit :=
  if e.source = .other then .error "adaptive observation has unknown source"
  else if e.stage = .other then .error "adaptive observation has unknown stage"
  else if e.transport ≠ "tcp" ∧ e.transport ≠ "udp" then .error "adaptive observation has unknown transport"
  else if e.networkPath ≠ "" ∧ e.networkPath ∉ networkPaths then
    .error "adaptive observation has unknown network path"
  else if e.confidence = .other then .error "adaptive observation has unsupported confidence"
  else if e.outcome = .deferred ∨ e.failure = .canceled then
    if e.outcome ≠ .deferred ∨ e.failure ≠ .canceled then .error "canceled observation must be deferred" else .ok ()
  else validateReport e

def confidencePolicy : ObservationConfidence → ℚ × Bool
  | .low => (1 / 4, false)
  | .medium => (3 / 5, false)
  | .high => (9 / 10, true)
  | .authoritative => (1, true)
  | .other => (0, false)

def stageDomain : ObservationStage → FailureDomain
  | .proxyTunnel => .endpoint
  | .destinationTransport | .resolverBootstrap | .dnsHealth | .other => .transport
  | .serviceApplication | .businessDNS => .service

def breakerEligible (e : ObservationEvidence) : Bool :=
  (confidencePolicy e.confidence).2 && e.stage != .resolverBootstrap

def domainEvidence (e : ObservationEvidence) : DomainEvidence :=
  { runtimeEpochID := e.runtimeEpochID
    catalogRevision := e.catalogRevision
    sourceGeneration := e.sourceGeneration
    handle := e.handle
    domain := stageDomain e.stage
    outcome := e.outcome
    failure := e.failure
    confidence := e.confidence
    attemptID := e.attemptID
    breakerEligible := breakerEligible e
    weight := (confidencePolicy e.confidence).1 }

def mapDomains (e : ObservationEvidence) : Except String (List DomainEvidence) :=
  match validateShape e with
  | .error message => .error message
  | .ok () => if e.outcome = .deferred then .ok [] else .ok [domainEvidence e]

theorem mapDomains_of_valid {e} (h : validateShape e = .ok ()) :
    mapDomains e = if e.outcome = .deferred then .ok [] else .ok [domainEvidence e] := by
  rw [mapDomains, h]

end SingBox.Observations
