import Mathlib.Data.List.Basic
import SingBox.Values

namespace SingBox.DnsMessages

structure Question where
  name : String
  qtype : UInt16
  qclass : UInt16
  deriving DecidableEq

/-- An option of an OPT record: a client subnet, or another one by its code. -/
inductive EDNS0
  | subnet (address : List UInt8) (sourceNetmask : Nat)
  | other (code : UInt16) (data : List UInt8)
  deriving DecidableEq

/-- The data of a record, as far as the client looks into it. -/
inductive RData
  | soa (minttl : Nat)
  | opt (options : List EDNS0)
  | https (values : List (UInt16 × List UInt8))
  | other (data : List UInt8)
  deriving DecidableEq

structure RR where
  name : String
  rrtype : UInt16
  rclass : Nat
  ttl : Nat
  data : RData
  deriving DecidableEq

structure Msg where
  id : Nat
  rcode : Nat := 0
  response : Bool := false
  authoritative : Bool := false
  recursionDesired : Bool := false
  recursionAvailable : Bool := false
  question : List Question := []
  answer : List RR := []
  ns : List RR := []
  extra : List RR := []
  deriving DecidableEq

def typeA : UInt16 := 1

def typeAAAA : UInt16 := 28

def typeOPT : UInt16 := 41

def typeHTTPS : UInt16 := 65

def classINET : UInt16 := 1

def rcodeSuccess : Nat := 0

def rcodeFormatError : Nat := 1

def rcodeNameError : Nat := 3

def edns0Subnet : UInt16 := 8

def edns0Padding : UInt16 := 12

def svcbIPv4Hint : UInt16 := 4

def svcbIPv6Hint : UInt16 := 6

inductive DomainStrategy
  | asIS
  | preferIPv4
  | preferIPv6
  | ipv4Only
  | ipv6Only
  deriving DecidableEq

def EDNS0.option : EDNS0 → UInt16
  | .subnet _ _ => edns0Subnet
  | .other code _ => code

def RR.options (r : RR) : List EDNS0 :=
  match r.data with
  | .opt options => options
  | _ => []

def RR.mapOptions (f : List EDNS0 → List EDNS0) (r : RR) : RR :=
  match r.data with
  | .opt options => { r with data := .opt (f options) }
  | _ => r

def fixedResponseStatus (message : Msg) (rcode : Nat) : Msg :=
  { id := message.id, rcode := rcode, response := true, authoritative := true, recursionDesired := true
    recursionAvailable := true, question := message.question }

def extractNegativeTTL (response : Msg) : Option Nat :=
  response.ns.findSome? fun record =>
    match record.data with
    | .soa minttl => some (min record.ttl minttl)
    | _ => none

def Msg.timed (m : Msg) : List RR := (m.answer ++ m.ns ++ m.extra).filter fun record => record.rrtype != typeOPT

def computeTimeToLive (response : Msg) : Nat :=
  let least := response.timed.foldl
    (fun timeToLive record => if timeToLive = 0 ∨ 0 < record.ttl ∧ record.ttl < timeToLive then record.ttl else timeToLive) 0
  if response.answer = [] then (extractNegativeTTL response).getD least else least

def RR.setTTL (timeToLive : Nat) (record : RR) : RR :=
  if record.rrtype = typeOPT then record else { record with ttl := timeToLive }

def normalizeTTL (response : Msg) (timeToLive : Nat) : Msg :=
  { response with
    answer := response.answer.map (RR.setTTL timeToLive)
    ns := response.ns.map (RR.setTTL timeToLive)
    extra := response.extra.map (RR.setTTL timeToLive) }

/-- The hints of the other family are taken out of HTTPS records. -/
def dropHints (dropped : UInt16) (record : RR) : RR :=
  match record.data with
  | .https values => { record with data := .https (values.filter fun value => value.1 != dropped) }
  | _ => record

def filterHints (question : Question) (response : Msg) : DomainStrategy → Msg
  | .ipv4Only =>
    if question.qtype = typeHTTPS then { response with answer := response.answer.map (dropHints svcbIPv6Hint) }
    else response
  | .ipv6Only =>
    if question.qtype = typeHTTPS then { response with answer := response.answer.map (dropHints svcbIPv4Hint) }
    else response
  | _ => response

def stripDNSPadding (response : Msg) : Msg :=
  { response with
    extra := response.extra.map (RR.mapOptions fun options => options.filter fun o => o.option != edns0Padding) }

/-- What the client uses of the library for messages: the wire format, and a message's OPT record. Nothing is
assumed of it. -/
class Wire where
  pack : Msg → Option (List UInt8)
  unpack : List UInt8 → Option Msg
  isEdns0 : Msg → Option RR
  version : RR → Nat
  dnssecOK : RR → Bool
  setEdns0 : Msg → Nat → Bool → Msg

open Wire in
/-- The end of `finishExchange`: a response has no newer OPT record than its request. -/
def fitEdns0 [Wire] (request response : Msg) : Msg :=
  let stripped := { response with extra := response.extra.filter fun record => record.rrtype != typeOPT }
  match isEdns0 response, isEdns0 request with
  | some _, none => stripped
  | some responseOpt, some requestOpt =>
    if version requestOpt < version responseOpt then setEdns0 stripped responseOpt.rclass (dnssecOK responseOpt)
    else response
  | none, _ => response

/-- What the client uses of `netip.Prefix`. A valid prefix is known by its text, which has no control characters. -/
class Prefixes (P : Type) where
  invalid : P
  isValid : P → Bool
  name : P → String
  /-- `AddrFromSlice`, `Unmap` and `PrefixFrom`. -/
  ofSlice : List UInt8 → Nat → P
  address : P → List UInt8
  bits : P → Nat
  name_inj : ∀ p q, isValid p = true → isValid q = true → name p = name q → p = q
  name_plain : ∀ p, isValid p = true → '\x01' ∉ (name p).toList

section

variable {P : Type} [Prefixes P]

def subnetOf : EDNS0 → Option P
  | .subnet address sourceNetmask => some (Prefixes.ofSlice address sourceNetmask)
  | .other _ _ => none

def clientSubnetFromMessage (message : Msg) : P :=
  ((message.extra.flatMap RR.options).findSome? subnetOf).getD Prefixes.invalid

def isSubnet (o : EDNS0) : Bool := o.option == edns0Subnet

def removeClientSubnet (message : Msg) : Msg :=
  { message with extra := message.extra.map (RR.mapOptions fun options => options.filter fun o => !isSubnet o) }

def subnetOption (clientSubnet : P) : EDNS0 := .subnet (Prefixes.address clientSubnet) (Prefixes.bits clientSubnet % 2 ^ 8)

def isSubnetOption : EDNS0 → Bool
  | .subnet _ _ => true
  | .other _ _ => false

/-- The first subnet option is replaced, or one is added at the end. -/
def putSubnet (clientSubnet : P) : List EDNS0 → List EDNS0
  | [] => [subnetOption clientSubnet]
  | o :: options => if isSubnetOption o then subnetOption clientSubnet :: options else o :: putSubnet clientSubnet options

def RR.isOPT (record : RR) : Bool :=
  match record.data with
  | .opt _ => true
  | _ => false

def holdsSubnet (record : RR) : Bool := record.options.any isSubnetOption

/-- The record whose option is set: the first one with a subnet or else the last record, if it is an OPT record. -/
def setInExtra (clientSubnet : P) : List RR → Option (List RR)
  | [] => none
  | [record] => if record.isOPT then some [record.mapOptions (putSubnet clientSubnet)] else none
  | record :: record' :: extra =>
    if holdsSubnet record then some (record.mapOptions (putSubnet clientSubnet) :: record' :: extra)
    else (setInExtra clientSubnet (record' :: extra)).map (record :: ·)

def setClientSubnet (message : Msg) (clientSubnet : P) : Msg :=
  match setInExtra clientSubnet message.extra with
  | some extra => { message with extra := extra }
  | none => { message with extra := message.extra ++ [⟨".", typeOPT, 0, 0, .opt [subnetOption clientSubnet]⟩] }

end

end SingBox.DnsMessages
