import Mathlib.Data.Nat.Digits.Defs
import SingBox.DnsCacheFile
import SingBox.DnsMessages

namespace SingBox.DnsClient

open Maps Values DnsMessages
open DnsCacheFile (SaveCacheKey)

structure DNSQueryOptions (P : Type) where
  strategy : DomainStrategy := .asIS
  disableCache : Bool := false
  disableOptimisticCache : Bool := false
  rewriteTTL : Option Nat := none
  clientSubnet : P
  removeClientSubnet : Bool := false

/-- The settings of a client. `persistent` says that it has a `DNSCacheStore`. -/
structure Settings (P : Type) where
  disableCache : Bool := false
  disableExpire : Bool := false
  optimisticTimeout : Duration := 0
  clientSubnet : P
  persistent : Bool := false

structure DnsCacheKey (P : Type) where
  question : Question
  transportTag : String
  clientSubnet : P
  environment : Nat
  deriving DecidableEq

def digit36 (n : Nat) : Char := if n < 10 then Char.ofNat (48 + n) else Char.ofNat (87 + n)

/-- `strconv.FormatUint` in base 36, of a number that is not zero. -/
def formatUint36 (n : Nat) : String := String.ofList ((Nat.digits 36 n).reverse.map digit36)

variable {P : Type} [Prefixes P]

def DnsCacheKey.persistentName (k : DnsCacheKey P) : String :=
  k.transportTag ++ (if Prefixes.isValid k.clientSubnet then "\x00" ++ Prefixes.name k.clientSubnet else "") ++
    (if k.environment ≠ 0 then "\x01" ++ formatUint36 k.environment else "")

def DnsCacheKey.saveKey (k : DnsCacheKey P) : SaveCacheKey := ⟨k.persistentName, k.question.name, k.question.qtype⟩

def effectiveSubnet (c : Settings P) (options : DNSQueryOptions P) (message : Msg) : P :=
  if options.removeClientSubnet then Prefixes.invalid
  else if Prefixes.isValid options.clientSubnet then options.clientSubnet
  else if Prefixes.isValid c.clientSubnet then c.clientSubnet
  else clientSubnetFromMessage message

/-- The environment is a hash of the transport's and the network's, taken when the key is made. -/
def newCacheKey (c : Settings P) (transport : String) (question : Question) (message : Msg) (options : DNSQueryOptions P)
    (environment : Nat) : DnsCacheKey P := ⟨question, transport, effectiveSubnet c options message, environment⟩

def finishCacheKey (key : DnsCacheKey P) (environment : Nat) : Option (DnsCacheKey P) :=
  if environment = key.environment ∨ key.environment = 0 then some { key with environment := environment } else none

def prepareExchangeMessage (c : Settings P) (message : Msg) (options : DNSQueryOptions P) : Msg :=
  if options.removeClientSubnet then removeClientSubnet message
  else if Prefixes.isValid options.clientSubnet then setClientSubnet message options.clientSubnet
  else if Prefixes.isValid c.clientSubnet then setClientSubnet message c.clientSubnet
  else message

def isSimpleRequest (message : Msg) : Bool :=
  message.question.length == 1 && message.ns.isEmpty &&
    match message.extra with
    | [] => true
    | [record] => record.rrtype == typeOPT && decide (0 < record.rclass) && record.ttl == 0 &&
        record.options.all isSubnet
    | _ => false

def strategyRejects (question : Question) (strategy : DomainStrategy) : Bool :=
  question.qtype == typeA && strategy == .ipv6Only || question.qtype == typeAAAA && strategy == .ipv4Only

def applyResponseOptions (question : Question) (response : Msg) (options : DNSQueryOptions P) : Msg × Nat :=
  let filtered := filterHints question response options.strategy
  let timeToLive := options.rewriteTTL.getD (computeTimeToLive filtered)
  (normalizeTTL filtered timeToLive, timeToLive)

def plainRcode (response : Msg) : Bool := response.rcode == rcodeSuccess || response.rcode == rcodeNameError

def rejects (checker : Option (Msg → Bool)) (response : Msg) : Bool :=
  match checker with
  | none => false
  | some check => !plainRcode response || !check response

inductive ClientError
  | rcode (code : Nat)
  | loopback
  | responseRejected
  | responseRejectedCached
  | canceled
  | upstream
  deriving DecidableEq

/-- A call of `Exchange` or `ExchangeAsync` or, with `lookup`, of the exchange of one type in `Lookup`.
`contextTransport` is the transport on whose behalf the call is made. -/
structure Call (P : Type) where
  transport : String
  contextTransport : Option String := none
  message : Msg
  options : DNSQueryOptions P
  checker : Option (Msg → Bool) := none
  lookup : Bool := false

/-- `cacheKey` is missing if the cache is not used. -/
structure ExchangeOperation (P : Type) where
  message : Msg
  question : Question
  cacheKey : Option (DnsCacheKey P)

/-- `cached` is the response that came from the cache. -/
inductive Phase (P : Type)
  | asking
  | beginning
  | exchanging (operation : ExchangeOperation P)
  | returned (response : Option Msg) (err : Option ClientError) (cached : Option Msg)

structure Process (P : Type) where
  call : Call P
  phase : Phase P

/-- A goroutine of `backgroundRefreshDNS`. -/
structure Refresh (P : Type) where
  transport : String
  key : DnsCacheKey P
  message : Msg
  options : DNSQueryOptions P
  checker : Option (Msg → Bool)
  running : Bool

/-- An exchange over a transport that brought a response, and the response as it was stored. -/
structure Exchange (P : Type) where
  transport : String
  question : Question
  subnet : P
  checker : Option (Msg → Bool)
  response : Msg
  kept : Msg

/-- `saves` are the calls of `SaveDNSCacheAsync`, `exchanges` the history. -/
structure State (P : Type) where
  cache : GoMap (DnsCacheKey P) (Msg × Time) := ∅
  saves : List (SaveCacheKey × List UInt8) := []
  processes : List (Process P) := []
  refreshes : List (Refresh P) := []
  exchanges : List (Exchange P) := []

/-- What a call reads outside the client: the environment, the clock, and which saved message with which expiry the
persistent store comes up with. -/
structure Reading where
  environment : Nat
  now : Time
  loaded : Option (Nat × Time) := none

inductive Event (P : Type)
  | call (c : Call P)
  | ask (i : Nat) (r : Reading)
  | start (i : Nat) (r : Reading) (rejected : Bool)
  | cancel (i : Nat)
  | reply (i : Nat) (r : Reading) (result : Option Msg)
  | refreshed (j : Nat) (r : Reading) (result : Option Msg)
  | forget (key : DnsCacheKey P)

section

variable [DecidableEq P] [Wire] (c : Settings P)

def remainingTTL (now expireAt : Time) : Nat := (max ((sub expireAt now).tdiv second) 0).toNat % 2 ^ 32

def timely (response : Msg) (now expireAt : Time) : Option (Msg × Bool) :=
  if c.disableExpire then some (response, false)
  else if expireAt < now then
    if 0 < c.optimisticTimeout ∧ now < expireAt + c.optimisticTimeout then some (normalizeTTL response 1, true) else none
  else some (normalizeTTL response (remainingTTL now expireAt), false)

variable (s : State P)

def loadPersistentResponse (key : DnsCacheKey P) (r : Reading) : Option (Msg × Bool) :=
  match r.loaded with
  | none => none
  | some (n, expireAt) =>
    match s.saves[n]? with
    | none => none
    | some (saveKey, rawMessage) =>
      if saveKey = key.saveKey then (Wire.unpack rawMessage).bind fun response => timely c response r.now expireAt
      else none

def loadResponse (key : DnsCacheKey P) (r : Reading) : Option (Msg × Bool) :=
  if c.persistent then loadPersistentResponse c s key r
  else (s.cache.lookup key).bind fun entry => timely c entry.1 r.now entry.2

def storeCache (key : DnsCacheKey P) (message : Msg) (timeToLive : Nat) (now : Time) : State P :=
  if timeToLive = 0 then s
  else if c.persistent then
    match Wire.pack message with
    | none => s
    | some packed => { s with saves := s.saves ++ [(key.saveKey, packed)] }
  else { s with cache := s.cache.insert key (message, now + second * timeToLive) }

def backgroundRefreshDNS (refresh : Refresh P) : State P :=
  if s.refreshes.any fun other => other.running && other.key == refresh.key then s
  else { s with refreshes := s.refreshes ++ [refresh] }

def State.setPhase (i : Nat) (phase : Phase P) : State P :=
  { s with processes := s.processes.modify i fun p => { p with phase := phase } }

def refreshOf (call : Call P) (key : DnsCacheKey P) : Refresh P :=
  ⟨call.transport, key, prepareExchangeMessage c call.message call.options, call.options, call.checker, true⟩

/-- `questionCache` and what `lookupToExchange` makes of its answer. -/
def ask (i : Nat) (call : Call P) (r : Reading) : State P :=
  match call.message.question with
  | [] => s.setPhase i .beginning
  | question :: _ =>
    let key := newCacheKey c call.transport question call.message call.options r.environment
    if c.disableCache || call.options.disableCache then s.setPhase i .beginning
    else match loadResponse c s key r with
      | none => s.setPhase i .beginning
      | some (response, isStale) =>
        if isStale && call.options.disableOptimisticCache then s.setPhase i .beginning
        else
          let s := if isStale then backgroundRefreshDNS s (refreshOf c call key) else s
          if response.rcode ≠ rcodeSuccess then s.setPhase i (.returned none (some (.rcode response.rcode)) (some response))
          else s.setPhase i (.returned (some response) none (some response))

/-- The second half of `beginExchange`: no answer came from the cache. -/
def beginUpstream (i : Nat) (call : Call P) (operation : ExchangeOperation P) (rejected : Bool) : State P :=
  if call.contextTransport = some call.transport then s.setPhase i (.returned none (some .loopback) none)
  else if operation.cacheKey.isSome && call.checker.isSome && rejected then
    s.setPhase i (.returned none (some .responseRejectedCached) none)
  else s.setPhase i (.exchanging operation)

/-- `beginExchange`, from its look at the message to the upstream exchange. Waiting for another call of the same key
and being cancelled meanwhile are steps before it. `rejected` is the answer of the RDRC store. -/
def beginExchange (i : Nat) (call : Call P) (r : Reading) (rejected : Bool) : State P :=
  match call.message.question with
  | [] => s.setPhase i (.returned (some (fixedResponseStatus call.message rcodeFormatError)) none none)
  | question :: _ =>
    if strategyRejects question call.options.strategy then
      s.setPhase i (.returned (some (fixedResponseStatus call.message rcodeSuccess)) none none)
    else
      let message := prepareExchangeMessage c call.message call.options
      if !isSimpleRequest call.message || c.disableCache || call.options.disableCache then
        beginUpstream s i call ⟨message, question, none⟩ rejected
      else
        let key := newCacheKey c call.transport question message call.options r.environment
        match loadResponse c s key r with
        | none => beginUpstream s i call ⟨message, question, some key⟩ rejected
        | some (response, isStale) =>
          if isStale && call.options.disableOptimisticCache then
            beginUpstream s i call ⟨message, question, some key⟩ rejected
          else
            let s := if isStale then backgroundRefreshDNS s (refreshOf c call key) else s
            s.setPhase i (.returned (some { response with id := message.id }) none (some response))

def keep (key : Option (DnsCacheKey P)) (transport : String) (question : Question) (subnet : P)
    (checker : Option (Msg → Bool)) (options : DNSQueryOptions P) (response : Msg) (r : Reading) : State P :=
  let applied := applyResponseOptions question response options
  let s := { s with exchanges := s.exchanges ++ [⟨transport, question, subnet, checker, response, applied.1⟩] }
  if plainRcode response then
    match key.bind fun key => finishCacheKey key r.environment with
    | none => s
    | some key => storeCache c s key applied.1 applied.2 r.now
  else s

/-- `finishExchange`, and what `lookupToExchange` makes of its answer. -/
def finishExchange (i : Nat) (call : Call P) (operation : ExchangeOperation P) (response : Msg)
    (r : Reading) : State P :=
  if rejects call.checker response then s.setPhase i (.returned (some response) (some .responseRejected) none)
  else
    let applied := applyResponseOptions operation.question response call.options
    let s := keep c s operation.cacheKey call.transport operation.question
      (effectiveSubnet c call.options operation.message) call.checker call.options response r
    let fitted := fitEdns0 operation.message { applied.1 with id := operation.message.id }
    if call.lookup && fitted.rcode != rcodeSuccess then s.setPhase i (.returned none (some (.rcode fitted.rcode)) none)
    else s.setPhase i (.returned (some fitted) none none)

def finishRefresh (j : Nat) (refresh : Refresh P) (response : Msg) (r : Reading) : State P :=
  let s := { s with refreshes := s.refreshes.modify j fun refresh => { refresh with running := false } }
  if rejects refresh.checker response || !plainRcode response then s
  else keep c s (some refresh.key) refresh.transport refresh.key.question
    (effectiveSubnet c refresh.options refresh.message) refresh.checker refresh.options response r

def step : Event P → State P
  | .call call => { s with processes := s.processes ++ [⟨call, if call.lookup then .asking else .beginning⟩] }
  | .ask i r =>
    match s.processes[i]? with
    | some ⟨call, .asking⟩ => ask c s i call r
    | _ => s
  | .start i r rejected =>
    match s.processes[i]? with
    | some ⟨call, .beginning⟩ => beginExchange c s i call r rejected
    | _ => s
  | .cancel i =>
    match s.processes[i]? with
    | some ⟨_, .beginning⟩ => s.setPhase i (.returned none (some .canceled) none)
    | _ => s
  | .reply i r result =>
    match s.processes[i]? with
    | some ⟨call, .exchanging operation⟩ =>
      match result with
      | none => s.setPhase i (.returned none (some .upstream) none)
      | some response => finishExchange c s i call operation (stripDNSPadding response) r
    | _ => s
  | .refreshed j r result =>
    match s.refreshes[j]? with
    | some refresh =>
      if refresh.running then
        match result with
        | none => { s with refreshes := s.refreshes.modify j fun refresh => { refresh with running := false } }
        | some response => finishRefresh c s j refresh (stripDNSPadding response) r
      else s
    | none => s
  | .forget key => { s with cache := s.cache.erase key }

end

end SingBox.DnsClient
