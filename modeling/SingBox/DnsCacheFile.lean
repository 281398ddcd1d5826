import SingBox.Arena
import SingBox.Maps
import SingBox.Runs
import SingBox.Values

namespace SingBox.DnsCacheFile

open Maps Values

structure SaveCacheKey where
  transportName : String
  questionName : String
  qType : UInt16
  deriving DecidableEq

structure SaveDNSCacheEntry where
  rawMessage : List UInt8 := []
  expireAt : Time := 0
  sequence : Nat := 0
  saving : Bool := false
  deriving DecidableEq

abbrev DatabaseKey := String × List UInt8

def questionKey (qType : UInt16) (qName : String) : List UInt8 :=
  [(qType >>> 8).toUInt8, qType.toUInt8] ++ qName.toByteArray.data.toList

variable (s : CacheFile) (key : SaveCacheKey)

def databaseKey : DatabaseKey := (key.transportName, questionKey key.qType key.questionName)

/-- The eight bytes of the expiry, as the seconds that they encode, and the bytes that follow them. -/
structure StoredMessage where
  expireUnix : Int
  rawMessage : List UInt8
  deriving DecidableEq

def unixEpoch : Int := 62135596800

def unix (t : Time) : Int := t / second - unixEpoch

def ofUnix (sec : Int) : Time := (sec + unixEpoch) * second

def stored (rawMessage : List UInt8) (expireAt : Time) : StoredMessage := ⟨unix expireAt, rawMessage⟩

/-- Where the goroutine of `flushPendingDNSCache` is in a round of its loop. -/
inductive FlushPhase
  | reading
  | saving (entry : SaveDNSCacheEntry)
  | checking (entry : SaveDNSCacheEntry)
  | done
  deriving DecidableEq

structure Flusher where
  key : SaveCacheKey
  phase : FlushPhase
  deriving DecidableEq

/-- A call of `LoadDNSCache` after its look at the pending entries. -/
inductive LoadPhase
  | missed
  | returned (result : Option (List UInt8 × Time))
  deriving DecidableEq

structure Load where
  key : SaveCacheKey
  phase : LoadPhase
  deriving DecidableEq

/-- The calls of `ClearDNSCache` are known by whether they have returned. -/
structure CacheFile where
  saveDNSCache : GoMap SaveCacheKey SaveDNSCacheEntry := ∅
  db : GoMap DatabaseKey StoredMessage := ∅
  flushers : List Flusher := []
  loads : List Load := []
  clears : List Bool := []

inductive Event
  | save (key : SaveCacheKey) (rawMessage : List UInt8) (expireAt : Time)
  | flush (i : Nat)
  | load (key : SaveCacheKey)
  | view (i : Nat)
  | clear
  | drop (i : Nat)
  deriving DecidableEq

def queued (rawMessage : List UInt8) (expireAt : Time) : SaveDNSCacheEntry :=
  let entry := (s.saveDNSCache.lookup key).getD {}
  { rawMessage := rawMessage, expireAt := expireAt, sequence := succ64 entry.sequence, saving := true }

def queueDNSCacheSave (rawMessage : List UInt8) (expireAt : Time) :
    CacheFile × Bool :=
  ({ s with saveDNSCache := s.saveDNSCache.insert key (queued s key rawMessage expireAt) },
    !((s.saveDNSCache.lookup key).getD {}).saving)

def saveDNSCacheAsync (rawMessage : List UInt8) (expireAt : Time) : CacheFile :=
  let (s', startFlush) := queueDNSCacheSave s key rawMessage expireAt
  if startFlush then { s' with flushers := s'.flushers ++ [⟨key, .reading⟩] } else s'

def CacheFile.setFlusher (i : Nat) (phase : FlushPhase) : CacheFile :=
  { s with flushers := s.flushers.modify i fun f => { f with phase := phase } }

/-- One step of the loop in `flushPendingDNSCacheWith`. -/
def flushPendingDNSCache (i : Nat) (f : Flusher) : CacheFile :=
  match f.phase with
  | .done => s
  | .reading =>
    match s.saveDNSCache.lookup f.key with
    | none => s.setFlusher i .done
    | some entry => s.setFlusher i (.saving entry)
  | .saving entry =>
    { s.setFlusher i (.checking entry) with
      db := s.db.insert (databaseKey f.key) (stored entry.rawMessage entry.expireAt) }
  | .checking entry =>
    match s.saveDNSCache.lookup f.key with
    | none => s.setFlusher i .done
    | some current =>
      if current.sequence ≠ entry.sequence then s.setFlusher i .reading
      else { s.setFlusher i .done with saveDNSCache := s.saveDNSCache.erase f.key }

def loadDNSCache : CacheFile :=
  { s with
    loads := s.loads ++ [⟨key,
      match s.saveDNSCache.lookup key with
      | none => .missed
      | some entry => .returned (some (entry.rawMessage, entry.expireAt))⟩] }

def viewed : Option (List UInt8 × Time) :=
  (s.db.lookup (databaseKey key)).map fun content => (content.rawMessage, ofUnix content.expireUnix)

def viewDatabase (i : Nat) (l : Load) : CacheFile :=
  match l.phase with
  | .returned _ => s
  | .missed => { s with loads := s.loads.modify i fun l => { l with phase := .returned (viewed s l.key) } }

def step : Event → CacheFile
  | .save key rawMessage expireAt => saveDNSCacheAsync s key rawMessage expireAt
  | .flush i =>
    match s.flushers[i]? with
    | none => s
    | some f => flushPendingDNSCache s i f
  | .load key => loadDNSCache s key
  | .view i =>
    match s.loads[i]? with
    | none => s
    | some l => viewDatabase s i l
  | .clear => { s with saveDNSCache := ∅, clears := s.clears ++ [false] }
  | .drop i =>
    if s.clears[i]? = some false then { s with db := ∅, clears := s.clears.set i true } else s

def opened (db : GoMap DatabaseKey StoredMessage) : CacheFile := { db := db }

theorem questionKey_inj {qType qType' qName qName'} (h : questionKey qType qName = questionKey qType' qName') :
    qType = qType' ∧ qName = qName' := by
  obtain ⟨hhigh, h⟩ := List.cons.inj h
  obtain ⟨hlow, h⟩ := List.cons.inj h
  constructor
  · have hhigh := congrArg UInt8.toNat hhigh
    have hlow := congrArg UInt8.toNat hlow
    have hlt := qType.toNat_lt
    have hlt' := qType'.toNat_lt
    refine UInt16.toNat_inj.1 ?_
    simp at hhigh hlow
    omega
  · exact String.toByteArray_inj.1 (ByteArray.ext (Array.toList_inj.1 h))

theorem databaseKey_inj {key key'} (h : databaseKey key = databaseKey key') : key = key' := by
  obtain ⟨hname, hk⟩ := Prod.mk.inj h
  obtain ⟨htype, hq⟩ := questionKey_inj hk
  cases key
  simp_all

theorem ofUnix_unix (t) : ofUnix (unix t) = t - t % second := by
  rw [ofUnix, unix, Int.sub_add_cancel]
  exact Int.ediv_mul_self t second

end SingBox.DnsCacheFile
