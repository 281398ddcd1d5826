import SingBox.Maps
import SingBox.Observations

namespace SingBox.Ingestion

open List Option Values Maps BreakerRecord Observations

inductive IngestDisposition
  | accepted
  | duplicate
  | stale
  | backpressure
  deriving DecidableEq

structure ObservationDedupKey where
  epochID : Nat
  revision : Nat
  sourceGeneration : Nat
  nodeID : NodeID
  nodeSlot : Nat
  attemptID : Nat
  source : ObservationSource
  stage : ObservationStage
  domain : FailureDomain
  version : Nat
  deriving DecidableEq

/-- `owner` is the publication that made the record and `position` the place of
the record in its reservation: together they are its address. -/
structure ObservationDedupRecord where
  owner : Nat
  position : Nat
  key : ObservationDedupKey
  expiresAt : Time
  deriving DecidableEq

/-- `lru` lists the committed records from the front. -/
structure ObservationIngestor where
  ttl : Duration
  maxEntries : Int
  entries : GoMap ObservationDedupKey ObservationDedupRecord
  pending : GoMap ObservationDedupKey ObservationDedupRecord
  lru : List ObservationDedupRecord

def newObservationIngestor (ttl : Duration) (maxEntries : Int) : ObservationIngestor :=
  { ttl := if ttl ≤ 0 then 600 * second else ttl
    maxEntries := if maxEntries ≤ 0 then 16384 else maxEntries
    entries := ∅
    pending := ∅
    lru := [] }

/-- The checks of `reserve`. `guard` is what the guard says of the evidence, if there is a guard.
What ends the call here is its disposition and error. -/
def checkObservation (e : ObservationEvidence) (guard : Option Bool) :
    Except (Option IngestDisposition × Option String) (List DomainEvidence) :=
  match validateShape e with
  | .error message => .error (none, some message)
  | .ok () =>
    if e.runtimeEpochID = 0 ∨ e.catalogRevision = 0 ∨ e.sourceGeneration = 0 ∨ e.handle.nodeID = 0 ∨
        e.handle.slot = 0 ∨ e.handle.version = 0 ∨ e.attemptID = 0 then
      .error (none, some "production observation requires epoch, revision, source generation, full handle and attempt")
    else
      match guard with
      | none => .error (none, some "observation ingestor has no catalog guard")
      | some false => .error (some .stale, none)
      | some true =>
        match mapDomains e with
        | .error message => .error (some .accepted, some message)
        | .ok [] => .error (some .accepted, none)
        | .ok domains => .ok domains

def dedupKey (e : ObservationEvidence) (domain : FailureDomain) : ObservationDedupKey :=
  { epochID := e.runtimeEpochID
    revision := e.catalogRevision
    sourceGeneration := e.sourceGeneration
    nodeID := e.handle.nodeID
    nodeSlot := e.handle.slot
    attemptID := e.attemptID
    source := e.source
    stage := e.stage
    domain := domain
    version := e.handle.version }

variable (i : ObservationIngestor)

def removeBack (oldest : ObservationDedupRecord) : ObservationIngestor :=
  { i with entries := i.entries.erase oldest.key, lru := i.lru.dropLast }

def pruneFrom (now : Time) : List ObservationDedupRecord → ObservationIngestor → ObservationIngestor
  | [], i => i
  | record :: records, i => if now < record.expiresAt then i else pruneFrom now records (removeBack i record)

def pruneLocked (now : Time) : ObservationIngestor := pruneFrom now i.lru.reverse i

def size : Nat := i.entries.keys.length + i.pending.keys.length

/-- Evicts committed records from the back until `needed` more find room, and
says which ones and whether there is room in the end. -/
def makeRoom (needed : Nat) : List ObservationDedupRecord → ObservationIngestor →
    ObservationIngestor × List ObservationDedupRecord × Bool
  | [], i => (i, [], decide (((size i + needed : Nat) : Int) ≤ i.maxEntries))
  | record :: records, i =>
    if ((size i + needed : Nat) : Int) > i.maxEntries then
      let (i', evicted, room) := makeRoom needed records (removeBack i record)
      (i', record :: evicted, room)
    else (i, [], true)

def isDuplicate (now : Time) (key : ObservationDedupKey) : Bool :=
  (i.pending.lookup key).isSome || (i.entries.lookup key).any fun record => decide (now < record.expiresAt)

structure Reservation where
  ingestor : ObservationIngestor
  evicted : List ObservationDedupRecord
  disposition : IngestDisposition
  records : List ObservationDedupRecord

/-- The critical section of `reserveMapped`; `now` was read before the lock was taken. -/
def reserveMapped (now : Time) (owner : Nat) (e : ObservationEvidence)
    (domains : List DomainEvidence) : Reservation :=
  let i := pruneLocked i now
  let keys := domains.map fun domain => dedupKey e domain.domain
  if keys.any (isDuplicate i now) then ⟨i, [], .duplicate, []⟩
  else
    let (i, evicted, room) := makeRoom keys.length i.lru.reverse i
    if room then
      let records := keys.zipIdx.map fun (key, position) => (⟨owner, position, key, 0⟩ : ObservationDedupRecord)
      let pending := records.foldl (fun pending record => pending.insert record.key record) i.pending
      ⟨{ i with pending := pending }, evicted, .accepted, records⟩
    else ⟨i, evicted, .backpressure, []⟩

def commitRecord (now : Time) (i : ObservationIngestor) (record : ObservationDedupRecord) : ObservationIngestor :=
  let record := { record with expiresAt := now + i.ttl }
  { i with
    pending := i.pending.erase record.key
    lru := record :: i.lru
    entries := i.entries.insert record.key record }

def abortRecord (record : ObservationDedupRecord) : ObservationIngestor :=
  if i.pending.lookup record.key = some record then { i with pending := i.pending.erase record.key } else i

def commit (i : ObservationIngestor) (now : Time) (records : List ObservationDedupRecord) :
    ObservationIngestor × Option String :=
  if records.all fun record => decide (i.pending.lookup record.key = some record) then
    (records.foldl (commitRecord now) i, none)
  else (records.foldl abortRecord i, some "observation reservation was evicted before commit")

def abort (records : List ObservationDedupRecord) : ObservationIngestor :=
  records.foldl abortRecord i

structure Ledger (i : ObservationIngestor) : Prop where
  filed : ∀ k record, i.entries.lookup k = some record ↔ record ∈ i.lru ∧ record.key = k
  distinct : (i.lru.map (·.key)).Nodup
  sorted : i.lru.Pairwise fun newer older => older.expiresAt ≤ newer.expiresAt
  apart : ∀ k record, i.pending.lookup k = some record → i.entries.lookup k = none
  fits : (size i : Int) ≤ i.maxEntries

structure Dropped (gone : ObservationDedupRecord → Prop) (i i' : ObservationIngestor) : Prop where
  ttl : i'.ttl = i.ttl
  maxEntries : i'.maxEntries = i.maxEntries
  pending : i'.pending = i.pending
  kept : ∀ record ∈ i'.lru, record ∈ i.lru
  lost : ∀ record ∈ i.lru, record ∈ i'.lru ∨ gone record

variable {records : List ObservationDedupRecord}

section

variable {i i' : ObservationIngestor} {gone gone' : ObservationDedupRecord → Prop} {now : Time}

theorem Dropped.refl (i) : Dropped gone i i := ⟨rfl, rfl, rfl, fun _ h => h, fun _ => .inl⟩

theorem Dropped.trans {i''} (h : Dropped gone i i') (h' : Dropped gone i' i'') : Dropped gone i i'' := by
  refine ⟨h'.ttl.trans h.ttl, h'.maxEntries.trans h.maxEntries, h'.pending.trans h.pending,
    fun record hr => h.kept record (h'.kept record hr), fun record hr => ?_⟩
  rcases h.lost record hr with hr | hr
  · exact h'.lost record hr
  · exact .inr hr

theorem Dropped.mono (h : Dropped gone i i') (hgone : ∀ record, gone record → gone' record) : Dropped gone' i i' :=
  { h with lost := fun record hr => (h.lost record hr).imp_right (hgone record) }

theorem Ledger.removeBack (h : Ledger i) {rest oldest} (hback : i.lru = rest ++ [oldest]) :
    Ledger (removeBack i oldest) ∧ (removeBack i oldest).lru = rest ∧
      Dropped (· = oldest) i (removeBack i oldest) ∧ size (removeBack i oldest) + 1 = size i := by
  have hre : (Ingestion.removeBack i oldest).lru = rest := by
    rw [Ingestion.removeBack]
    rw [hback, dropLast_concat]
  have hdis := h.distinct
  rw [hback, map_append, nodup_append] at hdis
  have hoth : ∀ record ∈ rest, record.key ≠ oldest.key := by
    intro record hr
    exact hdis.2.2 _ (mem_map_of_mem hr) _ (mem_singleton_self _)
  have hls : oldest.key ∈ i.entries.keys :=
    mem_keys_iff.2 ⟨oldest, (h.filed ..).2 ⟨by simp [hback], rfl⟩⟩
  have hsize : size (Ingestion.removeBack i oldest) + 1 = size i := by
    have hlen := length_erase_add_one hls
    rw [size, size, Ingestion.removeBack]
    dsimp only
    rw [AList.keys_erase]
    omega
  refine ⟨⟨?_, ?_, ?_, ?_, ?_⟩, hre, ⟨rfl, rfl, rfl, ?_, ?_⟩, hsize⟩
  · intro k record
    rw [hre, Ingestion.removeBack]
    rw [lookup_del]
    split
    · rename_i hk
      subst hk
      constructor
      · exact nofun
      · exact fun hr => absurd hr.2 (hoth record hr.1)
    · rename_i hk
      rw [h.filed, hback, mem_append, mem_singleton]
      constructor
      · rintro ⟨hr | rfl, hke⟩
        · exact ⟨hr, hke⟩
        · exact absurd hke.symm hk
      · exact fun hr => ⟨.inl hr.1, hr.2⟩
  · rw [hre]
    exact hdis.1
  · rw [hre]
    have hsort := h.sorted
    rw [hback] at hsort
    exact (pairwise_append.1 hsort).1
  · intro k record hpend
    rw [Ingestion.removeBack] at hpend ⊢
    rw [lookup_del, h.apart k record hpend, ite_self]
  · have hfits := h.fits
    rw [← hsize] at hfits
    change _ ≤ i.maxEntries
    omega
  · intro record hr
    rw [hre] at hr
    rw [hback]
    exact mem_append_left _ hr
  · intro record hr
    rw [hback, mem_append, mem_singleton] at hr
    rwa [hre]

theorem pruneFrom_spec (h : Ledger i) (hrec : i.lru.reverse = records) :
    Ledger (pruneFrom now records i) ∧ Dropped (·.expiresAt ≤ now) i (pruneFrom now records i) ∧
      (∀ record ∈ (pruneFrom now records i).lru, now < record.expiresAt) ∧
      size (pruneFrom now records i) ≤ size i := by
  induction records generalizing i with
  | nil =>
    rw [reverse_eq_nil_iff] at hrec
    exact ⟨h, .refl i, by simp [pruneFrom, hrec], le_refl _⟩
  | cons oldest records ih =>
    have hback : i.lru = records.reverse ++ [oldest] := by
      rw [← reverse_cons, ← hrec, reverse_reverse]
    rw [pruneFrom]
    split
    · rename_i hst
      refine ⟨h, .refl i, fun record hr => ?_, le_refl _⟩
      have hsort := h.sorted
      rw [hback] at hsort hr
      rcases mem_append.1 hr with hr | hr
      · exact lt_of_lt_of_le hst ((pairwise_append.1 hsort).2.2 _ hr _ (mem_singleton_self _))
      · rw [mem_singleton.1 hr]
        exact hst
    · rename_i hexp
      obtain ⟨hled, hre, hdrop, hsize⟩ := h.removeBack hback
      obtain ⟨hled', hdrop', hstand, hsize'⟩ := ih hled (by rw [hre, reverse_reverse])
      refine ⟨hled', .trans (hdrop.mono ?_) hdrop', hstand, by omega⟩
      rintro record rfl
      exact not_lt.1 hexp

theorem pruneLocked_spec (h : Ledger i) (now) :
    Ledger (pruneLocked i now) ∧ Dropped (·.expiresAt ≤ now) i (pruneLocked i now) ∧
      (∀ record ∈ (pruneLocked i now).lru, now < record.expiresAt) ∧ size (pruneLocked i now) ≤ size i :=
  pruneFrom_spec h rfl

theorem makeRoom_spec (needed) (h : Ledger i) (hrec : i.lru.reverse = records) :
    Ledger (makeRoom needed records i).1 ∧
      Dropped (· ∈ (makeRoom needed records i).2.1) i (makeRoom needed records i).1 ∧
      ((makeRoom needed records i).2.2 = true →
        ((size (makeRoom needed records i).1 + needed : Nat) : Int) ≤ i.maxEntries) := by
  induction records generalizing i with
  | nil =>
    exact ⟨h, .refl i, of_decide_eq_true⟩
  | cons oldest records ih =>
    have hback : i.lru = records.reverse ++ [oldest] := by
      rw [← reverse_cons, ← hrec, reverse_reverse]
    rw [makeRoom]
    split
    · obtain ⟨hled, hr, hdrop, -⟩ := h.removeBack hback
      obtain ⟨hled', hdrop', hroom⟩ := ih hled (by rw [hr, reverse_reverse])
      refine ⟨hled', .trans (hdrop.mono ?_) (hdrop'.mono fun _ => mem_cons_of_mem _), hroom⟩
      rintro record rfl
      exact mem_cons_self
    · rename_i hfits
      exact ⟨h, .refl i, fun _ => not_lt.1 hfits⟩

theorem makeRoom_of_fits {needed} (hfits : ((size i + needed : Nat) : Int) ≤ i.maxEntries) (records) :
    makeRoom needed records i = (i, [], true) := by
  cases records with
  | nil => rw [makeRoom, decide_eq_true hfits]
  | cons oldest records => rw [makeRoom, if_neg (not_lt.2 hfits)]

def soleRecord (owner : Nat) (key : ObservationDedupKey) : ObservationDedupRecord := ⟨owner, 0, key, 0⟩

structure Reserved (i : ObservationIngestor) (now : Time) (owner : Nat) (key : ObservationDedupKey)
    (res : Reservation) : Prop where
  ledger : Ledger res.ingestor
  ttl : res.ingestor.ttl = i.ttl
  maxEntries : res.ingestor.maxEntries = i.maxEntries
  kept : ∀ record ∈ res.ingestor.lru, record ∈ i.lru
  lost : ∀ record ∈ i.lru, record ∈ res.ingestor.lru ∨ record.expiresAt ≤ now ∨ record ∈ res.evicted
  outcome : (res.disposition ≠ .accepted ∧ res.records = [] ∧ res.ingestor.pending = i.pending) ∨
    (res.disposition = .accepted ∧ res.records = [soleRecord owner key] ∧ i.pending.lookup key = none ∧
      res.ingestor.entries.lookup key = none ∧
      res.ingestor.pending = i.pending.insert key (soleRecord owner key))

theorem length_keys_insert {K V : Type} [DecidableEq K] {m : GoMap K V} {k} (v) (h : m.lookup k = none) :
    (m.insert k v).keys.length = m.keys.length + 1 := by
  have hm : k ∉ m.keys := by
    rw [mem_keys_iff, h]
    simp
  rw [AList.keys_insert, length_cons, erase_of_not_mem hm]

theorem reserveMapped_single (i now owner e d) : reserveMapped i now owner e [d] =
      if isDuplicate (pruneLocked i now) now (dedupKey e d.domain) then ⟨pruneLocked i now, [], .duplicate, []⟩
      else
        let room := makeRoom 1 (pruneLocked i now).lru.reverse (pruneLocked i now)
        if room.2.2 then
          let record := soleRecord owner (dedupKey e d.domain)
          ⟨{ room.1 with pending := room.1.pending.insert record.key record }, room.2.1, .accepted, [record]⟩
        else ⟨room.1, room.2.1, .backpressure, []⟩ := by
  rw [reserveMapped]
  simp only [map_cons, map_nil, any_cons, any_nil, Bool.or_false]
  rfl

theorem Ledger.reserve (h : Ledger i) {key : ObservationDedupKey} (owner) (hpend : i.pending.lookup key = none)
    (he : i.entries.lookup key = none) (hroom : ((size i + 1 : Nat) : Int) ≤ i.maxEntries) :
    Ledger { i with pending := i.pending.insert key (soleRecord owner key) } := by
  refine { h with apart := fun k record hk => ?_, fits := ?_ }
  · rcases lookup_of_insert hk with ⟨rfl, -⟩ | ⟨-, hk⟩
    · exact he
    · exact h.apart k record hk
  · rw [size]
    rw [length_keys_insert _ hpend]
    exact hroom

theorem reserved_of_ledger (h : Ledger i) (now owner e d) :
    Reserved i now owner (dedupKey e d.domain) (reserveMapped i now owner e [d]) := by
  obtain ⟨hled, hpr, hstand, -⟩ := pruneLocked_spec h now
  rw [reserveMapped_single]
  generalize pruneLocked i now = pruned at *
  split
  · exact ⟨hled, hpr.ttl, hpr.maxEntries, hpr.kept,
      fun record hr => (hpr.lost record hr).imp_right .inl, .inl ⟨nofun, rfl, hpr.pending⟩⟩
  · rename_i hf
    rw [isDuplicate, Bool.or_eq_true, not_or, not_isSome_iff_eq_none] at hf
    obtain ⟨hpend, he⟩ := hf
    obtain ⟨hled', hroomed, hroom⟩ := makeRoom_spec 1 hled rfl
    generalize makeRoom 1 pruned.lru.reverse pruned = room at *
    have hdrop : Dropped (fun record => record.expiresAt ≤ now ∨ record ∈ room.2.1) i room.1 :=
      .trans (hpr.mono fun _ => .inl) (hroomed.mono fun _ => .inr)
    dsimp only
    split
    · rename_i hyes
      have hno : room.1.entries.lookup (dedupKey e d.domain) = none := by
        rw [eq_none_iff_forall_ne_some]
        intro record hrec
        -- what is left stands, and a record that stands under the key makes a duplicate
        obtain ⟨hls, hk⟩ := (hled'.filed ..).1 hrec
        have hprunedRecord := hroomed.kept record hls
        rw [(hled.filed ..).2 ⟨hprunedRecord, hk⟩, any_some, decide_eq_true_eq] at he
        exact he (hstand record hprunedRecord)
      rw [hpr.pending] at hpend
      refine ⟨hled'.reserve owner (hdrop.pending ▸ hpend) hno ?_, hdrop.ttl, hdrop.maxEntries,
        hdrop.kept, hdrop.lost, .inr ⟨rfl, rfl, hpend, hno, ?_⟩⟩
      · rw [hroomed.maxEntries]
        exact hroom hyes
      · rw [hdrop.pending]
        rfl
    · exact { hdrop with ledger := hled', outcome := .inl ⟨nofun, rfl, hdrop.pending⟩ }

theorem accepted_of_free (h : Ledger i) (now owner) {e d} (hpend : i.pending.lookup (dedupKey e d.domain) = none)
    (he : i.entries.lookup (dedupKey e d.domain) = none)
    (hroom : ((size i + 1 : Nat) : Int) ≤ i.maxEntries) :
    (reserveMapped i now owner e [d]).disposition = .accepted := by
  obtain ⟨hled, hpr, -, hsize⟩ := pruneLocked_spec h now
  have hno : (pruneLocked i now).entries.lookup (dedupKey e d.domain) = none := by
    rw [eq_none_iff_forall_ne_some]
    intro record hrec
    obtain ⟨hls, hk⟩ := (hled.filed ..).1 hrec
    rw [(h.filed ..).2 ⟨hpr.kept record hls, hk⟩] at he
    cases he
  have hf : isDuplicate (pruneLocked i now) now (dedupKey e d.domain) = false := by
    rw [isDuplicate, hpr.pending, hpend, hno]
    rfl
  have hfits : ((size (pruneLocked i now) + 1 : Nat) : Int) ≤ (pruneLocked i now).maxEntries := by
    rw [hpr.maxEntries]
    omega
  rw [reserveMapped_single, hf, makeRoom_of_fits hfits]
  rfl

variable {record : ObservationDedupRecord}

theorem commit_single (hpend : i.pending.lookup record.key = some record) :
    commit i now [record] = (commitRecord now i record, none) := by
  rw [commit]
  simp [hpend]

theorem Ledger.commitRecord (h : Ledger i) (hpend : i.pending.lookup record.key = some record)
    (hl : ∀ r ∈ i.lru, r.expiresAt ≤ now + i.ttl) : Ledger (commitRecord now i record) := by
  have hno := h.apart _ _ hpend
  have hnew : ∀ r ∈ i.lru, r.key ≠ record.key := by
    intro r hr hke
    rw [(h.filed ..).2 ⟨hr, hke⟩] at hno
    cases hno
  rw [Ingestion.commitRecord]
  refine ⟨fun k r => ?_, ?_, ?_, fun k r hk => ?_, ?_⟩
  · rw [lookup_set, mem_cons]
    split
    · rename_i hk
      rw [Option.some.injEq]
      constructor
      · rintro rfl
        exact ⟨.inl rfl, hk.symm⟩
      · rintro ⟨rfl | hr, hke⟩
        · rfl
        · exact absurd (hke.trans hk) (hnew r hr)
    · rename_i hk
      rw [h.filed]
      constructor
      · exact fun hr => ⟨.inr hr.1, hr.2⟩
      · rintro ⟨rfl | hr, hke⟩
        · exact absurd hke.symm hk
        · exact ⟨hr, hke⟩
  · rw [map_cons, nodup_cons]
    refine ⟨fun hm => ?_, h.distinct⟩
    obtain ⟨r, hr, hke⟩ := mem_map.1 hm
    exact hnew r hr hke
  · rw [pairwise_cons]
    exact ⟨hl, h.sorted⟩
  · obtain ⟨hne, hk⟩ := lookup_of_erase hk
    rw [lookup_set, if_neg hne]
    exact h.apart k r hk
  · have hm : record.key ∈ i.pending.keys := mem_keys_iff.2 ⟨_, hpend⟩
    have hlen := length_erase_add_one hm
    have hfits := h.fits
    rw [size] at hfits ⊢
    dsimp only
    rw [length_keys_insert _ hno, AList.keys_erase]
    omega

theorem Ledger.abortRecord (h : Ledger i) (hpend : i.pending.lookup record.key = some record) :
    Ledger (abortRecord i record) ∧ ((size (abortRecord i record) + 1 : Nat) : Int) ≤ i.maxEntries ∧
      (abortRecord i record).pending = i.pending.erase record.key := by
  have hm : record.key ∈ i.pending.keys := mem_keys_iff.2 ⟨_, hpend⟩
  have hlen := length_erase_add_one hm
  have hfits := h.fits
  rw [Ingestion.abortRecord, if_pos hpend]
  have hsize : size { i with pending := i.pending.erase record.key } + 1 = size i := by
    rw [size, size]
    dsimp only
    rw [AList.keys_erase]
    omega
  refine ⟨⟨h.filed, h.distinct, h.sorted, fun k r hk => ?_, ?_⟩, ?_, rfl⟩
  · exact h.apart k r (erase_submap _ _ _ _ hk)
  · change _ ≤ i.maxEntries
    omega
  · rw [hsize]
    exact hfits

end

end SingBox.Ingestion
