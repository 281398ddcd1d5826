import SingBox.EngineScoring
import SingBox.LinearProbing
import SingBox.Runs
import Mathlib.Data.List.FinRange
import Mathlib.Data.Set.Card

namespace SingBox.EngineMetrics

open Machine EngineScoring

abbrev maxEntries : Nat := 4096

abbrev indexCapacity : Nat := 8192

structure Metrics where
  id : UInt64 := 0
  used : Bool := false
  kept : Bool := false
  successes : UInt64 := 0
  failures : UInt64 := 0
  connectMs : Float := 0.0
  jitterMs : Float := 0.0
  samples : UInt64 := 0
  lastMs : Float := 0.0
  lastUpdated : UInt64 := 0

/-- A place of the lookup index. The source keeps a 16-bit entry number in it
and sets two numbers above `max_entries` apart for the other two. -/
inductive Slot
  | empty
  | tombstone
  | entry (index : Fin maxEntries)
  deriving DecidableEq

/-- `freeSlots` is `free_slots[0..free_count]`, the last one first. What lies
above `free_count` is never read. -/
structure Store where
  entries : Vector Metrics maxEntries := Vector.replicate maxEntries {}
  slots : Vector Slot indexCapacity := Vector.replicate indexCapacity .empty
  freeSlots : List (Fin maxEntries) := List.finRange maxEntries
  count : Nat := 0
  tombstones : Nat := 0

variable (s : Store) (id : UInt64)

def hash : UInt64 :=
  let value := id ^^^ (id >>> 30)
  let value := value * 0xbf58476d1ce4e5b9
  let value := value ^^^ (value >>> 27)
  let value := value * 0x94d049bb133111eb
  value ^^^ (value >>> 31)

/-- `hash(id) & index_mask`. From there the probes go on by adding one, which
wraps in `Fin indexCapacity` as the mask makes it wrap. -/
def home : Fin indexCapacity := Fin.ofNat indexCapacity (hash id).toNat

def holds (index : Fin maxEntries) : Bool :=
  s.entries[index].used && s.entries[index].id == id

def findFrom (s : Store) (id : UInt64) : Nat → Fin indexCapacity → Option (Fin indexCapacity × Fin maxEntries)
  | 0, _ => none
  | steps + 1, position =>
    match s.slots[position] with
    | .empty => none
    | .tombstone => findFrom s id steps (position + 1)
    | .entry index => if holds s id index then some (position, index) else findFrom s id steps (position + 1)

/-- `find` and `findConst`, which differ in the type of the receiver only. -/
def find : Option (Fin maxEntries) :=
  (findFrom s id indexCapacity (home id)).map Prod.snd

def get : Option Metrics := (find s id).map fun index => s.entries[index]

/-- Where `insertIndex` writes, and whether that is a tombstone. The loop of the
source has no bound: `none` is a loop that has gone round the whole index
without meeting an empty slot, and so does not end. -/
def insertFrom (slots : Vector Slot indexCapacity) (firstTombstone : Option (Fin indexCapacity)) :
    Nat → Fin indexCapacity → Option (Fin indexCapacity × Bool)
  | 0, _ => none
  | steps + 1, position =>
    match slots[position] with
    | .empty => some (firstTombstone.getD position, firstTombstone.isSome)
    | .tombstone => insertFrom slots (firstTombstone.or (some position)) steps (position + 1)
    | .entry _ => insertFrom slots firstTombstone steps (position + 1)

def insertIndex (index : Fin maxEntries) : Store :=
  match insertFrom s.slots none indexCapacity (home id) with
  | none => s
  | some (target, reused) =>
    { s with tombstones := if reused then s.tombstones - 1 else s.tombstones
             slots := s.slots.set target (.entry index) }

def removeIndex : Store :=
  match findFrom s id indexCapacity (home id) with
  | none => s
  | some (position, _) =>
    { s with slots := s.slots.set position .tombstone, tombstones := s.tombstones + 1 }

def rebuildIndex : Store :=
  (List.finRange maxEntries).foldl
    (fun s index => if s.entries[index].used then insertIndex s s.entries[index].id index else s)
    { s with slots := Vector.replicate indexCapacity .empty, tombstones := 0 }

def oldest : Option (Fin maxEntries) :=
  ((List.finRange maxEntries).foldl
    (fun (found : Option (Fin maxEntries) × UInt64) index =>
      if s.entries[index].used && s.entries[index].lastUpdated ≤ found.2 then
        (some index, s.entries[index].lastUpdated)
      else found)
    (none, UInt64.ofNat (2 ^ 64 - 1))).1

def place (index : Fin maxEntries) (id now : UInt64) : Store :=
  let s := { s with entries := s.entries.set index { id := id, used := true, lastUpdated := now } }
  if s.tombstones > indexCapacity / 4 then rebuildIndex s else insertIndex s id index

def allocate (id now : UInt64) : Option (Store × Fin maxEntries) :=
  match s.freeSlots with
  | index :: rest => some (place { s with freeSlots := rest, count := s.count + 1 } index id now, index)
  | [] => (oldest s).map fun index => (place (removeIndex s s.entries[index].id) index id now, index)

def record (metric : Metrics) (success : Bool) (elapsedMs : Float) (now : UInt64) : Metrics :=
  let metric :=
    if success then { metric with successes := satAdd metric.successes 1 }
    else { metric with failures := satAdd metric.failures 1 }
  let metric :=
    if elapsedMs > 0.0 && isFinite elapsedMs then
      -- The latency itself marks the first usable sample.
      if metric.connectMs ≤ 0.0 || !isFinite metric.connectMs then
        { metric with connectMs := elapsedMs, lastMs := elapsedMs }
      else
        let delta := elapsedMs - metric.connectMs
        { metric with connectMs := metric.connectMs + 0.2 * delta
                      jitterMs := metric.jitterMs + 0.2 * (delta.abs - metric.jitterMs)
                      lastMs := elapsedMs }
    else metric
  { metric with samples := satAdd metric.samples 1, lastUpdated := now }

def observe (success : Bool) (elapsedMs : Float) (now : UInt64) : Store :=
  if id = 0 then s
  else
    match (find s id).map (fun index => (s, index)) <|> allocate s id now with
    | none => s
    | some (s, index) =>
      { s with entries := s.entries.set index (record s.entries[index] success elapsedMs now) }

def keep : Store :=
  match find s id with
  | none => s
  | some index => { s with entries := s.entries.set index { s.entries[index] with kept := true } }

def sweep (index : Fin maxEntries) : Store :=
  if !s.entries[index].used then s
  else if s.entries[index].kept then
    { s with entries := s.entries.set index { s.entries[index] with kept := false } }
  else
    { s with entries := s.entries.set index {}, freeSlots := index :: s.freeSlots, count := s.count - 1 }

def prune (ids : List UInt64) : Store :=
  rebuildIndex ((List.finRange maxEntries).foldl sweep (ids.foldl keep s))

def fillSamples (observed : Metrics) (candidate : Candidate) : Candidate :=
  if (!isFinite candidate.samples || candidate.samples ≤ 0.0) && observed.samples > 0 then
    let total := observed.successes + observed.failures
    { candidate with
      samples := observed.samples.toFloat
      reliability := if total > 0 then observed.successes.toFloat / total.toFloat else candidate.reliability }
  else candidate

def fillConnect (observed : Metrics) (candidate : Candidate) : Candidate :=
  if (!isFinite candidate.connectMs || candidate.connectMs ≤ 0.0) && observed.connectMs > 0.0 then
    { candidate with connectMs := observed.connectMs }
  else candidate

def fillJitter (observed : Metrics) (candidate : Candidate) : Candidate :=
  if (!isFinite candidate.jitterMs || candidate.jitterMs ≤ 0.0) && observed.jitterMs > 0.0 then
    { candidate with jitterMs := observed.jitterMs }
  else candidate

/-- The host's description of a line, with what the engine itself has observed
of it in the places the host left empty. -/
def enrich (candidate : Candidate) : Candidate :=
  match get s candidate.id with
  | none => candidate
  | some observed => fillJitter observed (fillConnect observed (fillSamples observed candidate))

structure SameLine (a b : Candidate) : Prop where
  id : a.id = b.id
  state : a.state = b.state
  eligible : a.eligible = b.eligible

theorem enrich_sameLine (s c) : SameLine (enrich s c) c := by
  unfold enrich
  split
  · exact ⟨rfl, rfl, rfl⟩
  unfold fillJitter fillConnect fillSamples
  split_ifs <;> exact ⟨rfl, rfl, rfl⟩

end SingBox.EngineMetrics

namespace SingBox.MetricsIndex

open List hiding Vector
open EngineMetrics LinearProbing Runs

theorem getElem_set {α : Type} {n} (v : Vector α n) (i j : Fin n) (a) :
    (v.set i a)[j] = if j = i then a else v[j] := by
  rw [Fin.getElem_fin, Vector.getElem_set]
  simp [Fin.ext_iff, eq_comm]

def Vacant (slots : Vector Slot indexCapacity) (p : Fin indexCapacity) : Prop := slots[p] = .empty

/-- The index leads to the entries of `P` and to no others, and to each by the
name it has in `ids`. -/
structure Indexed (slots : Vector Slot indexCapacity) (ids : Fin maxEntries → UInt64)
    (P : Fin maxEntries → Prop) : Prop where
  entry : ∀ (p : Fin indexCapacity) i, slots[p] = .entry i → P i
  single : ∀ (p q : Fin indexCapacity) i, slots[p] = .entry i → slots[q] = .entry i → p = q
  reached : ∀ (p : Fin indexCapacity) i, slots[p] = .entry i →
    ∃ k < indexCapacity, Path (Vacant slots) k (home (ids i)) p
  listed : ∀ i, P i → ∃ p : Fin indexCapacity, slots[p] = .entry i

theorem indexed_nothing (ids) : Indexed (Vector.replicate indexCapacity .empty) ids (fun _ => False) := by
  have hemp (p : Fin indexCapacity) (i) :
      ¬(Vector.replicate indexCapacity Slot.empty)[p] = .entry i := by simp
  exact ⟨hemp, fun p _ i h => absurd h (hemp p i), fun p i h => absurd h (hemp p i),
    fun _ h => h.elim⟩

namespace Indexed

variable {slots : Vector Slot indexCapacity} {ids ids' : Fin maxEntries → UInt64} {P Q : Fin maxEntries → Prop}

theorem congr (h : Indexed slots ids P) (hP : ∀ i, P i ↔ Q i) (hids : ∀ i, P i → ids' i = ids i) :
    Indexed slots ids' Q where
  entry p i hp := (hP i).1 (h.entry p i hp)
  single := h.single
  reached p i hp := by
    rw [hids i (h.entry p i hp)]
    exact h.reached p i hp
  listed i hi := h.listed i ((hP i).2 hi)

theorem vacant_of_set {x} (hx : x ≠ .empty) {t p : Fin indexCapacity} (hp : Vacant (slots.set t x) p) :
    Vacant slots p := by
  unfold Vacant at hp ⊢
  rw [getElem_set] at hp
  split at hp
  · exact absurd hp hx
  · exact hp

theorem setAt (h : Indexed slots ids P) {t x} (hx : x ≠ .empty)
    (hQ : ∀ j, Q j ↔ P j ∧ slots[t] ≠ .entry j ∨ x = .entry j) (hnew : ∀ j, x = .entry j → ¬P j ∧
      ∃ k < indexCapacity, Path (Vacant slots) k (home (ids j)) t) : Indexed (slots.set t x) ids Q := by
  have hmono (p) : Vacant (slots.set t x) p → Vacant slots p := vacant_of_set hx
  have hoth {p} {j} (hp : (slots.set t x)[p] = .entry j) :
      p = t ∧ x = .entry j ∨ p ≠ t ∧ slots[p] = .entry j := by
    rw [getElem_set] at hp
    split at hp
    case isTrue ht => exact .inl ⟨ht, hp⟩
    case isFalse ht => exact .inr ⟨ht, hp⟩
  constructor
  · intro p j hp
    rcases hoth hp with ⟨-, hx⟩ | ⟨hpt, hp⟩
    · exact (hQ j).2 (.inr hx)
    · exact (hQ j).2 (.inl ⟨h.entry p j hp, fun ht => hpt (h.single p t j hp ht)⟩)
  · intro p q j hp hq
    rcases hoth hp with ⟨rfl, hx⟩ | ⟨-, hold⟩ <;> rcases hoth hq with ⟨rfl, hx'⟩ | ⟨-, hold'⟩
    · rfl
    · exact absurd (h.entry q j hold') (hnew j hx).1
    · exact absurd (h.entry p j hold) (hnew j hx').1
    · exact h.single p q j hold hold'
  · intro p j hp
    obtain ⟨m, hm, hpath⟩ : ∃ k < indexCapacity, Path _ k (home (ids j)) p := by
      rcases hoth hp with ⟨rfl, hx⟩ | ⟨-, hp⟩
      · exact (hnew j hx).2
      · exact h.reached p j hp
    exact ⟨m, hm, hpath.mono hmono⟩
  · intro j hj
    rcases (hQ j).1 hj with ⟨hj, ht⟩ | hx
    · obtain ⟨p, hp⟩ := h.listed j hj
      exact ⟨p, by rw [getElem_set, if_neg (by rintro rfl; exact ht hp), hp]⟩
    · exact ⟨t, by rw [getElem_set, if_pos rfl, hx]⟩

theorem insertAt (h : Indexed slots ids P) {i} (hi : ¬P i) {t} (hf : slots[t] = .empty ∨ slots[t] = .tombstone) {k}
    (hk : k < indexCapacity) (hpath : Path (Vacant slots) k (home (ids i)) t) :
    Indexed (slots.set t (.entry i)) ids (fun j => P j ∨ j = i) := by
  refine h.setAt nofun (fun j => ?_) ?_
  · rcases hf with ht | ht <;> simp [ht, eq_comm (a := j)]
  · rintro j ⟨⟩
    exact ⟨hi, k, hk, hpath⟩

theorem removeAt (h : Indexed slots ids P) {i} {t : Fin indexCapacity} (ht : slots[t] = .entry i) :
    Indexed (slots.set t .tombstone) ids (fun j => P j ∧ j ≠ i) :=
  h.setAt nofun (fun j => by simp [ht, eq_comm (a := j)]) nofun

end Indexed

def graves (slots : Vector Slot indexCapacity) : Finset (Fin indexCapacity) :=
  Finset.univ.filter fun p => slots[p] = .tombstone

variable {slots : Vector Slot indexCapacity} {p : Fin indexCapacity} {P : Fin maxEntries → Prop} {s : Store}
  {steps : Nat} {i : Fin maxEntries} {q : Fin indexCapacity} {out : Fin indexCapacity × Bool}
  {first : Option (Fin indexCapacity)}

theorem mem_graves : p ∈ graves slots ↔ slots[p] = .tombstone := by
  simp [graves]

def live (slots : Vector Slot indexCapacity) : Finset (Fin indexCapacity) :=
  Finset.univ.filter fun p => ∃ i, slots[p] = .entry i

theorem mem_live : p ∈ live slots ↔ ∃ i, slots[p] = .entry i := by
  simp [live]

theorem Indexed.card_live {ids} (h : Indexed slots ids P) : (live slots).card ≤ maxEntries := by
  have he (p) (hp : p ∈ live slots) := mem_live.1 hp
  choose! entryAt hentryAt using he
  refine (Finset.card_le_card_of_injOn entryAt (fun _ _ => Finset.mem_univ _) ?_).trans_eq (Finset.card_fin _)
  intro p hp q hq heq
  apply h.single p q (entryAt p) (hentryAt p hp)
  rw [heq]
  exact hentryAt q hq

theorem mem_of_not_vacant (h : ¬Vacant slots p) : p ∈ live slots ∪ graves slots := by
  rw [Finset.mem_union, mem_live, mem_graves]
  cases hs : slots[p] with
  | empty => exact absurd hs h
  | tombstone => exact .inr rfl
  | entry i => exact .inl ⟨i, rfl⟩

theorem Indexed.exists_vacant {ids} (h : Indexed slots ids P) (hgrav : (graves slots).card < maxEntries) :
    ∃ p, Vacant slots p := by
  by_contra hno
  rw [not_exists] at hno
  have hle := Finset.card_union_le (live slots) (graves slots)
  rw [Finset.eq_univ_of_forall fun p => mem_of_not_vacant (hno p), Finset.card_fin] at hle
  have hlive := h.card_live
  have hcap : indexCapacity = 2 * maxEntries := rfl
  omega

theorem findFrom_found {id} (h : findFrom s id steps p = some (q, i)) : s.slots[q] = .entry i ∧ holds s id i := by
  induction steps generalizing p with
  | zero => cases h
  | succ steps ih =>
    rw [findFrom] at h
    split at h
    · cases h
    · exact ih h
    case h_3 j hsl =>
    split at h
    case isTrue hj =>
      cases h
      exact ⟨hsl, hj⟩
    · exact ih h

theorem findFrom_of_path {id k} (hpath : Path (Vacant s.slots) k p q) (hsl : s.slots[q] = .entry i)
    (hi : holds s id i) (honly : ∀ (r : Fin indexCapacity) j, s.slots[r] = .entry j → holds s id j → r = q)
    (hk : k < steps) : findFrom s id steps p = some (q, i) := by
  induction hpath generalizing steps with
  | here p =>
    obtain ⟨steps, rfl⟩ := Nat.exists_eq_add_one_of_ne_zero (by omega : steps ≠ 0)
    simp only [findFrom, hsl, hi, if_true]
  | @next k p q hp _ ih =>
    obtain ⟨steps, rfl⟩ := Nat.exists_eq_add_one_of_ne_zero (by omega : steps ≠ 0)
    have hr := ih hsl honly (by omega : k < steps)
    rw [findFrom]
    split
    case h_1 hemp => exact absurd hemp hp
    case h_2 => exact hr
    case h_3 j hj =>
    split
    case isTrue hheld =>
      obtain rfl := honly p j hj hheld
      rw [hsl] at hj
      rw [Slot.entry.inj hj]
    case isFalse => exact hr

/-- Where a new entry of the index goes: along its own path, to a tombstone on
the way or to the vacant place at the end. -/
inductive Target (slots : Vector Slot indexCapacity) (p : Fin indexCapacity) (steps : Nat) :
    Fin indexCapacity × Bool → Prop
  | vacant {t : Fin indexCapacity} {k : Nat} (hk : k < steps) (hpath : Path (Vacant slots) k p t)
      (ht : slots[t] = .empty) : Target slots p steps (t, false)
  | grave {t : Fin indexCapacity} {k : Nat} (hk : k < steps) (hpath : Path (Vacant slots) k p t)
      (ht : slots[t] = .tombstone) : Target slots p steps (t, true)

theorem Target.next (hp : ¬Vacant slots p) (h : Target slots (p + 1) steps out) : Target slots p (steps + 1) out := by
  cases h with
  | vacant hk hpath ht => exact .vacant (Nat.succ_lt_succ hk) (.next hp hpath) ht
  | grave hk hpath ht => exact .grave (Nat.succ_lt_succ hk) (.next hp hpath) ht

theorem insertFrom_target (h : insertFrom slots first steps p = some out) :
    (∃ t, first = some t ∧ out = (t, true)) ∨ first = none ∧ Target slots p steps out := by
  induction steps generalizing p first with
  | zero => cases h
  | succ steps ih =>
    rw [insertFrom] at h
    split at h
    case h_1 hemp =>
      obtain rfl := Option.some.inj h
      cases first with
      | some t => exact .inl ⟨t, rfl, rfl⟩
      | none => exact .inr ⟨rfl, .vacant (Nat.succ_pos _) (.here p) hemp⟩
    case h_2 hgrave =>
      rcases ih h with ⟨t, ht, rfl⟩ | ⟨hno, -⟩
      · cases first with
        | some t' => exact .inl ⟨t, ht, rfl⟩
        | none =>
          obtain rfl := Option.some.inj ht
          exact .inr ⟨rfl, .grave (Nat.succ_pos _) (.here p) hgrave⟩
      · simp at hno
    case h_3 i he =>
      have hp : ¬Vacant slots p := by simp [Vacant, he]
      rcases ih h with hf | ⟨hno, htgt⟩
      · exact .inl hf
      · exact .inr ⟨hno, htgt.next hp⟩

theorem insertFrom_none (h : insertFrom slots first steps p = none) : ∀ k < steps, ¬Vacant slots ((· + 1)^[k] p) := by
  induction steps generalizing p first with
  | zero => intro k hk; omega
  | succ steps ih =>
    rw [insertFrom] at h
    have hgoesOn {first' : Option (Fin indexCapacity)} (hp : ¬Vacant slots p)
        (hr : insertFrom slots first' steps (p + 1) = none) : ∀ k < steps + 1, ¬Vacant slots ((· + 1)^[k] p) := by
      rintro (_ | k) hk
      · exact hp
      · exact ih hr k (by omega)
    split at h
    · cases h
    case h_2 hgrave => exact hgoesOn (by simp [Vacant, hgrave]) h
    case h_3 i he => exact hgoesOn (by simp [Vacant, he]) h

theorem insertFrom_ends (h : ∃ q, Vacant slots q) (p) : insertFrom slots none indexCapacity p ≠ none := by
  intro hno
  obtain ⟨q, hq⟩ := h
  obtain ⟨k, hk, rfl⟩ := exists_advance p q
  exact insertFrom_none hno k hk hq

structure SameEntries (s s' : Store) : Prop where
  entries : s'.entries = s.entries
  freeSlots : s'.freeSlots = s.freeSlots
  count : s'.count = s.count

theorem SameEntries.refl (s) : SameEntries s s := ⟨rfl, rfl, rfl⟩

theorem SameEntries.trans {s' s''} (h : SameEntries s s') (h' : SameEntries s' s'') : SameEntries s s'' :=
  ⟨h'.entries.trans h.entries, h'.freeSlots.trans h.freeSlots, h'.count.trans h.count⟩

theorem insertIndex_same (s id i) : SameEntries s (insertIndex s id i) := by
  unfold insertIndex
  split <;> exact ⟨rfl, rfl, rfl⟩

theorem removeIndex_same (s id) : SameEntries s (removeIndex s id) := by
  unfold removeIndex
  split <;> exact ⟨rfl, rfl, rfl⟩

structure Table (s : Store) (P : Fin maxEntries → Prop) : Prop where
  indexed : Indexed s.slots (fun i => s.entries[i].id) P
  counted : s.tombstones = (graves s.slots).card

theorem graves_nothing : graves (Vector.replicate indexCapacity .empty) = ∅ := by
  ext p
  simp [mem_graves]

theorem graves_set_entry (slots : Vector Slot indexCapacity) (t : Fin indexCapacity) (i) :
    graves (slots.set t (.entry i)) = (graves slots).erase t := by
  ext p
  rw [mem_graves, Finset.mem_erase, mem_graves, getElem_set]
  split <;> simp_all

theorem graves_set_tombstone (slots : Vector Slot indexCapacity) (t : Fin indexCapacity) :
    graves (slots.set t .tombstone) = insert t (graves slots) := by
  ext p
  rw [mem_graves, Finset.mem_insert, mem_graves, getElem_set]
  split <;> simp_all

theorem Table.congr {Q} (h : Table s P) (hP : ∀ i, P i ↔ Q i) : Table s Q :=
  ⟨h.indexed.congr hP (fun _ _ => rfl), h.counted⟩

theorem Table.insertIndex (h : Table s P) (hi : ¬P i) (hroom : s.tombstones < maxEntries) :
    Table (insertIndex s s.entries[i].id i) (fun j => P j ∨ j = i) ∧
        (insertIndex s s.entries[i].id i).tombstones ≤ s.tombstones := by
  unfold EngineMetrics.insertIndex
  split
  case h_1 hno => exact absurd hno (insertFrom_ends (h.indexed.exists_vacant (h.counted ▸ hroom)) _)
  case h_2 t reused hsome =>
    rcases insertFrom_target hsome with ⟨_, hf, -⟩ | ⟨-, htgt⟩
    · cases hf
    constructor
    · cases htgt with
      | vacant hk hpath ht =>
        refine ⟨h.indexed.insertAt hi (.inl ht) hk hpath, ?_⟩
        have hnot : t ∉ graves s.slots := by simp [mem_graves, ht]
        simp only [graves_set_entry, Finset.erase_eq_of_notMem hnot]
        exact h.counted
      | grave hk hpath ht =>
        refine ⟨h.indexed.insertAt hi (.inr ht) hk hpath, ?_⟩
        simp only [graves_set_entry, Finset.card_erase_of_mem (mem_graves.2 ht), ← h.counted, if_true]
    · dsimp only
      split <;> omega

theorem Table.findFrom (h : Table s P) (hi : P i) (hus : ∀ j, P j → (holds s s.entries[i].id j ↔ j = i)) :
    ∃ p, s.slots[p] = .entry i ∧
      findFrom s s.entries[i].id indexCapacity (home s.entries[i].id) = some (p, i) := by
  obtain ⟨p, hp⟩ := h.indexed.listed i hi
  obtain ⟨k, hk, hpath⟩ := h.indexed.reached p i hp
  refine ⟨p, hp, findFrom_of_path hpath hp ((hus i hi).2 rfl) ?_ hk⟩
  intro r j hr hj
  obtain rfl := (hus j (h.indexed.entry r j hr)).1 hj
  exact h.indexed.single r p j hr hp

theorem Table.removeIndex (h : Table s P) (hi : P i) (hus : ∀ j, P j → (holds s s.entries[i].id j ↔ j = i)) :
    Table (removeIndex s s.entries[i].id) (fun j => P j ∧ j ≠ i) ∧
        (removeIndex s s.entries[i].id).tombstones = s.tombstones + 1 := by
  obtain ⟨p, hp, hf⟩ := h.findFrom hi hus
  rw [EngineMetrics.removeIndex, hf]
  refine ⟨⟨h.indexed.removeAt hp, ?_⟩, rfl⟩
  have hnot : p ∉ graves s.slots := by simp [mem_graves, hp]
  simp only [graves_set_tombstone, Finset.card_insert_of_notMem hnot]
  rw [h.counted]

def rebuildRound (s : Store) (i : Fin maxEntries) : Store :=
  if s.entries[i].used then insertIndex s s.entries[i].id i else s

theorem rebuildRounds_same (s) (rounds : List (Fin maxEntries)) : SameEntries s (rounds.foldl rebuildRound s) := by
  refine run_invariant (I := SameEntries s) (fun t i h => h.trans ?_) (.refl s) rounds
  unfold rebuildRound
  split
  · exact insertIndex_same t _ i
  · exact .refl t

theorem table_rebuilding (s : Store) {rounds : List (Fin maxEntries)} (hrnd : rounds.Nodup) :
    Table (rounds.foldl rebuildRound { s with slots := Vector.replicate indexCapacity .empty, tombstones := 0 })
      (fun i => i ∈ rounds ∧ s.entries[i].used) ∧ (rounds.foldl rebuildRound
        { s with slots := Vector.replicate indexCapacity .empty, tombstones := 0 }).tombstones = 0 := by
  induction rounds using reverseRecOn with
  | nil =>
    refine ⟨⟨(indexed_nothing fun i => s.entries[i].id).congr (by simp) (fun _ _ => rfl), ?_⟩, rfl⟩
    rw [foldl_nil, graves_nothing]
    rfl
  | append_singleton rounds i ih =>
    obtain ⟨hrnd, -, hi⟩ := nodup_append.1 hrnd
    obtain ⟨htb, hzero⟩ := ih hrnd
    have hent := (rebuildRounds_same
      { s with slots := .replicate indexCapacity .empty, tombstones := 0 } rounds).entries
    rw [foldl_append, foldl_cons, foldl_nil]
    generalize foldl rebuildRound _ rounds = t at htb hzero hent ⊢
    rw [rebuildRound, hent]
    split
    case isTrue hus =>
      obtain ⟨htb', hle⟩ := htb.insertIndex (i := i)
        (fun hd => hi i hd.1 i (mem_singleton_self i) rfl) (by rw [hzero]; decide)
      rw [hent] at htb' hle
      refine ⟨htb'.congr fun j => ?_, by omega⟩
      rw [mem_append, mem_singleton]
      rcases eq_or_ne j i with rfl | hj
      · exact iff_of_true (.inr rfl) ⟨.inr rfl, hus⟩
      · simp [hj]
    case isFalse hus =>
      refine ⟨htb.congr fun j => ?_, hzero⟩
      rcases eq_or_ne j i with rfl | hj
      · exact iff_of_false (fun h => hus h.2) fun h => hus h.2
      · simp [hj]

theorem table_rebuildIndex (s : Store) :
    Table (rebuildIndex s) (fun i => s.entries[i].used) ∧ (rebuildIndex s).tombstones = 0 := by
  obtain ⟨htb, hzero⟩ := table_rebuilding s (nodup_finRange maxEntries)
  exact ⟨htb.congr (by simp), hzero⟩

theorem rebuildIndex_same (s : Store) : SameEntries s (rebuildIndex s) := by
  have h := rebuildRounds_same { s with slots := .replicate indexCapacity .empty, tombstones := 0 }
    (finRange maxEntries)
  exact { h with }

end SingBox.MetricsIndex

namespace SingBox.MetricsLedger

open List hiding Vector getElem_set
open Machine Runs EngineMetrics MetricsIndex LinearProbing

/-- What a lookup relies on: the index leads to every used entry, and no two of
them have the same name. -/
structure Findable (s : Store) : Prop where
  table : Table s (fun i => s.entries[i].used)
  distinct : ∀ i j : Fin maxEntries, s.entries[i].used → s.entries[j].used →
    s.entries[i].id = s.entries[j].id → i = j

theorem holds_iff (s id i) : holds s id i ↔ s.entries[i].used ∧ s.entries[i].id = id := by
  simp [holds]

variable {s : Store} {id : UInt64} {i : Fin maxEntries} {s' : Store}

theorem Findable.holds_iff_eq (h : Findable s) (hi : s.entries[i].used) (j) (hj : s.entries[j].used) :
    holds s s.entries[i].id j ↔ j = i := by
  rw [holds_iff]
  constructor
  · rintro ⟨-, hid⟩
    exact h.distinct j i hj hi hid
  · rintro rfl
    exact ⟨hi, rfl⟩

theorem Findable.find_eq_some_iff (h : Findable s) :
    find s id = some i ↔ s.entries[i].used ∧ s.entries[i].id = id := by
  constructor
  · intro hfd
    obtain ⟨⟨q, j⟩, hfrom, rfl⟩ := Option.map_eq_some_iff.1 hfd
    exact (holds_iff s id j).1 (findFrom_found hfrom).2
  · rintro ⟨hus, rfl⟩
    obtain ⟨p, -, hf⟩ := h.table.findFrom hus (h.holds_iff_eq hus)
    rw [find, hf]
    rfl

theorem Findable.get_eq_some_iff (h : Findable s) {m} :
    get s id = some m ↔ ∃ i : Fin maxEntries, s.entries[i] = m ∧ m.used ∧ m.id = id := by
  rw [EngineMetrics.get, Option.map_eq_some_iff]
  constructor
  · rintro ⟨i, hi, rfl⟩
    exact ⟨i, rfl, h.find_eq_some_iff.1 hi⟩
  · rintro ⟨i, rfl, hi⟩
    exact ⟨i, h.find_eq_some_iff.2 hi, rfl⟩

structure Sound (s : Store) : Prop extends Findable s where
  room : s.tombstones ≤ indexCapacity / 4
  free : ∀ i : Fin maxEntries, i ∈ s.freeSlots ↔ s.entries[i].used = false
  nodup : s.freeSlots.Nodup
  unmarked : ∀ i : Fin maxEntries, s.entries[i].kept = false

def fresh (id now : UInt64) : Metrics := { id := id, used := true, lastUpdated := now }

section

variable {s : Store} {i : Fin maxEntries} {m : Metrics}

theorem Findable.rewrite (h : Findable s) (hus : m.used = s.entries[i].used) (hid : m.id = s.entries[i].id) :
    Findable { s with entries := s.entries.set i m } := by
  have hsame (j : Fin maxEntries) : (s.entries.set i m)[j].used = s.entries[j].used ∧
      (s.entries.set i m)[j].id = s.entries[j].id := by
    rw [getElem_set]
    split
    case isTrue hj =>
      subst hj
      exact ⟨hus, hid⟩
    case isFalse => exact ⟨rfl, rfl⟩
  refine ⟨⟨h.table.indexed.congr ?_ ?_, h.table.counted⟩, ?_⟩
  · intro j
    rw [(hsame j).1]
  · intro j _
    exact (hsame j).2
  · intro j k hj hk hjk
    rw [(hsame j).1] at hj
    rw [(hsame k).1] at hk
    rw [(hsame j).2, (hsame k).2] at hjk
    exact h.distinct j k hj hk hjk

theorem Sound.rewrite (h : Sound s) (hus : m.used = s.entries[i].used) (hid : m.id = s.entries[i].id)
    (hkept : m.kept = false) : Sound { s with entries := s.entries.set i m } := by
  refine ⟨h.toFindable.rewrite hus hid, h.room, ?_, h.nodup, ?_⟩
  · intro j
    rw [h.free, getElem_set]
    split
    case isTrue hj =>
      subst hj
      rw [hus]
    case isFalse => rfl
  · intro j
    rw [getElem_set]
    split
    · exact hkept
    · exact h.unmarked j

theorem get_of_set (h : Findable s) (h' : Findable s') (hent : s'.entries = s.entries.set i m) (hus : m.used)
    (id : UInt64) : EngineMetrics.get s' id =
      if id = m.id then some m
      else if s.entries[i].used ∧ s.entries[i].id = id then none else EngineMetrics.get s id := by
  have hnew : ∀ j, s'.entries[j] = if j = i then m else s.entries[j] := by
    intro j
    rw [hent, getElem_set]
  split
  case isTrue hid => exact h'.get_eq_some_iff.2 ⟨i, by rw [hnew, if_pos rfl], hus, hid.symm⟩
  case isFalse hid =>
    apply Option.ext
    intro x
    have hoth : get s' id = some x ↔
        ∃ j, j ≠ i ∧ s.entries[j] = x ∧ x.used ∧ x.id = id := by
      rw [h'.get_eq_some_iff]
      constructor
      · rintro ⟨j, hj, hxus, hxid⟩
        have hji : j ≠ i := by
          rintro rfl
          rw [hnew, if_pos rfl] at hj
          rw [hj] at hid
          exact hid hxid.symm
        rw [hnew, if_neg hji] at hj
        exact ⟨j, hji, hj, hxus, hxid⟩
      · rintro ⟨j, hji, hj, hx⟩
        exact ⟨j, by rw [hnew, if_neg hji, hj], hx⟩
    rw [hoth]
    split
    case isTrue hold =>
      simp only [reduceCtorEq, iff_false]
      rintro ⟨j, hji, rfl, hxus, hxid⟩
      exact hji (h.distinct j i hxus hold.1 (hxid.trans hold.2.symm))
    case isFalse hold =>
    rw [h.get_eq_some_iff]
    constructor
    · rintro ⟨j, -, hj⟩
      exact ⟨j, hj⟩
    · rintro ⟨j, rfl, hx⟩
      refine ⟨j, ?_, rfl, hx⟩
      rintro rfl
      exact hold hx

end

theorem place_same (s i id now) :
    SameEntries { s with entries := s.entries.set i (fresh id now) } (place s i id now) := by
  unfold place
  dsimp only
  split
  · exact rebuildIndex_same _
  · exact insertIndex_same ..

theorem place_spec {P} (htb : Table s P) (hi : ¬P i) (hoth : ∀ j, j ≠ i → (P j ↔ s.entries[j].used))
    (hroom : s.tombstones < maxEntries) (id now : UInt64) :
    Table (place s i id now) (fun j => (s.entries.set i (fresh id now))[j].used) ∧
      (place s i id now).tombstones ≤ indexCapacity / 4 := by
  generalize hwr : { s with entries := s.entries.set i (fresh id now) } = w
  have hp : place s i id now = if w.tombstones > indexCapacity / 4 then rebuildIndex w else insertIndex w id i := by
    rw [← hwr]
    rfl
  have hent : w.entries = s.entries.set i (fresh id now) := by rw [← hwr]
  have hself : w.entries[i] = fresh id now := by rw [hent, getElem_set, if_pos rfl]
  have htombs : w.tombstones = s.tombstones := by rw [← hwr]
  have hother (j) (hj : j ≠ i) : w.entries[j] = s.entries[j] := by
    rw [hent, getElem_set, if_neg hj]
  have hw : Table w P := by
    constructor
    · have hsl : w.slots = s.slots := by rw [← hwr]
      rw [hsl]
      apply htb.indexed.congr (fun _ => .rfl)
      intro j hj
      rw [hother j (fun hji => hi (hji ▸ hj))]
    · rw [htombs, htb.counted, ← hwr]
  rw [hp, ← hent]
  split
  case isTrue =>
    obtain ⟨htb', hzero⟩ := table_rebuildIndex w
    exact ⟨htb', by omega⟩
  case isFalse hfew =>
    have hname : w.entries[i].id = id := by rw [hself, fresh]
    obtain ⟨htb', hdown⟩ := hw.insertIndex hi (htombs ▸ hroom)
    rw [hname] at htb' hdown
    refine ⟨htb'.congr ?_, by omega⟩
    intro j
    by_cases hj : j = i
    · subst hj
      rw [hself]
      simp [fresh]
    · rw [hother j hj, ← hoth j hj]
      simp [hj]

section

variable (s : Store)

def olderRound (found : Option (Fin maxEntries) × UInt64) (i : Fin maxEntries) : Option (Fin maxEntries) × UInt64 :=
  if s.entries[i].used && s.entries[i].lastUpdated ≤ found.2 then (some i, s.entries[i].lastUpdated) else found

structure Oldest (seen : List (Fin maxEntries)) (found : Option (Fin maxEntries) × UInt64) : Prop where
  least : ∀ j ∈ seen, s.entries[j].used → found.2 ≤ s.entries[j].lastUpdated
  some_used : ∀ i, found.1 = some i → s.entries[i].used ∧ s.entries[i].lastUpdated = found.2
  none_used : found.1 = none → found.2 = UInt64.ofNat (2 ^ 64 - 1) ∧ ∀ j ∈ seen, ¬s.entries[j].used

theorem le_greatest (a) : a ≤ UInt64.ofNat (2 ^ 64 - 1) := by
  rw [UInt64.le_iff_toNat_le]
  have := a.toNat_lt
  simp only [UInt64.toNat_ofNat']
  omega

theorem Oldest.round {seen found} (h : Oldest s seen found) (i) : Oldest s (seen ++ [i]) (olderRound s found i) := by
  unfold olderRound
  split
  case isTrue htk =>
    simp only [Bool.and_eq_true, decide_eq_true_eq] at htk
    refine ⟨?_, ?_, by simp⟩
    · intro j hj hus
      rcases mem_append.1 hj with hj | hj
      · exact UInt64.le_trans htk.2 (h.least j hj hus)
      · obtain rfl := mem_singleton.1 hj
        exact UInt64.le_refl _
    · intro j hj
      obtain rfl := Option.some.inj hj
      exact ⟨htk.1, rfl⟩
  case isFalse hpas =>
    simp only [Bool.and_eq_true, decide_eq_true_eq, not_and, UInt64.not_le] at hpas
    refine ⟨?_, h.some_used, ?_⟩
    · intro j hj hus
      rcases mem_append.1 hj with hj | hj
      · exact h.least j hj hus
      · obtain rfl := mem_singleton.1 hj
        exact UInt64.le_of_lt (hpas hus)
    · intro hno
      obtain ⟨htime, hseen⟩ := h.none_used hno
      refine ⟨htime, ?_⟩
      intro j hj hus
      rcases mem_append.1 hj with hj | hj
      · exact hseen j hj hus
      obtain rfl := mem_singleton.1 hj
      have hlt := hpas hus
      rw [htime] at hlt
      exact UInt64.not_lt.2 (le_greatest _) hlt

theorem oldest_rounds (rounds) : Oldest s rounds (rounds.foldl (olderRound s) (none, UInt64.ofNat (2 ^ 64 - 1))) := by
  induction rounds using reverseRecOn with
  | nil => exact ⟨by simp, by simp, by simp⟩
  | append_singleton rounds i ih =>
    rw [foldl_append]
    exact ih.round s i

theorem oldest_eq :
    oldest s = ((finRange maxEntries).foldl (olderRound s) (none, UInt64.ofNat (2 ^ 64 - 1))).1 := rfl

theorem oldest_spec : ∃ time, Oldest s (finRange maxEntries) (oldest s, time) := by
  have h := oldest_rounds s (finRange maxEntries)
  rw [oldest_eq]
  generalize foldl _ _ _ = found at h ⊢
  exact ⟨found.2, h⟩

end

structure Writes (s s' : Store) (i : Fin maxEntries) (m : Metrics) : Prop where
  sound : Sound s'
  entries : s'.entries = s.entries.set i m

theorem quarter_lt : indexCapacity / 4 + 1 < maxEntries := by decide

theorem Sound.place {s₀} (h : Sound s) {P} (htb : Table s₀ P) (hi : ¬P i)
    (hoth : ∀ j, j ≠ i → (P j ↔ s.entries[j].used)) (hent : s₀.entries = s.entries)
    (hroom : s₀.tombstones < maxEntries) (hf : ∀ j, j ∈ s₀.freeSlots ↔ j ∈ s.freeSlots ∧ j ≠ i)
    (hnd : s₀.freeSlots.Nodup) (hnew : find s id = none) (now : UInt64) :
    Writes s (place s₀ i id now) i (fresh id now) := by
  rw [← hent] at hoth
  obtain ⟨htb, hroom⟩ := place_spec htb hi hoth hroom id now
  obtain ⟨hwr, hsl, -⟩ := place_same s₀ i id now
  dsimp only at hwr hsl
  rw [← hwr] at htb
  rw [hent] at hwr
  generalize EngineMetrics.place s₀ i id now = s' at *
  have hself : s'.entries[i] = fresh id now := by rw [hwr, getElem_set, if_pos rfl]
  have hother (j) (hj : j ≠ i) : s'.entries[j] = s.entries[j] := by
    rw [hwr, getElem_set, if_neg hj]
  -- No other row has the new name, for the search has not found it.
  have hunn (j) (hj : j ≠ i) (hus : s'.entries[j].used) : s'.entries[j].id ≠ id := by
    rw [hother j hj] at hus ⊢
    intro hid
    rw [h.find_eq_some_iff.2 ⟨hus, hid⟩] at hnew
    cases hnew
  refine ⟨⟨⟨htb, ?_⟩, hroom, ?_, hsl ▸ hnd, ?_⟩, hwr⟩
  · intro j k hj hk hjk
    by_cases hji : j = i
    · by_cases hki : k = i
      · rw [hji, hki]
      · rw [hji, hself] at hjk
        exact absurd hjk.symm (hunn k hki hk)
    · by_cases hki : k = i
      · rw [hki, hself] at hjk
        exact absurd hjk (hunn j hji hj)
      rw [hother j hji] at hj hjk
      rw [hother k hki] at hk hjk
      exact h.distinct j k hj hk hjk
  · intro j
    rw [hsl, hf]
    by_cases hji : j = i
    · subst hji
      rw [hself]
      simp [fresh]
    · rw [hother j hji, h.free]
      exact and_iff_left hji
  · intro j
    by_cases hji : j = i
    · subst hji
      rw [hself, fresh]
    · rw [hother j hji]
      exact h.unmarked j

/-- A name that is not found gets a free row, or that of a row updated longest ago. -/
inductive Allocates (s : Store) (id now : UInt64) : Store × Fin maxEntries → Prop
  | free {s' : Store} {i : Fin maxEntries} (hfree : i ∈ s.freeSlots) (h : Writes s s' i (fresh id now)) :
      Allocates s id now (s', i)
  | evict {s' : Store} {i : Fin maxEntries} (hfull : s.freeSlots = []) (hused : s.entries[i].used)
      (hleast : ∀ j : Fin maxEntries, s.entries[j].used → s.entries[i].lastUpdated ≤ s.entries[j].lastUpdated)
      (h : Writes s s' i (fresh id now)) : Allocates s id now (s', i)

theorem Sound.allocate (h : Sound s) (hnew : find s id = none) (now) :
    ∃ out, allocate s id now = some out ∧ Allocates s id now out := by
  have hquar := quarter_lt
  have hroom := h.room
  unfold EngineMetrics.allocate
  split
  case h_1 i rest hf =>
    have hnd := h.nodup
    rw [hf, nodup_cons] at hnd
    have hunus : s.entries[i].used = false := (h.free i).1 (hf ▸ mem_cons_self)
    have htb : Table { s with freeSlots := rest, count := s.count + 1 } (fun j => s.entries[j].used) :=
      ⟨h.table.indexed, h.table.counted⟩
    refine ⟨_, rfl, .free (hf ▸ mem_cons_self) ?_⟩
    apply h.place htb
    · rw [hunus]
      exact Bool.false_ne_true
    · exact fun _ _ => Iff.rfl
    · rfl
    · dsimp only
      omega
    · intro j
      rw [hf, mem_cons]
      constructor
      · intro hj
        exact ⟨.inr hj, fun hji => hnd.1 (hji ▸ hj)⟩
      · rintro ⟨hj | hj, hji⟩
        · exact absurd hj hji
        · exact hj
    · exact hnd.2
    · exact hnew
  case h_2 hfull =>
    have hall (j : Fin maxEntries) : s.entries[j].used := by
      have hj : ¬s.entries[j].used = false := by
        rw [← h.free, hfull]
        exact not_mem_nil
      exact Bool.eq_true_of_not_eq_false hj
    obtain ⟨time, holde⟩ := oldest_spec s
    cases hfo : oldest s with
    | none =>
      rw [hfo] at holde
      exact absurd (hall 0) ((holde.none_used rfl).2 0 (mem_finRange 0))
    | some i =>
      rw [hfo] at holde
      obtain ⟨hus, htime⟩ := holde.some_used i rfl
      refine ⟨_, rfl, .evict hfull hus ?_ ?_⟩
      · intro j hj
        rw [htime]
        exact holde.least j (mem_finRange j) hj
      · obtain ⟨htb, htombs⟩ := h.table.removeIndex hus (h.holds_iff_eq hus)
        have hsame := removeIndex_same s s.entries[i].id
        apply h.place htb
        · exact fun hi => hi.2 rfl
        · intro j hj
          exact and_iff_left hj
        · exact hsame.entries
        · omega
        · rw [hsame.freeSlots, hfull]
          simp
        · rw [hsame.freeSlots]
          exact h.nodup
        · exact hnew

theorem record_same (m success elapsedMs now) :
    (record m success elapsedMs now).used = m.used ∧ (record m success elapsedMs now).id = m.id ∧
      (record m success elapsedMs now).kept = m.kept := by
  unfold record
  dsimp only
  split_ifs <;> exact ⟨rfl, rfl, rfl⟩

/-- The entry has the name, and the time as that of its last update. -/
def Recorded (id now : UInt64) (m : Metrics) : Prop := m.id = id ∧ m.lastUpdated = now

theorem recorded (m success elapsedMs now) : Recorded m.id now (record m success elapsedMs now) :=
  ⟨(record_same m success elapsedMs now).2.1, rfl⟩

abbrev Ledger := UInt64 → Option Metrics

def names (m : Ledger) : Set UInt64 := { id | m id ≠ none }

theorem ncard_names (h : Findable s) :
    (names (EngineMetrics.get s)).ncard = { i : Fin maxEntries | s.entries[i].used }.ncard := by
  have himage : names (get s) =
      (fun i : Fin maxEntries => s.entries[i].id) '' { i : Fin maxEntries | s.entries[i].used } := by
    ext id
    rw [names, Set.mem_ofPred_eq, Option.ne_none_iff_exists']
    constructor
    · rintro ⟨x, hx⟩
      obtain ⟨i, rfl, hus, hid⟩ := h.get_eq_some_iff.1 hx
      exact ⟨i, hus, hid⟩
    · rintro ⟨i, hus, hid⟩
      exact ⟨s.entries[i], h.get_eq_some_iff.2 ⟨i, rfl, hus, hid⟩⟩
  rw [himage]
  apply Set.InjOn.ncard_image
  intro i hi j hj hij
  exact h.distinct i j hi hj hij

theorem Sound.ncard_names_add (h : Sound s) :
    (names (EngineMetrics.get s)).ncard + s.freeSlots.length = maxEntries := by
  have hus : { i : Fin maxEntries | s.entries[i].used } =
      (Finset.univ.filter fun i => s.entries[i].used : Finset (Fin maxEntries)) := by
    ext i
    simp
  have hf : s.freeSlots.toFinset = Finset.univ.filter fun i => ¬s.entries[i].used := by
    ext i
    simp [h.free]
  rw [ncard_names h.toFindable, hus, Set.ncard_coe_finset, ← toFinset_card_of_nodup h.nodup, hf,
    Finset.card_filter_add_card_filter_not, Finset.card_fin]

inductive Op
  | observe (id : UInt64) (success : Bool) (elapsedMs : Float) (now : UInt64)
  | get (id : UInt64)
  | prune (ids : List UInt64)
  | reset

def step (s : Store) : Op → Store
  | .observe id success elapsedMs now => observe s id success elapsedMs now
  | .get _ => s
  | .prune ids => prune s ids
  | .reset => {}

def after (ops : List Op) : Store := run step {} ops

/-- A bounded map. A new name is let in while there is room, and else in the
place of one that was updated longest ago. -/
inductive Spec (m : Ledger) : Op → Ledger → Prop
  | ignored {success : Bool} {elapsedMs : Float} {now : UInt64} : Spec m (.observe 0 success elapsedMs now) m
  | again {id : UInt64} {success : Bool} {elapsedMs : Float} {now : UInt64} {x : Metrics} (hid : id ≠ 0)
      (hx : m id = some x) (hrec : Recorded id now (record x success elapsedMs now)) :
      Spec m (.observe id success elapsedMs now)
        (Function.update m id (some (record x success elapsedMs now)))
  | enters {id : UInt64} {success : Bool} {elapsedMs : Float} {now : UInt64} (hid : id ≠ 0)
      (hnew : m id = none) (hroom : (names m).ncard < maxEntries)
      (hrec : Recorded id now (record (fresh id now) success elapsedMs now)) :
      Spec m (.observe id success elapsedMs now)
        (Function.update m id (some (record (fresh id now) success elapsedMs now)))
  | replaces {id : UInt64} {success : Bool} {elapsedMs : Float} {now : UInt64} {victim : UInt64} {x : Metrics}
      (hid : id ≠ 0) (hnew : m id = none) (hfull : (names m).ncard = maxEntries) (hvictim : m victim = some x)
      (hleast : ∀ other y, m other = some y → x.lastUpdated ≤ y.lastUpdated)
      (hrec : Recorded id now (record (fresh id now) success elapsedMs now)) :
      Spec m (.observe id success elapsedMs now)
        (Function.update (Function.update m victim none) id (some (record (fresh id now) success elapsedMs now)))
  | get {id : UInt64} : Spec m (.get id) m
  | prune {ids : List UInt64} : Spec m (.prune ids) (fun id => if id ∈ ids then m id else none)
  | reset : Spec m .reset (fun _ => none)

structure Serves (s : Store) (op : Op) (s' : Store) : Prop where
  sound : Sound s'
  spec : Spec (EngineMetrics.get s) op (EngineMetrics.get s')

theorem Writes.record {m} (h : Sound s) (hw : Writes s s' i m) (hus : m.used) (success : Bool) (elapsedMs : Float)
    (now) : let s'' := { s' with entries := s'.entries.set i (record s'.entries[i] success elapsedMs now) }
    Sound s'' ∧ ∀ id, EngineMetrics.get s'' id = if id = m.id then some (record m success elapsedMs now)
      else if s.entries[i].used ∧ s.entries[i].id = id then none else EngineMetrics.get s id := by
  have htwice (x) : s'.entries.set i x = s.entries.set i x := by rw [hw.entries, Vector.set_set]
  obtain rfl : s'.entries[i] = m := by rw [hw.entries, getElem_set, if_pos rfl]
  obtain ⟨hrus, hrid, hrkept⟩ := record_same s'.entries[i] success elapsedMs now
  have hso := hw.sound.rewrite hrus hrid (hrkept.trans (hw.sound.unmarked i))
  refine ⟨hso, ?_⟩
  rw [← hrid]
  exact get_of_set h.toFindable hso.toFindable (htwice _) (hrus.trans hus)

theorem Sound.observe_again (h : Sound s) (hid : id ≠ 0) (hf : find s id = some i) (success elapsedMs now) :
    Serves s (.observe id success elapsedMs now) (observe s id success elapsedMs now) := by
  obtain ⟨hus, rfl⟩ := h.find_eq_some_iff.1 hf
  have hsame : Writes s s i s.entries[i] := ⟨h, (Vector.set_getElem_self _).symm⟩
  obtain ⟨hso, hget⟩ := hsame.record h hus success elapsedMs now
  rw [observe, if_neg hid, hf]
  refine ⟨hso, ?_⟩
  convert Spec.again hid (h.get_eq_some_iff.2 ⟨i, rfl, hus, rfl⟩) (recorded ..) using 1
  funext id'
  refine (hget id').trans ?_
  rw [Function.update_apply]
  split
  · rfl
  case isFalse hid' => exact if_neg fun hold => hid' hold.2.symm

theorem Sound.observe_new (h : Sound s) (hid : id ≠ 0) (hnew : find s id = none) (success elapsedMs now) :
    Serves s (.observe id success elapsedMs now) (observe s id success elapsedMs now) := by
  obtain ⟨⟨s', i⟩, halc, hcase⟩ := h.allocate hnew now
  have hwr : Writes s s' i (fresh id now) := by
    cases hcase with
    | free _ hw | evict _ _ _ hw => exact hw
  obtain ⟨hso, hget⟩ := hwr.record h rfl success elapsedMs now
  rw [observe, if_neg hid, hnew, halc]
  refine ⟨hso, ?_⟩
  have hno : get s id = none := by rw [EngineMetrics.get, hnew, Option.map_none]
  have hnam := h.ncard_names_add
  cases hcase with
  | free hf =>
    have hlen := length_pos_of_mem hf
    convert Spec.enters hid hno (by omega) (recorded ..) using 1
    funext id'
    refine (hget id').trans ?_
    have hunus : ¬(s.entries[i].used ∧ s.entries[i].id = id') := by
      rw [(h.free i).1 hf]
      exact fun hold => Bool.false_ne_true hold.1
    rw [Function.update_apply, if_neg hunus]
    rfl
  | evict hfull hus hleast =>
    rw [hfull, length_nil] at hnam
    convert Spec.replaces hid hno hnam (h.get_eq_some_iff.2 ⟨i, rfl, hus, rfl⟩) _ (recorded ..) using 1
    · funext id'
      refine (hget id').trans ?_
      rw [Function.update_apply, Function.update_apply]
      simp only [hus, true_and, eq_comm (a := id') (b := s.entries[i].id)]
      rfl
    · intro other y hy
      obtain ⟨j, rfl, hj, -⟩ := h.get_eq_some_iff.1 hy
      exact hleast j hj

theorem Sound.observe (h : Sound s) (id success elapsedMs now) :
    Serves s (.observe id success elapsedMs now) (observe s id success elapsedMs now) := by
  by_cases hid : id = 0
  · subst hid
    exact ⟨h, .ignored⟩
  cases hf : find s id with
  | none => exact h.observe_new hid hf success elapsedMs now
  | some i => exact h.observe_again hid hf success elapsedMs now

structure SameIndex (s s' : Store) : Prop where
  slots : s'.slots = s.slots
  tombstones : s'.tombstones = s.tombstones
  freeSlots : s'.freeSlots = s.freeSlots

def marked (ids : List UInt64) (m : Metrics) : Metrics :=
  { m with kept := m.kept || (m.used && decide (m.id ∈ ids)) }

theorem marked_other {m} (h : ¬(m.used ∧ m.id = id)) : marked [id] m = m := by
  have hunm : (m.used && decide (m.id ∈ [id])) = false := by
    rw [Bool.eq_false_iff, Ne, Bool.and_eq_true, decide_eq_true_eq, mem_singleton]
    exact h
  rw [marked, hunm, Bool.or_false]

theorem keep_spec (h : Findable s) (id : UInt64) : Findable (keep s id) ∧ SameIndex s (keep s id) ∧
      ∀ i : Fin maxEntries, (keep s id).entries[i] = marked [id] s.entries[i] := by
  unfold keep
  split
  case h_1 hno =>
    refine ⟨h, ⟨rfl, rfl, rfl⟩, ?_⟩
    intro i
    apply (marked_other _).symm
    intro hf
    rw [h.find_eq_some_iff.2 hf] at hno
    cases hno
  case h_2 i hfd =>
    obtain ⟨hus, hid⟩ := h.find_eq_some_iff.1 hfd
    refine ⟨h.rewrite rfl rfl, ⟨rfl, rfl, rfl⟩, ?_⟩
    intro j
    dsimp only
    rw [getElem_set]
    split
    case isTrue hj =>
      subst hj
      rw [marked, hus, hid]
      simp
    case isFalse hj =>
    apply (marked_other _).symm
    rintro ⟨hjus, hjid⟩
    exact hj (h.distinct j i hjus hus (hjid.trans hid.symm))

theorem marked_marked (id ids m) : marked ids (marked [id] m) = marked (id :: ids) m := by
  unfold marked
  simp [Bool.or_assoc, Bool.and_or_distrib_left]

theorem keeps_spec (h : Findable s) (ids) : SameIndex s (ids.foldl keep s) ∧
      ∀ i : Fin maxEntries, (ids.foldl keep s).entries[i] = marked ids s.entries[i] := by
  induction ids generalizing s with
  | nil =>
    refine ⟨⟨rfl, rfl, rfl⟩, ?_⟩
    simp [marked]
  | cons id ids ih =>
    obtain ⟨hf, hidx, hmark⟩ := keep_spec h id
    obtain ⟨hidx', hmark'⟩ := ih hf
    rw [foldl_cons]
    refine ⟨⟨hidx'.slots.trans hidx.slots, hidx'.tombstones.trans hidx.tombstones,
      hidx'.freeSlots.trans hidx.freeSlots⟩, ?_⟩
    intro i
    rw [hmark', hmark, marked_marked]

def swept (m : Metrics) : Metrics :=
  if !m.used then m else if m.kept then { m with kept := false } else {}

structure Freed (s : Store) : Prop where
  free : ∀ i : Fin maxEntries, i ∈ s.freeSlots ↔ s.entries[i].used = false
  nodup : s.freeSlots.Nodup

theorem sweep_spec (h : Freed s) (i : Fin maxEntries) : Freed (sweep s i) ∧
      ∀ j, (sweep s i).entries[j] = if j = i then swept s.entries[i] else s.entries[j] := by
  unfold sweep swept
  split
  case isTrue hunus =>
    refine ⟨h, ?_⟩
    intro j
    split
    case isTrue hj => rw [hj]
    case isFalse => rfl
  case isFalse hus =>
    have hi : s.entries[i].used := by simpa using hus
    split
    case isTrue hkept =>
      refine ⟨⟨?_, h.nodup⟩, fun j => getElem_set ..⟩
      intro j
      rw [h.free, getElem_set]
      split
      case isTrue hj => rw [hj]
      case isFalse => rfl
    case isFalse hdrop =>
      have hnot : i ∉ s.freeSlots := by
        rw [h.free, hi]
        exact Bool.true_eq_false_eq_False
      refine ⟨⟨?_, nodup_cons.2 ⟨hnot, h.nodup⟩⟩, fun j => getElem_set ..⟩
      intro j
      rw [mem_cons, h.free, getElem_set]
      split
      case isTrue hj => simp [hj]
      case isFalse hj => simp [hj]

theorem sweeps_spec (h : Freed s) (rest : List (Fin maxEntries)) (hr : rest.Nodup) : Freed (rest.foldl sweep s) ∧
      ∀ j,
        (rest.foldl sweep s).entries[j] = if j ∈ rest then swept s.entries[j] else s.entries[j] := by
  induction rest generalizing s with
  | nil => exact ⟨h, fun j => by simp⟩
  | cons i rest ih =>
    obtain ⟨hi, hr⟩ := nodup_cons.1 hr
    obtain ⟨hfreed, hent⟩ := sweep_spec h i
    obtain ⟨hfreed', hent'⟩ := ih hfreed hr
    rw [foldl_cons]
    refine ⟨hfreed', ?_⟩
    intro j
    rw [hent', hent]
    by_cases hji : j = i
    · subst hji
      rw [if_neg hi, if_pos rfl, if_pos mem_cons_self]
    · rw [if_neg hji]
      simp only [mem_cons, hji, false_or]

theorem swept_marked {m} (hkept : m.kept = false) (ids) :
    swept (marked ids m) = if m.used ∧ m.id ∉ ids then {} else m := by
  obtain ⟨id, used, kept⟩ := m
  subst hkept
  cases used with
  | false => simp [swept, marked]
  | true =>
    by_cases hid : id ∈ ids
    · simp [swept, marked]
    · simp [swept, marked]

theorem Sound.freed (h : Sound s) (ids : List UInt64) : Freed (ids.foldl keep s) := by
  obtain ⟨hidx, hmark⟩ := keeps_spec h.toFindable ids
  refine ⟨?_, hidx.freeSlots ▸ h.nodup⟩
  intro i
  rw [hidx.freeSlots, h.free, hmark, marked]

theorem Sound.prune (h : Sound s) (ids : List UInt64) : Serves s (.prune ids) (prune s ids) := by
  obtain ⟨-, hmark⟩ := keeps_spec h.toFindable ids
  obtain ⟨hfreed', hswept⟩ := sweeps_spec (h.freed ids) (finRange maxEntries) (nodup_finRange _)
  have hsame := rebuildIndex_same ((finRange maxEntries).foldl sweep (ids.foldl keep s))
  obtain ⟨htb, hzero⟩ := table_rebuildIndex ((finRange maxEntries).foldl sweep (ids.foldl keep s))
  have hpr : EngineMetrics.prune s ids =
      rebuildIndex ((finRange maxEntries).foldl sweep (ids.foldl keep s)) := rfl
  rw [← hpr] at htb hsame hzero
  have hrow (i : Fin maxEntries) : (EngineMetrics.prune s ids).entries[i] =
      if s.entries[i].used ∧ s.entries[i].id ∉ ids then {} else s.entries[i] := by
    rw [hsame.entries, hswept, if_pos (mem_finRange i), hmark, swept_marked (h.unmarked i)]
  generalize (finRange maxEntries).foldl sweep (ids.foldl keep s) = w at *
  generalize EngineMetrics.prune s ids = s' at *
  have hleft (i : Fin maxEntries) (hus : s'.entries[i].used) :
      s'.entries[i] = s.entries[i] ∧ s.entries[i].id ∈ ids := by
    rw [hrow] at hus ⊢
    split at hus
    · cases hus
    case isFalse hkept =>
      rw [if_neg hkept]
      exact ⟨rfl, not_not.1 fun hid => hkept ⟨hus, hid⟩⟩
  have hf : Findable s' := by
    refine ⟨htb.congr ?_, ?_⟩
    · intro i
      rw [hsame.entries]
    · intro i j hi hj hij
      have hi' := (hleft i hi).1
      have hj' := (hleft j hj).1
      rw [hi'] at hi hij
      rw [hj'] at hj hij
      exact h.distinct i j hi hj hij
  refine ⟨⟨hf, by omega, ?_, hsame.freeSlots ▸ hfreed'.nodup, ?_⟩, ?_⟩
  · intro i
    rw [hsame.freeSlots, hfreed'.free, hsame.entries]
  · intro i
    rw [hrow]
    split
    · rfl
    · exact h.unmarked i
  · have hget : EngineMetrics.get s' = fun id => if id ∈ ids then EngineMetrics.get s id else none := by
      funext id
      apply Option.ext
      intro x
      rw [hf.get_eq_some_iff]
      constructor
      · rintro ⟨i, rfl, hus, hid⟩
        obtain ⟨hsame, hkept⟩ := hleft i hus
        rw [hsame] at hus hid ⊢
        rw [hid] at hkept
        rw [if_pos hkept]
        exact h.get_eq_some_iff.2 ⟨i, rfl, hus, hid⟩
      · intro hx
        split at hx
        case isTrue hkept =>
          obtain ⟨i, rfl, hus, hid⟩ := h.get_eq_some_iff.1 hx
          refine ⟨i, ?_, hus, hid⟩
          rw [hrow, if_neg]
          rintro ⟨-, hgone⟩
          exact hgone (hid ▸ hkept)
        · cases hx
    rw [hget]
    exact .prune

theorem row_new (i : Fin maxEntries) : ({} : Store).entries[i] = {} := Vector.getElem_replicate _

theorem sound_new : Sound {} := by
  have hunus (i : Fin maxEntries) : ¬({} : Store).entries[i].used := by
    rw [row_new]
    exact Bool.false_ne_true
  refine ⟨⟨⟨(indexed_nothing _).congr (fun i => iff_of_false not_false (hunus i)) fun _ _ => rfl, ?_⟩, ?_⟩,
    Nat.zero_le _, ?_, ?_, fun i => by rw [row_new]⟩
  · rw [graves_nothing]
    rfl
  · intro i _ hi
    exact absurd hi (hunus i)
  · intro i
    dsimp only
    exact iff_of_true (mem_finRange i) (Bool.eq_false_iff.2 (hunus i))
  · dsimp only
    exact nodup_finRange _

theorem get_new : EngineMetrics.get {} = fun _ => none := by
  funext id
  rw [Option.eq_none_iff_forall_ne_some]
  intro x hx
  obtain ⟨i, rfl, hus, -⟩ := sound_new.get_eq_some_iff.1 hx
  rw [row_new] at hus
  cases hus

theorem Sound.step (h : Sound s) (op) : Serves s op (step s op) := by
  cases op with
  | observe id success elapsedMs now => exact h.observe id success elapsedMs now
  | get => exact ⟨h, .get⟩
  | prune ids => exact h.prune ids
  | reset =>
    refine ⟨sound_new, ?_⟩
    rw [MetricsLedger.step, get_new]
    exact .reset

/-- The store behaves as a bounded map. No lookup gets to a row of another name. -/
theorem store_is_bounded_map (ops : List Op) :
    Follows Spec (fun _ => none) ops (EngineMetrics.get (after ops)) ∧
      (names (EngineMetrics.get (after ops))).ncard ≤ maxEntries ∧
        ∀ id m, EngineMetrics.get (after ops) id = some m → m.id = id := by
  have hso : Sound (after ops) := run_invariant (I := Sound) (fun _ op h => (h.step op).sound) sound_new ops
  refine ⟨?_, hso.ncard_names_add ▸ Nat.le_add_right .., ?_⟩
  · rw [← get_new]
    exact follows_of_simulation (I := Sound) (fun _ op h => (h.step op).sound) (fun _ op h => (h.step op).spec) sound_new ops
  · intro id m hm
    obtain ⟨i, -, -, hid⟩ := hso.get_eq_some_iff.1 hm
    exact hid

def Balanced (s : Store) : Prop := s.count + s.freeSlots.length = maxEntries

theorem Balanced.of_same (h : Balanced s) (hsame : SameEntries s s') : Balanced s' := by
  rw [Balanced, hsame.count, hsame.freeSlots]
  exact h

theorem Balanced.allocate {now} (out) (h : Balanced s) (hout : allocate s id now = some out) : Balanced out.1 := by
  have hp {t} (ht : Balanced t) (i) : Balanced (EngineMetrics.place t i id now) :=
    Balanced.of_same (s := { t with entries := t.entries.set i (fresh id now) }) ht (place_same t i id now)
  unfold EngineMetrics.allocate at hout
  split at hout
  case h_1 i rest hf =>
    cases hout
    rw [Balanced, hf, length_cons] at h
    exact hp (by rw [Balanced]; dsimp only; omega) i
  case h_2 =>
    obtain ⟨i, -, rfl⟩ := Option.map_eq_some_iff.1 hout
    exact hp (h.of_same (removeIndex_same s _)) i

theorem Balanced.observe (h : Balanced s) (id success elapsedMs now) :
    Balanced (observe s id success elapsedMs now) := by
  unfold EngineMetrics.observe
  split
  · exact h
  split
  · exact h
  case h_2 t i hf =>
  cases hfd : find s id with
  | none =>
    rw [hfd] at hf
    exact h.allocate (t, i) hf
  | some j =>
    rw [hfd] at hf
    cases hf
    exact h

theorem Balanced.sweep (h : Balanced s) (hfreed : Freed s) (i) : Balanced (sweep s i) := by
  unfold EngineMetrics.sweep
  split
  · exact h
  case isFalse hus =>
  split
  · exact h
  -- A row in use is not free, so that not all rows are.
  have hnot : i ∉ s.freeSlots := by
    rw [hfreed.free]
    simpa using hus
  have hlen := (nodup_cons.2 ⟨hnot, hfreed.nodup⟩).length_le_card
  rw [length_cons, Fintype.card_fin] at hlen
  rw [Balanced] at h ⊢
  rw [length_cons]
  dsimp only
  omega

theorem Balanced.prune (h : Balanced s) (hs : Sound s) (ids : List UInt64) : Balanced (prune s ids) := by
  have hkept : Balanced (ids.foldl keep s) := by
    refine run_invariant (I := Balanced) (fun t id ht => ?_) h ids
    unfold keep
    split <;> exact ht
  have hswept := run_invariant (I := fun t => Freed t ∧ Balanced t)
    (fun t i ht => ⟨(sweep_spec ht.1 i).1, ht.2.sweep ht.1 i⟩) ⟨hs.freed ids, hkept⟩ (finRange maxEntries)
  exact hswept.2.of_same (rebuildIndex_same _)

theorem Sound.vacant_removeIndex (h : Sound s) (id : UInt64) : ∃ p, Vacant (removeIndex s id).slots p := by
  obtain ⟨p, hp⟩ := h.table.indexed.exists_vacant (h.table.counted ▸ h.room.trans_lt (by decide))
  refine ⟨p, ?_⟩
  unfold removeIndex
  split
  · exact hp
  case h_2 position i hf =>
    have hsl := (findFrom_found hf).1
    rw [Vacant] at hp ⊢
    rw [getElem_set, if_neg]
    · exact hp
    · rintro rfl
      rw [hp] at hsl
      cases hsl

/-- After any calls, an eviction or a round of a rebuild the index has a vacant slot. -/
theorem index_never_full (ops : List Op) :
    let s := after ops
    s.count + s.freeSlots.length = maxEntries ∧
    (∀ i : Fin maxEntries, i ∈ s.freeSlots ↔ s.entries[i].used = false) ∧ s.freeSlots.Nodup ∧
    s.tombstones = (graves s.slots).card ∧ (live s.slots).card + s.tombstones < indexCapacity ∧
    (∀ p, insertFrom s.slots none indexCapacity p ≠ none) ∧
    (∀ id p, insertFrom (removeIndex s id).slots none indexCapacity p ≠ none) ∧
    ∀ (w : Store) rounds p, rounds <+: finRange maxEntries → insertFrom (rounds.foldl rebuildRound
      { w with slots := Vector.replicate indexCapacity .empty, tombstones := 0 }).slots none indexCapacity p ≠ none := by
  intro s
  have hnew : Balanced {} := by
    rw [Balanced, length_finRange, Nat.zero_add]
  have hrun : Sound s ∧ Balanced s := by
    refine run_invariant (I := fun t => Sound t ∧ Balanced t) (fun t op ht => ⟨(ht.1.step op).sound, ?_⟩)
      ⟨sound_new, hnew⟩ ops
    cases op with
    | observe id success elapsedMs now => exact ht.2.observe id success elapsedMs now
    | get => exact ht.2
    | prune ids => exact ht.2.prune ht.1 ids
    | reset => exact hnew
  obtain ⟨hso, hbal⟩ := hrun
  have hroom : s.tombstones < maxEntries := hso.room.trans_lt (by decide)
  refine ⟨hbal, hso.free, hso.nodup, hso.table.counted, ?_,
    insertFrom_ends (hso.table.indexed.exists_vacant (hso.table.counted ▸ hroom)),
    fun id => insertFrom_ends (hso.vacant_removeIndex id), fun w rounds p hinit => ?_⟩
  · have hlive := hso.table.indexed.card_live
    have hcap : indexCapacity = 2 * maxEntries := rfl
    omega
  · obtain ⟨htb, hzero⟩ := table_rebuilding w (hinit.sublist.nodup (nodup_finRange maxEntries))
    exact insertFrom_ends (htb.indexed.exists_vacant (by rw [← htb.counted, hzero]; decide)) p

end SingBox.MetricsLedger
