import Mathlib.Data.List.Count
import Mathlib.Data.List.Nodup
import Mathlib.Data.List.Range
import SingBox.Arena

namespace SingBox.Races

open List Arena

variable {α β η : Type}

/-- Where an attempt of a race stands. An attempt may end without a result. -/
inductive Stage (α β : Type)
  | idle
  | running (work : α)
  | queued (result : β)
  | taken (result : β)
  | silent
  deriving DecidableEq

def Stage.isActive : Stage α β → Bool
  | .idle => false
  | .taken _ => false
  | _ => true

@[simp] theorem Stage.isActive_idle : (.idle : Stage α β).isActive = false := rfl

@[simp] theorem Stage.isActive_running (work) : (.running work : Stage α β).isActive = true := rfl

@[simp] theorem Stage.isActive_queued (result) : (.queued result : Stage α β).isActive = true := rfl

@[simp] theorem Stage.isActive_taken (result) : (.taken result : Stage α β).isActive = false := rfl

@[simp] theorem Stage.isActive_silent : (.silent : Stage α β).isActive = true := rfl

structure Entry (α β η : Type) where
  stage : Stage α β
  note : η
  deriving DecidableEq

/-- A race as its supervisor sees it. The attempts are started in order, and
their results go through one buffered channel. `starts` are the attempts that
were started, first to last. -/
structure Board (α β η : Type) where
  slots : List (Entry α β η)
  started : Nat := 0
  active : Nat := 0
  buffer : List Nat := []
  starts : List Nat := []
  deriving DecidableEq

def Board.new (n : Nat) (note : η) : Board α β η := { slots := List.replicate n ⟨.idle, note⟩ }

namespace Board

variable (b : Board α β η)

def start (work : α) : Board α β η :=
  match b.slots[b.started]? with
  | none => b
  | some e =>
    { b with
      slots := b.slots.set b.started { e with stage := .running work }
      started := b.started + 1
      active := b.active + 1
      starts := b.starts ++ [b.started] }

def change (i : Nat) (e : Entry α β η) : Board α β η := { b with slots := b.slots.set i e }

def send (i : Nat) (result : β) (note : η) : Board α β η :=
  { b with slots := b.slots.set i ⟨.queued result, note⟩, buffer := b.buffer ++ [i] }

def take : Option (Nat × β × Board α β η) :=
  match b.buffer with
  | [] => none
  | i :: rest =>
    match b.slots[i]? with
    | some ⟨.queued result, note⟩ =>
      some (i, result,
        { b with slots := b.slots.set i ⟨.taken result, note⟩, active := b.active - 1, buffer := rest })
    | _ => none

end Board

structure Fair (b : Board α β η) : Prop where
  started_le : b.started ≤ b.slots.length
  idle_iff : ∀ (i : Nat) e, b.slots[i]? = some e → (e.stage = .idle ↔ b.started ≤ i)
  active : b.active = b.slots.countP fun e => e.stage.isActive
  nodup : b.buffer.Nodup
  queued_iff : ∀ i, i ∈ b.buffer ↔ ∃ result note, b.slots[i]? = some ⟨.queued result, note⟩
  starts : b.starts = List.range b.started

variable {b : Board α β η} {i : Nat} {e e' : Entry α β η} {work : α} {result : β} {note : η}

variable {l : List (Entry α β η)} {b' : Board α β η}

theorem countP_set_isActive (h : l[i]? = some e) (e') :
    (l.set i e').countP (fun e => e.stage.isActive) + (if e.stage.isActive then 1 else 0) =
      l.countP (fun e => e.stage.isActive) + if e'.stage.isActive then 1 else 0 := by
  obtain ⟨hlt, rfl⟩ := List.getElem?_eq_some_iff.mp h
  rw [List.countP_set hlt]
  by_cases hp : l[i].stage.isActive
  · have hpos : 0 < l.countP fun e => e.stage.isActive :=
      List.countP_pos_iff.mpr ⟨_, List.getElem_mem hlt, hp⟩
    simp only [hp, if_true]
    omega
  · simp [hp]

namespace Fair

theorem new (n note) : Fair (Board.new n note : Board α β η) where
  started_le := Nat.zero_le _
  idle_iff i e h := by
    obtain ⟨-, rfl⟩ : i < n ∧ (⟨.idle, note⟩ : Entry α β η) = e := by
      simpa [Board.new, getElem?_replicate] using h
    simp [Board.new]
  active := by simp [Board.new, countP_replicate]
  nodup := nodup_nil
  queued_iff i := by simp [Board.new, getElem?_replicate]
  starts := rfl

section

variable (hf : Fair b)
include hf

section

variable (hi : b.slots[i]? = some e)
include hi

theorem idle_iff_set (hidle : e'.stage = .idle ↔ e.stage = .idle) (j f) (h : (b.slots.set i e')[j]? = some f) :
    f.stage = .idle ↔ b.started ≤ j := by
  rcases of_set h with ⟨rfl, rfl⟩ | ⟨-, h⟩
  · exact hidle.trans (hf.idle_iff j e hi)
  · exact hf.idle_iff j f h

theorem active_set (hact : e'.stage.isActive = e.stage.isActive) :
    b.active = (b.slots.set i e').countP fun e => e.stage.isActive := by
  have h := countP_set_isActive hi e'
  rw [hact] at h
  rw [hf.active]
  omega

theorem not_mem_buffer (hrun : e.stage = .running work) : i ∉ b.buffer := by
  intro hm
  obtain ⟨r, n, h⟩ := (hf.queued_iff i).mp hm
  rw [hi] at h
  rw [Option.some.inj h] at hrun
  cases hrun

-- An entry gives way to one that stands the same to the counters and the buffer.
theorem change_same (hidle : e'.stage = .idle ↔ e.stage = .idle) (hact : e'.stage.isActive = e.stage.isActive)
    (hqueued : (∃ result, e'.stage = .queued result) ↔ ∃ result, e.stage = .queued result) :
    Fair (b.change i e') where
  started_le := by simpa [Board.change] using hf.started_le
  idle_iff := hf.idle_iff_set hi hidle
  active := hf.active_set hi hact
  nodup := hf.nodup
  queued_iff j := by
    rw [show (b.change i e').buffer = b.buffer from rfl, hf.queued_iff j]
    by_cases hj : i = j
    · subst hj
      obtain ⟨stage, note⟩ := e
      obtain ⟨stage', note'⟩ := e'
      have hnew : (b.change i ⟨stage', note'⟩).slots[i]? = some ⟨stage', note'⟩ :=
        getElem?_set_self (lt_of_some hi)
      rw [hi, hnew]
      simpa using hqueued.symm
    · simp [Board.change, hj]
  starts := hf.starts

theorem change (hrun : e.stage = .running work) (hact : e'.stage.isActive = true)
    (hqueued : ∀ result, e'.stage ≠ .queued result) : Fair (b.change i e') := by
  have hidle : e'.stage ≠ .idle := by
    intro h
    simp [h] at hact
  apply hf.change_same hi
  · simp [hidle, hrun]
  · simp [hact, hrun]
  · simp [hqueued, hrun]

theorem renote (hstage : e'.stage = e.stage) : Fair (b.change i e') := by
  apply hf.change_same hi <;> rw [hstage]

theorem send (hrun : e.stage = .running work) : Fair (b.send i result note) := by
  have hnot := hf.not_mem_buffer hi hrun
  have hlt := lt_of_some hi
  refine ⟨by simpa [Board.send] using hf.started_le, ?_, ?_, ?_, ?_, hf.starts⟩
  · exact hf.idle_iff_set hi (by simp [hrun])
  · exact hf.active_set hi (by simp [hrun])
  · exact nodup_append.mpr ⟨hf.nodup, nodup_singleton i, by
      rintro a ha c hc rfl
      exact hnot (mem_singleton.mp hc ▸ ha)⟩
  · intro j
    simp only [Board.send, mem_append, hf.queued_iff j]
    by_cases hj : j = i
    · subst hj
      simp [hlt]
    · simp [hj, Ne.symm hj]

end

theorem start (work) : Fair (b.start work) := by
  rw [Board.start]
  split
  · exact hf
  rename_i e he
  have hlt := lt_of_some he
  have hidle : e.stage = .idle := (hf.idle_iff _ e he).mpr le_rfl
  refine ⟨by simpa using Nat.succ_le_of_lt hlt, ?_, ?_, hf.nodup, ?_, ?_⟩
  · intro j f h
    rcases of_set h with ⟨rfl, rfl⟩ | ⟨hne, h⟩
    · exact ⟨nofun, fun hle => absurd hle (Nat.not_succ_le_self _)⟩
    rw [hf.idle_iff j f h]
    dsimp only
    omega
  · have h := countP_set_isActive he { e with stage := .running work }
    simp only [hidle, Stage.isActive_idle, Stage.isActive_running, Bool.false_eq_true, if_false, if_true] at h
    dsimp only
    rw [hf.active]
    omega
  · intro j
    rw [hf.queued_iff j]
    by_cases hj : b.started = j
    · subst hj
      constructor
      · rintro ⟨r, n, h⟩
        rw [he] at h
        rw [Option.some.inj h] at hidle
        cases hidle
      · rintro ⟨r, n, h⟩
        simp [hlt] at h
    · simp [hj]
  · rw [hf.starts, range_succ]

end

theorem take_inv (h : b.take = some (i, result, b')) :
    ∃ rest note, b.buffer = i :: rest ∧ b.slots[i]? = some ⟨.queued result, note⟩ ∧
      b' = { b with slots := b.slots.set i ⟨.taken result, note⟩, active := b.active - 1, buffer := rest } := by
  rw [Board.take] at h
  split at h
  · cases h
  rename_i j rest hbuf
  split at h
  · rename_i r n hsl
    cases h
    exact ⟨rest, n, hbuf, hsl, rfl⟩
  · cases h

theorem take (hf : Fair b) (h : b.take = some (i, result, b')) : Fair b' := by
  obtain ⟨rest, note, hbuf, hsl, rfl⟩ := take_inv h
  have hlt := lt_of_some hsl
  have hnd := hf.nodup
  rw [hbuf, nodup_cons] at hnd
  refine ⟨by simpa using hf.started_le, ?_, ?_, hnd.2, ?_, hf.starts⟩
  · exact hf.idle_iff_set hsl (by simp)
  · have hc := countP_set_isActive hsl ⟨.taken result, note⟩
    simp only [Stage.isActive_queued, Stage.isActive_taken, Bool.false_eq_true, if_false, if_true] at hc
    dsimp only
    rw [hf.active]
    omega
  · intro j
    have hq := hf.queued_iff j
    rw [hbuf] at hq
    by_cases hj : j = i
    · subst hj
      simp [hnd.1, hlt]
    · simpa [hj, Ne.symm hj] using hq

theorem of_active_eq_zero (hf : Fair b) (h : b.active = 0) (hi : b.slots[i]? = some e) (hs : i < b.started) :
    ∃ result, e.stage = .taken result := by
  have hinac : ¬ e.stage.isActive = true :=
    countP_eq_zero.mp (hf.active.symm.trans h) e (mem_of_getElem? hi)
  have hidle := (hf.idle_iff i e hi).not.mpr (Nat.not_le.mpr hs)
  cases hstage : e.stage with
  | idle => exact absurd hstage hidle
  | taken result => exact ⟨result, rfl⟩
  | _ => simp [hstage] at hinac

theorem room (hf : Fair b) (hi : b.slots[i]? = some e) (hrun : e.stage = .running work) :
    b.buffer.length < b.slots.length := by
  have hnd : (i :: b.buffer).Nodup := nodup_cons.mpr ⟨hf.not_mem_buffer hi hrun, hf.nodup⟩
  have hsub : ∀ j ∈ i :: b.buffer, j ∈ List.range b.slots.length := by
    intro j hj
    rcases mem_cons.mp hj with rfl | hj
    · exact mem_range.mpr (lt_of_some hi)
    · obtain ⟨r, n, h⟩ := (hf.queued_iff j).mp hj
      exact mem_range.mpr (lt_of_some h)
  have hle := (subperm_of_subset hnd hsub).length_le
  rw [length_cons, length_range] at hle
  omega

end Fair

def All (P : Nat → Entry α β η → Prop) (b : Board α β η) : Prop := ∀ i e, b.slots[i]? = some e → P i e

variable {P : Nat → Entry α β η → Prop}

theorem All.new (n) {note} (h : ∀ i, P i ⟨.idle, note⟩) : All P (Board.new n note) := by
  intro i e hi
  obtain ⟨-, rfl⟩ := mem_replicate.mp (mem_of_getElem? hi)
  exact h i

theorem All.set (h : ∀ j e, j ≠ i → b.slots[j]? = some e → P j e) (he : P i e') :
    ∀ j e, (b.slots.set i e')[j]? = some e → P j e := by
  intro j f hj
  rcases of_set hj with ⟨rfl, rfl⟩ | ⟨hne, hj⟩
  · exact he
  · exact h j f hne hj

theorem All.change (h : All P b) (he : P i e') : All P (b.change i e') := All.set (fun j e _ => h j e) he

theorem All.send (h : All P b) (he : P i ⟨.queued result, note⟩) : All P (b.send i result note) :=
  All.set (fun j e _ => h j e) he

theorem All.start (h : All P b) (hf : Fair b)
    (he : ∀ i e, e.stage = .idle → P i e → P i { e with stage := .running work }) : All P (b.start work) := by
  rw [Board.start]
  split
  · exact h
  rename_i e hsl
  have hidle : e.stage = .idle := (hf.idle_iff _ e hsl).mpr le_rfl
  exact All.set (fun j e _ => h j e) (he _ e hidle (h _ e hsl))

theorem All.take (h : All P b) (htake : b.take = some (i, result, b'))
    (he : ∀ note, P i ⟨.queued result, note⟩ → P i ⟨.taken result, note⟩) : All P b' := by
  obtain ⟨rest, note, -, hsl, rfl⟩ := Fair.take_inv htake
  exact All.set (fun j e _ => h j e) (he note (h i _ hsl))

@[simp] theorem length_change (b : Board α β η) (i) (e : Entry α β η) :
    (b.change i e).slots.length = b.slots.length := length_set

@[simp] theorem length_send (b : Board α β η) (i) (result : β) (note : η) :
    (b.send i result note).slots.length = b.slots.length := length_set

@[simp] theorem length_start (b : Board α β η) (work) : (b.start work).slots.length = b.slots.length := by
  rw [Board.start]
  split
  · rfl
  · exact length_set

theorem length_take (htake : b.take = some (i, result, b')) : b'.slots.length = b.slots.length := by
  obtain ⟨rest, note, -, -, rfl⟩ := Fair.take_inv htake
  exact length_set

theorem Fair.started_of_start_active (hf : Fair b) (h : (b.start work).active = 0) :
    (b.start work).started = b.slots.length := by
  cases hsl : b.slots[b.started]? with
  | none =>
    have hge := getElem?_eq_none_iff.mp hsl
    have hle := hf.started_le
    simp only [Board.start, hsl]
    omega
  | some e => simp [Board.start, hsl] at h

end SingBox.Races
