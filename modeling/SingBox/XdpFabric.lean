import Mathlib.Algebra.BigOperators.Fin
import SingBox.Runs

namespace SingBox.XdpFabric

open Runs

def minRingSize : UInt32 := 64

def maxRingSize : UInt32 := 16384

/-- The doubling loop of `clampRingSize`, which ends before `maxRingSize` is doubled. -/
def doubled (n : UInt32) : Nat → UInt32 → UInt32
  | 0, power => power
  | rounds + 1, power => if power <<< 1 ≤ n then doubled n rounds (power <<< 1) else power

def clampRingSize (value : UInt32) : UInt32 :=
  if value < minRingSize then minRingSize else if value > maxRingSize then maxRingSize else doubled value 14 1

structure Ring where
  producer : UInt32 := 0
  consumer : UInt32 := 0
  size : UInt32

namespace Ring

def pending (r : Ring) : UInt32 := r.producer - r.consumer

def free (r : Ring) : UInt32 := if r.pending ≥ r.size then 0 else r.size - r.pending

def produce (r : Ring) (count : UInt32) : Ring := { r with producer := r.producer + count }

def consume (r : Ring) (count : UInt32) : Ring := { r with consumer := r.consumer + count }

def reserve (r : Ring) (count : UInt32) : Option Ring :=
  if count = 0 ∨ count > r.free then none else some (r.produce count)

def release (r : Ring) (count : UInt32) : Option Ring :=
  if count = 0 ∨ count > r.pending then none else some (r.consume count)

end Ring

inductive Kind
  | rx
  | tx
  | completed
  deriving DecidableEq

abbrev Place := Fin 64 × Kind

structure Fabric where
  ring : Place → Ring
  failOpen : Fin 64 → Nat := fun _ => 0

namespace Fabric

def init (ringSize : UInt32) : Fabric := { ring := fun _ => { size := clampRingSize ringSize } }

def set (f : Fabric) (place : Place) (r : Ring) : Fabric := { f with ring := Function.update f.ring place r }

def fail (f : Fabric) (q : Fin 64) : Fabric :=
  { f with failOpen := Function.update f.failOpen q (f.failOpen q + 1) }

def forward (f : Fabric) (q peer : Fin 64) : Fabric :=
  if (f.ring (q, .rx)).pending = 0 ∨ (f.ring (peer, .tx)).free = 0 then f.fail q
  else
    match (f.ring (peer, .tx)).reserve 1 with
    | none => f.fail q
    | some tx =>
      match (f.ring (q, .rx)).release 1 with
      | none => (f.set (peer, .tx) ((tx.release 1).getD tx)).fail q
      | some rx => (f.set (peer, .tx) tx).set (q, .rx) rx

def completeTx (f : Fabric) (q : Fin 64) (count : UInt32) : Fabric :=
  match (f.ring (q, .tx)).release count with
  | none => f
  | some tx => (f.set (q, .tx) tx).set (q, .completed) ((f.ring (q, .completed)).produce count)

def recycleCompleted (f : Fabric) (q : Fin 64) (count : UInt32) : Fabric :=
  if count = 0 ∨ count > (f.ring (q, .completed)).pending then f
  else
    (f.set (q, .completed) ((f.ring (q, .completed)).consume count)).set (q, .rx)
      ((f.ring (q, .rx)).consume count)

end Fabric

inductive Op
  | reserve (place : Place) (count : UInt32)
  | release (place : Place) (count : UInt32)
  | forward (q peer : Fin 64)
  | completeTx (q : Fin 64) (count : UInt32)
  | recycleCompleted (q : Fin 64) (count : UInt32)

def step (f : Fabric) : Op → Fabric
  | .reserve place count => ((f.ring place).reserve count).elim f (f.set place)
  | .release place count => ((f.ring place).release count).elim f (f.set place)
  | .forward q peer => f.forward q peer
  | .completeTx q count => f.completeTx q count
  | .recycleCompleted q count => f.recycleCompleted q count

/-- The completion ring has room for what is completed, and the frames that a
queue recycles are its own. -/
def Fits (f : Fabric) : Op → Prop
  | .completeTx q count => count ≤ (f.ring (q, .completed)).free
  | .recycleCompleted q count => count ≤ (f.ring (q, .rx)).pending
  | _ => True

def frames (f : Fabric) : Nat := ∑ place ∈ Finset.univ ×ˢ {.rx, .tx}, (f.ring place).pending.toNat

def Bounded (f : Fabric) : Prop := ∀ place, (f.ring place).pending ≤ (f.ring place).size

variable {f : Fabric} {r r' : Ring} {place : Place} {count : UInt32}

theorem produced (h : count ≤ r.free) (hpos : count ≠ 0) :
    (r.produce count).pending.toNat = r.pending.toNat + count.toNat ∧ (r.produce count).pending ≤ r.size := by
  have hadd : (r.produce count).pending = r.pending + count := by grind [Ring.pending, Ring.produce]
  unfold Ring.free at h
  split at h
  case isTrue => exact absurd (UInt32.le_zero_iff.mp h) hpos
  case isFalse hroom =>
    rw [UInt32.not_le] at hroom
    rw [UInt32.le_iff_toNat_le, UInt32.toNat_sub_of_le _ _ (UInt32.le_of_lt hroom)] at h
    rw [UInt32.lt_iff_toNat_lt] at hroom
    rw [hadd, UInt32.le_iff_toNat_le, UInt32.toNat_add]
    have hlt := r.size.toNat_lt
    omega

theorem consumed (h : count ≤ r.pending) :
    r.pending.toNat = (r.consume count).pending.toNat + count.toNat ∧ (r.consume count).pending ≤ r.pending := by
  have hsub : (r.consume count).pending = r.pending - count := by grind [Ring.pending, Ring.consume]
  rw [hsub, UInt32.toNat_sub_of_le _ _ h, Nat.sub_add_cancel (UInt32.le_iff_toNat_le.mp h)]
  exact ⟨rfl, UInt32.sub_le h⟩

theorem reserve_some (h : r.reserve count = some r') :
    r'.pending.toNat = r.pending.toNat + count.toNat ∧ r'.pending ≤ r'.size := by
  simp only [Ring.reserve, Option.ite_none_left_eq_some, not_or, UInt32.not_lt, Option.some.injEq] at h
  obtain ⟨⟨hpos, hroom⟩, rfl⟩ := h
  exact produced hroom hpos

theorem release_some (h : r.release count = some r') : count ≠ 0 ∧
    r.pending.toNat = r'.pending.toNat + count.toNat ∧ (r.pending ≤ r.size → r'.pending ≤ r'.size) := by
  simp only [Ring.release, Option.ite_none_left_eq_some, not_or, UInt32.not_lt, Option.some.injEq] at h
  obtain ⟨⟨hpos, hheld⟩, rfl⟩ := h
  exact ⟨hpos, (consumed hheld).1, UInt32.le_trans (consumed hheld).2⟩

/-- A frame is moved or the queue fails open: no reservation is ever rolled back. -/
theorem forward_cases (f : Fabric) (q peer) : f.forward q peer = f.fail q ∨
    ∃ tx rx, (f.ring (peer, .tx)).reserve 1 = some tx ∧ (f.ring (q, .rx)).release 1 = some rx ∧
      f.forward q peer = (f.set (peer, .tx) tx).set (q, .rx) rx := by
  unfold Fabric.forward
  split
  case isTrue => exact .inl rfl
  case isFalse hrdy =>
    cases htx : (f.ring (peer, .tx)).reserve 1 with
    | none => exact .inl rfl
    | some tx =>
      cases hrx : (f.ring (q, .rx)).release 1 with
      | none => grind [Ring.release]
      | some rx => exact .inr ⟨tx, rx, rfl, rfl, rfl⟩

theorem set_bounded (hf : Bounded f) (hr : r.pending ≤ r.size) : Bounded (f.set place r) := by
  intro p
  unfold Fabric.set
  by_cases hp : p = place
  · simpa [hp] using hr
  · simpa [hp] using hf p

theorem step_bounded (f : Fabric) (op) (hfits : Fits f op) (hf : Bounded f) : Bounded (step f op) := by
  cases op with
  | reserve place count =>
    cases hr : (f.ring place).reserve count with
    | none => simpa [step, hr] using hf
    | some r => simpa [step, hr] using set_bounded hf (reserve_some hr).2
  | release place count =>
    cases hr : (f.ring place).release count with
    | none => simpa [step, hr] using hf
    | some r => simpa [step, hr] using set_bounded hf ((release_some hr).2.2 (hf place))
  | forward q peer =>
    obtain heq | ⟨tx, rx, htx, hrx, heq⟩ := forward_cases f q peer
    · exact (congrArg Bounded heq).mpr hf
    · simpa [step, heq] using set_bounded (set_bounded hf (reserve_some htx).2) ((release_some hrx).2.2 (hf _))
  | completeTx q count =>
    simp only [step, Fabric.completeTx]
    split
    case h_1 => exact hf
    case h_2 tx htx =>
      obtain ⟨hpos, -, hkept⟩ := release_some htx
      exact set_bounded (set_bounded hf (hkept (hf _))) (produced hfits hpos).2
  | recycleCompleted q count =>
    simp only [step, Fabric.recycleCompleted]
    split
    case isTrue => exact hf
    case isFalse hheld =>
      rw [not_or, UInt32.not_lt] at hheld
      refine set_bounded (set_bounded hf ?_) (UInt32.le_trans (consumed hfits).2 (hf _))
      exact UInt32.le_trans (consumed hheld.2).2 (hf _)

theorem sum_set (f : Fabric) (r) {places} (h : place ∈ places) :
    ∑ p ∈ places, ((f.set place r).ring p).pending.toNat + (f.ring place).pending.toNat =
      ∑ p ∈ places, (f.ring p).pending.toNat + r.pending.toNat := by
  have heq : (fun p => ((f.set place r).ring p).pending.toNat) =
      Function.update (fun p => (f.ring p).pending.toNat) place r.pending.toNat :=
    Function.comp_update (fun r : Ring => r.pending.toNat) ..
  rw [heq, Finset.sum_update_of_mem h, Finset.sum_eq_add_sum_sdiff_singleton_of_mem h]
  omega

theorem forward_frames (f : Fabric) (q peer) : frames (f.forward q peer) = frames f := by
  obtain heq | ⟨tx, rx, htx, hrx, heq⟩ := forward_cases f q peer
  · rw [heq]
    rfl
  · have hin : frames (f.set (peer, .tx) tx) + _ = frames f + _ := sum_set f tx (by simp)
    have hout : frames ((f.set (peer, .tx) tx).set (q, .rx) rx) + _ = frames (f.set (peer, .tx) tx) + _ :=
      sum_set _ rx (by simp)
    have hsame : (f.set (peer, .tx) tx).ring (q, .rx) = f.ring (q, .rx) := by simp [Fabric.set]
    rw [hsame, (release_some hrx).2.1] at hout
    rw [(reserve_some htx).1] at hin
    rw [heq]
    omega

theorem rings_keep_frames (ringSize : UInt32) (ops : List Op) (h : Meets step Fits (.init ringSize) ops) :
    let f := run step (.init ringSize) ops
    Bounded f ∧
      (∀ q count, Fits f (.recycleCompleted q count) →
        ((f.recycleCompleted q count).ring (q, .rx)).pending ≤ (f.ring (q, .rx)).pending) ∧
      ∀ (g : Fabric) q peer, frames (g.forward q peer) = frames g := by
  intro f
  refine ⟨run_keeps (fun f op _ => step_bounded f op) (fun _ => ?_) h, fun q count hfits => ?_, forward_frames⟩
  · simp [Fabric.init, Ring.pending]
  · unfold Fabric.recycleCompleted
    split
    case isTrue => exact UInt32.le_refl _
    case isFalse => simpa [Fabric.set] using (consumed hfits).2

theorem crossing_frame : let ops := [.reserve (0, .rx) 1, .forward 0 1, .completeTx 1 1]
    Meets step Fits (.init 64) ops ∧ Bounded (run step (.init 64) ops) := by
  have h : Meets step Fits (.init 64) [.reserve (0, .rx) 1, .forward 0 1, .completeTx 1 1] := by
    simp only [Meets, Fits]
    decide +kernel
  exact ⟨h, (rings_keep_frames 64 _ h).1⟩

theorem crossing_frame_recycled :
    ((run step (.init 64) [.reserve (0, .tx) 64, .completeTx 0 64, .reserve (0, .tx) 1, .completeTx 0 1]).ring
      (0, .completed)).pending = 65 ∧
      let rx := (run step (.init 64) [.reserve (0, .rx) 1, .forward 0 1, .completeTx 1 1,
        .recycleCompleted 1 1]).ring (1, .rx)
      rx.producer = 0 ∧ rx.consumer = 1 ∧ rx.size < rx.pending := by
  decide +kernel

end SingBox.XdpFabric
