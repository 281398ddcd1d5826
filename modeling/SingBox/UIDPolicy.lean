import Mathlib.NumberTheory.Padics.PadicVal.Basic
import SingBox.Maps

namespace SingBox.UIDPolicy

open List Maps

structure UIDRange where
  start : UInt32
  «end» : UInt32

/-- `uid` is the number in the four bytes. -/
structure UidLPMKey where
  prefixLength : Nat
  uid : UInt32
  deriving DecidableEq

def halve (remaining blockSize : Nat) : Nat :=
  if remaining < blockSize then halve remaining (blockSize / 2) else blockSize

/-- The trailing zeros of `start`, where zero has those of `2 ^ 32`. -/
def alignment (start : Nat) : Nat := if start = 0 then 32 else padicValNat 2 start

variable {start last remaining k j : Nat}

theorem halve_pow (hpos : 0 < remaining) (k) : ∃ j ≤ k, halve remaining (2 ^ k) = 2 ^ j ∧ 2 ^ j ≤ remaining ∧
    (j < k → remaining < 2 ^ (j + 1)) := by
  induction k with
  | zero =>
    rw [halve, if_neg (by omega)]
    exact ⟨0, le_rfl, rfl, hpos, fun h => absurd h (lt_irrefl 0)⟩
  | succ k ih =>
    rw [halve]
    split
    · next hlt =>
      obtain ⟨j, hj, heq, hle, hgreedy⟩ := ih
      rw [Nat.pow_succ, Nat.mul_div_cancel _ two_pos]
      refine ⟨j, by omega, heq, hle, fun _ => ?_⟩
      rcases hj.lt_or_eq with hj | rfl
      · exact hgreedy hj
      · exact hlt
    · exact ⟨k + 1, le_rfl, rfl, by omega, fun h => absurd h (lt_irrefl _)⟩

/-- The loop over one range. Its numbers stay far below `2 ^ 64`. -/
def prefixes (start last : Nat) : List UidLPMKey :=
  if start ≤ last then
    let blockSize := halve (last - start + 1) (2 ^ alignment start)
    ⟨32 - padicValNat 2 blockSize, .ofNat start⟩ :: prefixes (start + blockSize) last
  else []
termination_by last + 1 - start
decreasing_by
  obtain ⟨j, -, heq, -, -⟩ := halve_pow (Nat.succ_pos (last - start)) (alignment start)
  have := Nat.two_pow_pos j
  rw [heq]
  omega

/-- The loop over the map takes its keys in any order. -/
def compileUIDRanges (order : RangeOrder UidLPMKey) (uidRanges : List UIDRange) : List UidLPMKey :=
  let entries : GoMap UidLPMKey Unit := (uidRanges.flatMap fun r => prefixes r.start.toNat r.end.toNat).foldl
    (fun entries entry => entries.insert entry ()) ∅
  (order.visit entries.keys).mergeSort fun a b =>
    if a.prefixLength ≠ b.prefixLength then a.prefixLength < b.prefixLength else a.uid < b.uid

theorem alignment_dvd (start) : 2 ^ alignment start ∣ start := by
  rw [alignment]
  split
  · next h => exact h ▸ dvd_zero _
  · exact pow_padicValNat_dvd

theorem le_alignment (hk : k ≤ 32) (h : 2 ^ k ∣ start) : k ≤ alignment start := by
  rw [alignment]
  split
  · exact hk
  · next hne => exact (padicValNat_dvd_iff_le hne).1 h

theorem alignment_lt (hpos : 0 < start) (hlt : start < 2 ^ 32) : alignment start < 32 :=
  (Nat.pow_lt_pow_iff_right one_lt_two).1 ((Nat.le_of_dvd hpos (alignment_dvd start)).trans_lt hlt)

theorem alignment_le (hlt : start < 2 ^ 32) : alignment start ≤ 32 := by
  rcases Nat.eq_zero_or_pos start with rfl | hpos
  · exact le_rfl
  · exact (alignment_lt hpos hlt).le

theorem prefixes_of_lt (h : last < start) : prefixes start last = [] := by
  rw [prefixes, if_neg (Nat.not_le.2 h)]

theorem prefixes_induction (last) {motive : Nat → Prop} (done : ∀ start, last < start → motive start)
    (round : ∀ start j, prefixes start last = ⟨32 - j, .ofNat start⟩ :: prefixes (start + 2 ^ j) last →
      j ≤ alignment start → start + 2 ^ j ≤ last + 1 → (j < alignment start → last + 1 < start + 2 ^ (j + 1)) →
      motive (start + 2 ^ j) → motive start) (start : Nat) : motive start := by
  induction hn : last + 1 - start using Nat.strong_induction_on generalizing start with
  | h n ih =>
    rcases Nat.lt_or_ge last start with hlt | hle
    · exact done start hlt
    obtain ⟨j, hj, heq, hfits, hgreedy⟩ := halve_pow (Nat.succ_pos (last - start)) _
    have := Nat.two_pow_pos j
    refine round start j ?_ hj (by omega) (fun hlt => ?_) (ih _ (by omega) _ rfl)
    · rw [prefixes, if_pos hle]
      dsimp only
      rw [heq, padicValNat.prime_pow]
    · have := hgreedy hlt
      omega

theorem length_le_of_short (hk : k ≤ alignment start) (hle : k ≤ 32) (hshort : last + 1 < start + 2 ^ k) :
    (prefixes start last).length ≤ k := by
  induction start using prefixes_induction last generalizing k with
  | done start h => simp [prefixes_of_lt h]
  | round start j hst halig hfits hgreedy ih =>
    have hjk : j < k := (Nat.pow_lt_pow_iff_right one_lt_two).1 (by omega)
    have hn : 2 ^ j ∣ start + 2 ^ j := dvd_add ((pow_dvd_pow 2 halig).trans (alignment_dvd start)) dvd_rfl
    have hr := hgreedy (by omega)
    rw [pow_succ] at hr
    have := ih (le_alignment (by omega) hn) (by omega) (by omega)
    rw [hst, length_cons]
    omega

theorem next_dvd (h : 2 ^ k ∣ start) (hodd : ¬2 ^ (k + 1) ∣ start) : 2 ^ (k + 1) ∣ start + 2 ^ k := by
  obtain ⟨c, rfl⟩ := h
  obtain ⟨d, rfl | rfl⟩ := Nat.even_or_odd' c
  · exact absurd ⟨d, by ring⟩ hodd
  · exact ⟨d + 1, by ring⟩

theorem length_prefixes_le (hl : last < 2 ^ 32) (start : Nat) :
    (prefixes start last).length ≤ 62 - alignment start % 32 := by
  induction start using prefixes_induction last with
  | done start h => simp [prefixes_of_lt h]
  | round start j hst halig hfits hgreedy ih =>
    have hpos := Nat.two_pow_pos j
    have hle := alignment_le (by omega : start < 2 ^ 32)
    rcases halig.lt_or_eq with hj | rfl
    · -- the range ends before the next block of this alignment
      have hpow := Nat.pow_le_pow_right two_pos (Nat.succ_le_of_lt hj)
      have := length_le_of_short le_rfl hle ((hgreedy hj).trans_le (Nat.add_le_add_left hpow _))
      omega
    rw [hst, length_cons]
    rcases Nat.lt_or_ge last _ with hout | hin
    · rw [prefixes_of_lt hout, length_nil]
      omega
    -- the next block is more aligned
    have hlt := alignment_lt (by omega) (hin.trans_lt hl)
    have hlt' : alignment start < 32 := (Nat.pow_lt_pow_iff_right one_lt_two).1 (by omega)
    have hn := next_dvd (alignment_dvd start) fun h => absurd (le_alignment hlt' h) (by omega)
    have := le_alignment hlt' hn
    omega

def Aligned (key : UidLPMKey) : Prop := key.prefixLength ≤ 32 ∧ 2 ^ (32 - key.prefixLength) ∣ key.uid.toNat

/-- The first bits are those of the key. -/
def Matches (key : UidLPMKey) (uid : UInt32) : Prop :=
  uid.toNat / 2 ^ (32 - key.prefixLength) = key.uid.toNat / 2 ^ (32 - key.prefixLength)

theorem prefixes_cover (hl : last < 2 ^ 32) (start : Nat) : (∀ key ∈ prefixes start last, Aligned key) ∧
    ∀ uid, (∃ key ∈ prefixes start last, Matches key uid) ↔ start ≤ uid.toNat ∧ uid.toNat ≤ last := by
  induction start using prefixes_induction last with
  | done start h =>
    rw [prefixes_of_lt h]
    refine ⟨by simp, fun uid => ?_⟩
    simp
    omega
  | round start j hst halig hfits hgreedy ih =>
    have hpos := Nat.two_pow_pos j
    have hlt : start < 2 ^ 32 := by omega
    have hj := halig.trans (alignment_le hlt)
    have hdvd := (pow_dvd_pow 2 halig).trans (alignment_dvd start)
    have hexp : 32 - (32 - j) = j := by omega
    have hstart : (UInt32.ofNat start).toNat = start := UInt32.toNat_ofNat_of_lt' hlt
    rw [hst]
    constructor
    · refine forall_mem_cons.2 ⟨⟨Nat.sub_le 32 j, ?_⟩, ih.1⟩
      rwa [hexp, hstart]
    · intro uid
      rw [exists_mem_cons_iff, ih.2, Matches, hexp, hstart, Nat.div_eq_iff hpos, Nat.div_mul_cancel hdvd]
      omega

theorem mem_compileUIDRanges (order uidRanges key) :
    key ∈ compileUIDRanges order uidRanges ↔ ∃ r ∈ uidRanges, key ∈ prefixes r.start.toNat r.end.toNat := by
  rw [compileUIDRanges, mem_mergeSort, order.mem_visit, mem_keys_iff]
  have hins (entries : GoMap UidLPMKey Unit) (entry) :
      entries.insert entry () = (some ()).elim entries fun v => entries.insert entry v := rfl
  simp [lookup_foldl_choice hins]

/-- The prefixes are aligned and match exactly the ids of the ranges, and a range has at most 62. -/
theorem compileUIDRanges_exact (order : RangeOrder UidLPMKey) (uidRanges : List UIDRange) :
    (∀ key ∈ compileUIDRanges order uidRanges, Aligned key ∧
      ∃ r ∈ uidRanges, key ∈ prefixes r.start.toNat r.end.toNat) ∧
    (∀ uid, (∃ key ∈ compileUIDRanges order uidRanges, Matches key uid) ↔
      ∃ r ∈ uidRanges, r.start ≤ uid ∧ uid ≤ r.end) ∧
    ∀ r ∈ uidRanges, (prefixes r.start.toNat r.end.toNat).length ≤ 62 := by
  have hcov (r : UIDRange) := prefixes_cover r.end.toNat_lt r.start.toNat
  simp only [mem_compileUIDRanges]
  refine ⟨?_, fun uid => ?_, fun r _ => ?_⟩
  · rintro key ⟨r, hr, hk⟩
    exact ⟨(hcov r).1 key hk, r, hr, hk⟩
  · constructor
    · rintro ⟨key, ⟨r, hr, hk⟩, hmat⟩
      exact ⟨r, hr, ((hcov r).2 uid).1 ⟨key, hk, hmat⟩⟩
    · rintro ⟨r, hr, hbet⟩
      obtain ⟨key, hk, hmat⟩ := ((hcov r).2 uid).2 hbet
      exact ⟨key, ⟨r, hr, hk⟩, hmat⟩
  · exact (length_prefixes_le r.end.toNat_lt _).trans (Nat.sub_le 62 _)

end SingBox.UIDPolicy
