import Mathlib.Algebra.Group.Nat.Defs
import Mathlib.Data.Prod.Lex
import Mathlib.Order.Basic

namespace SingBox.RuleSetRanges

open List Option

/-- The bytes of a `netip.Addr`. The sets have no zones. -/
abbrev Addr := List UInt8

structure MyIPRange where
  from_ : Addr
  to_ : Addr
  deriving DecidableEq

abbrev Reader := StateT (List UInt8) Option

def readByte : Reader UInt8
  | [] => none
  | b :: rest => some (b, rest)

def readFull (n : Nat) : Reader (List UInt8) := fun bytes =>
  if n ≤ bytes.length then some (bytes.take n, bytes.drop n) else none

def bigEndian (bytes : List UInt8) : Nat := bytes.foldl (fun n b => 256 * n + b.toNat) 0

/-- `binary.ReadUvarint` with `n` bytes to go. -/
def readUvarint : Nat → Nat → Nat → Reader Nat
  | 0, _, _ => failure
  | n + 1, x, shift => do
    let b ← readByte
    if b < 0x80 then
      if n = 0 ∧ 1 < b then failure else return x ||| b.toNat <<< shift
    else readUvarint n (x ||| (b &&& 0x7f).toNat <<< shift) (shift + 7)

def readIPSetAddr : Reader Addr := do
  let addrLen ← readUvarint 10 0 0
  if addrLen ≠ 4 ∧ addrLen ≠ 16 then failure else readFull addrLen

def readRanges : Nat → Reader (List MyIPRange)
  | 0 => return []
  | n + 1 => do
    let from_ ← readIPSetAddr
    let to_ ← readIPSetAddr
    return ⟨from_, to_⟩ :: (← readRanges n)

def readIPSet : Reader (List MyIPRange) := do
  let version ← readByte
  if version ≠ 1 then failure else
    let length ← readFull 8
    readRanges (bigEndian length)

/-- The last `k` bytes of a number, as `binary.BigEndian` writes them. -/
def putUint : Nat → Nat → List UInt8
  | 0, _ => []
  | k + 1, n => putUint k (n / 256) ++ [UInt8.ofNat n]

section

variable (writeUvarint : Nat → List UInt8)

def writeIPSetAddr (a : Addr) : List UInt8 := writeUvarint a.length ++ a

def writeIPSet (rr : List MyIPRange) : List UInt8 :=
  1 :: putUint 8 rr.length ++
    rr.flatMap fun r => writeIPSetAddr writeUvarint r.from_ ++ writeIPSetAddr writeUvarint r.to_

/-- What is assumed of `varbin.WriteUvarint`: the length of an address is read back. -/
def Uvarint : Prop := ∀ n < 128, ∀ rest, readUvarint 10 0 0 (writeUvarint n ++ rest) = some (n, rest)

end

/-- What `Addr.Compare` compares. -/
def key (a : Addr) : Nat ×ₗ Nat := toLex (a.length, bigEndian a)

def MyIPRange.contains (r : MyIPRange) (ip : Addr) : Bool := key r.from_ ≤ key ip && key ip ≤ key r.to_

/-- The bounds are addresses and not the zero `netip.Addr`. -/
def Proper (r : MyIPRange) : Prop :=
  (r.from_.length = 4 ∨ r.from_.length = 16) ∧ (r.to_.length = 4 ∨ r.to_.length = 16)

/-- The bytes of an address in a stream, with its length before it. -/
def Field (field : List UInt8) (a : Addr) : Prop :=
  ∃ head, field = head ++ a ∧ (∀ rest, readUvarint 10 0 0 (head ++ rest) = some (a.length, rest)) ∧
    (a.length = 4 ∨ a.length = 16)

inductive Fields : List MyIPRange → List UInt8 → Prop
  | nil : Fields [] []
  | cons {r rr low high body} (hfrom : Field low r.from_) (hto : Field high r.to_) (hrest : Fields rr body) :
      Fields (r :: rr) (low ++ (high ++ body))

/-- The stream begins with the ranges, in this order. -/
def Encodes (bytes : List UInt8) (rr : List MyIPRange) (rest : List UInt8) : Prop :=
  ∃ count body, bytes = 1 :: (count ++ (body ++ rest)) ∧ count.length = 8 ∧ bigEndian count = rr.length ∧ Fields rr body

variable {n : Nat} {rr : List MyIPRange} {bytes rest : List UInt8} {a b : Addr}

theorem readUvarint_split {k x shift n} (h : readUvarint k x shift bytes = some (n, rest)) : ∃ head,
    bytes = head ++ rest ∧ ∀ rest', readUvarint k x shift (head ++ rest') = some (n, rest') := by
  induction k generalizing x shift bytes with
  | zero => cases h
  | succ k ih =>
    cases bytes with
    | nil => cases h
    | cons c bytes =>
      have hst (bytes) : readUvarint (k + 1) x shift (c :: bytes) = (if c < 0x80 then
          if k = 0 ∧ 1 < c then failure else return x ||| c.toNat <<< shift
        else readUvarint k (x ||| (c &&& 0x7f).toNat <<< shift) (shift + 7) : Reader Nat) bytes := rfl
      rw [hst] at h
      split at h
      · next hl =>
        split at h
        · cases h
        next hfits =>
        cases h
        refine ⟨[c], rfl, fun rest' => ?_⟩
        rw [singleton_append, hst, if_pos hl, if_neg hfits]
        rfl
      · next hmore =>
        obtain ⟨head, rfl, hhead⟩ := ih h
        refine ⟨c :: head, rfl, fun rest' => ?_⟩
        rw [cons_append, hst, if_neg hmore]
        exact hhead rest'

theorem readFull_append (bytes rest : List UInt8) : readFull bytes.length (bytes ++ rest) = some (bytes, rest) := by
  simp [readFull]

theorem readIPSetAddr_iff : readIPSetAddr bytes = some (a, rest) ↔ ∃ field, bytes = field ++ rest ∧ Field field a := by
  simp only [readIPSetAddr, bind, StateT.bind, bind_eq_some_iff]
  constructor
  · rintro ⟨⟨k, mid⟩, hk, h⟩
    obtain ⟨head, rfl, hhead⟩ := readUvarint_split hk
    split at h
    · cases h
    next hk =>
    rw [readFull] at h
    split at h
    case isFalse => cases h
    next hroom =>
    cases h
    refine ⟨head ++ mid.take k, by rw [append_assoc, take_append_drop], head, rfl, ?_, ?_⟩ <;>
      rw [length_take_of_le hroom]
    · exact hhead
    · omega
  · rintro ⟨_, rfl, head, rfl, hhead, hlen⟩
    refine ⟨(a.length, a ++ rest), by rw [append_assoc]; exact hhead _, ?_⟩
    rw [if_neg (by omega)]
    exact readFull_append a rest

theorem readRanges_iff : readRanges n bytes = some (rr, rest) ↔
    rr.length = n ∧ ∃ body, bytes = body ++ rest ∧ Fields rr body := by
  induction n generalizing bytes rr with
  | zero =>
    constructor
    · rintro ⟨⟩
      exact ⟨rfl, [], rfl, .nil⟩
    · rintro ⟨hlen, body, rfl, h⟩
      cases h with
      | nil => rfl
      | cons => cases hlen
  | succ n ih =>
    simp only [readRanges, bind, StateT.bind, bind_eq_some_iff]
    constructor
    · rintro ⟨⟨from_, mid⟩, hfrom, ⟨to_, mid'⟩, hto, ⟨rr', _⟩, hrr, h⟩
      cases h
      obtain ⟨low, rfl, hlow⟩ := readIPSetAddr_iff.1 hfrom
      obtain ⟨high, rfl, hhigh⟩ := readIPSetAddr_iff.1 hto
      obtain ⟨rfl, body, rfl, hbody⟩ := ih.1 hrr
      exact ⟨rfl, low ++ (high ++ body), by simp, .cons hlow hhigh hbody⟩
    · rintro ⟨hlen, body, rfl, h⟩
      cases h with
      | nil => cases hlen
      | cons hfrom hto hr =>
        refine ⟨(_, _), readIPSetAddr_iff.2 ⟨_, append_assoc .., hfrom⟩, (_, _),
          readIPSetAddr_iff.2 ⟨_, append_assoc .., hto⟩, (_, _), ih.2 ⟨Nat.succ.inj hlen, _, rfl, hr⟩, rfl⟩

/-- A stream is accepted exactly if it begins with an encoding of the set. -/
theorem readIPSet_iff : readIPSet bytes = some (rr, rest) ↔ Encodes bytes rr rest := by
  cases bytes with
  | nil => exact ⟨nofun, fun ⟨_, _, h, _⟩ => nomatch h⟩
  | cons version bytes =>
    have hst : readIPSet (version :: bytes) = (if version ≠ 1 then failure else do
      let length ← readFull 8
      readRanges (bigEndian length) : Reader (List MyIPRange)) bytes := rfl
    rw [hst]
    constructor
    · intro h
      split at h
      · cases h
      next hvers =>
      obtain ⟨⟨count, mid⟩, hcnt, hrang⟩ := bind_eq_some_iff.1 h
      obtain ⟨hlen, body, rfl, hbody⟩ := readRanges_iff.1 hrang
      rw [readFull] at hcnt
      split at hcnt
      case isFalse => cases hcnt
      next hroom =>
      obtain ⟨rfl, hmid⟩ := Prod.mk.inj (some.inj hcnt)
      exact ⟨bytes.take 8, body, by rw [not_not.1 hvers, ← hmid, take_append_drop], length_take_of_le hroom,
        hlen.symm, hbody⟩
    · rintro ⟨count, body, heq, hcnt, hlen, hbody⟩
      obtain ⟨rfl, rfl⟩ := cons.inj heq
      rw [if_neg (not_not.2 rfl)]
      exact bind_eq_some_iff.2 ⟨(count, body ++ rest), hcnt ▸ readFull_append .., readRanges_iff.2
        ⟨hlen.symm, body, rfl, hbody⟩⟩

theorem length_putUint (k n) : (putUint k n).length = k := by
  induction k generalizing n with
  | zero => rfl
  | succ k ih => rw [putUint, length_append, ih, length_singleton]

theorem bigEndian_putUint {k n} (h : n < 256 ^ k) : bigEndian (putUint k n) = n := by
  induction k generalizing n with
  | zero => simp_all [putUint, bigEndian]
  | succ k ih =>
    have hr := ih (Nat.div_lt_of_lt_mul (by rwa [Nat.pow_succ'] at h))
    rw [bigEndian] at hr
    rw [putUint, bigEndian, foldl_append, hr]
    simp
    omega

def low : MyIPRange := ⟨[10, 0, 0, 1], [10, 0, 0, 2]⟩

def high : MyIPRange := ⟨[10, 0, 0, 5], [10, 0, 0, 9]⟩

theorem field_write {writeUvarint} (hwrite : Uvarint writeUvarint) (h : a.length = 4 ∨ a.length = 16) :
    Field (writeIPSetAddr writeUvarint a) a :=
  ⟨_, rfl, hwrite a.length (by omega), h⟩

theorem fields_write {writeUvarint} (hwrite : Uvarint writeUvarint) (h : ∀ r ∈ rr, Proper r) :
    Fields rr (rr.flatMap fun r => writeIPSetAddr writeUvarint r.from_ ++ writeIPSetAddr writeUvarint r.to_) := by
  induction rr with
  | nil => exact .nil
  | cons r rr ih =>
    rw [forall_mem_cons] at h
    rw [flatMap_cons, append_assoc]
    exact .cons (field_write hwrite h.1.1) (field_write hwrite h.1.2) (ih h.2)

/-- A set that is written is read back as it was, whatever follows it. -/
theorem written_set_read {writeUvarint : Nat → List UInt8} (hwrite : Uvarint writeUvarint) {rr : List MyIPRange}
    (hlen : rr.length < 2 ^ 64) (hproper : ∀ r ∈ rr, Proper r) (rest : List UInt8) :
    readIPSet (writeIPSet writeUvarint rr ++ rest) = some (rr, rest) :=
  readIPSet_iff.2 ⟨putUint 8 rr.length, _, by simp [writeIPSet], length_putUint .., bigEndian_putUint (k := 8) hlen,
    fields_write hwrite hproper⟩

theorem low_high_read :
    readIPSet (writeIPSet (fun n => [UInt8.ofNat n]) [low, high] ++ [1]) = some ([low, high], [1]) := by
  refine written_set_read (fun n hn rest => ?_) (by decide) (by simp [Proper, low, high]) [1]
  have hfits : (UInt8.ofNat n).toNat = n := by
    rw [UInt8.toNat_ofNat']
    omega
  have hsmall : UInt8.ofNat n < 0x80 := by
    rw [UInt8.lt_iff_toNat_lt, hfits]
    exact hn
  simp [readUvarint, readByte, bind, StateT.bind, hsmall, hfits]
  rfl

end SingBox.RuleSetRanges
