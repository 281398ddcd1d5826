import Mathlib.Data.UInt

/-! # Machine arithmetic

Saturating words, and the few operations on doubles that `Float` itself does
not have. `Float` is IEEE binary64 with its rounding, infinities and NaN. -/

namespace SingBox.Machine

def satAdd (a b : UInt64) : UInt64 := if a + b < a then UInt64.ofNat (2 ^ 64 - 1) else a + b

def satSub (a b : UInt64) : UInt64 := if a < b then 0 else a - b

def satSucc (n : UInt32) : UInt32 := if n = UInt32.ofNat (2 ^ 32 - 1) then n else n + 1

theorem toNat_satSub (a b : UInt64) : (satSub a b).toNat = a.toNat - b.toNat := by
  unfold satSub
  split
  case isTrue h =>
    have h' : a.toNat < b.toNat := UInt64.lt_iff_toNat_lt.1 h
    simp [Nat.sub_eq_zero_of_le h'.le]
  case isFalse h => exact UInt64.toNat_sub_of_le _ _ (UInt64.not_lt.1 h)

theorem toNat_satSucc_le (n : UInt32) : (satSucc n).toNat ≤ n.toNat + 1 := by
  unfold satSucc
  split
  · omega
  · exact Nat.mod_le ..

def inf : Float := 1.0 / 0.0

def isFinite (value : Float) : Bool := value == value && value != inf && value != -inf

def fmax (a b : Float) : Float := if a != a then b else if b != b then a else if a < b then b else a

def fmin (a b : Float) : Float := if a != a then b else if b != b then a else if b < a then b else a

def clamp (value lower upper : Float) : Float := fmax lower (fmin value upper)

/-- The function of the mathematical library that `Float` lacks. It is left
open: nothing is assumed of it. -/
class MathLibrary where
  log1p : Float → Float

/-- One such library, to run examples with. -/
instance : MathLibrary := ⟨fun x => Float.log (1.0 + x)⟩

end SingBox.Machine
