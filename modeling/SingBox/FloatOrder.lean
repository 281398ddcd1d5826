import Mathlib.Data.Prod.Lex
import Mathlib.Data.Int.Order.Basic
import SingBox.Machine

/-! # The order of doubles

The comparisons of doubles that are not NaN are those of a linear order, in
which the two zeros are one. -/

namespace SingBox.FloatOrder

open Float.Model

abbrev Place := ℤ ×ₗ ℤ ×ₗ ℤ

def triple (a b c : ℤ) : Place := toLex (a, toLex (b, c))

/-- Where a number stands: by its sign, then by exponent and mantissa. -/
def place : UnpackedFloat → Place
  | .notANumber => triple 3 0 0
  | .infinity .negative => triple (-2) 0 0
  | .finite .negative m e _ => triple (-1) (-e) (-m)
  | .zero _ => triple 0 0 0
  | .finite .positive m e _ => triple 1 e m
  | .infinity .positive => triple 2 0 0

@[simp] theorem triple_lt {a b c a' b' c'} :
    triple a b c < triple a' b' c' ↔ a < a' ∨ a = a' ∧ (b < b' ∨ b = b' ∧ c < c') := by
  rw [triple, triple, Prod.Lex.toLex_lt_toLex]
  rw [Prod.Lex.toLex_lt_toLex]

@[simp] theorem triple_inj {a b c a' b' c'} : triple a b c = triple a' b' c' ↔ a = a' ∧ b = b' ∧ c = c' := by
  simp [triple]

theorem compare_iff {x y} (hx : x ≠ .notANumber) (hy : y ≠ .notANumber) :
    (x.compare y = some .lt ↔ place x < place y) ∧ (x.compare y = some .eq ↔ place x = place y) := by
  cases x with
  | notANumber => exact absurd rfl hx
  | infinity s =>
    cases y with
    | notANumber => exact absurd rfl hy
    | infinity t =>
      cases s <;> cases t <;> dsimp only [compare, place] <;> simp <;> decide
    | zero t => cases s <;> dsimp only [UnpackedFloat.compare, place] <;> simp
    | finite t m e h => cases s <;> cases t <;> dsimp only [UnpackedFloat.compare, place] <;> simp
  | zero s =>
    cases y with
    | notANumber => exact absurd rfl hy
    | infinity t | finite t => cases t <;> dsimp only [UnpackedFloat.compare, place] <;> simp
    | zero t =>
      dsimp only [UnpackedFloat.compare, place]
      simp
  | finite s m e h =>
    cases y with
    | notANumber => exact absurd rfl hy
    | infinity t => cases s <;> cases t <;> dsimp only [UnpackedFloat.compare, place] <;> simp
    | zero t => cases s <;> dsimp only [UnpackedFloat.compare, place] <;> simp
    | finite t m' e' h' =>
      cases s <;> cases t <;>
        dsimp only [UnpackedFloat.compare, place] <;>
        simp [Ordering.then_eq_lt, Ordering.then_eq_gt, compare_lt_iff_lt, compare_gt_iff_gt]

def key (x : Float) : Place := place x.toModel.unpack

def IsNumber (x : Float) : Prop := x.toModel.unpack ≠ .notANumber

variable {x y : Float}

theorem lt_iff (hx : IsNumber x) (hy : IsNumber y) : x < y ↔ key x < key y := by
  rw [key, key, ← (compare_iff hx hy).1]
  change decide ((x.toModel.unpack.compare y.toModel.unpack == some .lt) = true) = true ↔ _
  rw [decide_eq_true_iff]
  exact beq_iff_eq

theorem beq_iff (hx : IsNumber x) (hy : IsNumber y) : (x == y) = true ↔ key x = key y := by
  rw [key, key, ← (compare_iff hx hy).2]
  change (x.toModel.unpack.compare y.toModel.unpack == some .eq) = true ↔ _
  exact beq_iff_eq

theorem le_iff (hx : IsNumber x) (hy : IsNumber y) : x ≤ y ↔ key x ≤ key y := by
  rw [le_iff_lt_or_eq, key, key, ← (compare_iff hx hy).1, ← (compare_iff hx hy).2]
  have hle : x ≤ y ↔ (x.toModel.unpack.compare y.toModel.unpack).any (·.isLE) = true := by
    change decide ((x.toModel.unpack.compare y.toModel.unpack).any (·.isLE) = true) = true ↔ _
    rw [decide_eq_true_iff]
  cases hc : x.toModel.unpack.compare y.toModel.unpack with
  | none => simp [hle, hc]
  | some o => cases o <;> simp [hle, hc]

theorem isNumber_of_beq (h : (x == x) = true) : IsNumber x := by
  intro hnan
  change (x.toModel.unpack.compare x.toModel.unpack == some .eq) = true at h
  rw [hnan] at h
  cases h

theorem isNumber_of_isFinite (h : Machine.isFinite x = true) : IsNumber x := by
  rw [Machine.isFinite, Bool.and_eq_true, Bool.and_eq_true] at h
  exact isNumber_of_beq h.1.1

end SingBox.FloatOrder
