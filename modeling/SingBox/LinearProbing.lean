import Mathlib.Algebra.GroupWithZero.Nat
import Mathlib.Data.Fintype.Card
import Mathlib.Logic.Function.Iterate

/-! # Linear probing

Places are arranged in a ring. A search starts at the home place of what it
looks for, goes on place by place, and gives up at the first vacant one. -/

namespace SingBox.LinearProbing

variable {n : Nat} [NeZero n]

/-- `q` lies `k` places after `p`, and no place on the way to it is vacant. -/
inductive Path (vacant : Fin n → Prop) : Nat → Fin n → Fin n → Prop
  | here (p : Fin n) : Path vacant 0 p p
  | next {k : Nat} {p q : Fin n} (hp : ¬vacant p) (h : Path vacant k (p + 1) q) : Path vacant (k + 1) p q

theorem Path.mono {vacant vacant'} (hle : ∀ p, vacant' p → vacant p) {k : Nat} {p q : Fin n} (h : Path vacant k p q) :
    Path vacant' k p q := by
  induction h with
  | here p => exact .here p
  | next hp _ ih => exact .next (fun hv => hp (hle _ hv)) ih

theorem val_advance (p : Fin n) (k : Nat) : ((· + 1)^[k] p : Fin n).val = (p.val + k) % n := by
  induction k with
  | zero => exact (Nat.mod_eq_of_lt p.isLt).symm
  | succ k ih =>
    rw [Function.iterate_succ_apply', Fin.val_add, ih, Fin.val_one', Nat.add_mod_mod, Nat.mod_add_mod,
      Nat.add_assoc]

theorem exists_advance (p q : Fin n) : ∃ k < n, (· + 1)^[k] p = q := by
  have hq := q.isLt
  rcases Nat.lt_or_ge q.val p.val with hlt | hge
  · refine ⟨q.val + n - p.val, by omega, Fin.ext ?_⟩
    have hsum : p.val + (q.val + n - p.val) = q.val + n := by omega
    rw [val_advance, hsum, Nat.add_mod_right, Nat.mod_eq_of_lt hq]
  · refine ⟨q.val - p.val, by omega, Fin.ext ?_⟩
    have hsum : p.val + (q.val - p.val) = q.val := by omega
    rw [val_advance, hsum, Nat.mod_eq_of_lt hq]

end SingBox.LinearProbing
