import Mathlib.Data.List.Basic

namespace SingBox.Arena

open List Option

/-! Objects that refer to each other by pointers are kept in a list that only
grows, and a pointer is an index into it. -/

variable {α : Type} {l : List α} {i j : Nat} {a b : α} {f : α → α}

theorem lt_of_some (h : l[i]? = some a) : i < l.length := (List.getElem?_eq_some_iff.1 h).1

theorem of_modify (h : (l.modify j f)[i]? = some b) : ∃ a, l[i]? = some a ∧ b = if j = i then f a else a := by
  rw [getElem?_modify] at h
  obtain ⟨a, ha, rfl⟩ := map_eq_some_iff.1 h
  exact ⟨a, ha, rfl⟩

theorem modify_of (h : l[i]? = some a) : (l.modify j f)[i]? = some (if j = i then f a else a) := by
  rw [getElem?_modify, h]
  rfl

theorem modify_self (h : l[i]? = some a) : (l.modify i f)[i]? = some (f a) := by
  rw [modify_of h, if_pos rfl]

theorem modify_ne (hji : j ≠ i) : (l.modify j f)[i]? = l[i]? := by
  simp [hji]

theorem modify_cases (hi : l[i]? = some a) (h : (l.modify i f)[j]? = some b) :
    (j = i ∧ b = f a) ∨ i ≠ j ∧ l[j]? = some b := by
  obtain ⟨c, hc, rfl⟩ := of_modify h
  by_cases hij : i = j
  · subst hij
    obtain rfl := mem_unique hi hc
    exact .inl ⟨rfl, if_pos rfl⟩
  · rw [if_neg hij]
    exact .inr ⟨hij, hc⟩

theorem set_eq_modify (f : α → α) (h : l[j]? = some a) : l.set j (f a) = l.modify j f := by
  rw [modify_eq_set_getElem?, h]
  rfl

theorem of_set (h : (l.set i a)[j]? = some b) : (j = i ∧ b = a) ∨ j ≠ i ∧ l[j]? = some b := by
  rw [getElem?_set] at h
  split at h
  · split at h
    · exact .inl ⟨Eq.symm ‹_›, (some.inj h).symm⟩
    · cases h
  · exact .inr ⟨Ne.symm ‹_›, h⟩

theorem set_self (h : l[i]? = some a) : (l.set i b)[i]? = some b := getElem?_set_self (lt_of_some h)

theorem countP_modify (p : α → Bool) (h : l[j]? = some a) :
    (l.modify j f).countP p = l.countP p - (if p a then 1 else 0) + if p (f a) then 1 else 0 := by
  obtain ⟨hlt, hget⟩ := List.getElem?_eq_some_iff.1 h
  rw [← set_eq_modify f h, List.countP_set hlt, hget]

theorem append_of {l'} (h : l[i]? = some a) : (l ++ l')[i]? = some a := by
  rw [getElem?_append_left (lt_of_some h)]
  exact h

theorem of_append (h : (l ++ [a])[i]? = some b) : l[i]? = some b ∨ i = l.length ∧ b = a := by
  rcases Nat.lt_or_ge i l.length with hlt | hge
  · rw [List.getElem?_append_left hlt] at h
    exact .inl h
  rw [List.getElem?_append_right hge] at h
  obtain ⟨hlt, heq⟩ := List.getElem?_eq_some_iff.1 h
  rw [List.length_singleton] at hlt
  refine .inr ⟨by omega, ?_⟩
  rw [← heq]
  simp

theorem modify_append_self (l : List α) (a : α) (f : α → α) : (l ++ [a]).modify l.length f = l ++ [f a] := by
  induction l with
  | nil => rfl
  | cons b l ih => simpa using ih

end SingBox.Arena
