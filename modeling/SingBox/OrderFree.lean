import Mathlib.Data.List.Induction
import Mathlib.Order.Lattice

/-! # Results that do not depend on the order of a list

A search for the only element with a property, a scan for the best element and
an insertion sort from the end of the list, where the comparison follows a key
that tells the elements apart. -/

namespace SingBox.OrderFree

open List Option

variable {α κ : Type} {p : α → Bool} {a : α}

theorem find?_eq_of_perm {l l' : List α} (hp : l.Perm l')
    (hsole : ∀ a ∈ l, ∀ b ∈ l, p a = true → p b = true → a = b) : l.find? p = l'.find? p := by
  cases h : l.find? p with
  | none =>
    rw [find?_eq_none] at h
    symm
    rw [find?_eq_none]
    exact fun a ha => h a (hp.mem_iff.2 ha)
  | some a =>
    cases h' : l'.find? p with
    | none =>
      rw [find?_eq_none] at h'
      exact absurd (find?_some h) (h' a (hp.mem_iff.1 (mem_of_find?_eq_some h)))
    | some b =>
      have hb : b ∈ l := hp.mem_iff.2 (mem_of_find?_eq_some h')
      rw [hsole a (mem_of_find?_eq_some h) b hb (find?_some h) (find?_some h')]

theorem find?_eq_some_of_sole {l : List α} (hsole : ∀ a ∈ l, ∀ b ∈ l, p a = true → p b = true → a = b) :
    l.find? p = some a ↔ a ∈ l ∧ p a = true := by
  constructor
  · exact fun h => ⟨mem_of_find?_eq_some h, find?_some h⟩
  · rintro ⟨hm, ha⟩
    obtain ⟨b, hb⟩ := isSome_iff_exists.1 (find?_isSome.2 ⟨a, hm, ha⟩)
    rw [hb, hsole a hm b (mem_of_find?_eq_some hb) ha (find?_some hb)]

def improve (r : α → α → Bool) (best : Option α) (a : α) : Option α :=
  if best.all (r a) then some a else best

def scan (r : α → α → Bool) (l : List α) : Option α := l.foldl (improve r) none

def insertFromEnd (r : α → α → Bool) (a : α) : List α → List α
  | [] => [a]
  | b :: rest => if r a b then b :: insertFromEnd r a rest else a :: b :: rest

def sortFromEnd (r : α → α → Bool) (l : List α) : List α := l.foldl (fun order a => insertFromEnd r a order) []

variable [LinearOrder κ]

/-- On the elements of the list the comparison is the one of the keys, and no
two elements share a key. -/
structure Follows (r : α → α → Bool) (key : α → κ) (l : List α) : Prop where
  lt : ∀ a ∈ l, ∀ b ∈ l, r a b = true ↔ key a < key b
  inj : ∀ a ∈ l, ∀ b ∈ l, key a = key b → a = b

variable {r : α → α → Bool} {key : α → κ} {l l' : List α}

theorem Follows.mono (h : Follows r key l) (hsub : ∀ a ∈ l', a ∈ l) : Follows r key l' :=
  ⟨fun a ha b hb => h.lt a (hsub a ha) b (hsub b hb), fun a ha b hb => h.inj a (hsub a ha) b (hsub b hb)⟩

def Least (key : α → κ) (l : List α) (a : α) : Prop := a ∈ l ∧ ∀ b ∈ l, key a ≤ key b

theorem scan_append (r : α → α → Bool) (l : List α) (a : α) : scan r (l ++ [a]) = improve r (scan r l) a := by
  rw [scan, foldl_append]
  rfl

omit [LinearOrder κ] in
theorem scan_isSome (h : l ≠ []) : ∃ a, scan r l = some a := by
  induction l using reverseRecOn with
  | nil => exact absurd rfl h
  | append_singleton l b =>
    rw [scan_append, improve]
    cases scan r l with
    | none => exact ⟨b, rfl⟩
    | some a => split <;> exact ⟨_, rfl⟩

omit [LinearOrder κ] in
theorem mem_of_scan (h : scan r l = some a) : a ∈ l := by
  induction l using reverseRecOn generalizing a with
  | nil => cases h
  | append_singleton l b ih =>
    rw [scan_append, improve] at h
    split at h
    · rw [← some.inj h]
      exact mem_append_right _ (mem_singleton_self b)
    · exact mem_append_left _ (ih h)

omit [LinearOrder κ] in
theorem scan_map {β : Type} {s} {f : α → β} (h : ∀ a ∈ l, ∀ b ∈ l, s (f a) (f b) = r a b) :
    scan s (l.map f) = (scan r l).map f := by
  induction l using reverseRecOn with
  | nil => rfl
  | append_singleton l b ih =>
    have hl : b ∈ l ++ [b] := mem_append_right _ (mem_singleton_self b)
    rw [map_append, map_singleton, scan_append, scan_append,
      ih fun a ha a' ha' => h a (mem_append_left _ ha) a' (mem_append_left _ ha')]
    cases hscan : scan r l with
    | none => rfl
    | some a =>
      have hsame := h b hl a (mem_append_left _ (mem_of_scan hscan))
      simp only [improve, map_some, all_some, hsame]
      split <;> rfl

theorem scan_spec (h : Follows r key l) : (l = [] ∧ scan r l = none) ∨ ∃ a, scan r l = some a ∧ Least key l a := by
  induction l using reverseRecOn with
  | nil => exact .inl ⟨rfl, rfl⟩
  | append_singleton l a ih =>
    have hl : a ∈ l ++ [a] := mem_append_right _ (mem_singleton_self a)
    have hinit {b} (hb : b ∈ l) : b ∈ l ++ [a] := mem_append_left _ hb
    refine .inr ?_
    rw [scan_append]
    rcases ih (h.mono fun b => hinit) with ⟨rfl, hno⟩ | ⟨m, hm, hme, hleast⟩
    · exact ⟨a, rfl, hl, by simp⟩
    rw [hm, improve]
    split
    case isTrue hr =>
      have hlt : key a < key m := (h.lt a hl m (hinit hme)).1 hr
      refine ⟨a, rfl, hl, ?_⟩
      intro b hb
      rcases mem_append.1 hb with hb | hb
      · exact le_trans (le_of_lt hlt) (hleast b hb)
      · rw [mem_singleton.1 hb]
    case isFalse hr =>
      have hle : key m ≤ key a := not_lt.1 fun hlt => hr ((h.lt a hl m (hinit hme)).2 hlt)
      refine ⟨m, rfl, hinit hme, ?_⟩
      intro b hb
      rcases mem_append.1 hb with hb | hb
      · exact hleast b hb
      · rw [mem_singleton.1 hb]
        exact hle

theorem scan_eq_of_least (h : Follows r key l) (ha : Least key l a) : scan r l = some a := by
  rcases scan_spec h with ⟨rfl, -⟩ | ⟨b, hb, hm, hleast⟩
  · exact absurd ha.1 not_mem_nil
  · rw [hb, h.inj b hm a ha.1 (le_antisymm (hleast a ha.1) (ha.2 b hm))]

theorem scan_eq_of_perm (h : Follows r key l) (hp : l.Perm l') : scan r l = scan r l' := by
  have h' : Follows r key l' := h.mono fun a => hp.mem_iff.2
  rcases scan_spec h with ⟨rfl, hno⟩ | ⟨a, ha, hm, hleast⟩
  · rw [hno, hp.nil_eq.symm]
    rfl
  rcases scan_spec h' with ⟨rfl, -⟩ | ⟨b, hb, hm', hleast'⟩
  · cases hp.mem_iff.1 hm
  have hab : key a = key b :=
    le_antisymm (hleast b (hp.mem_iff.2 hm')) (hleast' a (hp.mem_iff.1 hm))
  rw [ha, hb, h.inj a hm b (hp.mem_iff.2 hm') hab]

omit [LinearOrder κ] in
theorem perm_insertFromEnd (r : α → α → Bool) (a : α) (l : List α) : (insertFromEnd r a l).Perm (a :: l) := by
  induction l with
  | nil => exact .refl _
  | cons b l ih =>
    rw [insertFromEnd]
    split
    · exact (ih.cons b).trans (.swap a b l)
    · exact .refl _

omit [LinearOrder κ] in
theorem sortFromEnd_append (r : α → α → Bool) (l : List α) (a : α) :
    sortFromEnd r (l ++ [a]) = insertFromEnd r a (sortFromEnd r l) := by
  rw [sortFromEnd, foldl_append]
  rfl

omit [LinearOrder κ] in
theorem perm_sortFromEnd (r : α → α → Bool) (l : List α) : (sortFromEnd r l).Perm l := by
  induction l using reverseRecOn with
  | nil => exact .refl _
  | append_singleton l a ih =>
    rw [sortFromEnd_append]
    exact (perm_insertFromEnd r a _).trans ((ih.cons a).trans (perm_append_singleton a l).symm)

theorem pairwise_insertFromEnd (h : l.Pairwise fun b c => key c ≤ key b) (hlt : ∀ b ∈ l, r a b = true ↔ key a < key b) :
    (insertFromEnd r a l).Pairwise fun b c => key c ≤ key b := by
  induction l with
  | nil => exact pairwise_singleton ..
  | cons b l ih =>
    rw [pairwise_cons] at h
    rw [insertFromEnd]
    split
    case isTrue hr =>
      rw [pairwise_cons]
      refine ⟨?_, ih h.2 fun c hc => hlt c (mem_cons_of_mem b hc)⟩
      intro c hc
      rcases mem_cons.1 ((perm_insertFromEnd r a l).mem_iff.1 hc) with rfl | hc
      · exact le_of_lt ((hlt b mem_cons_self).1 hr)
      · exact h.1 c hc
    case isFalse hr =>
      have hle : key b ≤ key a := not_lt.1 fun hba => hr ((hlt b mem_cons_self).2 hba)
      rw [pairwise_cons, pairwise_cons]
      refine ⟨?_, h⟩
      intro c hc
      rcases mem_cons.1 hc with rfl | hc
      · exact hle
      · exact le_trans (h.1 c hc) hle

theorem pairwise_sortFromEnd (h : Follows r key l) : (sortFromEnd r l).Pairwise fun a b => key b ≤ key a := by
  induction l using reverseRecOn with
  | nil => exact .nil
  | append_singleton l a ih =>
    have hinit {b} (hb : b ∈ l) : b ∈ l ++ [a] := mem_append_left _ hb
    rw [sortFromEnd_append]
    refine pairwise_insertFromEnd (ih (h.mono fun b => hinit)) ?_
    intro b hb
    exact h.lt a (mem_append_right _ (mem_singleton_self a)) b
      (hinit ((perm_sortFromEnd r l).mem_iff.1 hb))

theorem sortFromEnd_eq_of_perm (h : Follows r key l) (hp : l.Perm l') : sortFromEnd r l = sortFromEnd r l' := by
  have h' : Follows r key l' := h.mono fun a => hp.mem_iff.2
  have hboth : (sortFromEnd r l).Perm (sortFromEnd r l') :=
    (perm_sortFromEnd r l).trans (hp.trans (perm_sortFromEnd r l').symm)
  refine hboth.eq_of_pairwise ?_ (pairwise_sortFromEnd h) (pairwise_sortFromEnd h')
  intro a b ha hb hba hab
  exact h.inj a ((perm_sortFromEnd r l).mem_iff.1 ha) b
    (hp.mem_iff.2 ((perm_sortFromEnd r l').mem_iff.1 hb)) (le_antisymm hab hba)

theorem head?_sortFromEnd (h : Follows r key l) : (sortFromEnd r l).reverse.head? = scan r l := by
  have hp : (sortFromEnd r l).reverse.Perm l := (reverse_perm _).trans (perm_sortFromEnd r l)
  have hsort : (sortFromEnd r l).reverse.Pairwise fun a b => key a ≤ key b :=
    pairwise_reverse.2 (pairwise_sortFromEnd h)
  cases hlist : (sortFromEnd r l).reverse with
  | nil =>
    rw [hlist] at hp
    rw [← hp.nil_eq]
    rfl
  | cons a rest =>
    rw [hlist] at hp hsort
    refine (scan_eq_of_least h ⟨hp.mem_iff.1 mem_cons_self, fun b hb => ?_⟩).symm
    rcases mem_cons.1 (hp.mem_iff.2 hb) with rfl | hb
    · exact le_refl _
    · exact rel_of_pairwise_cons hsort hb

end SingBox.OrderFree
