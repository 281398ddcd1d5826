import Mathlib.Data.List.AList
import Mathlib.Data.List.Induction

namespace SingBox.Maps

open List Option

/-- A finite map with one entry for each key. The order of the entry list has
no meaning; a loop over the map takes its order from a `RangeOrder`. -/
abbrev GoMap (K V : Type) := AList (fun _ : K => V)

/-- The order in which one `range` loop visits the keys of a map: any
permutation of them, chosen anew by each loop. -/
structure RangeOrder (K : Type) where
  visit : List K → List K
  perm : ∀ keys, (visit keys).Perm keys

def RangeOrder.stored (K : Type) : RangeOrder K := ⟨id, fun _ => List.Perm.refl _⟩

variable {K V : Type}

theorem RangeOrder.mem_visit (order : RangeOrder K) {keys k} :
    k ∈ order.visit keys ↔ k ∈ keys := (order.perm keys).mem_iff

theorem RangeOrder.nodup_visit (order : RangeOrder K) {keys} (h : keys.Nodup) :
    (order.visit keys).Nodup := (order.perm keys).nodup_iff.mpr h

theorem nodup_cons_of_fresh {α : Type} {key a} {l : List α} {seen : List K} (ha : key a ∉ seen)
    (h : (l.map key).Nodup ∧ ∀ b ∈ l, key b ∉ key a :: seen) :
    ((a :: l).map key).Nodup ∧ ∀ b ∈ a :: l, key b ∉ seen := by
  refine ⟨nodup_cons.2 ⟨fun hm => ?_, h.1⟩, forall_mem_cons.2 ⟨ha, fun b hb hm => ?_⟩⟩
  · obtain ⟨b, hb, heq⟩ := mem_map.1 hm
    exact h.2 b hb (heq ▸ mem_cons_self)
  · exact h.2 b hb (mem_cons_of_mem _ hm)

variable [DecidableEq K]

theorem lookup_set (m : GoMap K V) (k k' : K) (v : V) :
    (m.insert k v).lookup k' = if k' = k then some v else m.lookup k' := by
  by_cases h : k' = k
  · subst h; simp
  · simp [h]

theorem lookup_del (m : GoMap K V) (k k' : K) :
    (m.erase k).lookup k' = if k' = k then none else m.lookup k' := by
  by_cases h : k' = k
  · subst h; simp
  · simp [h]

variable {m : GoMap K V} {α : Type} {m' : GoMap K V}

theorem lookup_of_insert {k k' v v'} (h : (m.insert k v).lookup k' = some v') :
    (k' = k ∧ v' = v) ∨ (k' ≠ k ∧ m.lookup k' = some v') := by
  rw [lookup_set] at h
  split at h
  · exact .inl ⟨‹_›, (some.inj h).symm⟩
  · exact .inr ⟨‹_›, h⟩

theorem lookup_of_erase {k k' v} (h : (m.erase k).lookup k' = some v) : k' ≠ k ∧ m.lookup k' = some v := by
  rw [lookup_del] at h
  split at h
  · cases h
  · exact ⟨‹_›, h⟩

theorem mem_keys_iff {k} : k ∈ m.keys ↔ ∃ v, m.lookup k = some v := by
  rw [← AList.mem_keys, ← AList.lookup_isSome, isSome_iff_exists]

omit [DecidableEq K] in
theorem length_keys_le (h : ∀ k ∈ m'.keys, k ∈ m.keys) : m'.keys.length ≤ m.keys.length :=
  (subperm_of_subset (AList.keys_nodup m') h).length_le

theorem length_keys_insert_le (m : GoMap K V) (k : K) (v : V) : (m.insert k v).keys.length ≤ m.keys.length + 1 := by
  rw [AList.keys_insert]
  exact Nat.succ_le_succ length_erase_le

theorem length_keys_erase_lt {k} (h : k ∈ m.keys) : (m.erase k).keys.length < m.keys.length := by
  rw [AList.keys_erase, length_erase_of_mem h]
  have := length_pos_of_mem h
  omega

def Submap (m m' : GoMap K V) : Prop := ∀ k v, m.lookup k = some v → m'.lookup k = some v

theorem Submap.refl (m : GoMap K V) : Submap m m := fun _ _ h => h

theorem Submap.trans {a b c : GoMap K V} (hab : Submap a b) (hbc : Submap b c) : Submap a c :=
  fun k v h => hbc k v (hab k v h)

theorem erase_submap (m : GoMap K V) (k : K) : Submap (m.erase k) m :=
  fun _ _ h => (lookup_of_erase h).2

theorem foldl_submap {step : GoMap K V → α → GoMap K V} (hst : ∀ m a, Submap (step m a) m) (l : List α)
    (m : GoMap K V) : Submap (l.foldl step m) m := by
  induction l generalizing m with
  | nil => exact .refl m
  | cons a l ih => exact (ih (step m a)).trans (hst m a)

theorem Submap.keys_subset (h : Submap m m') : m.keys ⊆ m'.keys := fun k hk => by
  obtain ⟨v, hv⟩ := mem_keys_iff.1 hk
  exact mem_keys_iff.2 ⟨v, h k v hv⟩

theorem Submap.length_le (h : Submap m m') : m.keys.length ≤ m'.keys.length := length_keys_le h.keys_subset

theorem lookup_foldl_erase (key : α → K) (l : List α) (m : GoMap K V) (k : K) :
    (l.foldl (fun m a => m.erase (key a)) m).lookup k = if k ∈ l.map key then none else m.lookup k := by
  induction l generalizing m with
  | nil => rfl
  | cons a l ih =>
    rw [foldl_cons, ih, lookup_del]
    by_cases hk : k = key a <;> simp [hk]

def dropIf (drop : V → Bool) (m : GoMap K V) : GoMap K V :=
  (m.keys.filter fun k => (m.lookup k).any drop).foldl (fun m k => m.erase k) m

theorem lookup_foldl_insert (key : α → K) (value : α → V) {l : List α} (hkeys : (l.map key).Nodup) (m : GoMap K V)
    (k : K) (v : V) : (l.foldl (fun m a => m.insert (key a) (value a)) m).lookup k = some v ↔
      (∃ a ∈ l, key a = k ∧ value a = v) ∨ k ∉ l.map key ∧ m.lookup k = some v := by
  induction l generalizing m with
  | nil => simp
  | cons a l ih =>
    obtain ⟨hf, hkeys⟩ := nodup_cons.1 hkeys
    rw [foldl_cons, ih hkeys, lookup_set]
    constructor
    · rintro (⟨b, hb, hk, hv⟩ | ⟨hk, hlk⟩)
      · exact .inl ⟨b, mem_cons_of_mem _ hb, hk, hv⟩
      · split at hlk
        case isTrue heq => exact .inl ⟨a, mem_cons_self, heq.symm, some.inj hlk⟩
        case isFalse hne => exact .inr ⟨by simp [hne, hk], hlk⟩
    · rintro (⟨b, hb, hk, hv⟩ | ⟨hk, hlk⟩)
      · rcases mem_cons.1 hb with rfl | hb
        · exact .inr ⟨hk ▸ hf, by rw [if_pos hk.symm, hv]⟩
        · exact .inl ⟨b, hb, hk, hv⟩
      · rw [map_cons, mem_cons, not_or] at hk
        exact .inr ⟨hk.2, by rw [if_neg hk.1]; exact hlk⟩

theorem key_of_foldl_insert {key : α → K} {value : α → V} {l : List α} {k v}
    (h : (l.foldl (fun m a => m.insert (key a) (value a)) (∅ : GoMap K V)).lookup k = some v) : ∃ a ∈ l, key a = k := by
  induction l using reverseRecOn with
  | nil => simp at h
  | append_singleton l a ih =>
    rw [foldl_append] at h
    rcases lookup_of_insert h with ⟨rfl, -⟩ | ⟨-, h⟩
    · exact ⟨a, by simp, rfl⟩
    · obtain ⟨b, hb, hk⟩ := ih h
      exact ⟨b, mem_append_left _ hb, hk⟩

theorem perm_keys_foldl_insert (key : α → K) (value : α → V) {l : List α} (hkeys : (l.map key).Nodup) :
    (l.foldl (fun m a => m.insert (key a) (value a)) (∅ : GoMap K V)).keys.Perm (l.map key) := by
  refine (perm_ext_iff_of_nodup (AList.keys_nodup _) hkeys).2 fun k => ?_
  rw [mem_keys_iff]
  simp only [lookup_foldl_insert key value hkeys]
  simp

theorem lookup_foldl_choice {f : K → Option V} {step} (hst : ∀ m k, step m k = (f k).elim m fun v => m.insert k v)
    (l : List K) (m : GoMap K V) (k : K) :
    (l.foldl step m).lookup k = if k ∈ l then (f k).or (m.lookup k) else m.lookup k := by
  induction l generalizing m with
  | nil => rfl
  | cons k' l ih =>
    rw [foldl_cons, ih, hst]
    rcases eq_or_ne k k' with rfl | hne
    · cases hf : f k <;> simp
    · cases hf : f k' <;> simp [hne]

def drain : List K → GoMap K V → List V × GoMap K V
  | [], m => ([], m)
  | k :: ks, m =>
    match m.lookup k with
    | some v => (v :: (drain ks (m.erase k)).1, (drain ks (m.erase k)).2)
    | none => drain ks m

theorem lookup_drain (ks : List K) (m : GoMap K V) (k : K) :
    (drain ks m).2.lookup k = if k ∈ ks then none else m.lookup k := by
  induction ks generalizing m with
  | nil => rfl
  | cons k' ks ih =>
    rw [drain]
    split
    case h_1 v hv =>
      rw [ih, lookup_del]
      by_cases hk : k = k' <;> simp [hk]
    case h_2 hno =>
    rw [ih]
    rcases eq_or_ne k k' with rfl | hk
    · simp [hno]
    · simp [hk]

theorem mem_drain (ks : List K) (m : GoMap K V) (v : V) : v ∈ (drain ks m).1 ↔ ∃ k ∈ ks, m.lookup k = some v := by
  induction ks generalizing m with
  | nil => simp [drain]
  | cons k ks ih =>
    rw [drain]
    split
    case h_1 w hw =>
      rw [mem_cons, ih]
      constructor
      · rintro (rfl | ⟨k', hk', hlk⟩)
        · exact ⟨k, mem_cons_self, hw⟩
        · exact ⟨k', mem_cons_of_mem _ hk', erase_submap m k k' v hlk⟩
      · rintro ⟨k', hk', hlk⟩
        by_cases heq : k' = k
        · rw [heq, hw] at hlk
          exact .inl (some.inj hlk).symm
        · refine .inr ⟨k', (mem_cons.1 hk').resolve_left heq, ?_⟩
          rwa [lookup_del, if_neg heq]
    case h_2 hno =>
      rw [ih]
      constructor
      · rintro ⟨k', hk', hlk⟩
        exact ⟨k', mem_cons_of_mem _ hk', hlk⟩
      · rintro ⟨k', hk', hlk⟩
        rcases mem_cons.1 hk' with rfl | hk'
        · rw [hno] at hlk
          cases hlk
        · exact ⟨k', hk', hlk⟩

theorem nodup_drain {key} (ks : List K) (hk : ∀ k v, m.lookup k = some v → key v = k) :
    ((drain ks m).1.map key).Nodup := by
  induction ks generalizing m with
  | nil => exact nodup_nil
  | cons k ks ih =>
    rw [drain]
    split
    case h_1 v hv =>
      rw [map_cons, nodup_cons]
      refine ⟨?_, ih fun k' v' h => hk k' v' (erase_submap m k k' v' h)⟩
      rw [hk k v hv]
      intro hm
      obtain ⟨w, hw, hwk⟩ := mem_map.1 hm
      obtain ⟨k', -, hlk⟩ := (mem_drain ks (m.erase k) w).1 hw
      have hk' := hk k' w (erase_submap m k k' w hlk)
      rw [← hk', hwk, lookup_del, if_pos rfl] at hlk
      cases hlk
    case h_2 => exact ih hk

/-- A table of taken keys with the holders of its entries: each key of the table
has one holder, and a holder has one key at most. -/
structure Owned {X : Type} (table : GoMap K Unit) (holds : X → K → Prop) : Prop where
  taken_iff : ∀ k, table.lookup k = some () ↔ ∃ x, holds x k
  unique : ∀ x y k, holds x k → holds y k → x = y
  single : ∀ x k k', holds x k → holds x k' → k = k'

namespace Owned

variable {X : Type} {table : GoMap K Unit} {holds holds' : X → K → Prop} {x : X} {k : K}

theorem congr (h : Owned table holds) (hiff : ∀ y k, holds' y k ↔ holds y k) : Owned table holds' := by
  obtain rfl : holds' = holds := by
    funext y k
    exact propext (hiff y k)
  exact h

theorem insert (h : Owned table holds) (hf : table.lookup k = none) (hx : ∀ k', ¬ holds x k')
    (hiff : ∀ y k', holds' y k' ↔ holds y k' ∨ (y = x ∧ k' = k)) : Owned (table.insert k ()) holds' := by
  have hno : ∀ y, ¬ holds y k := by
    intro y hy
    have htk := (h.taken_iff k).mpr ⟨y, hy⟩
    rw [hf] at htk
    cases htk
  constructor
  · intro k'
    rw [lookup_set]
    simp only [hiff]
    split
    · rename_i hk
      exact ⟨fun _ => ⟨x, .inr ⟨rfl, hk⟩⟩, fun _ => rfl⟩
    rename_i hk
    rw [h.taken_iff k']
    exact ⟨fun ⟨y, hy⟩ => ⟨y, .inl hy⟩, fun ⟨y, hy⟩ => ⟨y, hy.resolve_right fun hy' => hk hy'.2⟩⟩
  · intro y z k' hy hz
    rcases (hiff y k').mp hy with hy | ⟨rfl, rfl⟩ <;> rcases (hiff z k').mp hz with hz | ⟨rfl, hk⟩
    · exact h.unique y z k' hy hz
    · exact absurd hy (hk ▸ hno y)
    · exact absurd hz (hno z)
    · rfl
  · intro y k₁ k₂ h₁ h₂
    rcases (hiff y k₁).mp h₁ with h₁ | ⟨rfl, rfl⟩ <;> rcases (hiff y k₂).mp h₂ with h₂ | ⟨hy, rfl⟩
    · exact h.single y k₁ k₂ h₁ h₂
    · exact absurd h₁ (hy ▸ hx k₁)
    · exact absurd h₂ (hx k₂)
    · rfl

theorem erase (h : Owned table holds) (hx : holds x k) (hiff : ∀ y k', holds' y k' ↔ holds y k' ∧ y ≠ x) :
    Owned (table.erase k) holds' := by
  constructor
  · intro k'
    rw [lookup_del]
    simp only [hiff]
    split
    · rename_i hk
      refine ⟨nofun, fun ⟨y, hy, hne⟩ => absurd (h.unique y x k (hk ▸ hy) hx) hne⟩
    rename_i hk
    rw [h.taken_iff k']
    refine ⟨fun ⟨y, hy⟩ => ⟨y, hy, ?_⟩, fun ⟨y, hy, _⟩ => ⟨y, hy⟩⟩
    rintro rfl
    exact hk (h.single y k' k hy hx)
  · exact fun y z k' hy hz => h.unique y z k' ((hiff y k').mp hy).1 ((hiff z k').mp hz).1
  · exact fun y k₁ k₂ h₁ h₂ => h.single y k₁ k₂ ((hiff y k₁).mp h₁).1 ((hiff y k₂).mp h₂).1

end Owned

end SingBox.Maps
