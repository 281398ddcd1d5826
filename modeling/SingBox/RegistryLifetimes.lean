import SingBox.Arena
import SingBox.ProfileRegistries

namespace SingBox.RegistryLifetimes

open List hiding after
open Option Arena Maps Runs ProfileRegistries

def unreleased (s : Registries) (j : Nat) : Nat := s.acquirers.countP fun a => a.reference = j && !a.released

def Mapped (s : Registries) (j : Nat) (r : Reference) : Prop := s.byScope.lookup r.scope = some j

def Alive (r : Reference) : Prop := 0 < r.refs ∨ r.processKeys ≠ []

variable {c : Prop} {l : List Reference} {key managerKey : Nat} {managed : Bool} {s' : Registries}

/-- What holds between two critical sections. Of the reference `but`, which a
section has just changed, it need not yet be known that it is mapped only while
it is alive. -/
structure KeptBut (but : Option Nat) (s : Registries) : Prop where
  found : ∀ scope j, s.byScope.lookup scope = some j → ∃ r : Reference, s.references[j]? = some r ∧ r.scope = scope
  owner : ∀ a ∈ s.acquirers, ∃ r, s.references[a.reference]? = some r ∧ r.scope = a.scope
  counted : ∀ j r, s.references[j]? = some r → r.refs = unreleased s j
  mapped : ∀ j r, s.references[j]? = some r → Alive r → Mapped s j r
  alive : ∀ j r, s.references[j]? = some r → some j ≠ but → Mapped s j r → Alive r
  watched : ∀ j (r : Reference) key, s.references[j]? = some r → key ∈ r.processKeys →
    ∃ w ∈ s.watchers, w.key = key ∧ w.reference = j ∧ w.done = false
  inUse : ∀ j (r : Reference) a key, s.references[j]? = some r → a ∈ s.acquirers → a.reference = j →
    a.processKey = some key →
    key ∈ s.ended ∨ key ∈ r.processKeys
  origin : ∀ j (r : Reference) key, s.references[j]? = some r → key ∈ r.processKeys →
    ∃ a ∈ s.acquirers, a.reference = j ∧ a.processKey = some key
  rooted : ∀ (j : Nat) (r : Reference) key, s.references[j]? = some r → r.scope = .process key → key ∈ s.ended ∨
    key ∈ r.processKeys
  closed : ∀ j r, s.references[j]? = some r →
    (Mapped s j r → r.closes + s.closing.count j = 0) ∧ (¬Mapped s j r → r.closes + s.closing.count j = 1)
  bounded : ∀ j ∈ s.closing, j < s.references.length

abbrev Kept (s : Registries) : Prop := KeptBut none s

theorem kept_new : Kept {} := by
  constructor <;> simp

variable {s : Registries} {i j : Nat} {r : Reference} {f : Reference → Reference} {scope : Scope}
  {a : Acquirer} {processKey : Option Nat} {acquirers : List Acquirer} {watchers : List Watcher}

theorem mapped_unique {t} (hi : Mapped s i r) (hj : Mapped s j t) (hsc : r.scope = t.scope) : i = j := by
  unfold Mapped at hi hj
  rw [hsc, hj] at hi
  exact (some.inj hi).symm

theorem KeptBut.of_mapped (h : KeptBut (some j) s)
    (halive : ∀ r, s.references[j]? = some r → Mapped s j r → Alive r) : Kept s := by
  refine { h with alive := ?_ }
  intro i r hr _ hmap
  by_cases hij : i = j
  · subst hij
    exact halive r hr hmap
  · exact h.alive i r hr (fun hsome => hij (some.inj hsome)) hmap

theorem KeptBut.settle (h : KeptBut (some j) s) : Kept (settle s j) := by
  unfold ProfileRegistries.settle
  split
  case h_1 hno =>
    apply h.of_mapped
    intro r hr
    rw [hno] at hr
    cases hr
  case h_2 r hr =>
    split
    case isFalse hkeep =>
      apply h.of_mapped
      intro t ht hmap
      obtain rfl := mem_unique hr ht
      by_contra hdead
      unfold Alive at hdead
      rw [not_or, Nat.not_lt, Nat.le_zero, not_not] at hdead
      exact hkeep ⟨hdead.1, hdead.2, hmap⟩
    case isTrue hdrop =>
      obtain ⟨hrefs, hkeys, hmap⟩ := hdrop
      have hdead : ¬Alive r := by simp [Alive, hrefs, hkeys]
      -- Only the entry of this reference is gone from the table.
      have hstill (i) (t) (hi : s.references[i]? = some t) :
          (s.byScope.erase r.scope).lookup t.scope = some i ↔ Mapped s i t ∧ i ≠ j := by
        rw [lookup_del]
        split
        case isTrue hsc =>
          constructor
          · intro habs
            cases habs
          · rintro ⟨hmi, hij⟩
            exact absurd (mapped_unique hmi hmap hsc) hij
        case isFalse hsc =>
          constructor
          · intro hmi
            refine ⟨hmi, ?_⟩
            rintro rfl
            rw [hr] at hi
            exact hsc (congrArg Reference.scope (some.inj hi)).symm
          · exact fun hmi => hmi.1
      refine ⟨?_, h.owner, h.counted, ?_, ?_, h.watched, h.inUse, h.origin, h.rooted, ?_, ?_⟩
      · intro scope i hi
        exact h.found scope i (lookup_of_erase hi).2
      · intro i t hi halive
        refine (hstill i t hi).2 ⟨h.mapped i t hi halive, ?_⟩
        rintro rfl
        obtain rfl := mem_unique hr hi
        exact hdead halive
      · intro i t hi _ hmi
        obtain ⟨hmi, hij⟩ := (hstill i t hi).1 hmi
        exact h.alive i t hi (fun hsome => hij (some.inj hsome)) hmi
      · intro i t hi
        obtain ⟨hm, hu⟩ := h.closed i t hi
        by_cases hij : i = j
        · subst hij
          obtain rfl := mem_unique hr hi
          have hzero := hm hmap
          refine ⟨fun hmi => absurd rfl ((hstill i r hr).1 hmi).2, fun _ => ?_⟩
          rw [count_cons_self]
          omega
        · have hcnt : (j :: s.closing).count i = s.closing.count i :=
            count_cons_of_ne (fun hji => hij hji.symm)
          rw [hcnt]
          refine ⟨fun hmi => hm ((hstill i t hi).1 hmi).1, fun hmi => hu fun hold => hmi ?_⟩
          exact (hstill i t hi).2 ⟨hold, hij⟩
      · intro i hi
        rcases mem_cons.1 hi with rfl | hi
        · exact lt_of_some hr
        · exact h.bounded i hi

def Keeps (f : Reference → Reference) : Prop := ∀ r, (f r).scope = r.scope

theorem Keeps.ite_scope (h : Keeps f) [Decidable c] (r) : (if c then f r else r).scope = r.scope := by
  split
  · exact h r
  · rfl

theorem exists_scope_of_modify (hf : Keeps f) (h : ∃ r, l[i]? = some r ∧ r.scope = scope) :
    ∃ r, (l.modify j f)[i]? = some r ∧ r.scope = scope := by
  obtain ⟨r, hr, hsc⟩ := h
  exact ⟨_, modify_of hr, (hf.ite_scope r).trans hsc⟩

section

variable (ha : s.acquirers[i]? = some a)
include ha

theorem unreleased_set (hrel : a.released = false) (j) :
    unreleased { s with acquirers := s.acquirers.set i { a with released := true } } j =
      unreleased s j - if a.reference = j then 1 else 0 := by
  obtain ⟨hlt, hget⟩ := List.getElem?_eq_some_iff.1 ha
  unfold unreleased
  rw [countP_set hlt, hget]
  simp [hrel]

theorem unreleased_pos (hrel : a.released = false) : 0 < unreleased s a.reference := by
  apply countP_pos_iff.2
  exact ⟨a, mem_of_getElem? ha, by simp [hrel]⟩

theorem mem_acquirers_set {b} (hb : b ∈ s.acquirers.set i { a with released := true }) :
    ∃ c ∈ s.acquirers, c.reference = b.reference ∧ c.scope = b.scope ∧ c.processKey = b.processKey := by
  rcases mem_or_eq_of_mem_set hb with hb | rfl
  · exact ⟨b, hb, rfl, rfl, rfl⟩
  · exact ⟨a, mem_of_getElem? ha, rfl, rfl, rfl⟩

theorem survives_set {c} (hc : c ∈ s.acquirers) :
    ∃ b ∈ s.acquirers.set i { a with released := true }, b.reference = c.reference ∧ b.processKey = c.processKey := by
  obtain ⟨hlt, hget⟩ := List.getElem?_eq_some_iff.1 ha
  obtain ⟨k, hk, rfl⟩ := getElem_of_mem hc
  by_cases hik : i = k
  · subst hik
    exact ⟨_, mem_set hlt _, by rw [hget], by rw [hget]⟩
  · refine ⟨_, mem_iff_getElem.2 ⟨k, by simpa using hk, getElem_set_ne hik _⟩, rfl, rfl⟩

end

/-- What a critical section may do to one reference, the acquirers and the
watchers: an acquirer it adds is one of that reference, and a watched context
it forgets has ended. -/
structure Section (s : Registries) (j : Nat) (f : Reference → Reference) (acquirers : List Acquirer)
    (watchers : List Watcher) : Prop where
  keeps : Keeps f
  acquirer : ∀ b ∈ acquirers,
    (∃ c ∈ s.acquirers, c.reference = b.reference ∧ c.scope = b.scope ∧ c.processKey = b.processKey) ∨
      b.reference = j ∧ ∃ r, s.references[j]? = some r ∧ r.scope = b.scope ∧
        ∀ key, b.processKey = some key → key ∈ s.ended ∨ key ∈ (f r).processKeys
  survives : ∀ c ∈ s.acquirers, ∃ b ∈ acquirers, b.reference = c.reference ∧ b.processKey = c.processKey
  origin : ∀ r key, s.references[j]? = some r → key ∈ (f r).processKeys →
    key ∈ r.processKeys ∨ ∃ b ∈ acquirers, b.reference = j ∧ b.processKey = some key
  refs : ∀ i r, s.references[i]? = some r →
    (if j = i then f r else r).refs = unreleased { s with acquirers := acquirers } i
  mapped : ∀ r, s.references[j]? = some r → Alive (f r) → Mapped s j r
  watched : ∀ r key, s.references[j]? = some r → key ∈ (f r).processKeys →
    ∃ w ∈ watchers, w.key = key ∧ w.reference = j ∧ w.done = false
  others : ∀ w ∈ s.watchers, w.reference ≠ j → w ∈ watchers
  forgets : ∀ r key, key ∈ r.processKeys → key ∈ s.ended ∨ key ∈ (f r).processKeys

theorem Section.keys (hsec : Section s j f acquirers watchers) [Decidable c] (h : key ∈ s.ended ∨ key ∈ r.processKeys) :
    key ∈ s.ended ∨ key ∈ (if c then f r else r).processKeys := by
  rcases h with h | h
  · exact .inl h
  split
  · exact hsec.forgets r key h
  · exact .inr h

theorem KeptBut.changed {closing} (h : Kept s) (hsec : Section s j f acquirers watchers)
    (hclos : ∀ i r, s.references[i]? = some r →
      (if j = i then f r else r).closes + closing.count i = r.closes + s.closing.count i)
    (hclosi : ∀ i ∈ closing, i ∈ s.closing) : KeptBut (some j) { s with
      references := s.references.modify j f, acquirers := acquirers, watchers := watchers, closing := closing } := by
  constructor
  · exact fun scope i hi => exists_scope_of_modify hsec.keeps (h.found scope i hi)
  · intro b hb
    apply exists_scope_of_modify hsec.keeps
    rcases hsec.acquirer b hb with ⟨c, hc, href, hsc, -⟩ | ⟨rfl, r, hr, hsc, -⟩
    · rw [← href, ← hsc]
      exact h.owner c hc
    · exact ⟨r, hr, hsc⟩
  · intro i t hi
    obtain ⟨r, hr, rfl⟩ := of_modify hi
    exact hsec.refs i r hr
  · intro i t hi halive
    obtain ⟨r, hr, rfl⟩ := of_modify hi
    unfold Mapped
    rw [hsec.keeps.ite_scope]
    split at halive
    case isTrue hij =>
      subst hij
      exact hsec.mapped r hr halive
    case isFalse => exact h.mapped i r hr halive
  · intro i t hi hne hmap
    obtain ⟨r, hr, rfl⟩ := of_modify hi
    rw [if_neg fun hij => hne (congrArg some hij.symm)] at hmap ⊢
    exact h.alive i r hr (by simp) hmap
  · intro i t key hi hk
    obtain ⟨r, hr, rfl⟩ := of_modify hi
    split at hk
    case isTrue hij =>
      subst hij
      exact hsec.watched r key hr hk
    case isFalse hij =>
      obtain ⟨w, hw, hwkey, hwref, hdone⟩ := h.watched i r key hr hk
      exact ⟨w, hsec.others w hw fun hj => hij (hj.symm.trans hwref), hwkey, hwref, hdone⟩
  · intro i t b key hi hb href hk
    obtain ⟨r, hr, rfl⟩ := of_modify hi
    rcases hsec.acquirer b hb with ⟨c, hc, hcref, -, hckey⟩ | ⟨hbj, r', hr', -, hnew⟩
    · exact hsec.keys (h.inUse i r c key hr hc (hcref.trans href) (hckey.trans hk))
    obtain rfl : j = i := hbj.symm.trans href
    obtain rfl := mem_unique hr hr'
    rw [if_pos rfl]
    exact hnew key hk
  · intro i t key hi hk
    obtain ⟨r, hr, rfl⟩ := of_modify hi
    have hold (hk : key ∈ r.processKeys) : ∃ b ∈ acquirers, b.reference = i ∧ b.processKey = some key := by
      obtain ⟨c, hc, hcref, hckey⟩ := h.origin i r key hr hk
      obtain ⟨b, hb, hbref, hbkey⟩ := hsec.survives c hc
      exact ⟨b, hb, hbref.trans hcref, hbkey.trans hckey⟩
    split at hk
    case isTrue hij =>
      subst hij
      exact (hsec.origin r key hr hk).elim hold id
    case isFalse => exact hold hk
  · intro i t key hi hsc
    obtain ⟨r, hr, rfl⟩ := of_modify hi
    rw [hsec.keeps.ite_scope] at hsc
    exact hsec.keys (h.rooted i r key hr hsc)
  · intro i t hi
    obtain ⟨r, hr, rfl⟩ := of_modify hi
    unfold Mapped
    rw [hsec.keeps.ite_scope, hclos i r hr]
    exact h.closed i r hr
  · intro i hi
    rw [length_modify]
    exact h.bounded i (hclosi i hi)

theorem KeptBut.changed_open (h : Kept s)
    (hsec : Section s j f acquirers watchers) (hclos : ∀ r, (f r).closes = r.closes) : KeptBut (some j)
      { s with references := s.references.modify j f, acquirers := acquirers, watchers := watchers } := by
  refine h.changed hsec (fun i r _ => ?_) fun _ hi => hi
  split
  · rw [hclos]
  · rfl

theorem unreleased_append (s a i) (ha : a.released = false) :
    unreleased { s with acquirers := s.acquirers ++ [a] } i =
      unreleased s i + if a.reference = i then 1 else 0 := by
  unfold unreleased
  simp [ha]

theorem watch_eq (s j watchKey) : watch s j watchKey =
      { s with watchers := s.watchers ++ watchKey.toList.map fun key => { key := key, reference := j } } := by
  cases watchKey with
  | none => simp [watch]
  | some key => rfl

theorem exists_of_append (r) (h : ∃ t, l[i]? = some t ∧ t.scope = scope) :
    ∃ t, (l ++ [r])[i]? = some t ∧ t.scope = scope := by
  obtain ⟨t, ht, hsc⟩ := h
  exact ⟨t, append_of ht, hsc⟩

theorem addKey_same (r managed processKey) :
    (addKey r managed processKey).1.scope = r.scope ∧ (addKey r managed processKey).1.closes = r.closes ∧
      (addKey r managed processKey).1.refs = r.refs := by
  unfold addKey
  split
  · split <;> exact ⟨rfl, rfl, rfl⟩
  · exact ⟨rfl, rfl, rfl⟩

theorem mem_addKey (r managed processKey key) : key ∈ (addKey r managed processKey).1.processKeys ↔
      key ∈ r.processKeys ∨ (addKey r managed processKey).2 = some key := by
  unfold addKey
  split
  · split
    · simp [or_comm, eq_comm]
    · simp
  · simp

theorem addKey_watched (h : (addKey r managed processKey).2 = some key) : processKey = some key := by
  unfold addKey at h
  split at h
  · split at h
    · exact h
    · cases h
  · cases h

theorem mem_addKey_managed (r key) : key ∈ (addKey r true (some key)).1.processKeys := by
  unfold addKey
  dsimp only
  split
  case isTrue => exact mem_cons_self
  case isFalse h => simpa using h

theorem found_of_bind {found} (h : found.bind (fun j => s.references[j]?.map fun r => (j, r)) = some (j, r)) :
    found = some j ∧ s.references[j]? = some r := by
  obtain ⟨i, hi, hmap⟩ := bind_eq_some_iff.1 h
  obtain ⟨t, ht, hpair⟩ := map_eq_some_iff.1 hmap
  obtain ⟨rfl, rfl⟩ := Prod.mk.inj hpair
  exact ⟨hi, ht⟩

section

variable (h : Kept s)

include h

/-- A released acquirer is counted no longer, but its contexts stay watched. -/
theorem KeptBut.release (i) : Kept (release s i) := by
  unfold ProfileRegistries.release
  split
  case h_1 => exact h
  case h_2 a ha =>
  split
  case isTrue => exact h
  case isFalse hrel =>
  rw [Bool.not_eq_true] at hrel
  obtain ⟨r, hr, hsc⟩ := h.owner a (mem_of_getElem? ha)
  have hrefs : 0 < r.refs := by
    rw [h.counted _ r hr]
    exact unreleased_pos ha hrel
  -- An acquirer that still counts finds its reference mapped.
  have hmap : Mapped s a.reference r := h.mapped _ r hr (.inl hrefs)
  have hlk : s.byScope.lookup a.scope = some a.reference := hsc ▸ hmap
  rw [if_pos hlk]
  apply KeptBut.settle
  refine h.changed_open ?_ fun _ => rfl
  refine ⟨fun _ => rfl, fun b hb => .inl (mem_acquirers_set ha hb), ?_,
    fun _ _ _ hk => .inl hk, ?_, ?_, ?_, fun w hw _ => hw, fun _ _ hk => .inr hk⟩
  · exact fun c hc => survives_set ha hc
  · intro j t ht
    rw [unreleased_set ha hrel, ← h.counted j t ht]
    split <;> rfl
  · intro t ht _
    obtain rfl := mem_unique hr ht
    exact hmap
  · exact fun t key ht hk => h.watched _ t key ht hk

theorem KeptBut.watcherDone (i) : Kept (watcherDone s i) := by
  unfold ProfileRegistries.watcherDone
  split
  case h_1 => exact h
  case h_2 watcher hw =>
  split
  case isTrue => exact h
  case isFalse hwaits =>
  rw [not_or, not_not] at hwaits
  obtain ⟨hlt, hget⟩ := List.getElem?_eq_some_iff.1 hw
  -- The other watchers go on waiting.
  have hoth (w) (hm : w ∈ s.watchers) (hne : w ≠ watcher) :
      w ∈ s.watchers.set i { watcher with done := true } := by
    obtain ⟨k, hk, rfl⟩ := getElem_of_mem hm
    refine mem_iff_getElem.2 ⟨k, by simpa using hk, ?_⟩
    rw [getElem_set_ne]
    rintro rfl
    exact hne hget
  apply KeptBut.settle
  refine h.changed_open ?_ fun _ => rfl
  refine ⟨fun _ => rfl, fun b hb => .inl ⟨b, hb, rfl, rfl, rfl⟩,
    fun c hc => ⟨c, hc, rfl, rfl⟩, fun _ _ _ hke => .inl (mem_of_mem_filter hke), ?_, ?_, ?_, ?_, ?_⟩
  · intro j t ht
    rw [← h.counted j t ht]
    split <;> rfl
  · intro t ht halive
    refine h.mapped _ t ht ?_
    rcases halive with hrefs | hkeys
    · exact .inl hrefs
    · exact .inr fun hnil => hkeys (by simp [hnil])
  · intro t key ht hke
    rw [mem_filter, decide_eq_true_eq] at hke
    obtain ⟨w, hm, hkeyw, href, hdone⟩ := h.watched _ t key ht hke.1
    refine ⟨w, hoth w hm ?_, hkeyw, href, hdone⟩
    rintro rfl
    exact hke.2 hkeyw.symm
  · intro w hm hne
    refine hoth w hm ?_
    rintro rfl
    exact hne rfl
  · intro r key hke
    by_cases heq : key = watcher.key
    · subst heq
      exact .inl hwaits.2
    · exact .inr (mem_filter.2 ⟨hke, decide_eq_true heq⟩)

theorem KeptBut.cancel (key) : Kept { s with ended := key :: s.ended } :=
  { h with
    inUse := fun j r a k hr ha href hk => (h.inUse j r a k hr ha href hk).imp (mem_cons_of_mem _) id
    rooted := fun j r k hr hsc => (h.rooted j r k hr hsc).imp (mem_cons_of_mem _) id }

theorem KeptBut.close (j) : Kept (close s j) := by
  unfold ProfileRegistries.close
  split
  case isFalse => exact h
  case isTrue hj =>
  have hpos : 0 < s.closing.count j := count_pos_iff.2 hj
  have hsec : Section s j (fun r => { r with closes := r.closes + 1 }) s.acquirers s.watchers := by
    refine ⟨fun _ => rfl, fun b hb => .inl ⟨b, hb, rfl, rfl, rfl⟩, fun c hc => ⟨c, hc, rfl, rfl⟩,
      fun _ _ _ hk => .inl hk, ?_, h.mapped j, h.watched j, fun w hw _ => hw, fun _ _ hk => .inr hk⟩
    intro i r hr
    rw [← h.counted i r hr]
    split <;> rfl
  apply KeptBut.of_mapped (j := j)
  · refine h.changed hsec (fun i r hr => ?_) fun i hi => mem_of_mem_erase hi
    split
    case isTrue hij =>
      subst hij
      rw [count_erase_self]
      dsimp only
      omega
    case isFalse hij => rw [count_erase_of_ne fun hji => hij hji.symm]
  · -- a reference that is closed is not mapped
    intro t ht hmap
    obtain ⟨r, hr, rfl⟩ := of_modify ht
    rw [if_pos rfl] at hmap
    have hzero := (h.closed j r hr).1 hmap
    omega

theorem KeptBut.make (hf : s.byScope.lookup scope = none)
    (hscope : ∀ key, scope = .process key → processKey = some key) :
    Kept
      { s with
        byScope := s.byScope.insert scope s.references.length
        references := s.references ++ [{ scope := scope, refs := 1, processKeys := processKey.toList }]
        acquirers := s.acquirers ++
          [{ reference := s.references.length, scope := scope, processKey := processKey }]
        watchers := s.watchers ++
          processKey.toList.map fun key => { key := key, reference := s.references.length } } := by
  -- The table still leads to each of the references it led to.
  have hsame (i) (t) (hi : s.references[i]? = some t) :
      (s.byScope.insert scope s.references.length).lookup t.scope = some i ↔ Mapped s i t := by
    have hne : s.references.length ≠ i := by
      have := lt_of_some hi
      omega
    unfold Mapped
    rw [lookup_set]
    split
    case isTrue heq =>
      rw [heq, hf]
      simp [hne]
    case isFalse => rfl
  have hnew : (s.references ++ [{ scope := scope, refs := 1, processKeys := processKey.toList }])[s.references.length]? =
      some { scope := scope, refs := 1, processKeys := processKey.toList } := by simp
  have hcnt (i) := unreleased_append s
    { reference := s.references.length, scope := scope, processKey := processKey } i rfl
  -- Nobody has acquired a reference that is not there yet.
  have hnob : unreleased s s.references.length = 0 := by
    apply countP_eq_zero.2
    intro a ha
    obtain ⟨r, hr, -⟩ := h.owner a ha
    have hlt := lt_of_some hr
    have hne : a.reference ≠ s.references.length := by omega
    simp [hne]
  have hclos : s.closing.count s.references.length = 0 := by
    apply count_eq_zero_of_not_mem
    intro hme
    exact Nat.lt_irrefl _ (h.bounded _ hme)
  constructor
  · intro sc i hi
    rcases lookup_of_insert hi with ⟨rfl, rfl⟩ | ⟨-, hi⟩
    · exact ⟨_, hnew, rfl⟩
    · exact exists_of_append _ (h.found sc i hi)
  · intro a ha
    rcases mem_append.1 ha with ha | ha
    · exact exists_of_append _ (h.owner a ha)
    · obtain rfl := mem_singleton.1 ha
      exact ⟨_, hnew, rfl⟩
  · intro i t hi
    refine Eq.trans ?_ (hcnt i).symm
    rcases of_append hi with hi | ⟨rfl, rfl⟩
    · have := lt_of_some hi
      have hne : s.references.length ≠ i := by omega
      rw [if_neg hne, h.counted i t hi]
      rfl
    · rw [if_pos rfl, hnob]
  · intro i t hi halive
    rcases of_append hi with hi | ⟨rfl, rfl⟩
    · exact (hsame i t hi).2 (h.mapped i t hi halive)
    · exact AList.lookup_insert _
  · intro i t hi hne hmap
    rcases of_append hi with hi | ⟨rfl, rfl⟩
    · exact h.alive i t hi hne ((hsame i t hi).1 hmap)
    · exact .inl Nat.one_pos
  · intro i t key hi hk
    rcases of_append hi with hi | ⟨rfl, rfl⟩
    · obtain ⟨w, hw, hre⟩ := h.watched i t key hi hk
      exact ⟨w, mem_append_left _ hw, hre⟩
    · exact ⟨_, mem_append_right _ (mem_map_of_mem hk), rfl, rfl, rfl⟩
  · intro i t a key hi ha href hk
    rcases of_append hi with hi | ⟨rfl, rfl⟩
    · have hlt := lt_of_some hi
      rcases mem_append.1 ha with ha | ha
      · exact h.inUse i t a key hi ha href hk
      obtain rfl := mem_singleton.1 ha
      dsimp only at href
      omega
    · rcases mem_append.1 ha with ha | ha
      · obtain ⟨r, hr, -⟩ := h.owner a ha
        have hlt := lt_of_some hr
        omega
      · obtain rfl := mem_singleton.1 ha
        exact .inr (mem_toList.2 hk)
  · intro i t key hi hk
    rcases of_append hi with hi | ⟨rfl, rfl⟩
    · obtain ⟨a, ha, hre⟩ := h.origin i t key hi hk
      exact ⟨a, mem_append_left _ ha, hre⟩
    · exact ⟨_, mem_append_right _ (mem_singleton_self _), rfl, mem_toList.1 hk⟩
  · intro i t key hi hsc
    rcases of_append hi with hi | ⟨rfl, rfl⟩
    · exact h.rooted i t key hi hsc
    · exact .inr (mem_toList.2 (hscope key hsc))
  · intro i t hi
    rcases of_append hi with hi | ⟨rfl, rfl⟩
    · refine ⟨fun hm => (h.closed i t hi).1 ((hsame i t hi).1 hm), fun hm => (h.closed i t hi).2 fun hold => hm ?_⟩
      exact (hsame i t hi).2 hold
    exact ⟨fun _ => by rw [hclos], absurd (AList.lookup_insert _)⟩
  · intro i hi
    have := h.bounded i hi
    rw [length_append]
    omega

theorem KeptBut.join (hf : s.byScope.lookup scope = some j) (hr : s.references[j]? = some r)
    (hsc : managed = false → ∀ key, processKey = some key → scope = .process key) : Kept
      { s with
        references := s.references.set j
          { (addKey r managed processKey).1 with refs := (addKey r managed processKey).1.refs + 1 }
        acquirers := s.acquirers ++ [{ reference := j, scope := scope, processKey := processKey }]
        watchers := s.watchers ++
          (addKey r managed processKey).2.toList.map fun key => { key := key, reference := j } } := by
  obtain ⟨r', hr', rfl⟩ := h.found scope j hf
  obtain rfl := mem_unique hr hr'
  have hset := set_eq_modify (fun r => { (addKey r managed processKey).1 with
    refs := (addKey r managed processKey).1.refs + 1 }) hr
  rw [hset]
  apply of_mapped (j := j)
  · refine h.changed_open ?_ fun r => (addKey_same r ..).2.1
    refine ⟨fun r => (addKey_same r ..).1, ?_, ?_, ?_, ?_, fun t ht _ => ?_, ?_, ?_, ?_⟩
    · intro b hb
      rcases mem_append.1 hb with hb | hb
      · exact .inl ⟨b, hb, rfl, rfl, rfl⟩
      obtain rfl := mem_singleton.1 hb
      refine .inr ⟨rfl, r, hr, rfl, fun key hk => ?_⟩
      dsimp only at hk ⊢
      cases managed with
      | true =>
        rw [hk]
        exact .inr (mem_addKey_managed r key)
      | false =>
        refine (h.rooted j r key hr (hsc rfl key hk)).imp id fun hold => ?_
        exact (mem_addKey ..).2 (.inl hold)
    · exact fun c hc => ⟨c, mem_append_left _ hc, rfl, rfl⟩
    · intro t key ht hk
      refine ((mem_addKey ..).1 hk).imp id fun hnew => ?_
      exact ⟨_, mem_append_right _ (mem_singleton_self _), rfl, addKey_watched hnew⟩
    · intro i t ht
      rw [unreleased_append s _ i rfl, ← h.counted i t ht]
      split
      · rw [(addKey_same ..).2.2]
      · rfl
    · obtain rfl := mem_unique hr ht
      exact hf
    · intro t key ht hk
      obtain rfl := mem_unique hr ht
      rcases (mem_addKey ..).1 hk with hk | hk
      · obtain ⟨w, hw, hre⟩ := h.watched j r key hr hk
        exact ⟨w, mem_append_left _ hw, hre⟩
      · refine ⟨_, mem_append_right _ (mem_map_of_mem (mem_toList.2 hk)), rfl, rfl, rfl⟩
    · exact fun w hw _ => mem_append_left _ hw
    · exact fun t key hk => .inr ((mem_addKey ..).2 (.inl hk))
  · intro t ht _
    obtain ⟨t, -, rfl⟩ := of_modify ht
    rw [if_pos rfl]
    exact .inl (Nat.succ_pos _)

theorem KeptBut.acquire (managerKey processKey) : Kept (acquire s managerKey processKey).1 := by
  unfold ProfileRegistries.acquire
  split
  case h_1 => exact h
  case h_2 scope hsc =>
  unfold scopeOf at hsc
  split
  case h_1 hno =>
    dsimp only
    rw [watch_eq]
    apply h.make
    · by_contra hsome
      obtain ⟨j, hj⟩ := ne_none_iff_exists'.1 hsome
      obtain ⟨r, hr, -⟩ := h.found scope j hj
      simp [hj, hr] at hno
    · rintro key rfl
      split at hsc
      · simp at hsc
      · simpa using hsc
  case h_2 j r hsome =>
    obtain ⟨hi, ht⟩ := found_of_bind hsome
    dsimp only
    rw [watch_eq]
    apply h.join hi ht
    rintro hman key rfl
    rw [decide_eq_false_iff_not] at hman
    rw [if_neg (by simp [hman])] at hsc
    simpa using hsc.symm

theorem KeptBut.step (op) : Kept (step s op) := by
  cases op with
  | acquire managerKey processKey => exact h.acquire managerKey processKey
  | release i => exact h.release i
  | cancel key => exact h.cancel key
  | watcherDone i => exact h.watcherDone i
  | close j => exact h.close j

end

theorem kept_run (h : Kept s) (ops) : Kept (run step s ops) :=
  run_invariant (I := Kept) (fun _ op h => h.step op) h ops

theorem kept_after (ops) : Kept (after ops) := kept_run kept_new ops

def Unused (s : Registries) (j : Nat) : Prop :=
  ∀ a ∈ s.acquirers, a.reference = j → a.released = true ∧ ∀ key, a.processKey = some key → key ∈ s.ended

def Quiet (s : Registries) (j : Nat) : Prop :=
  (∀ w ∈ s.watchers, w.reference = j → w.key ∈ s.ended → w.done = true) ∧ j ∉ s.closing

theorem KeptBut.unused_of_closes (h : Kept s) (hr : s.references[j]? = some r) (hclos : r.closes ≠ 0) :
    Unused s j := by
  have hdead : ¬Alive r := by
    intro halive
    have hzero := (h.closed j r hr).1 (h.mapped j r hr halive)
    omega
  unfold Alive at hdead
  rw [not_or, Nat.not_lt, Nat.le_zero, not_not] at hdead
  intro a ha href
  constructor
  · by_contra hrel
    have hpos : 0 < unreleased s j := countP_pos_iff.2 ⟨a, ha, by simp [href, hrel]⟩
    rw [← h.counted j r hr, hdead.1] at hpos
    exact Nat.lt_irrefl 0 hpos
  · intro key hk
    have huse := h.inUse j r a key hr ha href hk
    rw [hdead.2] at huse
    simpa using huse

theorem KeptBut.not_alive (h : Kept s) (hr : s.references[j]? = some r) (hunus : Unused s j) (hqt : Quiet s j) :
    ¬Alive r := by
  rintro (hrefs | hkeys)
  · rw [h.counted j r hr] at hrefs
    obtain ⟨a, ha, hcnt⟩ := countP_pos_iff.1 hrefs
    rw [Bool.and_eq_true, decide_eq_true_eq] at hcnt
    rw [(hunus a ha hcnt.1).1] at hcnt
    cases hcnt.2
  · obtain ⟨key, hk⟩ := exists_mem_of_ne_nil _ hkeys
    obtain ⟨w, hw, rfl, href, hwaits⟩ := h.watched j r key hr hk
    obtain ⟨a, ha, haref, hakey⟩ := h.origin j r w.key hr hk
    rw [hqt.1 w hw href ((hunus a ha haref).2 w.key hakey)] at hwaits
    cases hwaits

theorem KeptBut.closes_of_quiet (h : Kept s) (hr : s.references[j]? = some r) (hunus : Unused s j)
    (hqt : Quiet s j) : r.closes = 1 := by
  have hout : ¬Mapped s j r := fun hmap =>
    h.not_alive hr hunus hqt (h.alive j r hr (by simp) hmap)
  have hone := (h.closed j r hr).2 hout
  rw [count_eq_zero_of_not_mem hqt.2] at hone
  exact hone

theorem KeptBut.closes_le (h : Kept s) (hr : s.references[j]? = some r) : r.closes + s.closing.count j ≤ 1 := by
  obtain ⟨hmap, hout⟩ := h.closed j r hr
  by_cases hm : Mapped s j r
  · rw [hmap hm]
    exact Nat.zero_le 1
  · rw [hout hm]

def Survive (s s' : Registries) : Prop :=
  ∀ (j : Nat) (r : Reference), s.references[j]? = some r →
    ∃ r', s'.references[j]? = some r' ∧ r'.scope = r.scope ∧ r.closes ≤ r'.closes

theorem settle_same (s : Registries) (j : Nat) : (settle s j).references = s.references ∧
    (settle s j).watchers = s.watchers ∧ (settle s j).acquirers = s.acquirers ∧ (settle s j).ended = s.ended := by
  unfold settle
  split
  · exact ⟨rfl, rfl, rfl, rfl⟩
  · split <;> exact ⟨rfl, rfl, rfl, rfl⟩

theorem survive_modify (h : s'.references = s.references.modify j f) (hsc : Keeps f)
    (hclos : ∀ r, r.closes ≤ (f r).closes) : Survive s s' := by
  intro i r hr
  refine ⟨_, h ▸ modify_of hr, ?_⟩
  split
  · exact ⟨hsc r, hclos r⟩
  · exact ⟨rfl, Nat.le_refl _⟩

theorem survive_same (h : s'.references = s.references) : Survive s s' :=
  fun _ r hr => ⟨r, h ▸ hr, rfl, Nat.le_refl _⟩

theorem survive_acquire (s managerKey processKey) : Survive s (acquire s managerKey processKey).1 := by
  unfold acquire
  split
  · exact survive_same rfl
  split
  · dsimp only
    rw [watch_eq]
    exact fun i r hr => ⟨r, append_of hr, rfl, Nat.le_refl _⟩
  · case h_2 j r hsome =>
    obtain ⟨hi, ht⟩ := found_of_bind hsome
    dsimp only
    rw [watch_eq]
    refine survive_modify (set_eq_modify (fun r => { (addKey r _ processKey).1 with
      refs := (addKey r _ processKey).1.refs + 1 }) ht) ?_ ?_
    · exact fun r => (addKey_same r ..).1
    · exact fun r => Nat.le_of_eq (addKey_same r ..).2.1.symm

theorem survive_step (s : Registries) (op : Op) : Survive s (step s op) := by
  cases op with
  | acquire managerKey processKey => exact survive_acquire s managerKey processKey
  | cancel key => exact survive_same rfl
  | release i =>
    unfold step release
    dsimp only
    split
    · exact survive_same rfl
    split
    · exact survive_same rfl
    split
    · exact survive_modify (settle_same ..).1 (fun _ => rfl) fun _ => Nat.le_refl _
    · exact survive_same rfl
  | watcherDone i =>
    unfold step watcherDone
    dsimp only
    split
    · exact survive_same rfl
    split
    · exact survive_same rfl
    · exact survive_modify (settle_same ..).1 (fun _ => rfl) fun _ => Nat.le_refl _
  | close j =>
    unfold step close
    dsimp only
    split
    · exact survive_modify rfl (fun _ => rfl) fun r => Nat.le_succ r.closes
    · exact survive_same rfl

theorem survive_run (s ops) : Survive s (run step s ops) := by
  refine run_invariant (I := Survive s) ?_ (survive_same rfl) ops
  intro s' op h j r hr
  obtain ⟨r', hr', hsc, hclos⟩ := h j r hr
  obtain ⟨t, ht, hsc', hclos'⟩ := survive_step s' op j r' hr'
  exact ⟨t, ht, hsc'.trans hsc, Nat.le_trans hclos hclos'⟩

theorem acquire_lookup (s) (hsc : scopeOf managerKey processKey = some scope) :
    ∃ i, (acquire s managerKey processKey).2 = some i ∧
      (acquire s managerKey processKey).1.byScope.lookup scope = some i := by
  unfold acquire
  rw [hsc]
  dsimp only
  split
  · exact ⟨_, rfl, AList.lookup_insert _⟩
  case h_2 j r hsome =>
  obtain ⟨hi, ht⟩ := found_of_bind hsome
  rw [watch_eq]
  exact ⟨_, rfl, hi⟩

theorem KeptBut.acquire_open (h : Kept s) (hsc : scopeOf managerKey processKey = some scope) :
    ∃ i t, (ProfileRegistries.acquire s managerKey processKey).2 = some i ∧
      (ProfileRegistries.acquire s managerKey processKey).1.references[i]? = some t ∧ t.scope = scope ∧
      t.closes = 0 := by
  obtain ⟨i, hi, hlk⟩ := acquire_lookup s hsc
  have hkept := h.acquire managerKey processKey
  obtain ⟨t, ht, rfl⟩ := hkept.found scope i hlk
  have hzero := (hkept.closed i t ht).1 hlk
  exact ⟨i, t, hi, ht, rfl, by omega⟩

/-- Every goroutine that can run takes its turn: the watchers, then the callers
that still have a registry to close. -/
def finish (s : Registries) : List Op :=
  (range s.watchers.length).map .watcherDone ++ (range s.references.length).map .close

structure SameUsers (s s' : Registries) : Prop where
  acquirers : s'.acquirers = s.acquirers
  ended : s'.ended = s.ended
  watchers : s'.watchers.length = s.watchers.length
  references : s'.references.length = s.references.length

theorem SameUsers.trans {t u} (h : SameUsers s t) (h' : SameUsers t u) : SameUsers s u :=
  ⟨h'.acquirers.trans h.acquirers, h'.ended.trans h.ended, h'.watchers.trans h.watchers,
    h'.references.trans h.references⟩

theorem sameUsers_watcherDone (s : Registries) (i : Nat) : SameUsers s (watcherDone s i) := by
  unfold watcherDone
  split
  · exact ⟨rfl, rfl, rfl, rfl⟩
  split
  · exact ⟨rfl, rfl, rfl, rfl⟩
  · obtain ⟨href, hwat, hacq, hend⟩ := settle_same ..
    exact ⟨hacq, hend, hwat ▸ length_set, href ▸ length_modify ..⟩

theorem sameUsers_close (s j) : SameUsers s (close s j) := by
  unfold close
  split
  · exact ⟨rfl, rfl, rfl, length_modify ..⟩
  · exact ⟨rfl, rfl, rfl, rfl⟩

def Ran (n : Nat) (s : Registries) : Prop :=
  ∀ (i : Nat) (w : Watcher), i < n → s.watchers[i]? = some w → w.key ∈ s.ended → w.done = true

theorem Ran.watcherDone {n} (h : Ran n s) : Ran (n + 1) (watcherDone s n) := by
  intro i w hi hw hend
  rw [(sameUsers_watcherDone s n).ended] at hend
  unfold ProfileRegistries.watcherDone at hw
  split at hw
  case h_1 hno =>
    rcases Nat.lt_succ_iff_lt_or_eq.1 hi with hlt | rfl
    · exact h i w hlt hw hend
    · rw [hno] at hw
      cases hw
  case h_2 watcher hwatc =>
    split at hw
    case isTrue hskip =>
      rcases Nat.lt_succ_iff_lt_or_eq.1 hi with hlt | rfl
      · exact h i w hlt hw hend
      obtain rfl := mem_unique hwatc hw
      exact hskip.resolve_right fun hrun => hrun hend
    case isFalse =>
      rw [(settle_same ..).2.1, getElem?_set] at hw
      split at hw
      case isTrue =>
        split at hw
        · obtain rfl := some.inj hw
          rfl
        · cases hw
      case isFalse hne => exact h i w (by omega) hw hend

theorem ran_watchers (s n) : Ran n (run step s ((range n).map .watcherDone)) ∧
      SameUsers s (run step s ((range n).map .watcherDone)) := by
  induction n with
  | zero => exact ⟨fun i w hi => absurd hi (Nat.not_lt_zero i), ⟨rfl, rfl, rfl, rfl⟩⟩
  | succ n ih =>
    rw [range_succ, map_append, run_append]
    exact ⟨ih.1.watcherDone, ih.2.trans (sameUsers_watcherDone _ n)⟩

/-- A registry is on the way out once at most, so one close takes it off the list. -/
theorem KeptBut.not_closing (h : Kept s) (j) : j ∉ (ProfileRegistries.close s j).closing := by
  unfold ProfileRegistries.close
  split
  case isFalse hout => exact hout
  case isTrue hj =>
  obtain ⟨r, hr⟩ : ∃ r, s.references[j]? = some r := ⟨_, getElem?_eq_getElem (h.bounded j hj)⟩
  have hle := h.closes_le hr
  apply count_eq_zero.1
  rw [count_erase_self]
  omega

theorem closing_close (s j) (hi : i ∈ (close s j).closing) : i ∈ s.closing := by
  unfold close at hi
  split at hi
  · exact mem_of_mem_erase hi
  · exact hi

theorem close_watchers (s j) : (close s j).watchers = s.watchers := by
  unfold close
  split <;> rfl

theorem closed_all (h : Kept s) (n) : (∀ i < n, i ∉ (run step s ((range n).map .close)).closing) ∧
      (run step s ((range n).map .close)).watchers = s.watchers ∧
      SameUsers s (run step s ((range n).map .close)) := by
  induction n with
  | zero => exact ⟨fun i hi => absurd hi (Nat.not_lt_zero i), rfl, ⟨rfl, rfl, rfl, rfl⟩⟩
  | succ n ih =>
    have hkept := kept_run h ((range n).map .close)
    rw [range_succ, map_append, run_append]
    refine ⟨?_, (close_watchers _ n).trans ih.2.1, ih.2.2.trans (sameUsers_close _ n)⟩
    intro i hi
    rcases Nat.lt_succ_iff_lt_or_eq.1 hi with hlt | rfl
    · exact fun hm => ih.1 i hlt (closing_close _ n hm)
    · exact hkept.not_closing i

theorem quiet_finish (h : Kept s) (j) : Quiet (run step s (finish s)) j ∧ SameUsers s (run step s (finish s)) := by
  unfold finish
  rw [run_append]
  obtain ⟨hran, hsame⟩ := ran_watchers s s.watchers.length
  have hkept := kept_run h ((range s.watchers.length).map .watcherDone)
  generalize run step s _ = t at hran hsame hkept ⊢
  obtain ⟨hno, hwat, hsame'⟩ := closed_all hkept s.references.length
  have hkept' := kept_run hkept ((range s.references.length).map .close)
  refine ⟨⟨?_, ?_⟩, hsame.trans hsame'⟩
  · intro w hw _ hend
    rw [hwat] at hw
    rw [hsame'.ended] at hend
    obtain ⟨i, hi, rfl⟩ := getElem_of_mem hw
    exact hran i _ (hsame.watchers ▸ hi) (getElem?_eq_getElem hi) hend
  · intro hm
    have hlt := hkept'.bounded j hm
    rw [hsame'.references, hsame.references] at hlt
    exact hno j hlt hm

/-- In every run a registry is closed once, after the last of its users, and a later call gets
another one, open. -/
theorem closed_with_last_user (ops : List Op) (j : Nat) (r : Reference)
    (hr : (after ops).references[j]? = some r) :
    r.closes ≤ 1 ∧
    (r.closes ≠ 0 → Unused (after ops) j) ∧
    (Unused (after ops) j → Quiet (after ops) j → r.closes = 1) ∧
    (Unused (after ops) j → ∃ t, (after (ops ++ finish (after ops))).references[j]? = some t ∧ t.closes = 1) ∧
    (r.closes = 1 → ∀ later managerKey processKey, scopeOf managerKey processKey = some r.scope →
      ∃ i t, (acquire (after (ops ++ later)) managerKey processKey).2 = some i ∧ i ≠ j ∧
        (acquire (after (ops ++ later)) managerKey processKey).1.references[i]? = some t ∧ t.scope = r.scope ∧
        t.closes = 0) := by
  have hkept := kept_after ops
  refine ⟨?_, hkept.unused_of_closes hr, hkept.closes_of_quiet hr, ?_, ?_⟩
  · have := hkept.closes_le hr
    omega
  · intro hunus
    obtain ⟨t, ht, -, -⟩ := survive_run (after ops) (finish (after ops)) j r hr
    obtain ⟨hqt, hsame⟩ := quiet_finish hkept j
    have hstill : Unused (run step (after ops) (finish (after ops))) j := by
      unfold Unused
      rw [hsame.acquirers, hsame.ended]
      exact hunus
    unfold after at *
    rw [run_append]
    have hkept' := kept_run hkept (finish (run step {} ops))
    exact ⟨t, ht, hkept'.closes_of_quiet ht hstill hqt⟩
  · intro hcl later managerKey processKey hsc
    obtain ⟨i, t, hi, ht, htsc, hopen⟩ := (kept_after (ops ++ later)).acquire_open hsc
    refine ⟨i, t, hi, ?_, ht, htsc, hopen⟩
    rintro rfl
    obtain ⟨u, hu, -, hle⟩ := survive_run (after ops) later i r hr
    have hlat : after (ops ++ later) = run step (after ops) later := run_append ..
    rw [← hlat] at hu
    obtain ⟨v, hv, -, hle'⟩ := survive_acquire _ managerKey processKey i u hu
    obtain rfl := mem_unique ht hv
    omega

def lastUser : List Op :=
  [.acquire 7 (some 1), .acquire 7 (some 2), .release 0, .cancel 1, .watcherDone 0, .release 1, .release 1,
    .acquire 7 (some 2), .cancel 2, .release 2, .watcherDone 1, .close 0]

theorem closed_once : ∃ r, (after lastUser).references[0]? = some r ∧ r.closes = 1 ∧ Unused (after lastUser) 0 :=
  have hr : (after lastUser).references[0]? =
      some { scope := .manager 7, refs := 0, processKeys := [], closes := 1 } := by decide +kernel
  ⟨_, hr, rfl, (closed_with_last_user lastUser 0 _ hr).2.1 (by decide)⟩

/-- A scope finds a registry exactly as long as it is in use, and its count is that of the acquirers yet to
release it. -/
theorem registries_counted (ops : List Op) :
    (∀ scope j, (after ops).byScope.lookup scope = some j →
      ∃ r, (after ops).references[j]? = some r ∧ r.scope = scope ∧ Alive r ∧ r.closes = 0) ∧
    ∀ (j : Nat) r, (after ops).references[j]? = some r →
      r.refs = unreleased (after ops) j ∧ (Alive r → Mapped (after ops) j r) := by
  have h := kept_after ops
  refine ⟨fun scope j hj => ?_, fun j r hr => ⟨h.counted j r hr, h.mapped j r hr⟩⟩
  obtain ⟨r, hr, rfl⟩ := h.found scope j hj
  have hcl := (h.closed j r hr).1 hj
  exact ⟨r, hr, rfl, h.alive j r hr nofun hj, by omega⟩

end SingBox.RegistryLifetimes
