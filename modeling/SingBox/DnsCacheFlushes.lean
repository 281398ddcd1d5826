import SingBox.DnsCacheFile

namespace SingBox.DnsCacheFlushes

open List Option Maps Values Runs Arena DnsCacheFile

def heldEntry : FlushPhase → Option SaveDNSCacheEntry
  | .saving entry | .checking entry => some entry
  | .reading | .done => none

/-- Every value that the file holds, and every value returned by one of the loads, has the property. -/
structure Holds (P : SaveCacheKey → List UInt8 → Time → Prop) (loads : Nat → Prop) (s : CacheFile) : Prop where
  pending : ∀ key entry, s.saveDNSCache.lookup key = some entry → P key entry.rawMessage entry.expireAt
  flushing : ∀ (i : Nat) f entry, s.flushers[i]? = some f → heldEntry f.phase = some entry →
    P f.key entry.rawMessage entry.expireAt
  database : ∀ key content, s.db.lookup (databaseKey key) = some content →
    P key content.rawMessage (ofUnix content.expireUnix)
  returned : ∀ (i : Nat) l rawMessage expireAt, loads i → s.loads[i]? = some l →
    l.phase = .returned (some (rawMessage, expireAt)) → P l.key rawMessage expireAt

variable {i : Nat} {f : Flusher} {e : Event} {es : List Event}

section

variable {P : SaveCacheKey → List UInt8 → Time → Prop} {loads : Nat → Prop} {s : CacheFile}

theorem Holds.setFlusher (h : Holds P loads s) (hf : s.flushers[i]? = some f) (phase)
    (hph : ∀ entry, heldEntry phase = some entry → P f.key entry.rawMessage entry.expireAt) :
    Holds P loads (s.setFlusher i phase) := by
  refine { h with flushing := fun j g entry hg he => ?_ }
  rcases modify_cases hf hg with ⟨rfl, rfl⟩ | ⟨-, hg⟩
  · exact hph entry he
  · exact h.flushing j g entry hg he

theorem Holds.flush (h : Holds P loads s) (htrunc : ∀ key rawMessage expireAt, P key rawMessage expireAt →
      P key rawMessage (ofUnix (unix expireAt))) (hf : s.flushers[i]? = some f) :
    Holds P loads (flushPendingDNSCache s i f) := by
  rw [flushPendingDNSCache]
  split
  · exact h
  · split
    · exact h.setFlusher hf _ fun entry he => by cases he
    rename_i entry he
    refine h.setFlusher hf _ fun entry' he' => ?_
    obtain rfl := some.inj he'
    exact h.pending f.key entry he
  · rename_i entry hph
    have he : P f.key entry.rawMessage entry.expireAt := h.flushing i f entry hf (by rw [hph]; rfl)
    have hset := h.setFlusher hf (.checking entry) fun entry' he' => by
      obtain rfl := some.inj he'
      exact he
    refine { hset with database := fun key content hcon => ?_ }
    rcases lookup_of_insert hcon with ⟨hk, rfl⟩ | ⟨-, hcon⟩
    · rw [databaseKey_inj hk]
      exact htrunc _ _ _ he
    · exact h.database key content hcon
  · split
    · exact h.setFlusher hf _ fun entry he => by cases he
    split
    · exact h.setFlusher hf _ fun entry he => by cases he
    have hset := h.setFlusher hf .done fun entry he => by cases he
    exact { hset with pending := fun key entry he => h.pending key entry (erase_submap _ _ key entry he) }

theorem Holds.step (h : Holds P loads s) (htrunc : ∀ key rawMessage expireAt, P key rawMessage expireAt →
      P key rawMessage (ofUnix (unix expireAt)))
    (hsave : ∀ key rawMessage expireAt, e = .save key rawMessage expireAt → P key rawMessage expireAt) :
    Holds P loads (step s e) := by
  cases e with
  | save key rawMessage expireAt =>
    have hqueued : Holds P loads { s with saveDNSCache := s.saveDNSCache.insert key (queued s key rawMessage expireAt) } := by
      refine ⟨fun key' entry he => ?_, h.flushing, h.database, h.returned⟩
      rcases lookup_of_insert he with ⟨rfl, rfl⟩ | ⟨-, he⟩
      · exact hsave key' rawMessage expireAt rfl
      · exact h.pending key' entry he
    rw [DnsCacheFile.step, saveDNSCacheAsync]
    dsimp only
    split
    · refine ⟨hqueued.pending, fun i f entry hf he => ?_, hqueued.database, hqueued.returned⟩
      rcases of_append hf with hf | ⟨-, rfl⟩
      · exact h.flushing i f entry hf he
      · cases he
    · exact hqueued
  | flush i =>
    rw [DnsCacheFile.step]
    split
    · exact h
    · rename_i f hf
      exact h.flush htrunc hf
  | load key =>
    refine { h with returned := fun i l rawMessage expireAt hfi hl hph => ?_ }
    rcases of_append hl with hl | ⟨-, rfl⟩
    · exact h.returned i l rawMessage expireAt hfi hl hph
    split at hph
    · cases hph
    rename_i entry he
    obtain ⟨rfl, rfl⟩ := Prod.mk.inj (some.inj (LoadPhase.returned.inj hph))
    exact h.pending key entry he
  | view i =>
    rw [DnsCacheFile.step]
    split
    · exact h
    rw [viewDatabase]
    split
    · exact h
    refine { h with returned := fun j l' rawMessage expireAt hfi hl' hph => ?_ }
    obtain ⟨l₀, hl₀, rfl⟩ := of_modify hl'
    by_cases hij : i = j
    · rw [if_pos hij] at hph ⊢
      obtain ⟨content, hcon, hval⟩ := map_eq_some_iff.1 (LoadPhase.returned.inj hph)
      obtain ⟨rfl, rfl⟩ := Prod.mk.inj hval
      exact h.database l₀.key content hcon
    · rw [if_neg hij] at hph ⊢
      exact h.returned j l₀ rawMessage expireAt hfi hl₀ hph
  | clear =>
    exact ⟨fun key entry he => absurd he (by simp [DnsCacheFile.step]), h.flushing, h.database, h.returned⟩
  | drop i =>
    rw [DnsCacheFile.step]
    split
    · exact ⟨h.pending, h.flushing, fun key content hcon => absurd hcon (by simp), h.returned⟩
    · exact h

end

def Live (f : Flusher) : Prop := f.phase ≠ .done

instance decidableLive (f : Flusher) : Decidable (Live f) := inferInstanceAs (Decidable (f.phase ≠ .done))

theorem live_of_phase {phase} (h : f.phase = phase) (hph : phase ≠ .done) : Live f :=
  h.trans_ne hph

def Abreast (s : CacheFile) (f : Flusher) (current : SaveDNSCacheEntry) : Prop :=
  match f.phase with
  | .reading | .done => True
  | .saving entry => entry.sequence ≤ current.sequence ∧ (entry.sequence = current.sequence → entry = current)
  | .checking entry => entry.sequence ≤ current.sequence ∧ (entry.sequence = current.sequence →
      s.db.lookup (databaseKey f.key) = some (stored current.rawMessage current.expireAt))

structure Sound (s : CacheFile) : Prop where
  saving : ∀ key entry, s.saveDNSCache.lookup key = some entry → entry.saving = true
  owner : ∀ key entry, s.saveDNSCache.lookup key = some entry →
    ∃ (i : Nat) (f : Flusher), s.flushers[i]? = some f ∧ f.key = key ∧ Live f
  abreast : ∀ (i : Nat) f, s.flushers[i]? = some f → Live f →
    ∃ current, s.saveDNSCache.lookup f.key = some current ∧ Abreast s f current
  alone : ∀ (i j : Nat) f g, s.flushers[i]? = some f → s.flushers[j]? = some g → Live f → Live g → f.key = g.key → i = j
  quiet : false ∈ s.clears → ∀ (i : Nat) f, s.flushers[i]? = some f → ¬ Live f

/-- A clear starts when no flusher runs, and nothing is saved during a clear. The expiry of a saved message is a whole
number of seconds. -/
def Orderly (s : CacheFile) : Event → Prop
  | .save key _ expireAt => false ∉ s.clears ∧ expireAt % second = 0 ∧
      ((s.saveDNSCache.lookup key).getD {}).sequence + 1 < 2 ^ 64
  | .clear => ∀ f ∈ s.flushers, ¬ Live f
  | _ => True

instance decidableOrderly (s : CacheFile) : ∀ e, Decidable (Orderly s e)
  | .save key _ expireAt => inferInstanceAs (Decidable (false ∉ s.clears ∧ expireAt % second = 0 ∧
      ((s.saveDNSCache.lookup key).getD {}).sequence + 1 < 2 ^ 64))
  | .clear => inferInstanceAs (Decidable (∀ f ∈ s.flushers, ¬ Live f))
  | .flush _ | .load _ | .view _ | .drop _ => .isTrue trivial

section

variable {s : CacheFile}

theorem Sound.move (h : Sound s) (hf : s.flushers[i]? = some f) (hlive : Live f) (phase) {pending db}
    (hpend : ∀ key, key ≠ f.key → pending.lookup key = s.saveDNSCache.lookup key)
    (hdb : ∀ key, key ≠ f.key → db.lookup (databaseKey key) = s.db.lookup (databaseKey key))
    (hown : ∀ entry, pending.lookup f.key = some entry → s.saveDNSCache.lookup f.key = some entry ∧ phase ≠ .done)
    (habr : phase ≠ .done → ∃ current, pending.lookup f.key = some current ∧
      Abreast { s with db := db } { f with phase := phase } current) :
    Sound { s.setFlusher i phase with saveDNSCache := pending, db := db } := by
  have hold : ∀ key entry, pending.lookup key = some entry → s.saveDNSCache.lookup key = some entry := by
    intro key entry he
    by_cases hk : key = f.key
    · subst hk
      exact (hown entry he).1
    · rw [← hpend key hk]
      exact he
  refine ⟨fun key entry he => h.saving key entry (hold key entry he), fun key entry he => ?_,
    fun j g hg hglive => ?_, fun j k g g' hg hg' hglive hglive' hk => ?_, fun hclear j g hg hglive => ?_⟩
  · by_cases hk : key = f.key
    · subst hk
      exact ⟨i, _, modify_self hf, rfl, (hown entry he).2⟩
    obtain ⟨j, g, hg, hgkey, hglive⟩ := h.owner key entry (hold key entry he)
    have hij : i ≠ j := by
      rintro rfl
      obtain rfl := mem_unique hf hg
      exact hk hgkey.symm
    exact ⟨j, g, (modify_ne hij).trans hg, hgkey, hglive⟩
  · rcases modify_cases hf hg with ⟨rfl, rfl⟩ | ⟨hij, hg⟩
    · exact habr hglive
    have hk : g.key ≠ f.key := fun heq => hij (h.alone i j f g hf hg hlive hglive heq.symm)
    obtain ⟨current, hcur, hst⟩ := h.abreast j g hg hglive
    refine ⟨current, (hpend g.key hk).trans hcur, ?_⟩
    rw [Abreast] at hst ⊢
    rw [hdb g.key hk]
    exact hst
  · rcases modify_cases hf hg with ⟨rfl, rfl⟩ | ⟨hij, hold⟩ <;>
      rcases modify_cases hf hg' with ⟨rfl, rfl⟩ | ⟨hik, hold'⟩
    · rfl
    · exact absurd (h.alone _ _ _ _ hf hold' hlive hglive' hk) hik
    · exact absurd (h.alone _ _ _ _ hf hold hlive hglive hk.symm) hij
    · exact h.alone j k g g' hold hold' hglive hglive' hk
  · exact h.quiet hclear i f hf hlive

theorem Sound.flush (h : Sound s) (hf : s.flushers[i]? = some f) : Sound (flushPendingDNSCache s i f) := by
  by_cases hlive : Live f
  case neg =>
    rw [flushPendingDNSCache, not_not.1 hlive]
    exact h
  obtain ⟨current, hcur, hst⟩ := h.abreast i f hf hlive
  rw [Abreast] at hst
  have hsame : ∀ {phase : FlushPhase}, phase ≠ .done → ∀ entry, s.saveDNSCache.lookup f.key = some entry →
      s.saveDNSCache.lookup f.key = some entry ∧ phase ≠ .done := fun hne _ he => ⟨he, hne⟩
  rw [flushPendingDNSCache, hcur]
  dsimp only
  split
  · exact h
  · exact h.move hf hlive _ (fun _ _ => rfl) (fun _ _ => rfl) (hsame FlushPhase.noConfusion)
      fun _ => ⟨current, hcur, le_rfl, fun _ => rfl⟩
  · rename_i entry hph
    rw [hph] at hst
    refine h.move hf hlive _ (fun _ _ => rfl) (fun key hk => ?_) (hsame FlushPhase.noConfusion)
      fun _ => ⟨current, hcur, hst.1, fun hseq => ?_⟩
    · exact AList.lookup_insert_ne fun heq => hk (databaseKey_inj heq)
    · rw [← hst.2 hseq]
      exact AList.lookup_insert _
  · split
    · exact h.move hf hlive .reading (fun _ _ => rfl) (fun _ _ => rfl) (hsame FlushPhase.noConfusion)
        fun _ => ⟨current, hcur, trivial⟩
    refine h.move hf hlive .done (fun key => AList.lookup_erase_ne) (fun _ _ => rfl)
      (fun entry he => ?_) (absurd rfl)
    rw [AList.lookup_erase] at he
    cases he

theorem Sound.save (h : Sound s) {key rawMessage expireAt} (hord : Orderly s (.save key rawMessage expireAt)) :
    Sound (saveDNSCacheAsync s key rawMessage expireAt) := by
  obtain ⟨hclear, -, hseq⟩ := hord
  rw [saveDNSCacheAsync, queueDNSCacheSave]
  dsimp only
  have hnew : (queued s key rawMessage expireAt).sequence = ((s.saveDNSCache.lookup key).getD {}).sequence + 1 :=
    succ64_of_lt hseq
  have hsav : ∀ key' entry, (s.saveDNSCache.insert key (queued s key rawMessage expireAt)).lookup key' = some entry →
      entry.saving = true := by
    intro key' entry he
    rcases lookup_of_insert he with ⟨-, rfl⟩ | ⟨-, he⟩
    · rfl
    · exact h.saving key' entry he
  cases hold : s.saveDNSCache.lookup key with
  | some entry =>
    -- the flusher of the entry before finds the new one
    rw [getD_some, h.saving key entry hold, Bool.not_true, if_neg Bool.false_ne_true]
    rw [hold, getD_some] at hnew
    refine ⟨hsav, fun key' entry' he' => ?_, fun i f hf hlive => ?_, h.alone, fun hm => absurd hm hclear⟩
    · rcases lookup_of_insert he' with ⟨rfl, -⟩ | ⟨-, he'⟩
      · exact h.owner key' entry hold
      · exact h.owner key' entry' he'
    · obtain ⟨current, hcur, hst⟩ := h.abreast i f hf hlive
      rw [lookup_set]
      split
      · rename_i hk
        rw [hk, hold] at hcur
        obtain rfl := some.inj hcur
        refine ⟨_, rfl, ?_⟩
        rw [Abreast] at hst ⊢
        split
        · trivial
        · trivial
        · rename_i held hph
          rw [hph] at hst
          exact ⟨by omega, fun heq => absurd heq (by omega)⟩
        · rename_i held hph
          rw [hph] at hst
          exact ⟨by omega, fun heq => absurd heq (by omega)⟩
      · exact ⟨current, hcur, hst⟩
  | none =>
    have hoth : ∀ (i : Nat) f, s.flushers[i]? = some f → Live f → f.key ≠ key := by
      rintro i f hf hlive rfl
      obtain ⟨current, hcur, -⟩ := h.abreast i f hf hlive
      rw [hold] at hcur
      cases hcur
    refine ⟨hsav, fun key' entry' he' => ?_, fun i f hf hlive => ?_, fun i j f g hf hg hlive hlive' hk => ?_,
      fun hm => absurd hm hclear⟩
    · rcases lookup_of_insert he' with ⟨rfl, -⟩ | ⟨-, he'⟩
      · exact ⟨s.flushers.length, ⟨key', .reading⟩, getElem?_concat_length, rfl, FlushPhase.noConfusion⟩
      · obtain ⟨i, f, hf, hk, hlive⟩ := h.owner key' entry' he'
        exact ⟨i, f, append_of hf, hk, hlive⟩
    · rcases of_append hf with hf | ⟨-, rfl⟩
      · obtain ⟨current, hcur, hst⟩ := h.abreast i f hf hlive
        exact ⟨current, (AList.lookup_insert_ne (hoth i f hf hlive)).trans hcur, hst⟩
      · exact ⟨_, AList.lookup_insert _, trivial⟩
    · rcases of_append hf with hf | ⟨rfl, rfl⟩ <;> rcases of_append hg with hg | ⟨rfl, rfl⟩
      · exact h.alone i j f g hf hg hlive hlive' hk
      · exact absurd hk (hoth i f hf hlive)
      · exact absurd hk.symm (hoth j g hg hlive')
      · rfl

theorem Sound.step (h : Sound s) (hord : Orderly s e) : Sound (step s e) := by
  cases e with
  | save key rawMessage expireAt => exact h.save hord
  | flush i =>
    rw [DnsCacheFile.step]
    split
    · exact h
    · rename_i f hf
      exact h.flush hf
  | load key => exact { h with }
  | view i =>
    rw [DnsCacheFile.step]
    split
    · exact h
    rw [viewDatabase]
    split
    · exact h
    · exact { h with }
  | clear =>
    have hidle : ∀ (i : Nat) f, s.flushers[i]? = some f → ¬ Live f :=
      fun i f hf => hord f (mem_of_getElem? hf)
    exact ⟨by simp [DnsCacheFile.step], by simp [DnsCacheFile.step],
      fun i f hf hlive => absurd hlive (hidle i f hf), h.alone, fun _ => hidle⟩
  | drop i =>
    rw [DnsCacheFile.step]
    split
    · rename_i hopen
      have hidle := h.quiet (mem_of_getElem? hopen)
      exact ⟨h.saving, h.owner, fun j f hf hlive => absurd hlive (hidle j f hf), h.alone,
        fun _ => hidle⟩
    · exact h

theorem sound_run (db) (h : Meets step Orderly (opened db) es) : Sound (run step (opened db) es) := by
  refine run_keeps (I := Sound) (fun s e _ hord hs => hs.step hord) ?_ h
  constructor <;> simp [opened]

end

def Current (s : CacheFile) (key : SaveCacheKey) (rawMessage : List UInt8) (expireAt : Time) : Prop :=
  (∃ entry, s.saveDNSCache.lookup key = some entry ∧ entry.rawMessage = rawMessage ∧ entry.expireAt = expireAt) ∨
    s.saveDNSCache.lookup key = none ∧ s.db.lookup (databaseKey key) = some (stored rawMessage expireAt)

/-- The value under a key since it was saved, and the loads of the key from the given one on. -/
structure Kept (s : CacheFile) (key : SaveCacheKey) (rawMessage : List UInt8) (expireAt : Time) (first : Nat) :
    Prop where
  current : Current s key rawMessage expireAt
  settled : false ∉ s.clears
  missed : ∀ (i : Nat) l, first ≤ i → s.loads[i]? = some l → l.key = key → l.phase = .missed →
    s.saveDNSCache.lookup key = none
  returned : ∀ (i : Nat) l result, first ≤ i → s.loads[i]? = some l → l.key = key → l.phase = .returned result →
    result = some (rawMessage, expireAt)

def Leaves (key : SaveCacheKey) : Event → Prop
  | .save key' _ _ => key' ≠ key
  | .clear => False
  | _ => True

section

variable {s : CacheFile} {key : SaveCacheKey} {rawMessage : List UInt8} {expireAt : Time} {first : Nat}

theorem ofUnix_unix_of_whole (h : expireAt % second = 0) : ofUnix (unix expireAt) = expireAt := by
  rw [ofUnix_unix, h, sub_zero]

theorem viewed_of_stored (hwhole : expireAt % second = 0)
    (h : s.db.lookup (databaseKey key) = some (stored rawMessage expireAt)) :
    viewed s key = some (rawMessage, expireAt) := by
  rw [viewed, h, map_some, stored]
  rw [ofUnix_unix_of_whole hwhole]

theorem Kept.flush (h : Kept s key rawMessage expireAt first) (hs : Sound s) (hf : s.flushers[i]? = some f) :
    Kept (flushPendingDNSCache s i f) key rawMessage expireAt first := by
  rw [flushPendingDNSCache]
  split
  · exact h
  · split <;> exact { h with }
  · rename_i entry hph
    refine { h with current := ?_ }
    rcases h.current with hpend | ⟨hno, hdb⟩
    · exact .inl hpend
    have hk : f.key ≠ key := by
      rintro rfl
      obtain ⟨current, hcur, -⟩ := hs.abreast i f hf (live_of_phase hph FlushPhase.noConfusion)
      rw [hno] at hcur
      cases hcur
    refine .inr ⟨hno, ?_⟩
    exact (AList.lookup_insert_ne fun heq => hk (databaseKey_inj heq).symm).trans hdb
  · rename_i entry hph
    split
    · exact { h with }
    rename_i current hcur
    split
    · exact { h with }
    rename_i hseq
    have hmis : ∀ (j : Nat) l, first ≤ j → s.loads[j]? = some l → l.key = key → l.phase = .missed →
        (s.saveDNSCache.erase f.key).lookup key = none := by
      intro j l hj hl hlkey hlph
      rw [lookup_del, h.missed j l hj hl hlkey hlph, ite_self]
    refine ⟨?_, h.settled, hmis, h.returned⟩
    by_cases hk : f.key = key
    · -- the entry that is removed is in the database
      obtain ⟨current', hcur', hst⟩ := hs.abreast i f hf (live_of_phase hph FlushPhase.noConfusion)
      obtain rfl := mem_unique hcur hcur'
      rw [Abreast, hph] at hst
      have hdb := hst.2 (not_not.1 hseq).symm
      rcases h.current with ⟨entry', he', rfl, rfl⟩ | ⟨hno, -⟩
      · rw [hk, he'] at hcur
        obtain rfl := some.inj hcur
        refine .inr ⟨?_, hk ▸ hdb⟩
        rw [hk]
        exact AList.lookup_erase ..
      · rw [hk, hno] at hcur
        cases hcur
    · have hoth : (s.saveDNSCache.erase f.key).lookup key = s.saveDNSCache.lookup key :=
        AList.lookup_erase_ne fun heq => hk heq.symm
      rcases h.current with ⟨entry', he', hval⟩ | ⟨hno, hdb⟩
      · exact .inl ⟨entry', hoth.trans he', hval⟩
      · exact .inr ⟨hoth.trans hno, hdb⟩

theorem Kept.step (h : Kept s key rawMessage expireAt first) (hs : Sound s) (hwhole : expireAt % second = 0)
    (hlv : Leaves key e) : Kept (step s e) key rawMessage expireAt first := by
  cases e with
  | save key' rawMessage' expireAt' =>
    have hoth : (s.saveDNSCache.insert key' (queued s key' rawMessage' expireAt')).lookup key =
        s.saveDNSCache.lookup key := AList.lookup_insert_ne fun heq => hlv heq.symm
    have hkept : Kept { s with saveDNSCache := s.saveDNSCache.insert key' (queued s key' rawMessage' expireAt') } key
        rawMessage expireAt first := by
      refine ⟨?_, h.settled, fun i l hi hl hlkey hlph => hoth.trans (h.missed i l hi hl hlkey hlph), h.returned⟩
      rw [Current, hoth]
      exact h.current
    rw [DnsCacheFile.step, saveDNSCacheAsync]
    dsimp only
    split
    · exact { hkept with }
    · exact hkept
  | flush i =>
    rw [DnsCacheFile.step]
    split
    · exact h
    · rename_i f hf
      exact h.flush hs hf
  | load key' =>
    refine ⟨h.current, h.settled, fun i l hi hl hlkey hlph => ?_, fun i l result hi hl hlkey hlph => ?_⟩
    · rcases of_append hl with hl | ⟨-, rfl⟩
      · exact h.missed i l hi hl hlkey hlph
      split at hlph
      · rename_i hno
        exact hlkey ▸ hno
      · cases hlph
    · rcases of_append hl with hl | ⟨-, rfl⟩
      · exact h.returned i l result hi hl hlkey hlph
      dsimp only at hlkey hlph
      split at hlph
      · cases hlph
      rename_i entry he
      rw [hlkey] at he
      rcases h.current with ⟨entry', he', rfl, rfl⟩ | ⟨hno, -⟩
      · obtain rfl := mem_unique he he'
        exact (LoadPhase.returned.inj hlph).symm
      · rw [hno] at he
        cases he
  | view i =>
    rw [DnsCacheFile.step]
    split
    · exact h
    rename_i l hl
    rw [viewDatabase]
    split
    · exact h
    rename_i hlph
    refine ⟨h.current, h.settled, fun j l' hj hl' hlkey' hlph' => ?_,
      fun j l' result hj hl' hlkey' hlph' => ?_⟩ <;> rcases modify_cases hl hl' with ⟨rfl, rfl⟩ | ⟨-, hl'⟩
    · cases hlph'
    · exact h.missed j l' hj hl' hlkey' hlph'
    · have hno := h.missed j l hj hl hlkey' hlph
      rcases h.current with ⟨entry, he, -⟩ | ⟨-, hdb⟩
      · rw [hno] at he
        cases he
      rw [← LoadPhase.returned.inj hlph', show l.key = key from hlkey', viewed_of_stored hwhole hdb]
    · exact h.returned j l' result hj hl' hlkey' hlph'
  | clear => exact hlv.elim
  | drop i =>
    rw [DnsCacheFile.step, if_neg fun hopen => h.settled (mem_of_getElem? hopen)]
    exact h

theorem kept_of_save (s) (h : Orderly s (.save key rawMessage expireAt)) :
    Kept (DnsCacheFile.step s (.save key rawMessage expireAt)) key rawMessage expireAt s.loads.length := by
  have hno : ∀ (i : Nat) l, s.loads.length ≤ i → s.loads[i]? = some l → False :=
    fun i l hi hl => absurd (lt_of_some hl) (not_lt.2 hi)
  rw [step, saveDNSCacheAsync]
  dsimp only
  split <;> exact ⟨.inl ⟨_, AList.lookup_insert _, rfl, rfl⟩, h.1, fun i l hi hl => (hno i l hi hl).elim,
    fun i l result hi hl => (hno i l hi hl).elim⟩

theorem kept_run (hs : Sound s) (h : Kept s key rawMessage expireAt first) (hwhole : expireAt % second = 0)
    (hlv : ∀ e ∈ es, Leaves key e) (hord : Meets DnsCacheFile.step Orderly s es) :
    Kept (run DnsCacheFile.step s es) key rawMessage expireAt first := by
  refine (run_keeps (I := fun s => Sound s ∧ Kept s key rawMessage expireAt first) ?_ ⟨hs, h⟩ hord).2
  exact fun s e he hord hboth => ⟨hboth.1.step hord, hboth.2.step hboth.1 hwhole (hlv e he)⟩

theorem Kept.load (h : Kept s key rawMessage expireAt first) (hwhole : expireAt % second = 0) {l} (hi : first ≤ i)
    (hl : s.loads[i]? = some l) (hk : l.key = key) : l.phase = .returned (some (rawMessage, expireAt)) ∨
      l.phase = .missed ∧ viewed s key = some (rawMessage, expireAt) := by
  cases hph : l.phase with
  | returned result => exact .inl (h.returned i l result hi hl hk hph ▸ rfl)
  | missed =>
    have hno := h.missed i l hi hl hk hph
    rcases h.current with ⟨entry, he, -⟩ | ⟨-, hdb⟩
    · rw [hno] at he
      cases he
    exact .inr ⟨rfl, viewed_of_stored hwhole hdb⟩

theorem holds_of_drop (hs : Sound s) {c} (hopen : s.clears[c]? = some false) (P) :
    Holds P (fun i => ∀ l ∈ s.loads[i]?, l.phase = .missed) (DnsCacheFile.step s (.drop c)) := by
  have hidle := hs.quiet (mem_of_getElem? hopen)
  rw [step, if_pos hopen]
  refine ⟨fun key entry he => ?_, fun i f entry hf he => ?_, fun key content hcon => ?_,
    fun i l rawMessage expireAt hi hl hph => by cases (hi l hl).symm.trans hph⟩
  · obtain ⟨i, f, hf, -, hlive⟩ := hs.owner key entry he
    exact absurd hlive (hidle i f hf)
  · refine absurd ?_ (hidle i f hf)
    intro hdone
    rw [hdone] at he
    cases he
  · exact absurd hcon (by simp)

theorem whole_ofUnix (sec) : ofUnix sec % second = 0 := Int.mul_emod_left ..

/-- In a run without a flush or a save across a clear, loads get what was saved last. -/
theorem flushes_keep_values (db : GoMap DatabaseKey StoredMessage) (es : List Event)
    (h : Meets DnsCacheFile.step Orderly (opened db) es) :
    ∀ s, s = run DnsCacheFile.step (opened db) es →
      (∀ (i : Nat) f entry current, s.flushers[i]? = some f → f.phase = .checking entry →
        s.saveDNSCache.lookup f.key = some current → current.sequence = entry.sequence →
          viewed s f.key = some (current.rawMessage, current.expireAt)) ∧
      (∀ es₁ key rawMessage expireAt es₂, es = es₁ ++ .save key rawMessage expireAt :: es₂ →
        (∀ e ∈ es₂, Leaves key e) → ∀ (i : Nat) l, (run DnsCacheFile.step (opened db) es₁).loads.length ≤ i →
          s.loads[i]? = some l → l.key = key → l.phase = .returned (some (rawMessage, expireAt)) ∨
            l.phase = .missed ∧ viewed s key = some (rawMessage, expireAt)) ∧
      ∀ es₁ c es₂, es = es₁ ++ .drop c :: es₂ → (run DnsCacheFile.step (opened db) es₁).clears[c]? = some false →
        ∀ (i : Nat) l rawMessage expireAt,
          (∀ m ∈ (run DnsCacheFile.step (opened db) es₁).loads[i]?, m.phase = .missed) →
            s.loads[i]? = some l → l.phase = .returned (some (rawMessage, expireAt)) →
              .save l.key rawMessage expireAt ∈ es₂ := by
  rintro s rfl
  refine ⟨fun i f entry current hf hph hcur hseq => ?_,
    fun es₁ key rawMessage expireAt es₂ hes hlv i l hi hl hk => ?_,
    fun es₁ c es₂ hes hopen i l rawMessage expireAt hi hl hph => ?_⟩
  · have hwhole : Holds (fun _ _ expireAt => expireAt % second = 0) (fun _ => True) (run step (opened db) es) := by
      refine run_keeps (I := Holds (fun _ _ expireAt => expireAt % second = 0) fun _ => True) ?_ ?_ h
      · intro s e _ hord hs
        refine hs.step (fun _ _ _ _ => whole_ofUnix _) fun key rawMessage expireAt heq => ?_
        subst heq
        exact hord.2.1
      · exact ⟨by simp [opened], by simp [opened], fun _ _ _ => whole_ofUnix _, by simp [opened]⟩
    obtain ⟨current', hcur', hst⟩ := (sound_run db h).abreast i f hf (live_of_phase hph FlushPhase.noConfusion)
    obtain rfl := mem_unique hcur hcur'
    rw [Abreast, hph] at hst
    exact viewed_of_stored (hwhole.pending f.key current hcur) (hst.2 hseq.symm)
  · subst hes
    obtain ⟨hbef, hsave, haft⟩ := (meets_append ..).1 h
    have hso := sound_run db hbef
    rw [run_append] at hl ⊢
    have hkept := kept_run (hso.step hsave) (kept_of_save _ hsave) hsave.2.1 hlv haft
    exact hkept.load hsave.2.1 hi hl hk
  · subst hes
    obtain ⟨hbef, -, haft⟩ := (meets_append ..).1 h
    have hso := sound_run db hbef
    rw [run_append] at hl
    refine ((run_keeps (I := Holds (fun key rawMessage expireAt => .save key rawMessage expireAt ∈ es₂ ∧ expireAt % second = 0) _)
      (fun s e he hord hs => ?_) (holds_of_drop hso hopen _) haft).returned i l rawMessage expireAt hi hl hph).1
    refine hs.step (fun key rawMessage expireAt hp => ?_) fun key rawMessage expireAt heq => ?_
    · rw [ofUnix_unix_of_whole hp.2]
      exact hp
    · subst heq
      exact ⟨he, hord.2.1⟩

end

def question : SaveCacheKey := ⟨"remote", "example.org.", 1⟩

def clearedInOrder : List Event :=
  [.save question [1] (100 * second), .flush 0, .flush 0, .flush 0, .clear, .drop 0]

theorem clearedInOrder_loads :
    (run step (opened ∅) (clearedInOrder ++ .save question [2] (200 * second) ::
        [.flush 1, .load question, .flush 1, .flush 1, .load question, .view 1])).loads.length = 2 ∧
      ∀ (i : Nat) l, (run step (opened ∅) (clearedInOrder ++ .save question [2] (200 * second) ::
          [.flush 1, .load question, .flush 1, .flush 1, .load question, .view 1])).loads[i]? = some l →
        l.key = question → l.phase = .returned (some ([2], 200 * second)) ∨ l.phase = .missed := by
  refine ⟨by decide +kernel, fun i l hl hk => ?_⟩
  have hparts := flushes_keep_values ∅ (clearedInOrder ++ .save question [2] (200 * second) ::
    [.flush 1, .load question, .flush 1, .flush 1, .load question, .view 1]) (by decide +kernel) _ rfl
  exact (hparts.2.1 clearedInOrder question [2] (200 * second) _ rfl (by simp [Leaves]) i l (Nat.zero_le _) hl hk).imp_right
    And.left

def clearedInBetween : List Event :=
  [.save question [1] (100 * second), .flush 0, .clear, .drop 0, .save question [2] (200 * second), .flush 0]

/-- The flusher writes what was cleared and removes what was saved since: both have the first sequence number. -/
theorem clearedInBetween_lost :
    ((run step (opened ∅) clearedInBetween).saveDNSCache.lookup question).map (·.rawMessage) = some [2] ∧
      (run step (opened ∅) (clearedInBetween ++ [.flush 0])).saveDNSCache.lookup question = none ∧
      (run step (opened ∅) (clearedInBetween ++ [.flush 0])).db.lookup (databaseKey question) =
        some (stored [1] (100 * second)) ∧
      (run step (opened ∅) (clearedInBetween ++ [.flush 0, .load question, .view 0])).loads =
        [⟨question, .returned (some ([1], 100 * second))⟩] := by
  decide +kernel

end SingBox.DnsCacheFlushes
