import SingBox.Publications

namespace SingBox.ReplaySuppression

open List Option Values Maps Observations HealthReducer Ingestion Runs Arena Publications

def keyOf (c : Call) : ObservationDedupKey := dedupKey c.evidence (stageDomain c.evidence.stage)

variable {domains : List DomainEvidence} {phase : Phase} {a : Reduction} {now : Time}

theorem checked_single {e guard} (h : checkObservation e guard = .ok domains) : domains = [domainEvidence e] := by
  rw [checkObservation.eq_def] at h
  split at h
  · cases h
  rename_i hvalid
  split at h
  · cases h
  split at h
  · cases h
  · cases h
  rw [mapDomains_of_valid hvalid] at h
  split at h
  · cases h
  · cases h
  rename_i hdom
  cases h
  split at hdom
  · cases hdom
    contradiction
  · exact (Except.ok.inj hdom).symm

def holds : Phase → Option (List ObservationDedupRecord)
  | .reserved _ records | .reducing records _ _ _ | .reduced records _ => some records
  | _ => none

def since (clock : Time) : Phase → Option Time
  | .reserved _ _ => some clock
  | .reducing _ began _ _ => some began
  | _ => none

theorem holds_of_since {clock time} (h : since clock phase = some time) : (holds phase).isSome = true := by
  cases phase with
  | reserved | reducing => rfl
  | called | clocked | reduced | published | returned => cases h

/-- The record of the reduction does not stand in the way of another one at the time. -/
def Past (s : System) (a : Reduction) (time : Time) : Prop :=
  a.ended + s.ingestor.ttl ≤ time ∨ a.owner ∈ s.evicted

def Accounted (s : System) (a : Reduction) : Prop :=
  (∃ p, s.publications[a.owner]? = some p ∧ p.phase = .reduced [soleRecord a.owner a.key] none ∧
      keyOf p.call = a.key ∧ a.ended ≤ s.clock) ∨
    (∃ record ∈ s.ingestor.lru, record.key = a.key ∧ record.owner = a.owner ∧
      a.ended + s.ingestor.ttl ≤ record.expiresAt) ∨
    Past s a s.clock

structure Underway (s : System) (t : Nat) (p : Publication) : Prop where
  clocked : ∀ domains now, p.phase = .clocked domains now →
    checkObservation p.call.evidence p.call.guard = .ok domains ∧ now ≤ s.clock
  held : ∀ records, holds p.phase = some records →
    checkObservation p.call.evidence p.call.guard = .ok [domainEvidence p.call.evidence] ∧
      records = [soleRecord t (keyOf p.call)] ∧
      s.ingestor.pending.lookup (keyOf p.call) = some (soleRecord t (keyOf p.call))
  began : ∀ time, since s.clock p.phase = some time →
    time ≤ s.clock ∧ ∀ a ∈ s.reductions, a.key = keyOf p.call → Past s a time

def idle : Phase → Bool
  | .called | .published _ _ | .returned _ _ => true
  | _ => false

theorem underway_of_idle {s t p} (h : idle p.phase = true) : Underway s t p := by
  refine ⟨fun domains now hph => ?_, fun records hh => ?_, fun time htime => ?_⟩ <;>
    cases hcase : p.phase <;> simp_all [idle, holds, since]

theorem underway_of_held {s t p records} (hh : holds p.phase = some records)
    (hheld : checkObservation p.call.evidence p.call.guard = .ok [domainEvidence p.call.evidence] ∧
      records = [soleRecord t (keyOf p.call)] ∧
      s.ingestor.pending.lookup (keyOf p.call) = some (soleRecord t (keyOf p.call)))
    (hbeg : ∀ time, since s.clock p.phase = some time →
      time ≤ s.clock ∧ ∀ a ∈ s.reductions, a.key = keyOf p.call → Past s a time) : Underway s t p := by
  refine ⟨fun domains now hph => ?_, fun records' hh' => ?_, hbeg⟩
  · rw [hph] at hh
    cases hh
  · obtain rfl := mem_unique hh hh'
    exact hheld

structure Sound (s : System) : Prop where
  ledger : Ledger s.ingestor
  recent : ∀ record ∈ s.ingestor.lru, record.expiresAt ≤ s.clock + s.ingestor.ttl
  underway : ∀ (t : Nat) (p : Publication), s.publications[t]? = some p → Underway s t p
  accounted : ∀ a ∈ s.reductions, Accounted s a
  gaps : s.reductions.Pairwise fun later earlier => earlier.key = later.key → Past s earlier later.began

def SameLimits (i i' : ObservationIngestor) : Prop := i'.ttl = i.ttl ∧ i'.maxEntries = i.maxEntries

def Kept (s s' : System) : Prop := Sound s' ∧ SameLimits s.ingestor s'.ingestor

section

variable {s s' : System} {t : Nat} {p : Publication}

variable {records : List ObservationDedupRecord}

theorem Sound.sole (h : Sound s) {t' p' records'} (hp : s.publications[t]? = some p)
    (hp' : s.publications[t']? = some p') (hh : holds p.phase = some records)
    (hh' : holds p'.phase = some records') (hk : keyOf p'.call = keyOf p.call) : t' = t := by
  obtain ⟨-, -, hpend⟩ := (h.underway t p hp).held records hh
  obtain ⟨-, -, hpend'⟩ := (h.underway t' p' hp').held records' hh'
  rw [hk, hpend] at hpend'
  exact (congrArg ObservationDedupRecord.owner (some.inj hpend')).symm

/-- A call that is on its way with nothing pending changes nothing for the others. -/
structure Stays (s s' : System) : Prop where
  clock : s.clock ≤ s'.clock
  ingestor : s'.ingestor = s.ingestor
  reductions : s'.reductions = s.reductions
  evicted : s'.evicted = s.evicted

theorem Stays.past (h : Stays s s') {time time'} (hpast : Past s a time) (hle : time ≤ time') : Past s' a time' := by
  rw [Past, h.ingestor, h.evicted]
  rcases hpast with hpast | hpast
  · exact .inl (hpast.trans hle)
  · exact .inr hpast

theorem Underway.stays (h : Stays s s') (hp : Underway s t p) : Underway s' t p := by
  refine ⟨fun domains now hph => ?_, fun records hh => ?_, fun time htime => ?_⟩
  · obtain ⟨hok, hnow⟩ := hp.clocked domains now hph
    exact ⟨hok, hnow.trans h.clock⟩
  · rw [h.ingestor]
    exact hp.held records hh
  · rw [h.reductions]
    cases hph : p.phase with
    | reserved domains records =>
      rw [hph] at htime
      obtain rfl := some.inj htime
      have hbeg := hp.began s.clock (by rw [hph]; rfl)
      exact ⟨le_refl _, fun a ha hk => h.past (hbeg.2 a ha hk) h.clock⟩
    | reducing records began sections err =>
      rw [hph] at htime
      obtain rfl := some.inj htime
      have hbeg := hp.began began (by rw [hph]; rfl)
      exact ⟨hbeg.1.trans h.clock, fun a ha hk => h.past (hbeg.2 a ha hk) (le_refl _)⟩
    | called | clocked | reduced | published | returned =>
      rw [hph] at htime
      cases htime

theorem Stays.gaps (h : Stays s s') (hso : Sound s) :
    s'.reductions.Pairwise fun later earlier => earlier.key = later.key → Past s' earlier later.began := by
  rw [h.reductions]
  exact hso.gaps.imp fun hpast hk => h.past (hpast hk) (le_refl _)

theorem Stays.recent (h : Stays s s') (hso : Sound s) :
    ∀ record ∈ s'.ingestor.lru, record.expiresAt ≤ s'.clock + s'.ingestor.ttl := by
  rw [h.ingestor]
  intro record hr
  exact (hso.recent record hr).trans (Int.add_le_add_right h.clock _)

theorem Sound.stays (h : Sound s) (hstays : Stays s s')
    (hnew : ∀ t p, s'.publications[t]? = some p → s.publications[t]? = some p ∨ Underway s' t p)
    (hkept : ∀ (t : Nat) (p : Publication) records, s.publications[t]? = some p → p.phase = .reduced records none →
      s'.publications[t]? = some p) : Kept s s' := by
  refine ⟨⟨hstays.ingestor ▸ h.ledger, hstays.recent h, fun t p hp => ?_, fun a ha => ?_, hstays.gaps h⟩, ?_⟩
  · rcases hnew t p hp with hp | hund
    · exact (h.underway t p hp).stays hstays
    · exact hund
  · rw [hstays.reductions] at ha
    rcases h.accounted a ha with ⟨q, hq, hph, hk, hend⟩ | hrec | hpast
    · exact .inl ⟨q, hkept _ q _ hq hph, hph, hk, hend.trans hstays.clock⟩
    · refine .inr (.inl ?_)
      rw [hstays.ingestor]
      exact hrec
    · exact .inr (.inr (hstays.past hpast hstays.clock))
  · rw [hstays.ingestor]
    exact ⟨rfl, rfl⟩

theorem Sound.rephase (h : Sound s) (hp : s.publications[t]? = some p) (hstays : Stays s s')
    (hpubs : s'.publications = s.publications.modify t fun p => { p with phase := phase })
    (hold : ∀ records, p.phase ≠ .reduced records none) (hund : Underway s' t { p with phase := phase }) :
    Kept s s' := by
  refine h.stays hstays (fun t' p' hp' => ?_) fun t' q records hq hph => ?_
  · rw [hpubs] at hp'
    rcases modify_cases hp hp' with ⟨rfl, rfl⟩ | ⟨-, hp'⟩
    · exact .inr hund
    · exact .inl hp'
  · rw [hpubs, modify_ne]
    · exact hq
    rintro rfl
    obtain rfl := mem_unique hp hq
    exact hold _ hph

theorem underway_entry (s t c) : Underway s t ⟨c, c.entry⟩ := by
  unfold Call.entry
  split <;> exact underway_of_idle rfl

section

variable (h : Sound s)
include h

theorem Sound.call (c) : Kept s { s with publications := s.publications ++ [⟨c, c.entry⟩] } := by
  refine h.stays ⟨le_refl _, rfl, rfl, rfl⟩ (fun t p hp => ?_) fun _ _ _ hq _ => append_of hq
  rcases of_append hp with hp | ⟨rfl, rfl⟩
  · exact .inl hp
  · exact .inr (underway_entry _ _ c)

section

variable (hp : s.publications[t]? = some p)
include hp

theorem Sound.change {ingestor evicted} (hled : Ledger ingestor) (hlim : SameLimits s.ingestor ingestor)
    (hrec : ∀ record ∈ ingestor.lru, record.expiresAt ≤ s.clock + s.ingestor.ttl)
    (hevic : ∀ owner ∈ s.evicted, owner ∈ evicted)
    (hoth : ∀ (t' : Nat) (p' : Publication) records, t' ≠ t → s.publications[t']? = some p' →
      holds p'.phase = some records → ingestor.pending.lookup (keyOf p'.call) = s.ingestor.pending.lookup (keyOf p'.call))
    (hs' : s' = { s with ingestor := ingestor, evicted := evicted }.put t phase)
    (hund : Underway s' t { p with phase := phase })
    (hown : ∀ a ∈ s.reductions, a.owner = t → p.phase = .reduced [soleRecord a.owner a.key] none →
      keyOf p.call = a.key → a.ended ≤ s.clock → Accounted s' a)
    (hreco : ∀ a ∈ s.reductions, ∀ record ∈ s.ingestor.lru, record.key = a.key → record.owner = a.owner →
      a.ended + s.ingestor.ttl ≤ record.expiresAt → Accounted s' a) : Kept s s' := by
  have hpast : ∀ {a : Reduction} {time : Time}, Past s a time → Past s' a time := by
    intro a time hpast
    rw [hs']
    exact hpast.imp (fun hle => hlim.1 ▸ hle) (hevic _)
  have hclock : s'.clock = s.clock := by
    rw [hs']
    rfl
  have hred : s'.reductions = s.reductions := by
    rw [hs']
    rfl
  have hpubs : s'.publications = s.publications.modify t fun p => { p with phase := phase } := by
    rw [hs']
    rfl
  have hing : s'.ingestor = ingestor := by
    rw [hs']
    rfl
  refine ⟨⟨hing ▸ hled, ?_, fun t' p' hp' => ?_, fun a ha => ?_, ?_⟩, hing ▸ hlim⟩
  · rw [hing, hclock, hlim.1]
    exact hrec
  · rw [hpubs] at hp'
    rcases modify_cases hp hp' with ⟨rfl, rfl⟩ | ⟨hne, hp'⟩
    · exact hund
    · obtain ⟨hcloc, hheld, hbeg⟩ := h.underway t' p' hp'
      refine ⟨?_, fun records hh => ?_, fun time htime => ?_⟩
      · rw [hclock]
        exact hcloc
      · rw [hing, hoth t' p' records (Ne.symm hne) hp' hh]
        exact hheld records hh
      · rw [hclock] at htime ⊢
        rw [hred]
        obtain ⟨hle, hall⟩ := hbeg time htime
        exact ⟨hle, fun a ha hk => hpast (hall a ha hk)⟩
  · rw [hred] at ha
    rcases h.accounted a ha with ⟨q, hq, hph, hk, hend⟩ | ⟨record, hr, hk, howner, hexp⟩ | hover
    · by_cases heq : a.owner = t
      · rw [heq, hp] at hq
        obtain rfl := some.inj hq
        exact hown a ha heq hph hk hend
      · refine .inl ⟨q, ?_, hph, hk, hclock ▸ hend⟩
        rw [hpubs, modify_ne (Ne.symm heq)]
        exact hq
    · exact hreco a ha record hr hk howner hexp
    · exact .inr (.inr (hclock ▸ hpast hover))
  · rw [hred]
    exact h.gaps.imp fun hover hk => hpast (hover hk)

theorem Sound.owns (hh : holds p.phase = some records) : records = [soleRecord t (keyOf p.call)] ∧
      s.ingestor.pending.lookup (soleRecord t (keyOf p.call)).key = some (soleRecord t (keyOf p.call)) :=
  ((h.underway t p hp).held records hh).2

theorem Sound.abort {err} (hph : p.phase = .reduced records (some err)) :
    Kept s ({ s with ingestor := abort s.ingestor records }.put t (.published none (some err))) := by
  have hh : holds p.phase = some records := by
    rw [hph]
    rfl
  obtain ⟨rfl, hown⟩ := h.owns hp hh
  obtain ⟨hled, -, hpend'⟩ := h.ledger.abortRecord hown
  have hsame : (abortRecord s.ingestor (soleRecord t (keyOf p.call))).lru = s.ingestor.lru ∧
      SameLimits s.ingestor (abortRecord s.ingestor (soleRecord t (keyOf p.call))) := by
    rw [abortRecord]
    split <;> exact ⟨rfl, rfl, rfl⟩
  refine h.change hp hled hsame.2 ?_ (fun _ ho => ho) ?_ rfl (underway_of_idle rfl) ?_ ?_
  · rw [hsame.1]
    exact h.recent
  · intro t' p' records' hne hp' hh'
    rw [hpend', lookup_del, if_neg]
    exact fun hk => hne (h.sole hp hp' hh hh' hk)
  · intro a ha howner hred
    rw [hph, Phase.reduced.injEq] at hred
    cases hred.2
  · intro a ha record hr hk howner hexp
    refine .inr (.inl ⟨record, ?_, hk, howner, ?_⟩)
    · exact hsame.1.symm ▸ hr
    · exact hsame.2.1.symm ▸ hexp

theorem Sound.commit (hph : p.phase = .reduced records none) :
    commit s.ingestor s.clock records = (commitRecord s.clock s.ingestor (soleRecord t (keyOf p.call)), none) ∧
      Kept s ({ s with ingestor := (commit s.ingestor s.clock records).1 }.put t (.published (some .accepted) none)) := by
  have hh : holds p.phase = some records := by
    rw [hph]
    rfl
  obtain ⟨rfl, hown⟩ := h.owns hp hh
  rw [commit_single hown]
  refine ⟨rfl, h.change hp (h.ledger.commitRecord hown h.recent) ⟨rfl, rfl⟩ ?_ (fun _ ho => ho) ?_ rfl (underway_of_idle rfl) ?_ ?_⟩
  · rw [commitRecord]
    intro record hr
    rcases mem_cons.1 hr with rfl | hr
    · exact le_refl _
    · exact h.recent record hr
  · intro t' p' records' hne hp' hh'
    rw [commitRecord]
    rw [lookup_del, if_neg]
    exact fun hk => hne (h.sole hp hp' hh hh' hk)
  · intro a ha howner hred hk hend
    exact .inr (.inl ⟨_, mem_cons_self, hk, howner.symm, Int.add_le_add_right hend _⟩)
  · intro a ha record hr hk howner hexp
    exact .inr (.inl ⟨record, mem_cons_of_mem _ hr, hk, howner, hexp⟩)

end

theorem Sound.past_of_reserved (hnow : now ≤ s.clock) {key res} (hres : Reserved s.ingestor now t key res)
    (hacc : res.disposition = .accepted) (ha : a ∈ s.reductions) (hk : a.key = key) :
    a.ended + s.ingestor.ttl ≤ s.clock ∨ a.owner ∈ res.evicted.map ObservationDedupRecord.owner ++ s.evicted := by
  rcases hres.outcome with ⟨hno, -⟩ | ⟨-, -, hpend, he, -⟩
  · exact absurd hacc hno
  rcases h.accounted a ha with ⟨q, hq, hph, hown, -⟩ | ⟨record, hr, hrec, howner, hexp⟩ | hpast | hpast
  · obtain ⟨-, -, hheld⟩ := (h.underway a.owner q hq).held [soleRecord a.owner a.key] (by rw [hph]; rfl)
    rw [hown, hk, hpend] at hheld
    cases hheld
  · rcases hres.lost record hr with hleft | hexpi | hevic
    · rw [(hres.ledger.filed key record).2 ⟨hleft, hrec.trans hk⟩] at he
      cases he
    · exact .inl ((hexp.trans hexpi).trans hnow)
    · rw [← howner]
      exact .inr (mem_append_left _ (mem_map_of_mem hevic))
  · exact .inl hpast
  · exact .inr (mem_append_right _ hpast)

theorem Sound.reserve (hp : s.publications[t]? = some p) (hph : p.phase = .clocked domains now) :
    Kept s (moveOn s t p) := by
  obtain ⟨hok, hnow⟩ := (h.underway t p hp).clocked domains now hph
  obtain rfl := checked_single hok
  have hres : Reserved s.ingestor now t (keyOf p.call)
      (reserveMapped s.ingestor now t p.call.evidence [domainEvidence p.call.evidence]) :=
    reserved_of_ledger h.ledger now t p.call.evidence (domainEvidence p.call.evidence)
  rw [moveOn, hph]
  dsimp only
  generalize reserveMapped s.ingestor now t p.call.evidence [domainEvidence p.call.evidence] = res at hres ⊢
  have hrec : ∀ record ∈ res.ingestor.lru, record.expiresAt ≤ s.clock + s.ingestor.ttl := fun record hr =>
    h.recent record (hres.kept record hr)
  have hevic : ∀ owner ∈ s.evicted, owner ∈ res.evicted.map ObservationDedupRecord.owner ++ s.evicted :=
    fun _ => mem_append_right _
  have hred : ∀ {records : List ObservationDedupRecord}, p.phase ≠ .reduced records none := by
    intro records heq
    rw [hph] at heq
    cases heq
  have hreco : ∀ phase, ∀ a ∈ s.reductions, ∀ record ∈ s.ingestor.lru, record.key = a.key →
      record.owner = a.owner → a.ended + s.ingestor.ttl ≤ record.expiresAt →
        Accounted ({ s with ingestor := res.ingestor,
                            evicted := res.evicted.map ObservationDedupRecord.owner ++ s.evicted }.put t phase) a := by
    intro phase a ha record hr hk hown hexp
    rcases hres.lost record hr with hleft | hexpi | hgone
    · exact .inr (.inl ⟨record, hleft, hk, hown, hres.ttl.symm ▸ hexp⟩)
    · exact .inr (.inr (.inl (hres.ttl.symm ▸ (hexp.trans hexpi).trans hnow)))
    refine .inr (.inr (.inr ?_))
    rw [← hown]
    exact mem_append_left _ (mem_map_of_mem hgone)
  split
  · rename_i hacc
    have hbef := fun a => h.past_of_reserved hnow hres hacc (a := a)
    rcases hres.outcome with ⟨hno, -⟩ | ⟨-, hrecor, hpend, he, hpend'⟩
    · exact absurd hacc hno
    refine h.change hp hres.ledger ⟨hres.ttl, hres.maxEntries⟩ hrec hevic ?_ rfl (underway_of_held rfl ⟨hok, hrecor, ?_⟩ ?_) ?_
      (hreco _)
    · intro t' p' records' hne hp' hh'
      rw [hpend', lookup_set, if_neg]
      intro hk
      obtain ⟨-, -, hheld⟩ := (h.underway t' p' hp').held records' hh'
      rw [hk, hpend] at hheld
      cases hheld
    · change res.ingestor.pending.lookup _ = _
      rw [hpend', lookup_set, if_pos rfl]
    · intro time htime
      obtain rfl := some.inj htime
      refine ⟨le_refl _, fun a ha hk => ?_⟩
      exact (hbef a ha hk).imp_left fun hle => hres.ttl.symm ▸ hle
    · exact fun a ha hown heq => absurd heq hred
  · rename_i hno
    rcases hres.outcome with ⟨-, -, hpend'⟩ | ⟨hacc, -⟩
    · refine h.change hp hres.ledger ⟨hres.ttl, hres.maxEntries⟩ hrec hevic ?_ rfl (underway_of_idle rfl) ?_ (hreco _)
      · intro t' p' records' hne hp' hh'
        rw [hpend']
      · exact fun a ha hown heq => absurd heq hred
    · exact absurd hacc hno

theorem Sound.finish (hp : s.publications[t]? = some p) {began} (hph : p.phase = .reducing records began [] none) :
    Kept s { s.put t (.reduced records none) with
      reductions := records.map (fun record => ⟨t, record.key, began, s.clock⟩) ++ s.reductions } := by
  have hh : holds p.phase = some records := by
    rw [hph]
    rfl
  have hsince : since s.clock p.phase = some began := by
    rw [hph]
    rfl
  obtain ⟨-, hheld, hbeg⟩ := h.underway t p hp
  obtain ⟨hok, rfl, hpend⟩ := hheld records hh
  obtain ⟨hle, hbef⟩ := hbeg began hsince
  refine ⟨⟨h.ledger, h.recent, fun t' p' hp' => ?_, fun a ha => ?_, ?_⟩, rfl, rfl⟩
  · rcases modify_cases hp hp' with ⟨rfl, rfl⟩ | ⟨hne, hp'⟩
    · exact underway_of_held rfl ⟨hok, rfl, hpend⟩ fun _ htime => by cases htime
    · obtain ⟨hclocked₀, hheld₀, hbegan₀⟩ := h.underway t' p' hp'
      refine ⟨hclocked₀, hheld₀, fun time htime => ⟨(hbegan₀ time htime).1, fun a ha hk => ?_⟩⟩
      rcases mem_append.1 ha with ha | ha
      · -- the key is pending for one of the two only
        obtain rfl := mem_singleton.1 ha
        obtain ⟨records₀, hrecords₀⟩ := isSome_iff_exists.1 (holds_of_since htime)
        exact absurd (h.sole hp hp' hh hrecords₀ hk.symm).symm hne
      · exact (hbegan₀ time htime).2 a ha hk
  · rcases mem_append.1 ha with ha | ha
    · obtain rfl := mem_singleton.1 ha
      exact .inl ⟨_, modify_self hp, rfl, rfl, le_refl _⟩
    rcases h.accounted a ha with ⟨q, hq, hred, hk, hend⟩ | hr
    · refine .inl ⟨q, ?_, hred, hk, hend⟩
      have hne : t ≠ a.owner := by
        rintro rfl
        obtain rfl := mem_unique hp hq
        rw [hph] at hred
        cases hred
      exact (modify_ne hne).trans hq
    · exact .inr hr
  · rw [map_singleton, singleton_append, pairwise_cons]
    exact ⟨hbef, h.gaps⟩

end

theorem stays_perform (s : System) (sections : List Section) : Stays s (sections.foldl perform s) ∧
    (sections.foldl perform s).publications = s.publications := by
  induction sections generalizing s with
  | nil => exact ⟨⟨le_refl _, rfl, rfl, rfl⟩, rfl⟩
  | cons sec sections ih =>
    obtain ⟨hstays, hpubs⟩ := ih _
    exact ⟨{ hstays with }, hpubs⟩

theorem stays_afterRelease (s : System) (c : Call) (disposition) (err : Option String) :
    Stays s (afterRelease s c disposition err) ∧ (afterRelease s c disposition err).publications = s.publications := by
  have hsame : Stays s s ∧ s.publications = s.publications := ⟨⟨le_refl _, rfl, rfl, rfl⟩, rfl⟩
  rw [afterRelease]
  split
  · exact hsame
  split
  · exact stays_perform s _
  · exact hsame

theorem Sound.move (h : Sound s) (hp : s.publications[t]? = some p) : Kept s (moveOn s t p) := by
  have hput : ∀ phase, Stays s (s.put t phase) := fun phase => ⟨le_refl _, rfl, rfl, rfl⟩
  obtain ⟨hcloc, hheld, hbeg⟩ := h.underway t p hp
  cases hph : p.phase with
  | called =>
    rw [moveOn, hph]
    dsimp only
    split
    · exact h.rephase hp (hput _) rfl (by simp [hph]) (underway_of_idle rfl)
    rename_i domains hok
    refine h.rephase hp (hput _) rfl (by simp [hph]) ⟨fun domains' now heq => ?_, fun _ hr => ?_, fun _ htime => ?_⟩
    · obtain ⟨rfl, rfl⟩ := Phase.clocked.inj heq
      exact ⟨hok, le_refl _⟩
    · cases hr
    · cases htime
  | clocked domains now => exact h.reserve hp hph
  | reserved domains records =>
    rw [moveOn, hph]
    refine h.rephase hp (hput _) rfl (by simp [hph]) (underway_of_held rfl ?_ ?_)
    · exact hheld records (by rw [hph]; rfl)
    · intro time htime
      obtain rfl := some.inj htime
      exact hbeg s.clock (by rw [hph]; rfl)
  | reducing records began sections err =>
    cases sections with
    | nil =>
      rw [moveOn, hph]
      cases err with
      | none => exact h.finish hp hph
      | some err =>
        refine h.rephase hp (hput _) rfl (by simp [hph]) (underway_of_held rfl ?_ fun _ htime => ?_)
        · exact hheld records (by rw [hph]; rfl)
        · cases htime
    | cons sec sections =>
      rw [moveOn, hph]
      have hstays : Stays s ((perform s sec).put t (.reducing records began sections err)) :=
        ⟨le_refl _, rfl, rfl, rfl⟩
      refine h.rephase hp hstays rfl (by simp [hph]) (underway_of_held rfl ?_ ?_)
      · exact hheld records (by rw [hph]; rfl)
      · intro time htime
        exact hbeg time (by rw [hph]; exact htime)
  | reduced records err =>
    rw [moveOn, hph]
    cases err with
    | some err => exact h.abort hp hph
    | none =>
      obtain ⟨hcom, hso⟩ := h.commit hp hph
      dsimp only
      rw [hcom] at hso ⊢
      exact hso
  | published disposition err =>
    rw [moveOn, hph]
    obtain ⟨hstays, hpubs⟩ := stays_afterRelease s p.call disposition err
    have hput' : ((afterRelease s p.call disposition err).put t (.returned disposition err)).publications =
        s.publications.modify t fun p => { p with phase := .returned disposition err } :=
      congrArg _ hpubs
    refine h.rephase hp ?_ hput' (by simp [hph]) (underway_of_idle rfl)
    exact { hstays with }
  | returned disposition err =>
    rw [moveOn, hph]
    exact ⟨h, rfl, rfl⟩

theorem Sound.step (h : Sound s) (e) : Kept s (step s e) := by
  have hsame : Kept s s := ⟨h, rfl, rfl⟩
  cases e with
  | pass d =>
    exact h.stays ⟨Int.le_add_of_nonneg_right (Int.natCast_nonneg d), rfl, rfl, rfl⟩ (fun _ _ => .inl) fun _ _ _ hq _ => hq
  | call c =>
    rw [Publications.step]
    split
    · exact h.call c
    · exact hsame
  | move t =>
    rw [Publications.step]
    split
    · exact hsame
    · rename_i p hp
      exact h.move hp
  | health op => exact h.stays ⟨le_refl _, rfl, rfl, rfl⟩ (fun _ _ => .inl) fun _ _ _ hq _ => hq

theorem sound_start (clock ttl maxEntries) (health : BreakerRuns.World) :
    Sound (start clock ttl maxEntries health) := by
  have hemp : Ledger (newObservationIngestor ttl maxEntries) := by
    refine ⟨fun k record => ?_, nodup_nil, .nil, fun k record hk => ?_, ?_⟩
    · rw [newObservationIngestor]
      simp
    · cases hk
    · change (0 : Int) ≤ if maxEntries ≤ 0 then 16384 else maxEntries
      split <;> omega
  refine ⟨hemp, fun record hr => ?_, fun t p hp => ?_, fun a ha => ?_, .nil⟩
  · exact absurd hr not_mem_nil
  · cases hp
  · exact absurd ha not_mem_nil

theorem sound_run (clock ttl maxEntries) (health : BreakerRuns.World) (es) :
    Sound (run Publications.step (start clock ttl maxEntries health) es) ∧
      SameLimits (newObservationIngestor ttl maxEntries)
        (run Publications.step (start clock ttl maxEntries health) es).ingestor := by
  refine run_invariant (I := fun s => Sound s ∧ SameLimits (newObservationIngestor ttl maxEntries) s.ingestor)
    (fun s e h => ?_) ⟨sound_start clock ttl maxEntries health, rfl, rfl⟩ es
  obtain ⟨hso, httl, hmax⟩ := h.1.step e
  exact ⟨hso, httl.trans h.2.1, hmax.trans h.2.2⟩

/-- No two calls have the same observation under way. -/
theorem observations_exclusive (clock : Time) (ttl : Duration) (maxEntries : Int) (health : BreakerRuns.World)
    (es : List Event) :
    let s := run Publications.step (start clock ttl maxEntries health) es
    Ledger s.ingestor ∧ ∀ (t t' : Nat) p p', s.publications[t]? = some p → s.publications[t']? = some p' →
      (holds p.phase).isSome = true → (holds p'.phase).isSome = true → keyOf p'.call = keyOf p.call → t' = t := by
  have h := (sound_run clock ttl maxEntries health es).1
  refine ⟨h.ledger, fun t t' p p' hp hp' hh hh' hk => ?_⟩
  obtain ⟨records, hrec⟩ := isSome_iff_exists.1 hh
  obtain ⟨records', hrec'⟩ := isSome_iff_exists.1 hh'
  exact h.sole hp hp' hrec hrec' hk

end

end SingBox.ReplaySuppression
