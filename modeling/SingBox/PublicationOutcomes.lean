import SingBox.ReplaySuppression

namespace SingBox.PublicationOutcomes

open List Option Values Maps Observations HealthReducer Ingestion Runs Arena Publications ReplaySuppression

def Settled (w : BreakerRuns.World) (permit : Nat) : Prop :=
  ∃ q, w.permits[permit]? = some q ∧ q.completed = true

section

variable {w : BreakerRuns.World} {permit : Nat}

theorem Settled.step (h : Settled w permit) (op) : Settled (BreakerRuns.step w op) permit := by
  obtain ⟨q, hq, hcomp⟩ := h
  obtain ⟨q', hq', -, hdone⟩ := permit_step hq op
  exact ⟨q', hq', hdone hcomp⟩

theorem length_permits_step (w op) : w.permits.length ≤ (BreakerRuns.step w op).permits.length := by
  by_contra hlt
  obtain ⟨q', hq', -⟩ := permit_step (getElem?_eq_getElem (not_le.1 hlt)) op
  exact lt_irrefl _ (lt_of_some hq')

theorem settled_finish (hlt : permit < w.permits.length) (effect) :
    Settled (BreakerRuns.finish w permit effect) permit := by
  have hq : w.permits[permit]? = some w.permits[permit] := getElem?_eq_getElem hlt
  rw [BreakerRuns.finish, hq]
  dsimp only
  split
  · rename_i hcomp
    exact ⟨_, hq, hcomp⟩
  refine ⟨{ w.permits[permit] with completed := true }, ?_, rfl⟩
  rw [getElem?_set, if_pos rfl, if_pos hlt]

theorem settled_of_ends (hlt : permit < w.permits.length) {sec} (hends : Ends permit sec) (clock) :
    Settled (BreakerRuns.step w (sec clock)) permit := by
  rcases hends clock with hsec | ⟨outcomes, time, delay, reason, hsec⟩ <;> rw [hsec]
  all_goals exact settled_finish hlt _

end

/-- A call that was accepted with an outcome has seen to its permit; and one that has returned has, in any case. -/
def Settling (w : BreakerRuns.World) (p : Publication) (permit : Nat) : Prop :=
  match p.phase with
  | .reducing _ _ sections none => Settled w permit ∨ ∃ sec ∈ sections, Ends permit sec
  | .reduced _ none | .returned _ _ => Settled w permit
  | .published disposition err => unsettled p.call disposition err = false → Settled w permit
  | _ => True

structure Careful (s : System) : Prop where
  known : ∀ (t : Nat) (p : Publication) permit, s.publications[t]? = some p → p.call.permit = some permit →
    permit < s.health.permits.length
  settling : ∀ (t : Nat) (p : Publication) permit, s.publications[t]? = some p → p.call.permit = some permit →
    Settling s.health p permit

variable {disposition : Option IngestDisposition} {err : Option String}

section

variable {s s' : System} {t : Nat} {p : Publication} {permit : Nat}

structure Later (w w' : BreakerRuns.World) : Prop where
  length : w.permits.length ≤ w'.permits.length
  settled : ∀ permit, Settled w permit → Settled w' permit

theorem Later.refl (w) : Later w w := ⟨le_refl _, fun _ h => h⟩

theorem Later.step (w op) : Later w (BreakerRuns.step w op) :=
  ⟨length_permits_step w op, fun _ h => h.step op⟩

theorem Settling.later {w w'} (hlat : Later w w') (h : Settling w p permit) : Settling w' p permit := by
  obtain ⟨c, phase⟩ := p
  cases phase with
  | called | clocked | reserved => trivial
  | reducing records began sections err =>
    cases err with
    | none => exact h.imp_left (hlat.settled permit)
    | some err => trivial
  | reduced records err =>
    cases err with
    | none => exact hlat.settled permit h
    | some err => trivial
  | published disposition err => exact fun hset => hlat.settled permit (h hset)
  | returned disposition err => exact hlat.settled permit h

theorem Careful.change (h : Careful s) (hp : s.publications[t]? = some p) {phase}
    (hpubs : s'.publications = s.publications.modify t fun p => { p with phase := phase })
    (hlat : Later s.health s'.health)
    (hnew : ∀ permit, p.call.permit = some permit → permit < s.health.permits.length →
      Settling s.health p permit → Settling s'.health { p with phase := phase } permit) : Careful s' := by
  refine ⟨fun t' p' permit hp' hpm => ?_, fun t' p' permit hp' hpm => ?_⟩ <;> rw [hpubs] at hp' <;>
    rcases modify_cases hp hp' with ⟨rfl, rfl⟩ | ⟨-, hp'⟩
  · exact lt_of_lt_of_le (h.known t' p permit hp hpm) hlat.length
  · exact lt_of_lt_of_le (h.known t' p' permit hp' hpm) hlat.length
  · exact hnew permit hpm (h.known t' p permit hp hpm) (h.settling t' p permit hp hpm)
  · exact (h.settling t' p' permit hp' hpm).later hlat

theorem deferred_of_checked {e guard} (h : checkObservation e guard = .error (some .accepted, none)) :
    e.outcome = .deferred := by
  rw [checkObservation.eq_def] at h
  split at h
  · cases h
  rename_i hvalid
  split at h
  · cases h
  split at h
  · cases h
  · cases h
  rw [mapDomains_of_valid hvalid] at h
  split at h
  · cases h
  · rename_i hno
    split at hno
    · assumption
    · cases hno
  · cases h

theorem unsettled_checked {c} (h : checkObservation c.evidence c.guard = .error (disposition, err)) :
    unsettled c disposition err = true := by
  by_contra hno
  rw [Bool.not_eq_true, unsettled, Bool.or_eq_false_iff, Bool.or_eq_false_iff] at hno
  obtain ⟨⟨herr, hdisp⟩, hout⟩ := hno
  rw [isSome_eq_false_iff, isNone_iff_eq_none] at herr
  rw [bne_eq_false_iff_eq] at hdisp
  subst herr hdisp
  rw [deferred_of_checked h] at hout
  cases hout

theorem ends_of_sections {c domains} (hpm : c.permit = some permit) (hok : (sectionsOf c domains).2 = none) :
    ∃ sec ∈ (sectionsOf c domains).1, Ends permit sec := by
  obtain ⟨⟨permit'⟩, hset, heq⟩ := bind_eq_some_iff.1 hpm
  subst heq
  cases c with
  | publishGuarded e guard reducer => cases hset
  | publishSettledObservationGuarded e guard reducer =>
    cases reducer with
    | none => cases hset
    | some reducer => exact ends_of_reduce hset hok

theorem settled_afterRelease {c} (hpm : c.permit = some permit) (hlt : permit < s.health.permits.length)
    (hset : unsettled c disposition err = false → Settled s.health permit) :
    Settled (afterRelease s c disposition err).health permit := by
  obtain ⟨⟨permit'⟩, hsett, heq⟩ := bind_eq_some_iff.1 hpm
  subst heq
  rw [afterRelease, hsett]
  dsimp only
  split
  · exact settled_finish hlt _
  · rename_i hno
    exact hset (Bool.not_eq_true _ ▸ hno)

theorem later_afterRelease (s c disposition err) : Later s.health (afterRelease s c disposition err).health := by
  rw [afterRelease]
  split
  · exact .refl _
  split
  · rw [releaseDeferred]
    split
    · exact .refl _
    · exact .step s.health (.release _)
  · exact .refl _

theorem Careful.move (h : Careful s) (hp : s.publications[t]? = some p) : Careful (moveOn s t p) := by
  obtain ⟨c, phase⟩ := p
  cases phase with
  | called =>
    rw [moveOn]
    dsimp only
    split
    · rename_i disposition err hchk
      refine h.change hp rfl (.refl _) fun permit hpm hlt _ hset => ?_
      rw [unsettled_checked hchk] at hset
      cases hset
    · exact h.change hp rfl (.refl _) fun permit hpm hlt _ => trivial
  | clocked domains now =>
    rw [moveOn]
    dsimp only
    split
    · exact h.change hp rfl (.refl _) fun permit hpm hlt _ => trivial
    rename_i hno
    refine h.change hp rfl (.refl _) fun permit hpm hlt _ hset => ?_
    rw [unsettled, isSome_none, Bool.false_or, Bool.or_eq_false_iff, bne_eq_false_iff_eq,
      Option.some.injEq] at hset
    exact absurd hset.1 hno
  | reserved domains records =>
    refine h.change hp rfl (.refl _) fun permit hpm hlt _ => ?_
    cases herr : (sectionsOf c domains).2 with
    | none => exact .inr (ends_of_sections hpm herr)
    | some err => trivial
  | reducing records began sections err =>
    cases sections with
    | nil =>
      cases err with
      | none =>
        refine h.change hp rfl (.refl _) fun permit hpm hlt hsett => ?_
        rcases hsett with hset | ⟨sec, hsec, -⟩
        · exact hset
        · exact absurd hsec not_mem_nil
      | some err => exact h.change hp rfl (.refl _) fun permit hpm hlt _ => trivial
    | cons sec sections =>
      refine h.change hp rfl (.step ..) fun permit hpm hlt hsett => ?_
      cases err with
      | none =>
        rcases hsett with hset | ⟨sec', hsec', hends⟩
        · exact .inl (hset.step _)
        rcases mem_cons.1 hsec' with rfl | hsec'
        · exact .inl (settled_of_ends hlt hends _)
        · exact .inr ⟨sec', hsec', hends⟩
      | some err => trivial
  | reduced records err =>
    cases err with
    | none =>
      exact h.change hp rfl (.refl _) fun permit hpm hlt hset _ => hset
    | some err =>
      exact h.change hp rfl (.refl _) fun permit hpm hlt _ hset => by cases hset
  | published disposition err =>
    obtain ⟨-, hpubs⟩ := stays_afterRelease s c disposition err
    have hput : ((afterRelease s c disposition err).put t (.returned disposition err)).publications =
        s.publications.modify t fun p => { p with phase := .returned disposition err } :=
      congrArg _ hpubs
    refine h.change hp hput (later_afterRelease s c disposition err) fun permit hpm hlt hset => ?_
    exact settled_afterRelease hpm hlt hset
  | returned disposition err =>
    exact h

theorem Careful.step (h : Careful s) (e) : Careful (step s e) := by
  cases e with
  | pass d => exact ⟨h.known, h.settling⟩
  | call c =>
    rw [Publications.step]
    split
    · rename_i hkn
      refine ⟨fun t p permit hp hpm => ?_, fun t p permit hp hpm => ?_⟩
      · rcases of_append hp with hp | ⟨rfl, rfl⟩
        · exact h.known t p permit hp hpm
        · exact hkn permit hpm
      · rcases of_append hp with hp | ⟨rfl, rfl⟩
        · exact h.settling t p permit hp hpm
        cases c with
        | publishGuarded => trivial
        | publishSettledObservationGuarded e guard reducer =>
          cases reducer with
          | none => cases hpm
          | some reducer => trivial
    · exact h
  | move t =>
    rw [Publications.step]
    split
    · exact h
    · rename_i p hp
      exact h.move hp
  | health op =>
    have hlat := Later.step s.health op
    exact ⟨fun t p permit hp hpm => lt_of_lt_of_le (h.known t p permit hp hpm) hlat.length,
      fun t p permit hp hpm => (h.settling t p permit hp hpm).later hlat⟩

end

section

variable {s : System} {t : Nat} {p : Publication}

def remaining (p : Publication) : Nat :=
  match p.phase with
  | .returned _ _ => 0
  | .published _ _ => 1
  | .reduced _ _ => 2
  | .reducing _ _ sections _ => 3 + sections.length
  | .reserved domains _ => 4 + (sectionsOf p.call domains).1.length
  | .clocked domains _ => 5 + (sectionsOf p.call domains).1.length
  | .called =>
    match checkObservation p.call.evidence p.call.guard with
    | .error _ => 2
    | .ok domains => 6 + (sectionsOf p.call domains).1.length

section

variable (hp : s.publications[t]? = some p)
include hp

theorem step_move : step s (.move t) = moveOn s t p := by
  rw [step, hp]

theorem put_self (phase) : (s.put t phase).publications[t]? = some { p with phase := phase } := modify_self hp

theorem remaining_move : (∃ disposition err, p.phase = .returned disposition err) ∨
      ∃ phase, (moveOn s t p).publications[t]? = some { p with phase := phase } ∧
        remaining { p with phase := phase } < remaining p := by
  obtain ⟨c, phase⟩ := p
  cases phase with
  | returned disposition err => exact .inl ⟨disposition, err, rfl⟩
  | called =>
    rw [moveOn, remaining]
    cases hchk : checkObservation c.evidence c.guard with
    | error out => exact .inr ⟨_, put_self hp _, Nat.lt_succ_self 1⟩
    | ok domains =>
      refine .inr ⟨_, put_self hp _, ?_⟩
      rw [remaining]
      dsimp only
      omega
  | clocked domains now =>
    rw [moveOn]
    dsimp only
    split
    all_goals
      refine .inr ⟨_, modify_self hp, ?_⟩
      rw [remaining, remaining]
      dsimp only
      omega
  | reserved domains records =>
    refine .inr ⟨_, put_self hp _, ?_⟩
    rw [remaining, remaining]
    dsimp only
    omega
  | reducing records began sections err =>
    cases sections with
    | nil =>
      rw [moveOn]
      dsimp only
      refine .inr ⟨.reduced records err, ?_, ?_⟩
      · split <;> exact modify_self hp
      · rw [remaining, remaining]
        dsimp only
        omega
    | cons sec sections =>
      refine .inr ⟨_, modify_self hp, ?_⟩
      rw [remaining, remaining]
      dsimp only [length_cons]
      omega
  | reduced records err =>
    cases err with
    | none | some err => exact .inr ⟨_, modify_self hp, Nat.lt_succ_self 1⟩
  | published disposition err =>
    refine .inr ⟨.returned disposition err, ?_, Nat.zero_lt_one⟩
    obtain ⟨-, hpubs⟩ := stays_afterRelease s c disposition err
    exact put_self (hpubs.symm ▸ hp) _

end

theorem returns_of_moves (n) (hp : s.publications[t]? = some p) (hn : remaining p ≤ n) :
    ∃ moves disposition err, (run step s (List.replicate moves (.move t))).publications[t]? =
      some { p with phase := .returned disposition err } := by
  induction n generalizing s p with
  | zero =>
    rcases remaining_move hp with ⟨disposition, err, hph⟩ | ⟨phase, -, hless⟩
    · exact ⟨0, disposition, err, by rw [← hph]; exact hp⟩
    · omega
  | succ n ih =>
    rcases remaining_move hp with ⟨disposition, err, hph⟩ | ⟨phase, hmv, hless⟩
    · exact ⟨0, disposition, err, by rw [← hph]; exact hp⟩
    obtain ⟨moves, disposition, err, hret⟩ := ih hmv (by omega)
    refine ⟨moves + 1, disposition, err, ?_⟩
    rw [replicate_succ, run_cons, step_move hp]
    exact hret

end

section

variable {s : System} {c : Call}

theorem reserved_of_free (h : Sound s) (hchk : checkObservation c.evidence c.guard = .ok [domainEvidence c.evidence])
    (he : c.entry = .called) (hkn : Known s c) (hpend : s.ingestor.pending.lookup (keyOf c) = none)
    (hf : s.ingestor.entries.lookup (keyOf c) = none)
    (hroom : ((size s.ingestor + 1 : Nat) : Int) ≤ s.ingestor.maxEntries) (d) : ∃ domains records,
      (run step s [.call c, .move s.publications.length, .pass d, .move s.publications.length]).publications[s.publications.length]? =
        some ⟨c, .reserved domains records⟩ := by
  have hacc : (reserveMapped s.ingestor s.clock s.publications.length c.evidence
      [domainEvidence c.evidence]).disposition = .accepted := accepted_of_free h.ledger _ _ hpend hf hroom
  refine ⟨[domainEvidence c.evidence], (reserveMapped s.ingestor s.clock s.publications.length c.evidence
    [domainEvidence c.evidence]).records, ?_⟩
  have hc : step s (.call c) = { s with publications := s.publications ++ [⟨c, .called⟩] } := by
    rw [step, if_pos hkn, he]
  have hclock : step { s with publications := s.publications ++ [⟨c, .called⟩] } (.move s.publications.length) =
      { s with publications := s.publications ++ [⟨c, .clocked [domainEvidence c.evidence] s.clock⟩] } := by
    rw [step_move getElem?_concat_length, moveOn]
    rw [hchk]
    dsimp only [System.put]
    rw [modify_append_self]
  rw [run_cons, hc, run_cons, hclock, run_cons, run_cons, step_move getElem?_concat_length, moveOn]
  dsimp only [step]
  rw [if_pos hacc]
  exact modify_self getElem?_concat_length

theorem free_of_failed (h : Sound s) {t p records err} (hp : s.publications[t]? = some p)
    (hph : p.phase = .reduced records (some err)) :
    checkObservation p.call.evidence p.call.guard = .ok [domainEvidence p.call.evidence] ∧
      (step s (.move t)).ingestor.pending.lookup (keyOf p.call) = none ∧
      (step s (.move t)).ingestor.entries.lookup (keyOf p.call) = none ∧
      ((size (step s (.move t)).ingestor + 1 : Nat) : Int) ≤ (step s (.move t)).ingestor.maxEntries := by
  obtain ⟨hchk, rfl, hpend⟩ := (h.underway t p hp).held records (by rw [hph]; rfl)
  have hown : s.ingestor.pending.lookup (soleRecord t (keyOf p.call)).key = some (soleRecord t (keyOf p.call)) := hpend
  obtain ⟨-, hroom, hpend'⟩ := h.ledger.abortRecord hown
  have hent := h.ledger.apart _ _ hpend
  rw [step_move hp, moveOn, hph]
  dsimp only [System.put, abort, List.foldl]
  rw [hpend', lookup_del]
  refine ⟨hchk, if_pos rfl, ?_, ?_⟩
  · rw [abortRecord, if_pos hown]
    exact hent
  · rw [abortRecord, if_pos hown] at hroom ⊢
    exact hroom

end

/-- The promises of the ingestor, in every interleaving with the health store. Reductions are
listed from the last to the first. -/
theorem publications_kept_apart (clock : Time) (ttl : Duration) (maxEntries : Int) (health : BreakerRuns.World)
    (es : List Event) :
    ∀ s, s = run step (start clock ttl maxEntries health) es →
      (s.reductions.Pairwise fun later earlier => earlier.key = later.key →
        earlier.ended + (newObservationIngestor ttl maxEntries).ttl ≤ later.began ∨ earlier.owner ∈ s.evicted) ∧
      ((s.ingestor.entries.keys.length + s.ingestor.pending.keys.length : Nat) : Int) ≤
        (newObservationIngestor ttl maxEntries).maxEntries ∧
      (∀ (t : Nat) (p : Publication) records err, s.publications[t]? = some p → p.phase = .reduced records (some err) →
        ∀ s', s' = step s (.move t) →
          s'.ingestor.pending.lookup (keyOf p.call) = none ∧ s'.ingestor.entries.lookup (keyOf p.call) = none ∧
          ∀ c d, c.evidence = p.call.evidence → c.guard = p.call.guard → c.entry = .called → Known s' c →
            ∀ n, n = s'.publications.length → ∃ domains records',
              (run step s' [.call c, .move n, .pass d, .move n]).publications[n]? = some ⟨c, .reserved domains records'⟩) ∧
      (∀ (t : Nat) (p : Publication) permit, s.publications[t]? = some p → p.call.permit = some permit →
        ∀ disposition err, p.phase = .returned disposition err → Settled s.health permit) ∧
      ∀ (t : Nat) (p : Publication), s.publications[t]? = some p → ∃ moves disposition err,
        (run step s (List.replicate moves (.move t))).publications[t]? =
          some { p with phase := .returned disposition err } := by
  rintro s rfl
  obtain ⟨hso, httl, hmax⟩ := sound_run clock ttl maxEntries health es
  have hcar : Careful (run step (start clock ttl maxEntries health) es) :=
    run_invariant (I := Careful) (fun _ e h => h.step e) ⟨fun t p permit hp => by simp [start] at hp,
      fun t p permit hp => by simp [start] at hp⟩ es
  refine ⟨?_, ?_, ?_, ?_, ?_⟩
  · refine hso.gaps.imp fun hgap hk => ?_
    rw [← httl]
    exact hgap hk
  · rw [← hmax]
    exact hso.ledger.fits
  · rintro t p records err hp hph s' rfl
    obtain ⟨hchk, hpend, hent, hroom⟩ := free_of_failed hso hp hph
    refine ⟨hpend, hent, ?_⟩
    rintro c d hevid hguard he hkn n rfl
    have hk : keyOf c = keyOf p.call := by
      rw [keyOf, keyOf, hevid]
    refine reserved_of_free (hso.step _).1 ?_ he hkn ?_ ?_ hroom d
    · rw [hevid, hguard]
      exact hchk
    · rw [hk]
      exact hpend
    · rw [hk]
      exact hent
  · intro t p permit hp hpm disposition err hph
    have hset := hcar.settling t p permit hp hpm
    rw [Settling, hph] at hset
    exact hset
  · exact fun t p hp => returns_of_moves _ hp (le_refl _)

def dialFailed : ObservationEvidence :=
  { runtimeEpochID := 1, catalogRevision := 1, sourceGeneration := 1, handle := BreakerRuns.firstNode, source := .dial,
    stage := .destinationTransport, failure := .connect, confidence := .high, outcome := .failure, serviceID := "",
    transport := "tcp", networkPath := "tcp/ipv4", attemptID := 7, delay := 0, throughputBPS := 0, time := 2 * second,
    reason := "connection refused" }

/-- The hook of the reducer fails, so that nothing is reduced. -/
def busyReducer : HealthObservationReducer := ⟨true, some ⟨some 0⟩, some (.returned (some "busy"))⟩

def busyPublication : System :=
  run step (start (2 * second) (10 * second) 1 (BreakerRuns.start 0 0 (BreakerRuns.plainBreaker 3)))
    [.health (.dial BreakerRuns.firstNode "tcp/any" none (2 * second)),
      .call (.publishSettledObservationGuarded dialFailed (some true) (some busyReducer)),
      .move 0, .move 0, .move 0, .move 0]

def retriable (s : System) (p : Publication) : Bool :=
  match p.phase, p.call.entry with
  | .reduced _ (some _), .called => decide (Known s p.call)
  | _, _ => false

theorem busyPublication_retried :
    ∃ p ∈ busyPublication.publications[0]?, (∃ records err, p.phase = .reduced records (some err)) ∧
      ∃ domains records', (run step (step busyPublication (.move 0))
        [.call p.call, .move 1, .pass 5, .move 1]).publications[1]? = some ⟨p.call, .reserved domains records'⟩ := by
  have hfail : busyPublication.publications[0]?.any (retriable (step busyPublication (.move 0))) = true := by
    decide +kernel
  obtain ⟨p, hp, hcase⟩ := (any_eq_true _ _).1 hfail
  rw [retriable] at hcase
  split at hcase
  · rename_i records err hph he
    have hparts := publications_kept_apart (2 * second) (10 * second) 1
      (BreakerRuns.start 0 0 (BreakerRuns.plainBreaker 3)) _ busyPublication rfl
    obtain ⟨-, -, hretry⟩ := hparts.2.2.1 0 p records err hp hph _ rfl
    exact ⟨p, hp, ⟨records, err, hph⟩, hretry p.call 5 rfl rfl he (of_decide_eq_true hcase) 1 (by decide +kernel)⟩
  · cases hcase

end SingBox.PublicationOutcomes
