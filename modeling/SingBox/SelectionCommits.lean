import SingBox.SmartSelection

namespace SingBox.SelectionCommits

open Maps Runs Values SmartSelection
open SmartDial (CircuitState)

/-- What a request keeps of its ranking. `takenAt` and `takenFrom`, the time and
the stored selection its snapshot was made of, are not in the program. -/
structure SmartRanking where
  context : Context
  snapshotSelected : String
  snapshotSelectedAt : Time
  takenAt : Time
  takenFrom : String × Time
  deriving DecidableEq

structure System where
  smart : Smart := {}
  rankings : List SmartRanking := []
  clock : Time := 0

/-- A dial of a ranked request that completes. The ranks are those its request
made, of which nothing is assumed; the metadata are those of the moment. -/
structure Dial where
  ranking : Nat
  candidate : String
  ranks : List SmartRank
  attemptIndex : Int
  hadPriorFailure : Bool
  metadataByTag : MetadataByTag
  usePolicyBackend : Bool
  orders : PruneOrders
  now : Time

inductive Event
  | rank (context : Context) (now : Time)
  | record (statusKey endpointID : String)
  | confirm (key candidate : String) (now : Time)
  | clear (key : String)
  | complete (dial : Dial)

def takeSnapshot (o : SmartOptions) (s : Smart) (context : Context) (now : Time) : SmartRanking :=
  let taken := stored s (smartSelectionKey context)
  let snapshot := inForce o now taken
  { context := context, snapshotSelected := snapshot.1, snapshotSelectedAt := snapshot.2
    takenAt := now, takenFrom := taken }

def completionOf (r : SmartRanking) (d : Dial) : Completion :=
  { candidate := d.candidate, context := r.context, snapshotSelected := r.snapshotSelected
    snapshotSelectedAt := r.snapshotSelectedAt, snapshotValid := true, ranks := d.ranks
    attemptIndex := d.attemptIndex, hadPriorFailure := d.hadPriorFailure }

def complete (o : SmartOptions) (s : Smart) (r : SmartRanking) (d : Dial) : Smart :=
  (markSelectedWithSnapshot o d.metadataByTag d.usePolicyBackend d.now d.orders s (completionOf r d)).1

def step (o : SmartOptions) (w : System) : Event → System
  | .rank context now =>
    { w with rankings := w.rankings ++ [takeSnapshot o w.smart context now], clock := now }
  | .record statusKey endpointID => { w with smart := recordZigSelectedEndpoint w.smart statusKey endpointID }
  | .confirm key candidate now =>
    { w with smart := (confirmSwitchChallenge o w.smart key candidate now).1, clock := now }
  | .clear key => { w with smart := clearSwitchChallenge w.smart key }
  | .complete d =>
    match w.rankings[d.ranking]? with
    | some r => { w with smart := complete o w.smart r d, clock := d.now }
    | none => w

def InOrder (w : System) : Event → Prop
  | .rank _ now => w.clock ≤ now
  | .confirm _ _ now => w.clock ≤ now
  | .complete d => w.clock ≤ d.now
  | _ => True

instance (w : System) : ∀ e, Decidable (InOrder w e)
  | .rank _ now => inferInstanceAs (Decidable (w.clock ≤ now))
  | .record _ _ => .isTrue trivial
  | .confirm _ _ now => inferInstanceAs (Decidable (w.clock ≤ now))
  | .clear _ => .isTrue trivial
  | .complete d => inferInstanceAs (Decidable (w.clock ≤ d.now))

def SameSelections (s t : Smart) : Prop := s.lastSelected = t.lastSelected ∧ s.lastSelectedAt = t.lastSelectedAt

variable {t : Smart}

section

variable (o : SmartOptions) (orders : PruneOrders) (now : Time) (s : Smart)

theorem SameSelections.stored_eq {s} (h : SameSelections s t) (key) : stored s key = stored t key := by
  rw [stored, stored, h.1, h.2]

theorem pruneAffinity_selections : SameSelections (pruneAffinityLocked o orders now s) s := by
  rw [pruneAffinityLocked]
  split <;> exact ⟨rfl, rfl⟩

theorem SameSelections.trans {s u} (h : SameSelections s t) (h' : SameSelections t u) : SameSelections s u :=
  ⟨h.1.trans h'.1, h.2.trans h'.2⟩

theorem pruneEndpoints_frame (order s) : ∃ endpoints generations, pruneEndpoints o order s =
      { s with zigSelectedEndpoint := endpoints, selectionGeneration := generations } := by
  rw [pruneEndpoints]
  split
  · refine run_invariant (s := s) (I := fun t => ∃ endpoints generations,
      t = { s with zigSelectedEndpoint := endpoints, selectionGeneration := generations }) ?_ ⟨_, _, rfl⟩ _
    rintro t key ⟨endpoints, generations, rfl⟩
    rw [pruneEndpoint]
    split <;> exact ⟨_, _, rfl⟩
  · exact ⟨_, _, rfl⟩

theorem pruneGenerations_selections (order s) : SameSelections (pruneGenerations o order s) s := by
  rw [pruneGenerations]
  split <;> exact ⟨rfl, rfl⟩

theorem prune_selections :
    SameSelections (pruneContextStateLocked o orders now (pruneAffinityLocked o orders now s)) s := by
  refine (pruneGenerations_selections o ..).trans ?_
  obtain ⟨endpoints, generations, h⟩ := pruneEndpoints_frame o orders.endpoints
    (pruneExpired o now _)
  rw [h]
  exact pruneAffinity_selections o orders now s

theorem recordZigSelectedEndpoint_selections (statusKey endpointID) :
    SameSelections (recordZigSelectedEndpoint s statusKey endpointID) s := by
  rw [recordZigSelectedEndpoint]
  split <;> exact ⟨rfl, rfl⟩

theorem confirmSwitchChallenge_selections (key candidate now) :
    SameSelections (confirmSwitchChallenge o s key candidate now).1 s := by
  rw [confirmSwitchChallenge]
  dsimp only
  split
  · exact ⟨rfl, rfl⟩
  split
  · exact ⟨rfl, rfl⟩
  · split <;> exact ⟨rfl, rfl⟩

end

section

variable {o : SmartOptions} {s : Smart} {r : SmartRanking} {d : Dial} {w : System}

def found (o : SmartOptions) (s : Smart) (r : SmartRanking) (d : Dial) : String × Time :=
  inForce o d.now (stored s (smartSelectionKey r.context))

/-- A completion either leaves every selection as it was or stores its candidate
under the key of its ranking; a switch away from the selection in force that no
failure drives is stored only if the snapshot is that selection. -/
inductive Completed (o : SmartOptions) (s : Smart) (r : SmartRanking) (d : Dial) : Smart → Prop
  | retained {t : Smart} (h : SameSelections t s) : Completed o s r d t
  | selected {t : Smart}
      (hselected : t.lastSelected = s.lastSelected.insert (smartSelectionKey r.context) d.candidate)
      (hat : t.lastSelectedAt = s.lastSelectedAt.insert (smartSelectionKey r.context) d.now)
      (hfresh : logicalSwitch d.metadataByTag (found o s r d).1 d.candidate = true →
        failureSwitch (found o s r d).1 (completionOf r d) = false →
        found o s r d = (r.snapshotSelected, r.snapshotSelectedAt)) : Completed o s r d t

theorem fresh_of_verdict {current}
    (h : verdict o d.metadataByTag d.usePolicyBackend d.now t current (completionOf r d) = .selected)
    (hsw : logicalSwitch d.metadataByTag current.1 d.candidate = true)
    (hfail : failureSwitch current.1 (completionOf r d) = false) :
    current = (r.snapshotSelected, r.snapshotSelectedAt) := by
  rw [verdict] at h
  split at h
  · cases h
  rename_i hstale
  have hf : staleSnapshot current (completionOf r d) = false := by
    by_contra hsnap
    apply hstale
    rw [Bool.eq_true_of_not_eq_false hsnap, hfail]
    simpa [completionOf] using hsw
  rw [staleSnapshot, completionOf, Bool.true_and, Bool.or_eq_false_iff] at hf
  obtain ⟨hsel, hat⟩ := hf
  exact Prod.ext (not_not.1 (of_decide_eq_false hsel)) (not_not.1 (of_decide_eq_false hat))

theorem complete_completed (o s r d) : Completed o s r d (complete o s r d) := by
  rw [complete, markSelectedWithSnapshot]
  split
  · exact .retained ⟨rfl, rfl⟩
  dsimp only
  have hprune := prune_selections o d.orders d.now s
  have hf : inForce o d.now (stored (pruneContextStateLocked o d.orders d.now
      (pruneAffinityLocked o d.orders d.now s)) (smartSelectionKey (completionOf r d).context)) = found o s r d := by
    rw [hprune.stored_eq]
    rfl
  rw [hf]
  split
  · rename_i hv
    refine .selected ?_ ?_ (fresh_of_verdict hv)
    · exact congrArg (AList.insert _ d.candidate) hprune.1
    · exact congrArg (AList.insert _ d.now) hprune.2
  · exact .retained hprune

variable {now : Time} {selected : String × Time}

theorem stored_of_inserts {key candidate} (hsel : t.lastSelected = s.lastSelected.insert key candidate)
    (hat : t.lastSelectedAt = s.lastSelectedAt.insert key now) (key') :
    stored t key' = if key' = key then (candidate, now) else stored s key' := by
  rw [stored, hsel, hat, lookup_set, lookup_set]
  split <;> rfl

/-- What a ranking knows at a later time. The last field is the history: the
selection is still the one the snapshot was made of, or it was committed no
earlier than the snapshot. -/
structure Taken (o : SmartOptions) (w : System) (r : SmartRanking) : Prop where
  snapshot : (r.snapshotSelected, r.snapshotSelectedAt) = inForce o r.takenAt r.takenFrom
  before : r.takenFrom.2 ≤ r.takenAt
  past : r.takenAt ≤ w.clock
  since : stored w.smart (smartSelectionKey r.context) = r.takenFrom ∨
    r.takenAt ≤ (stored w.smart (smartSelectionKey r.context)).2

structure Kept (o : SmartOptions) (w : System) : Prop where
  committed : ∀ key, (stored w.smart key).2 ≤ w.clock
  taken : ∀ r ∈ w.rankings, Taken o w r

theorem kept_init (o) : Kept o {} := by
  constructor
  · intro key
    exact Int.le_refl 0
  · intro r hr
    exact absurd hr List.not_mem_nil

theorem Kept.same_selections {w'} (h : Kept o w) (hsmart : SameSelections w'.smart w.smart)
    (hrks : w'.rankings = w.rankings) (hclock : w.clock ≤ w'.clock) : Kept o w' := by
  constructor
  · intro key
    rw [hsmart.stored_eq]
    exact (h.committed key).trans hclock
  · intro r hr
    rw [hrks] at hr
    have ht := h.taken r hr
    refine { ht with past := ht.past.trans hclock, since := ?_ }
    rw [hsmart.stored_eq]
    exact ht.since

theorem Kept.rank (h : Kept o w) {context} (hnow : w.clock ≤ now) : Kept o (step o w (.rank context now)) := by
  refine ⟨fun key => (h.committed key).trans hnow, ?_⟩
  intro r hr
  rcases List.mem_append.1 hr with hr | hr
  · have ht := h.taken r hr
    exact { ht with past := ht.past.trans hnow }
  · rw [List.mem_singleton.1 hr]
    exact ⟨rfl, (h.committed _).trans hnow, Int.le_refl now, .inl rfl⟩

theorem Kept.commit {key candidate} (h : Kept o w) (hnow : w.clock ≤ now)
    (hsel : t.lastSelected = w.smart.lastSelected.insert key candidate)
    (hat : t.lastSelectedAt = w.smart.lastSelectedAt.insert key now) :
    Kept o { w with smart := t, clock := now } := by
  have hsto := stored_of_inserts hsel hat
  constructor
  · intro key'
    rw [hsto]
    split
    · exact Int.le_refl now
    · exact (h.committed key').trans hnow
  · intro r hr
    have ht := h.taken r hr
    refine { ht with past := ht.past.trans hnow, since := ?_ }
    rw [hsto]
    split
    · exact .inr (ht.past.trans hnow)
    · exact ht.since

theorem kept_step {e} (he : InOrder w e) (h : Kept o w) : Kept o (step o w e) := by
  cases e with
  | rank context now => exact h.rank he
  | record statusKey endpointID =>
    exact h.same_selections (recordZigSelectedEndpoint_selections ..) rfl (Int.le_refl _)
  | confirm key candidate now =>
    exact h.same_selections (confirmSwitchChallenge_selections o ..) rfl he
  | clear key => exact h.same_selections ⟨rfl, rfl⟩ rfl (Int.le_refl _)
  | complete d =>
    rw [step]
    split
    · rename_i r hr
      cases complete_completed o w.smart r d with
      | retained hsame => exact h.same_selections hsame rfl he
      | selected hsel hat hf => exact h.commit he hsel hat
    · exact h

theorem kept_run {es} (hes : Meets (step o) InOrder {} es) : Kept o (run (step o) {} es) :=
  run_keeps (fun _ _ _ => kept_step) (kept_init o) hes

theorem lt_of_stickinessOver (h : stickinessOver o now selected = true) : selected.2 < now := by
  rw [stickinessOver, Bool.and_eq_true, Bool.and_eq_true] at h
  obtain ⟨⟨-, hpos⟩, hover⟩ := h
  by_contra hle
  have hsub : sub now selected.2 ≤ 0 := by
    refine max_le (by decide) ((min_le_right ..).trans ?_)
    exact Int.sub_nonpos_of_le (Int.not_lt.1 hle)
  exact absurd ((of_decide_eq_true hpos).trans (of_decide_eq_true hover)) (Int.not_lt.2 hsub)

/-- A completion without a failure behind it: no attempt failed before, and its
ranks do not list the stored selection as open. -/
def Healthy (s : Smart) (r : SmartRanking) (d : Dial) : Prop :=
  d.hadPriorFailure = false ∧ isOpen d.ranks (stored s (smartSelectionKey r.context)).1 = false

def Moves (o : SmartOptions) (s : Smart) (r : SmartRanking) (d : Dial) : Prop :=
  (stored s (smartSelectionKey r.context)).1 ≠ "" ∧
    smartSameEndpoint d.metadataByTag (stored s (smartSelectionKey r.context)).1
      (stored (complete o s r d) (smartSelectionKey r.context)).1 = false

/-- The stored selection does not run out between the snapshot and the completion. -/
def NoExpiry (o : SmartOptions) (s : Smart) (r : SmartRanking) (d : Dial) : Prop :=
  stickinessOver o d.now (stored s (smartSelectionKey r.context)) = true →
    stickinessOver o r.takenAt (stored s (smartSelectionKey r.context)) = true

theorem smartSameEndpoint_self (metadataByTag tag) : smartSameEndpoint metadataByTag tag tag = true := by
  rw [smartSameEndpoint, if_pos rfl]

theorem takenFrom_of_inForce {taken} (hne : selected.1 ≠ "") (h : selected = inForce o now taken) :
    selected = taken := by
  rw [inForce] at h
  split at h
  · rw [h] at hne
    exact absurd rfl hne
  · exact h

theorem healthy_move_of_kept (hkept : Kept o w) (hr : r ∈ w.rankings) (hhl : Healthy w.smart r d)
    (hexp : NoExpiry o w.smart r d) (hmv : Moves o w.smart r d) :
    stored w.smart (smartSelectionKey r.context) = r.takenFrom := by
  have ht := hkept.taken r hr
  obtain ⟨hne, hoth⟩ := hmv
  cases complete_completed o w.smart r d with
  | retained hsame =>
    rw [hsame.stored_eq, smartSameEndpoint_self] at hoth
    cases hoth
  | selected hsel hat hf =>
    rw [stored_of_inserts hsel hat, if_pos rfl] at hoth
    by_cases hover : stickinessOver o d.now (stored w.smart (smartSelectionKey r.context)) = true
    · -- it had run out before the snapshot, so nothing has been committed since
      have hold := lt_of_stickinessOver (hexp hover)
      rcases ht.since with hsame | hlat
      · exact hsame
      · exact absurd hlat (Int.not_le.2 hold)
    · have hfo : found o w.smart r d = stored w.smart (smartSelectionKey r.context) :=
        if_neg hover
      rw [hfo] at hf
      have hsw : logicalSwitch d.metadataByTag (stored w.smart (smartSelectionKey r.context)).1
          d.candidate = true := by
        have hcand : (stored w.smart (smartSelectionKey r.context)).1 ≠ d.candidate := by
          intro heq
          rw [heq, smartSameEndpoint_self] at hoth
          cases hoth
        simp [logicalSwitch, hne, hcand, hoth]
      have hfail : failureSwitch (stored w.smart (smartSelectionKey r.context)).1 (completionOf r d) = false := by
        simp [failureSwitch, completionOf, hhl.1, hhl.2]
      exact takenFrom_of_inForce hne ((hf hsw hfail).trans ht.snapshot)

end

/-- No healthy completion replaces a selection other than the one its ranking
started from, and so none that was committed later than its ranking. -/
theorem late_result_retained (o : SmartOptions) (es : List Event) (hes : Meets (step o) InOrder {} es)
    (r : SmartRanking) (d : Dial) (hr : (run (step o) {} es).rankings[d.ranking]? = some r)
    (hhealthy : Healthy (run (step o) {} es).smart r d)
    (hexpiry : NoExpiry o (run (step o) {} es).smart r d) (hmoves : Moves o (run (step o) {} es).smart r d) :
    stored (run (step o) {} es).smart (smartSelectionKey r.context) = r.takenFrom ∧
      (stored (run (step o) {} es).smart (smartSelectionKey r.context)).2 ≤ r.takenAt := by
  have hkept := kept_run hes
  have hm := List.mem_of_getElem? hr
  have hsto := healthy_move_of_kept hkept hm hhealthy hexpiry hmoves
  refine ⟨hsto, ?_⟩
  rw [hsto]
  exact (hkept.taken r hm).before

def options : SmartOptions :=
  { siteStickiness := 1800 * second, switchMargin := 0.15, switchMinImprovement := 0, switchConfirm := 0
    switchConfirmSamples := 2, switchCooldown := 0, maxHistoryEntries := 10000, minSamples := 3
    policyBackendRequired := false }

def site : Context := { networkKey := "wifi", siteKey := "s", siteDisplay := "s", transport := "tcp" }

def ranked (tag : String) (score : Float) : SmartRank :=
  { tag := tag, identity := tag, policyID := 0, eligible := true, state := .healthy, score := score, samples := 9.0
    connectMS := score, connectP95MS := 0.0, firstByteMS := 0.0, firstByteP95MS := 0.0, selectionGeneration := 0 }

def dialed (ranking : Nat) (candidate : String) (now : Time) : Dial :=
  { ranking := ranking, candidate := candidate, ranks := [ranked "a" 80.0, ranked "b" 20.0], attemptIndex := 0
    hadPriorFailure := false, metadataByTag := ∅, usePolicyBackend := false
    orders := ⟨.stored _, .stored _, .stored _⟩, now := now }

def oneSelected : List Event := [.rank site 1, .complete (dialed 0 "a" 2), .rank site 3]

theorem switch_from_own_snapshot :
    Meets (step options) InOrder {} oneSelected ∧
      ∃ r, (run (step options) {} oneSelected).rankings[1]? = some r ∧
        Moves options (run (step options) {} oneSelected).smart r (dialed 1 "b" 5) ∧
        stored (run (step options) {} oneSelected).smart (smartSelectionKey site) = r.takenFrom := by
  have hmeets : Meets (step options) InOrder {} oneSelected := by decide +kernel
  have hrk : (run (step options) {} oneSelected).rankings[1]? = some ⟨site, "a", 2, 3, ("a", 2)⟩ := by
    decide +kernel
  have hmv : Moves options (run (step options) {} oneSelected).smart ⟨site, "a", 2, 3, ("a", 2)⟩
      (dialed 1 "b" 5) := by
    constructor <;> decide +kernel
  refine ⟨hmeets, _, hrk, hmv, ?_⟩
  refine (late_result_retained options oneSelected hmeets _ (dialed 1 "b" 5) hrk ?_ ?_ hmv).1
  · constructor <;> decide +kernel
  · intro hover
    exact absurd hover (by decide +kernel)

end SingBox.SelectionCommits
