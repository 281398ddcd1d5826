import SingBox.ProbeArrangement

namespace SingBox.ProbeRemovals

open Values Maps Runs ProbeTasks ProbeDispatcher ProbeMoves ProbeArrangement

/-- The event is no submission of a probe that the removal matches. -/
def Quiet (removal : ProbeRemoval) (s : Dispatcher) : Event → Prop
  | .round _ _ (.submit waiter) => ∀ task, s.requests.lookup waiter = some task →
      probeRemovalMatches removal task.key = false
  | _ => True

def Absent (removal : ProbeRemoval) (s : Dispatcher) : Prop :=
  ∀ key, probeRemovalMatches removal key = true → entryAt s .pending key = none ∧ entryAt s .rerun key = none

/-- However it goes on without matching submissions, no matching probe waits to
run and none is given to a worker. -/
def NeverAgain (queueSize : Nat) (removal : ProbeRemoval) (s : Dispatcher) : Prop :=
  ∀ later, Meets (step queueSize) (Quiet removal) s later →
    Absent removal (run (step queueSize) s later) ∧
      ∀ event, Quiet removal (run (step queueSize) s later) event →
        ∀ task ∈ (step queueSize (run (step queueSize) s later) event).jobs,
          probeRemovalMatches removal task.key = true → task ∈ (run (step queueSize) s later).jobs

structure Expiring (removal : ProbeRemoval) (s : Dispatcher) : Prop where
  arranged : Arranged s
  absent : Absent removal s
  last : ∀ key entry, entryAt s .active key = some entry → probeRemovalMatches removal key = true →
    entry.task.interval ≤ 0

def NoNew (removal : ProbeRemoval) (s s' : Dispatcher) : Prop :=
  ∀ q k, probeRemovalMatches removal k = true → ∀ e, entryAt s' q k = some e →
    ∃ e₀, entryAt s q k = some e₀ ∧ (q = .active → e.task = e₀.task)

variable {task : ProbeTask} {key : ProbeKey} {entry : ScheduledProbe} {waiter i queueSize : Nat}

section

variable {removal : ProbeRemoval} {s s' : Dispatcher}

theorem NoNew.trans {t} (hst : NoNew removal s t) (hts : NoNew removal t s') : NoNew removal s s' := by
  intro q k hk e he
  obtain ⟨e₁, he₁, htask₁⟩ := hts q k hk e he
  obtain ⟨e₀, he₀, htask₀⟩ := hst q k hk e₁ he₁
  exact ⟨e₀, he₀, fun hq => (htask₁ hq).trans (htask₀ hq)⟩

theorem NoNew.of_kept (h : ∀ q k e, entryAt s' q k = some e → entryAt s q k = some e) : NoNew removal s s' :=
  fun q k _ e he => ⟨e, h q k e he, fun _ => rfl⟩

theorem NoNew.of_probes (hpb : s'.probes = s.probes) : NoNew removal s s' := by
  refine of_kept fun q k e he => ?_
  rw [← he, entryAt, entryAt, hpb]

theorem NoNew.expiring (h : NoNew removal s s') (hs : Expiring removal s) (ha : Arranged s') :
    Expiring removal s' := by
  have hno : ∀ q k, probeRemovalMatches removal k = true → entryAt s q k = none → entryAt s' q k = none := by
    intro q k hk hq
    cases he : entryAt s' q k with
    | none => rfl
    | some e =>
      obtain ⟨e₀, he₀, _⟩ := h q k hk e he
      rw [hq] at he₀
      cases he₀
  refine ⟨ha, fun k hk => ⟨hno _ k hk (hs.absent k hk).1, hno _ k hk (hs.absent k hk).2⟩,
      fun k e he hk => ?_⟩
  obtain ⟨e₀, he₀, heq⟩ := h .active k hk e he
  rw [heq rfl]
  exact hs.last k e₀ he₀ hk

theorem NoNew.jobs (h : NoNew removal s s') (ha : Arranged s) (ha' : Arranged s') (ht : task ∈ s'.jobs)
    (hk : probeRemovalMatches removal task.key = true) : task ∈ s.jobs := by
  obtain ⟨e, he, rfl⟩ := ha'.working task ht
  obtain ⟨e₀, he₀, heq⟩ := h .active _ hk e he
  rw [heq rfl]
  exact ha.running _ e₀ he₀

theorem put_noNew {place} (hke : probeRemovalMatches removal key = false) :
    NoNew removal s (put s place key entry) := by
  intro q k hk e he
  rw [entryAt_put, if_neg] at he
  · exact ⟨e, he, fun _ => rfl⟩
  · rintro ⟨_, rfl⟩
    rw [hke] at hk
    cases hk

theorem accepted_noNew {status} (h : Accepted s task waiter s' status)
    (hk : probeRemovalMatches removal task.key = false) : NoNew removal s s' := by
  cases h with
  | joined => exact put_noNew hk
  | deferred => exact .of_probes rfl
  | scheduled | again => exact (put_noNew hk).trans (.of_probes rfl)

theorem cancelled_noNew (h : Cancelled s waiter s') : NoNew removal s s' := by
  cases h with
  | missed => exact .of_probes rfl
  | kept place key entry h =>
    intro q k _ e he
    change entryAt (put s place key _) q k = some e at he
    rw [entryAt_put] at he
    split at he
    · next heq =>
      cases he
      exact ⟨entry, by rw [heq.1, heq.2, h], fun _ => rfl⟩
    · exact ⟨e, he, fun _ => rfl⟩
  | dropped place key entry h =>
    refine .of_kept fun q k e he => ?_
    change entryAt (drop s place key) q k = some e at he
    rw [entryAt_drop] at he
    split at he
    · cases he
    · exact he

theorem removeProbes_noNew (orders other s) : NoNew removal s (removeProbes orders other s) := by
  refine .of_kept fun q k e he => ?_
  rw [removeProbes_entryAt] at he
  split at he
  · cases he
  · exact he

theorem releaseDispatch_noNew (s) : NoNew removal s (releaseDispatch s) := by
  rcases releaseDispatch_cases s with heq | heq <;> rw [heq] <;> exact .of_probes rfl

theorem select_noNew (s now order) : NoNew removal s (select s now order) := by
  rcases select_cases s now order with heq | ⟨_, _, _, _, heq⟩ <;> rw [heq] <;> exact .of_probes rfl

theorem handed_noNew (h : Handed s s') (hs : Absent removal s) : NoNew removal s s' := by
  cases h with
  | none => exact .of_probes rfl
  | job key entry h =>
    intro q k hk e he
    have hne : k ≠ key := by
      rintro rfl
      rw [(hs k hk).1] at h
      cases h
    rw [handed_entryAt] at he
    simp only [hne, false_and, if_false] at he
    exact ⟨e, he, fun _ => rfl⟩

theorem settle_noNew (order s i task result) : NoNew removal s (settle order s i task result) := by
  refine .of_kept fun q k e he => ?_
  rw [entryAt_settle] at he
  split at he
  · cases he
  · exact he

theorem Expiring.followUp_none (hs : Expiring removal s) (hjob : s.jobs[i]? = some task)
    (hk : probeRemovalMatches removal task.key = true) (result now later) :
    followUp s.allocated task result now later (entryAt s .rerun task.key) = none := by
  obtain ⟨entry, he, ht⟩ := hs.arranged.working task (List.mem_of_getElem? hjob)
  have hl := hs.last task.key entry he hk
  rw [ht] at hl
  rw [followUp, if_neg (not_lt.mpr hl), (hs.absent task.key hk).2]

theorem completed_noNew {order result now later} (h : Completed queueSize order s i result now later s')
    (hs : Expiring removal s) : NoNew removal s s' := by
  cases h with
  | missing | stale => exact .of_probes rfl
  | ended task => exact settle_noNew order s i task result
  | queued task running next hjob hact hn hroom =>
    have hk : next.task.key = task.key := followUp_key (hs.arranged.keyed .rerun _) hn
    have hoth : probeRemovalMatches removal next.task.key = false := by
      by_contra hm
      rw [Bool.not_eq_false, hk] at hm
      rw [hs.followUp_none hjob hm] at hn
      cases hn
    exact ((settle_noNew order s i task result).trans (put_noNew hoth)).trans (.of_probes rfl)
  | refused task => exact (settle_noNew order s i task result).trans (.of_probes rfl)

theorem stop_noNew (orders s) : NoNew removal s (stop orders s) := by
  refine .of_kept fun q k e he => ?_
  rw [stop_entryAt] at he
  cases he

theorem change_noNew {event} (h : Change queueSize s event s') (hqt : Quiet removal s event)
    (hs : Expiring removal s) : NoNew removal s s' := by
  cases h with
  | refused | called => exact .of_probes rfl
  | round now order taken _ _ h =>
    have hnew : NoNew removal s (select s now order) := select_noNew s now order
    have hsel : Expiring removal (select s now order) :=
        hnew.expiring hs (select_arranged hs.arranged now order)
    apply hnew.trans
    cases h with
    | idle | ownerReady | unasked => exact .of_probes rfl
    | submitted waiter task t status hreq h =>
      rw [(select_books s now order).requests] at hreq
      exact (accepted_noNew h (hqt task hreq)).trans (.of_probes rfl)
    | cancelled key waiter t h => exact (cancelled_noNew h).trans (releaseDispatch_noNew t)
    | removed other orders => exact (removeProbes_noNew orders other _).trans (releaseDispatch_noNew _)
    | handed _ h => exact handed_noNew h hsel.absent
    | completed _ _ _ _ _ _ h => exact completed_noNew h hsel
    | stopped orders => exact stop_noNew orders _

end

variable {s : Dispatcher}

theorem Expiring.neverAgain {removal} (h : Expiring removal s) (queueSize) : NeverAgain queueSize removal s := by
  intro later hqt
  have hlat : Expiring removal (run (step queueSize) s later) := by
    refine run_keeps (I := Expiring removal) (fun t event _ hq ht => ?_) h hqt
    have hchg := step_change queueSize t event
    exact (change_noNew hchg hq ht).expiring ht (change_arranged hchg ht.arranged)
  refine ⟨hlat.absent, fun event hq task hta hk => ?_⟩
  have hchg := step_change queueSize (run (step queueSize) s later) event
  exact (change_noNew hchg hq hlat).jobs hlat.arranged (change_arranged hchg hlat.arranged) hta hk

theorem queueLength_zero (hpend : ∀ k, entryAt s .pending k = none) (hrer : ∀ k, entryAt s .rerun k = none) :
    queueLength s = 0 := by
  have hkeys : ∀ place, (∀ k, entryAt s place k = none) → (s.probes place).keys.length = 0 := by
    intro place hno
    rw [List.length_eq_zero_iff, List.eq_nil_iff_forall_not_mem]
    intro k hk
    obtain ⟨entry, he⟩ := mem_keys_iff.mp hk
    cases (hno k).symm.trans he
  rw [queueLength, hkeys _ hpend, hkeys _ hrer]

theorem remove_round (queueSize) (hlive : s.stopped = false) (now order removal orders) :
    (∀ q k, entryAt (step queueSize s (.round now order (.remove removal orders))) q k =
      if q ≠ .active ∧ probeRemovalMatches removal k = true then none else entryAt s q k) ∧
    (step queueSize s (.round now order (.remove removal orders))).jobs = s.jobs ∧
    (step queueSize s (.round now order (.remove removal orders))).stopped = false := by
  obtain ⟨hpb, hjobs⟩ := select_probes s now order
  have hbooks := select_books s now order
  have hctl := removeProbes_control orders removal (select s now order)
  have he : ∀ q k, entryAt (removeProbes orders removal (select s now order)) q k =
      if q ≠ .active ∧ probeRemovalMatches removal k = true then none else entryAt s q k := by
    intro q k
    rw [removeProbes_entryAt, entryAt, hpb]
    rfl
  rw [round_live hlive, branch]
  rcases releaseDispatch_cases _ with heq | heq <;> rw [heq] <;>
    exact ⟨he, hctl.jobs.trans hjobs, hctl.stopped.trans (hbooks.stopped.trans hlive)⟩

theorem queueLength_settle (order s i task result) :
    queueLength (settle order s i task result) = queueLength (drop s .rerun task.key) := by
  rw [settle]
  rcases takeOut_cases order .active result { s with jobs := s.jobs.eraseIdx i } task.key with
    ⟨_, h⟩ | ⟨entry, _, h⟩ <;> rw [h] <;> simp [queueLength, drop, setProbes]

theorem complete_entryAt (hs : Arranged s) (hjob : s.jobs[i]? = some task) (result now later order) :
    entryAt (complete queueSize order s i result now later) .pending task.key =
      (followUp s.allocated task result now later (entryAt s .rerun task.key)).filter
        fun _ => decide (queueLength (drop s .rerun task.key) < queueSize) := by
  obtain ⟨entry, he, _⟩ := hs.working task (List.mem_of_getElem? hjob)
  have hset : entryAt (settle order s i task result) .pending task.key = none := by
    rw [entryAt_settle, hs.apart task.key (by rw [he]; rintro ⟨⟩), ite_self]
  have hcomp := complete_completed queueSize order s i result now later
  generalize complete queueSize order s i result now later = s' at hcomp ⊢
  cases hcomp with
  | missing h =>
    rw [hjob] at h
    cases h
  | stale task' hjob' hact =>
    cases hjob.symm.trans hjob'
    rw [he] at hact
    cases hact
  | ended task' running hjob' hact hn =>
    cases hjob.symm.trans hjob'
    rw [hn]
    exact hset
  | queued task' running next hjob' hact hn hroom =>
    cases hjob.symm.trans hjob'
    have hk : next.task.key = task.key := followUp_key (hs.keyed .rerun _) hn
    rw [queueLength_settle] at hroom
    rw [hn, Option.filter_some, if_pos (decide_eq_true hroom), entryAt_put, if_pos ⟨rfl, hk.symm⟩]
  | refused task' running next hjob' hact hn hfull =>
    cases hjob.symm.trans hjob'
    rw [queueLength_settle] at hfull
    rw [hn, Option.filter_some, if_neg (by simpa using hfull)]
    exact hset

theorem complete_pending (hsize : 0 < queueSize) (hs : Arranged s) (hpend : ∀ k, entryAt s .pending k = none)
    (hrer : ∀ k, entryAt s .rerun k = none) (hjob : s.jobs[i]? = some task) (hper : task.interval > 0)
    (result now later order) : entryAt (complete queueSize order s i result now later) .pending task.key ≠ none := by
  have hzero : queueLength (drop s .rerun task.key) = 0 := by
    refine queueLength_zero (fun k => ?_) (fun k => ?_)
    · rw [entryAt_drop, hpend, ite_self]
    · rw [entryAt_drop, hrer, ite_self]
  rw [complete_entryAt hs hjob, hzero, followUp, if_pos hper, hrer, Option.filter_some,
    if_pos (decide_eq_true hsize)]
  rintro ⟨⟩

theorem periodic_returns (hsize : 0 < queueSize) {removal} (hs : Arranged s) (hlive : s.stopped = false)
    (he : entryAt s .active key = some entry) (hk : probeRemovalMatches removal key = true)
    (hper : entry.task.interval > 0) : ¬ NeverAgain queueSize removal s := by
  intro hnev
  obtain ⟨i, hi⟩ := List.getElem?_of_mem (hs.running key entry he)
  have ht : entry.task.key = key := hs.keyed .active key entry he
  -- the queue is emptied first, as the next round of a probe is deferred when it is full
  have hall : ∀ k, probeRemovalMatches {} k = true := fun k => by simp [probeRemovalMatches]
  let clear : Event := .round 0 (.stored _) (.remove {} ⟨.stored _, .stored _⟩)
  let finished : Event := .round 0 (.stored _) (.complete i (deferred "context canceled") 0 0 (.stored _))
  obtain ⟨hent, hjobs, hstill⟩ := remove_round queueSize hlive 0 (.stored _) {} ⟨.stored _, .stored _⟩
  have hqt : Meets (step queueSize) (Quiet removal) s [clear, finished] := ⟨trivial, trivial, trivial⟩
  have habs : entryAt (step queueSize (step queueSize s clear) finished) .pending key = none :=
    ((hnev [clear, finished] hqt).1 key hk).1
  have hclear := change_arranged (step_change queueSize s clear) hs
  generalize step queueSize s clear = t at hent hjobs hstill hclear habs
  obtain ⟨hpb, hjobs'⟩ := select_probes t 0 (.stored _)
  have hno : ∀ q k, q ≠ .active → entryAt (select t 0 (.stored _)) q k = none := by
    intro q k hq
    rw [entryAt, hpb]
    exact (hent q k).trans (if_pos ⟨hq, hall k⟩)
  rw [round_live hstill, ← ht] at habs
  refine complete_pending hsize (select_arranged hclear 0 (.stored _)) (fun k => hno _ k (by rintro ⟨⟩))
    (fun k => hno _ k (by rintro ⟨⟩)) ?_ hper _ _ _ _ habs
  rw [hjobs', hjobs, hi]

theorem effectiveQueueSize_pos (queueSize) : 0 < effectiveQueueSize queueSize := by
  rw [effectiveQueueSize]
  split
  · decide
  · omega

/-- After a removal the matching probes stay away exactly if no periodic one of
them was running. -/
theorem removed_probes_stay_away (queueSize : Int) (owned : Bool) (events : List Event) (now : Time)
    (order : RangeOrder ProbeKey) (removal : ProbeRemoval) (orders : Orders)
    (hlive : (after queueSize owned events).stopped = false) :
    NeverAgain (effectiveQueueSize queueSize) removal
        (after queueSize owned (events ++ [.round now order (.remove removal orders)])) ↔
      ∀ key entry, entryAt (after queueSize owned events) .active key = some entry →
        probeRemovalMatches removal key = true → entry.task.interval ≤ 0 := by
  have haft : after queueSize owned (events ++ [.round now order (.remove removal orders)]) =
      step (effectiveQueueSize queueSize) (after queueSize owned events)
        (.round now order (.remove removal orders)) :=
    run_append _ _ events _
  obtain ⟨hent, _, hstill⟩ := remove_round (effectiveQueueSize queueSize) hlive now order removal orders
  rw [← haft] at hent hstill
  have harr := after_arranged queueSize owned (events ++ [.round now order (.remove removal orders)])
  have hact : ∀ k,
      entryAt (after queueSize owned (events ++ [.round now order (.remove removal orders)])) .active k =
      entryAt (after queueSize owned events) .active k := by
    intro k
    rw [hent, if_neg (by rintro ⟨hne, _⟩; exact hne rfl)]
  constructor
  · intro hnev key entry he hk
    by_contra hper
    rw [← hact] at he
    exact periodic_returns (effectiveQueueSize_pos queueSize) harr hstill he hk
      (not_le.mp hper) hnev
  · intro hl
    refine Expiring.neverAgain ⟨harr, fun key hk => ⟨?_, ?_⟩, fun key entry he => ?_⟩ _
    · rw [hent, if_pos ⟨by rintro ⟨⟩, hk⟩]
    · rw [hent, if_pos ⟨by rintro ⟨⟩, hk⟩]
    · rw [hact] at he
      exact hl key entry he

def probeOf (interval : Duration) : ProbeTask :=
  { key := ⟨1, 1, 1, 7, 1, 1, "health", ""⟩, source := "", priority := 0, dueAt := 0, submittedAt := 0,
    interval := interval, failureInterval := 0, timeout := 0, run := some 0, observe := none }

def probeRunning (interval : Duration) : List Event :=
  [.call (probeOf interval) true 100 100, .round 100 (.stored _) (.submit 1), .round 101 (.stored _) .handOff]

def nodeRemoved : Event := .round 102 (.stored _) (.remove (remove 7) ⟨.stored _, .stored _⟩)

theorem single_probe_stays_away : (after 0 false (probeRunning 0)).jobs.length = 1 ∧
    NeverAgain (effectiveQueueSize 0) (remove 7) (after 0 false (probeRunning 0 ++ [nodeRemoved])) := by
  refine ⟨by decide, (removed_probes_stay_away 0 false (probeRunning 0) 102 (.stored _) (remove 7)
    ⟨.stored _, .stored _⟩ (by decide)).mpr fun key entry he _ => ?_⟩
  have hall : ∀ key ∈ ((after 0 false (probeRunning 0)).probes .active).keys,
      ((entryAt (after 0 false (probeRunning 0)) .active key).all fun e => e.task.interval ≤ 0) =
      true := by decide
  have hk := hall key (mem_keys_iff.mpr ⟨entry, he⟩)
  rw [he] at hk
  exact of_decide_eq_true hk

/-- A periodic probe of the removed node that was running is pending again once
it is complete, and is given to a worker again when it is due. -/
theorem removed_probe_runs_again :
    let removed := probeRunning minute ++ [nodeRemoved]
    let completed := removed ++
      [.round 103 (.stored _) (.complete 0 (deferred "context canceled") 104 105 (.stored _))]
    let again := completed ++ [.round (104 + minute) (.stored _) .handOff]
    probeRemovalMatches (remove 7) (probeOf minute).key = true ∧
      entryAt (after 0 false completed) .pending (probeOf minute).key ≠ none ∧
      (after 0 false completed).jobs = [] ∧
      (after 0 false again).jobs.map (·.key) = [(probeOf minute).key] := by
  decide

end SingBox.ProbeRemovals
