import SingBox.ProbeRemovals

namespace SingBox.ProbePeriods

open Values Maps Runs ProbeTasks ProbeDispatcher ProbeMoves ProbeArrangement ProbeRemovals

def Periodic (s : Dispatcher) (key : ProbeKey) : Prop :=
  ∃ place entry, entryAt s place key = some entry ∧ 0 < entry.task.interval

/-- The event is no matching removal, no stop, and no completion after which
what follows under the key is deferred because the queue is full. -/
def Undisturbed (queueSize : Nat) (key : ProbeKey) (s : Dispatcher) : Event → Prop
  | .round _ _ (.remove removal _) => probeRemovalMatches removal key = false
  | .round _ _ (.stop _) => False
  | .round _ _ (.complete job result now later _) => ∀ task, s.jobs[job]? = some task → task.key = key →
      followUp s.allocated task result now later (entryAt s .rerun key) ≠ none →
        queueLength (drop s .rerun key) < queueSize
  | _ => True

/-- However it goes on undisturbed, the key has a probe that waits or runs, and
a completion of the running one leaves a periodic one pending. -/
def KeepsComing (queueSize : Nat) (key : ProbeKey) (s : Dispatcher) : Prop :=
  ∀ later, Meets (step queueSize) (Undisturbed queueSize key) s later →
    let t := run (step queueSize) s later
    (∃ place entry, entryAt t place key = some entry) ∧
      ∀ now order job result now' later' order' task, t.jobs[job]? = some task → task.key = key →
        Undisturbed queueSize key t (.round now order (.complete job result now' later' order')) →
        ∃ entry, entryAt (step queueSize t (.round now order (.complete job result now' later' order')))
          .pending key = some entry ∧ 0 < entry.task.interval

def Carries (s s' : Dispatcher) : Prop :=
  ∀ place key entry, entryAt s place key = some entry → 0 < entry.task.interval →
    ∃ entry', entryAt s' place key = some entry' ∧ 0 < entry'.task.interval

variable {entry : ScheduledProbe}

section

variable {s s' : Dispatcher} {key : ProbeKey}

theorem Carries.periodic (h : Carries s s') (hs : Periodic s key) : Periodic s' key := by
  obtain ⟨place, entry, he, hint⟩ := hs
  obtain ⟨entry', he', hint'⟩ := h place key entry he hint
  exact ⟨place, entry', he', hint'⟩

theorem Carries.of_probes (h : s'.probes = s.probes) : Carries s s' := by
  intro place key entry he hint
  refine ⟨entry, ?_, hint⟩
  rw [entryAt, h]
  exact he

variable {place : Place}

theorem Carries.put (h : ∀ old, entryAt s place key = some old → 0 < old.task.interval → 0 < entry.task.interval) :
    Carries s (put s place key entry) := by
  intro q k old hold hint
  rw [entryAt_put]
  split
  · next heq =>
    obtain ⟨rfl, rfl⟩ := heq
    exact ⟨entry, rfl, h old hold hint⟩
  · exact ⟨old, hold, hint⟩

theorem Carries.drop (h : ∀ old, entryAt s place key = some old → old.task.interval ≤ 0) :
    Carries s (drop s place key) := by
  intro q k old hold hint
  rw [entryAt_drop, if_neg]
  · exact ⟨old, hold, hint⟩
  · rintro ⟨rfl, rfl⟩
    exact absurd (h old hold) (not_le.mpr hint)

theorem mergeProbeTask_interval (existing next) (h : 0 < existing.interval ∨ 0 < next.interval) :
    0 < (mergeProbeTask existing next).interval := by
  simp only [mergeProbeTask]
  split
  · next hc =>
    rcases hc with hn | hold
    · exact hn
    · exact h.resolve_left (not_lt.mpr hold)
  · next hc => exact not_le.mp fun hold => hc (.inr hold)

theorem schedule_carries {task waiters} (h : entryAt s place task.key = none) :
    Carries s (schedule s place task waiters) := by
  have hput : Carries s (put s place task.key ⟨s.allocated, task, waiters⟩) := by
    apply Carries.put
    intro old hold
    rw [h] at hold
    cases hold
  exact hput

theorem acceptSubmission_carries (queueSize s task waiter) :
    Carries s (acceptSubmission queueSize s task waiter).1 := by
  rw [acceptSubmission]
  split
  · next existing hpend =>
    apply Carries.put
    intro old hold hint
    cases hpend.symm.trans hold
    exact mergeProbeTask_interval _ _ (.inl hint)
  · next hpend =>
    split
    · next running hact =>
      split
      · apply Carries.put
        intro old hold hint
        cases hact.symm.trans hold
        exact hint
      · split
        · next existing hrer =>
          apply Carries.put
          intro old hold hint
          cases hrer.symm.trans hold
          exact mergeProbeTask_interval _ _ (.inl hint)
        · next hrer =>
          split
          · exact .of_probes rfl
          · exact schedule_carries hrer
    · next hact =>
      split
      · exact .of_probes rfl
      · exact schedule_carries hpend

theorem cancelAt_carries (h : entryAt s place key = some entry) (waiter) :
    Carries s (cancelAt s place key entry waiter) := by
  rw [cancelAt]
  split
  · dsimp only
    split
    · next hl =>
      have hdrop : Carries s (drop s place key) := by
        apply Carries.drop
        intro old hold
        cases h.symm.trans hold
        exact hl.2.1
      exact hdrop
    · have hput : Carries s (put s place key
          { entry with waiters := entry.waiters.erase waiter }) := by
        apply Carries.put
        intro old hold hint
        cases h.symm.trans hold
        exact hint
      exact hput
  · exact .of_probes rfl

theorem cancelProbeWaiter_carries (s key waiter) : Carries s (cancelProbeWaiter s key waiter) := by
  rw [cancelProbeWaiter]
  split
  · next h => exact cancelAt_carries h waiter
  split
  · next h => exact cancelAt_carries h waiter
  split
  · next h => exact cancelAt_carries h waiter
  · exact .of_probes rfl

theorem select_carries (s now order) : Carries s (select s now order) := .of_probes (select_probes s now order).1

theorem releaseDispatch_carries (s) : Carries s (releaseDispatch s) := by
  rcases releaseDispatch_cases s with heq | heq <;> rw [heq] <;> exact .of_probes rfl

end

variable {s s' : Dispatcher} {key : ProbeKey} {task : ProbeTask} {queueSize : Nat} {result : ProbeResult} {now : Time}
  {job : Nat} {event : Event}

theorem handed_periodic (h : Handed s s') (ha : Arranged s) (hs : Periodic s key) : Periodic s' key := by
  cases h with
  | none => exact hs
  | job k entry hen =>
    obtain ⟨place, e, he, hint⟩ := hs
    by_cases hmv : key = k ∧ place = .pending
    · obtain ⟨rfl, rfl⟩ := hmv
      cases hen.symm.trans he
      refine ⟨.active, entry, ?_, hint⟩
      rw [handed_entryAt, if_pos ⟨rfl, rfl⟩]
    · refine ⟨place, e, ?_, hint⟩
      rw [handed_entryAt, if_neg, if_neg hmv]
      · exact he
      · rintro ⟨rfl, rfl⟩
        have hno := ha.apart key (by rw [he]; rintro ⟨⟩)
        rw [hen] at hno
        cases hno

theorem removeProbes_periodic {removal} (orders) (hoth : probeRemovalMatches removal key = false)
    (hs : Periodic s key) : Periodic (removeProbes orders removal s) key := by
  obtain ⟨place, entry, he, hint⟩ := hs
  refine ⟨place, entry, ?_, hint⟩
  rw [removeProbes_entryAt, if_neg]
  · exact he
  · rintro ⟨_, hmatch⟩
    rw [hoth] at hmatch
    cases hmatch

theorem followUp_periodic {addr later next} (h : 0 < task.interval ∨ ∃ e, next = some e ∧ 0 < e.task.interval) :
    ∃ entry, followUp addr task result now later next = some entry ∧ 0 < entry.task.interval := by
  rw [followUp]
  split
  · next ht =>
    have hr : 0 < (nextRound task result now later).interval := by
      rw [nextRound]
      split <;> exact ht
    cases next with
    | none => exact ⟨_, rfl, hr⟩
    | some e =>
      dsimp only
      split
      · exact ⟨_, rfl, hr⟩
      · next hint => exact ⟨e, rfl, not_le.mp hint⟩
  · next ht =>
    obtain ⟨e, rfl, hint⟩ := h.resolve_left ht
    exact ⟨e, rfl, hint⟩

theorem complete_periodic (ha : Arranged s) (hjob : s.jobs[job]? = some task) (hs : Periodic s task.key)
    (order result now later) (hroom : followUp s.allocated task result now
      later (entryAt s .rerun task.key) ≠ none → queueLength (drop s .rerun task.key) < queueSize) :
    ∃ entry, entryAt (complete queueSize order s job result now later) .pending task.key = some entry ∧
      0 < entry.task.interval := by
  obtain ⟨running, hact, ht⟩ := ha.working task (List.mem_of_getElem? hjob)
  obtain ⟨place, e, he, hint⟩ := hs
  have hn : ∃ entry, followUp s.allocated task result now later (entryAt s .rerun task.key) = some entry ∧
      0 < entry.task.interval := by
    apply followUp_periodic
    cases place with
    | pending =>
      have hno := ha.apart task.key (by rw [hact]; rintro ⟨⟩)
      rw [he] at hno
      cases hno
    | active =>
      cases hact.symm.trans he
      exact .inl (ht ▸ hint)
    | rerun => exact .inr ⟨e, he, hint⟩
  obtain ⟨next, hn, hnextInterval⟩ := hn
  refine ⟨next, ?_, hnextInterval⟩
  rw [complete_entryAt ha hjob, hn, Option.filter_some, if_pos (decide_eq_true (hroom (by rw [hn]; rintro ⟨⟩)))]

theorem completed_other {order later} (h : Completed queueSize order s job result now later s') (ha : Arranged s)
    (hoth : ∀ task, s.jobs[job]? = some task → task.key ≠ key) (place) :
    entryAt s' place key = entryAt s place key := by
  have hset : ∀ task, task.key ≠ key →
      entryAt (settle order s job task result) place key = entryAt s place key := by
    intro task hne
    rw [entryAt_settle, if_neg fun h => hne h.2.symm]
  cases h with
  | missing | stale => rfl
  | ended task running hjob | refused task running next hjob => exact hset task (hoth task hjob)
  | queued task running next hjob hact hn =>
    have hk : next.task.key = task.key := followUp_key (ha.keyed .rerun _) hn
    rw [entryAt_put, if_neg fun h => hoth task hjob (hk.symm.trans h.2.symm)]
    exact hset task (hoth task hjob)

theorem complete_keeps_periodic (ha : Arranged s) (hs : Periodic s key) (job order result now later)
    (hroom : ∀ task, s.jobs[job]? = some task → task.key = key →
      followUp s.allocated task result now later (entryAt s .rerun key) ≠ none → queueLength (drop s .rerun key) < queueSize) :
    Periodic (complete queueSize order s job result now later) key := by
  by_cases hown : ∃ task, s.jobs[job]? = some task ∧ task.key = key
  · obtain ⟨task, hjob, rfl⟩ := hown
    obtain ⟨entry, he, hint⟩ :=
      complete_periodic ha hjob hs order result now later (hroom task hjob rfl)
    exact ⟨.pending, entry, he, hint⟩
  · obtain ⟨place, entry, he, hint⟩ := hs
    refine ⟨place, entry, ?_, hint⟩
    rw [completed_other (complete_completed queueSize order s job result now later) ha]
    · exact he
    · intro task hjob hk
      exact hown ⟨task, hjob, hk⟩

theorem undisturbed_select {order} (h : Undisturbed queueSize key s event) :
    Undisturbed queueSize key (select s now order) event := by
  rcases select_cases s now order with heq | ⟨_, _, _, _, heq⟩ <;> rw [heq] <;> exact h

theorem step_periodic (ha : Arranged s) (hqt : Undisturbed queueSize key s event) (hs : Periodic s key) :
    Periodic (step queueSize s event) key := by
  cases event with
  | call task owned now later =>
    rw [step]
    split
    · exact hs
    · exact (Carries.of_probes rfl).periodic hs
  | round now order taken =>
    rw [step]
    split
    · exact hs
    have ha' := select_arranged ha now order
    have hs' := (select_carries s now order).periodic hs
    have hqt' : Undisturbed queueSize key (select s now order) (.round now order taken) :=
      undisturbed_select hqt
    generalize select s now order = t at ha' hs' hqt'
    cases taken with
    | idle => exact hs'
    | ownerReady => exact (Carries.of_probes rfl).periodic hs'
    | submit waiter =>
      rw [branch, submit]
      split
      · exact hs'
      rename_i task _
      have hcar := acceptSubmission_carries queueSize
        { t with requests := t.requests.erase waiter } task waiter
      exact (Carries.of_probes rfl).periodic (hcar.periodic ((Carries.of_probes rfl).periodic hs'))
    | cancel key' waiter =>
      exact (releaseDispatch_carries _).periodic ((cancelProbeWaiter_carries t key' waiter).periodic hs')
    | remove removal orders =>
      exact (releaseDispatch_carries _).periodic (removeProbes_periodic orders hqt' hs')
    | handOff => exact handed_periodic (handOff_handed t) ha' hs'
    | complete job result now' later' order' =>
      exact complete_keeps_periodic ha' hs' job order' result now' later' hqt'
    | stop => exact hqt'.elim

theorem queueLength_le (h : ∀ place key, place ≠ .active → entryAt s' place key ≠ none → entryAt s place key ≠ none) :
    queueLength s' ≤ queueLength s := by
  have hkeys : ∀ place, place ≠ .active → (s'.probes place).keys.length ≤ (s.probes place).keys.length := by
    intro place hp
    apply length_keys_le
    intro key hk
    obtain ⟨entry, he⟩ := mem_keys_iff.mp hk
    have hsome := h place key hp (by rw [entryAt, he]; rintro ⟨⟩)
    exact mem_keys_iff.mpr (Option.ne_none_iff_exists'.mp hsome)
  exact Nat.add_le_add (hkeys .pending (by rintro ⟨⟩)) (hkeys .rerun (by rintro ⟨⟩))

theorem queueLength_of_noNew (h : NoNew {} s s') : queueLength s' ≤ queueLength s := by
  refine queueLength_le fun place key _ hne => ?_
  obtain ⟨entry, he⟩ := Option.ne_none_iff_exists'.mp hne
  obtain ⟨old, hold, -⟩ := h place key (by simp [probeRemovalMatches]) entry he
  exact hold ▸ Option.some_ne_none old

theorem queueLength_put (s place key entry) : queueLength (put s place key entry) ≤ queueLength s + 1 := by
  have hins := length_keys_insert_le (s.probes place) key entry
  cases place with
  | pending => exact Nat.add_le_add_right hins _ |>.trans_eq (Nat.add_right_comm _ 1 _)
  | active => exact Nat.le_succ _
  | rerun => exact Nat.add_le_add_left hins _

theorem queueLength_drop_lt (h : entryAt s .rerun key ≠ none) : queueLength (drop s .rerun key) < queueLength s := by
  have hk : key ∈ (s.probes .rerun).keys := mem_keys_iff.mpr (Option.ne_none_iff_exists'.mp h)
  exact Nat.add_lt_add_left (length_keys_erase_lt hk) _

theorem queueLength_probes (h : s'.probes = s.probes) : queueLength s' = queueLength s := by
  rw [queueLength, queueLength, h]

theorem acceptSubmission_bounded (h : queueLength s ≤ queueSize) (task waiter) :
    queueLength (acceptSubmission queueSize s task waiter).1 ≤ queueSize := by
  have hjoin : ∀ place entry merged, entryAt s place task.key = some entry →
      queueLength (join s place task.key entry merged waiter) ≤ queueSize := by
    intro place entry merged he
    refine (queueLength_le fun q k _ hk => ?_).trans h
    rw [join, entryAt_put] at hk
    split at hk
    · next heq =>
      rw [heq.1, heq.2, he]
      rintro ⟨⟩
    · exact hk
  have hsch : ∀ place, ¬ queueLength s ≥ queueSize →
      queueLength (schedule s place task [waiter]) ≤ queueSize := by
    intro place hroom
    have hput := queueLength_put s place task.key ⟨s.allocated, task, [waiter]⟩
    exact hput.trans (Nat.lt_of_not_ge hroom)
  rw [acceptSubmission]
  split
  · next existing hpend => exact hjoin .pending existing _ hpend
  split
  · next running hact =>
    split
    · exact hjoin .active running _ hact
    split
    · next existing hrer => exact hjoin .rerun existing _ hrer
    split
    · exact h
    · next hroom => exact hsch .rerun hroom
  · split
    · exact h
    · next hroom => exact hsch .pending hroom

theorem complete_bounded (h : queueLength s ≤ queueSize) (order job result now later) :
    queueLength (complete queueSize order s job result now later) ≤ queueSize := by
  have hset : ∀ task, queueLength (settle order s job task result) ≤ queueSize := fun task =>
    (queueLength_of_noNew (settle_noNew order s job task result)).trans h
  have hcomp := complete_completed queueSize order s job result now later
  generalize complete queueSize order s job result now later = s' at hcomp ⊢
  cases hcomp with
  | missing | stale => exact h
  | ended task | refused task => exact hset task
  | queued task running next hjob hact hn hroom =>
    exact (queueLength_put ..).trans hroom

theorem step_bounded (event) (h : queueLength s ≤ queueSize) : queueLength (step queueSize s event) ≤ queueSize := by
  cases event with
  | call task owned now later =>
    rw [step]
    split
    · exact h
    · exact h
  | round now order taken =>
    rw [step]
    split
    · exact h
    have h' : queueLength (select s now order) ≤ queueSize := by
      rw [queueLength_probes (select_probes s now order).1]
      exact h
    have hrel : ∀ t, queueLength (releaseDispatch t) = queueLength t := by
      intro t
      rcases releaseDispatch_cases t with heq | heq
      · rw [heq]
      · rw [heq]
        rfl
    generalize select s now order = t at h'
    cases taken with
    | idle | ownerReady => exact h'
    | submit waiter =>
      rw [branch, submit]
      split
      · exact h'
      · next task _ =>
        exact acceptSubmission_bounded (s := { t with requests := t.requests.erase waiter }) h' task waiter
    | cancel key waiter =>
      rw [branch, hrel]
      exact (queueLength_of_noNew (cancelled_noNew (cancelProbeWaiter_cancelled t key waiter))).trans h'
    | remove removal orders =>
      rw [branch, hrel]
      exact (queueLength_of_noNew (removeProbes_noNew orders removal t)).trans h'
    | handOff =>
      refine (queueLength_le fun q k hq hk => ?_).trans h'
      have hhd := handOff_handed t
      change entryAt (handOff t) q k ≠ none at hk
      generalize handOff t = t' at hhd hk
      cases hhd with
      | none => exact hk
      | job key entry he =>
        rw [handed_entryAt, if_neg fun hc => hq hc.2] at hk
        split at hk
        · exact absurd rfl hk
        · exact hk
    | complete job result now' later' order' => exact complete_bounded h' order' job result now' later'
    | stop orders => exact (queueLength_of_noNew (stop_noNew orders t)).trans h'

theorem after_bounded (queueSize owned events) :
    queueLength (after queueSize owned events) ≤ effectiveQueueSize queueSize :=
  run_invariant (I := fun s => queueLength s ≤ effectiveQueueSize queueSize)
    (fun _ => step_bounded) (Nat.zero_le _) events

/-- What holds of the three maps and of the selected probe after any events. -/
theorem dispatcher_in_order (queueSize : Int) (owned : Bool) (events : List Event) :
    let s := after queueSize owned events
    (∀ key ∈ (s.probes .pending).keys, key ∉ (s.probes .active).keys) ∧
    (∀ key ∈ (s.probes .rerun).keys, key ∈ (s.probes .active).keys) ∧
    (∀ key addr, s.dispatch = some (key, addr) →
      ∃ entry, (s.probes .pending).lookup key = some entry ∧ entry.addr = addr) ∧
    (s.probes .pending).keys.length + (s.probes .rerun).keys.length ≤ effectiveQueueSize queueSize := by
  intro s
  have ha : Arranged s := after_arranged queueSize owned events
  have hkeys : ∀ place key, key ∈ (s.probes place).keys ↔ entryAt s place key ≠ none := by
    intro place key
    rw [mem_keys_iff, Option.ne_none_iff_exists']
    rfl
  refine ⟨fun key hpend hact => ?_, fun key hrer => ?_, after_selected queueSize owned events,
    after_bounded queueSize owned events⟩
  · rw [hkeys] at hpend hact
    exact hpend (ha.apart key hact)
  · rw [hkeys] at hrer ⊢
    exact ha.backed key hrer

theorem put_periodic (s place) (h : 0 < entry.task.interval) : Periodic (put s place key entry) key := by
  refine ⟨place, entry, ?_, h⟩
  rw [entryAt_put, if_pos ⟨rfl, rfl⟩]

theorem acceptSubmission_periodic (queueSize waiter) (hint : 0 < task.interval)
    (h : entryAt s .active task.key = none ∨ task.freshAfterCurrent = true ∨ Periodic s task.key) :
    (acceptSubmission queueSize s task waiter).2 = .deferred ∨
      Periodic (acceptSubmission queueSize s task waiter).1 task.key := by
  by_cases hper : Periodic s task.key
  · exact .inr ((acceptSubmission_carries queueSize s task waiter).periodic hper)
  rw [acceptSubmission]
  split
  · exact .inr (put_periodic _ _ (mergeProbeTask_interval _ _ (.inr hint)))
  split
  · next running hact =>
    have hf : task.freshAfterCurrent = true := by
      rcases h with h | h | h
      · rw [entryAt, hact] at h
        cases h
      · exact h
      · exact absurd h hper
    rw [hf, if_neg (by decide)]
    split
    · exact .inr (put_periodic _ _ (mergeProbeTask_interval _ _ (.inr hint)))
    split
    · exact .inl rfl
    · exact .inr (put_periodic s .rerun hint)
  · split
    · exact .inl rfl
    · exact .inr (put_periodic s .pending hint)

theorem acceptSubmission_joins (queueSize waiter) (ha : Arranged s) {running}
    (hact : entryAt s .active task.key = some running) (hf : task.freshAfterCurrent = false) :
    (acceptSubmission queueSize s task waiter).1 = join s .active task.key running running.task waiter := by
  have hpend : entryAt s .pending task.key = none := ha.apart task.key (by rw [hact]; rintro ⟨⟩)
  rw [entryAt] at hpend hact
  simp [acceptSubmission, hpend, hact, hf]

theorem complete_not_periodic (ha : Arranged s) (hjob : s.jobs[job]? = some task) (hs : ¬ Periodic s task.key)
    (order result now later)
    (hen : entryAt (complete queueSize order s job result now later) .pending task.key = some entry) :
    entry.task.interval ≤ 0 := by
  have hstill : ∀ place e, entryAt s place task.key = some e → e.task.interval ≤ 0 := fun place e he =>
    not_lt.mp fun hpos => hs ⟨place, e, he, hpos⟩
  obtain ⟨running, hact, ht⟩ := ha.working task (List.mem_of_getElem? hjob)
  have hfol : ∀ addr next, followUp addr task result now later next = next := by
    intro addr next
    rw [followUp, if_neg (not_lt.mpr (ht ▸ hstill .active running hact))]
  rw [complete_entryAt ha hjob, hfol, Option.filter_eq_some_iff] at hen
  exact hstill .rerun entry hen.1

theorem undisturbed_live (h : Undisturbed queueSize key s event) (hlive : s.stopped = false) :
    (step queueSize s event).stopped = false := by
  have hchg := step_change queueSize s event
  generalize step queueSize s event = s' at hchg ⊢
  cases hchg with
  | refused | called => exact hlive
  | round now order taken _ _ hr =>
    have hsel := (select_books s now order).stopped.trans hlive
    cases hr with
    | idle | ownerReady | unasked => exact hsel
    | submitted _ _ _ _ _ hacc => exact (accepted_books hacc).stopped.trans hsel
    | cancelled _ _ _ hcan =>
      rw [(releaseDispatch_books _).stopped, (cancelled_books hcan).stopped, hsel]
    | removed removal orders =>
      rw [(releaseDispatch_books _).stopped, (removeProbes_control orders removal _).stopped, hsel]
    | handed _ hhd => exact (handed_books hhd).stopped.trans hsel
    | completed _ _ _ _ _ _ hcomp => exact (completed_books hcomp).stopped.trans hsel
    | stopped => exact h.elim

theorem Periodic.keepsComing (ha : Arranged s) (hlive : s.stopped = false) (hs : Periodic s key) :
    KeepsComing queueSize key s := by
  intro later hqt
  have hlat : Arranged (run (step queueSize) s later) ∧ (run (step queueSize) s later).stopped = false ∧
      Periodic (run (step queueSize) s later) key := by
    refine run_keeps (I := fun t => Arranged t ∧ t.stopped = false ∧ Periodic t key) ?_ ⟨ha, hlive, hs⟩ hqt
    intro t event _ hq ⟨hta, htl, htp⟩
    exact ⟨change_arranged (step_change queueSize t event) hta, undisturbed_live hq htl, step_periodic hta hq htp⟩
  generalize run _ s later = t at hlat
  obtain ⟨hta, htl, htp⟩ := hlat
  constructor
  · obtain ⟨place, entry, he, _⟩ := htp
    exact ⟨place, entry, he⟩
  · intro now order job result now' later' order' task hjob hk hq
    subst hk
    have hq' : Undisturbed queueSize task.key (select t now order)
        (.round now order (.complete job result now' later' order')) := undisturbed_select hq
    have hjob' : (select t now order).jobs[job]? = some task := by
      rw [(select_probes t now order).2, hjob]
    rw [round_live htl]
    exact complete_periodic (select_arranged hta now order) hjob' ((select_carries t now order).periodic htp)
      order' result now' later' (hq' task hjob' rfl)

theorem not_keepsComing (ha : Arranged s) (hbd : queueLength s ≤ queueSize) (hlive : s.stopped = false)
    (hact : entryAt s .active key ≠ none) (hs : ¬ Periodic s key) : ¬ KeepsComing queueSize key s := by
  intro hkeeps
  obtain ⟨running, hrun⟩ := Option.ne_none_iff_exists'.mp hact
  have hk : running.task.key = key := ha.keyed .active key running hrun
  obtain ⟨job, hjob⟩ := List.getElem?_of_mem (ha.running key running hrun)
  subst hk
  have hl : ¬ 0 < running.task.interval := fun hpos => hs ⟨.active, running, hrun, hpos⟩
  -- a rerun that follows has its own place in the queue
  have hroom : Undisturbed queueSize running.task.key s
      (.round 0 (.stored _) (.complete job (deferred "context canceled") 0 0 (.stored _))) := by
    intro task ht hk hfol
    cases hjob.symm.trans ht
    rw [followUp, if_neg hl] at hfol
    exact (queueLength_drop_lt hfol).trans_le hbd
  obtain ⟨entry, hen, hpos⟩ :=
    (hkeeps [] trivial).2 0 (.stored _) job _ 0 0 (.stored _) running.task hjob rfl hroom
  rw [run_nil, round_live hlive] at hen
  have hjob' : (select s 0 (.stored _)).jobs[job]? = some running.task := by
    rw [(select_probes s 0 (.stored _)).2, hjob]
  have hs' : ¬ Periodic (select s 0 (.stored _)) running.task.key := by
    rintro ⟨place, e, he, hint⟩
    rw [entryAt, (select_probes s 0 (.stored _)).1] at he
    exact hs ⟨place, e, he, hint⟩
  exact absurd (complete_not_periodic (select_arranged ha 0 (.stored _)) hjob' hs' _ _ _ _ hen) (not_le.mpr hpos)

theorem submit_round (queueSize) (hlive : s.stopped = false) {waiter}
    (hreq : s.requests.lookup waiter = some task) (now order) :
    ∃ u, u.probes = s.probes ∧ u.jobs = s.jobs ∧ u.answers = s.answers ∧
      step queueSize s (.round now order (.submit waiter)) = { (acceptSubmission queueSize u task waiter).1 with
          answers := u.answers ++ [(waiter, (acceptSubmission queueSize u task waiter).2)] } := by
  obtain ⟨hpb, hjobs⟩ := select_probes s now order
  have hbooks := select_books s now order
  rw [← hbooks.requests] at hreq
  rw [round_live hlive, branch, submit, hreq]
  generalize select s now order = t at *
  have hacc := acceptSubmission_accepted queueSize { t with requests := t.requests.erase waiter } task waiter
  refine ⟨{ t with requests := t.requests.erase waiter }, hpb, hjobs, hbooks.answers, ?_⟩
  dsimp only
  rw [(accepted_books hacc).answers]

theorem Periodic.of_probes (hs : Periodic s key) (h : s'.probes = s.probes) :
    Periodic s' key := (Carries.of_probes h).periodic hs

/-- A periodic submission that was accepted or coalesced keeps coming exactly if
it did not join a running probe that is the last one under its key. -/
theorem periodic_probe_keeps_coming (queueSize : Int) (owned : Bool) (events : List Event) (now : Time)
    (order : RangeOrder ProbeKey) (waiter : Nat) (task : ProbeTask) (status : ProbeSubmitStatus)
    (hlive : (after queueSize owned events).stopped = false)
    (hrequest : (after queueSize owned events).requests.lookup waiter = some task)
    (hinterval : 0 < task.interval)
    (hanswer : (after queueSize owned (events ++ [.round now order (.submit waiter)])).answers =
      (after queueSize owned events).answers ++ [(waiter, status)])
    (hstatus : status = .accepted ∨ status = .coalesced) :
    KeepsComing (effectiveQueueSize queueSize) task.key
        (after queueSize owned (events ++ [.round now order (.submit waiter)])) ↔
      entryAt (after queueSize owned events) .active task.key = none ∨ task.freshAfterCurrent = true ∨
        Periodic (after queueSize owned events) task.key := by
  have ha := after_arranged queueSize owned events
  have ha' := after_arranged queueSize owned (events ++ [.round now order (.submit waiter)])
  have hbd := after_bounded queueSize owned (events ++ [.round now order (.submit waiter)])
  have haft : after queueSize owned (events ++ [.round now order (.submit waiter)]) =
      step (effectiveQueueSize queueSize) (after queueSize owned events) (.round now order (.submit waiter)) :=
    run_append _ _ events _
  generalize after queueSize owned (events ++ [.round now order (.submit waiter)]) = t at *
  generalize after queueSize owned events = s at *
  generalize effectiveQueueSize queueSize = size at *
  have hlive' : t.stopped = false := by
    have hqt : Undisturbed size task.key s (.round now order (.submit waiter)) := trivial
    rw [haft]
    exact undisturbed_live hqt hlive
  obtain ⟨u, hpb, hjobs, hans, hst⟩ := submit_round size hlive hrequest now order
  rw [hst] at haft
  have hsubm : (acceptSubmission size u task waiter).2 = status := by
    rw [haft, hans] at hanswer
    simpa using hanswer
  have hen : ∀ place key, entryAt u place key = entryAt s place key := by
    intro place key
    rw [entryAt, hpb]
    rfl
  constructor
  · intro hkeeps
    by_contra hcond
    simp only [not_or, Bool.not_eq_true] at hcond
    obtain ⟨hact, hf, hl⟩ := hcond
    obtain ⟨running, hrun⟩ := Option.ne_none_iff_exists'.mp hact
    rw [← hen] at hrun
    have hjoin := acceptSubmission_joins size waiter (ha.of_same hpb hjobs) hrun hf
    have hjoined : ∀ place, entryAt t place task.key = if place = .active
        then some { running with waiters := running.waiters.insert waiter } else entryAt u place task.key := by
      intro place
      rw [haft, hjoin]
      change entryAt (put u .active task.key _) place task.key = _
      rw [entryAt_put]
      simp
    refine not_keepsComing ha' hbd hlive' ?_ ?_ hkeeps
    · rw [hjoined]
      rintro ⟨⟩
    · rintro ⟨place, entry, he, hpos⟩
      rw [hjoined] at he
      split at he
      · cases he
        exact hl ⟨.active, running, hen .active task.key ▸ hrun, hpos⟩
      · exact hl ⟨place, entry, hen place task.key ▸ he, hpos⟩
  · intro hcond
    have hcond' : entryAt u .active task.key = none ∨ task.freshAfterCurrent = true ∨ Periodic u task.key := by
      rw [hen]
      exact hcond.imp_right (.imp_right fun h => h.of_probes hpb)
    have hper := (acceptSubmission_periodic size waiter hinterval hcond').resolve_left
      (by rw [hsubm]; rcases hstatus with rfl | rfl <;> rintro ⟨⟩)
    refine Periodic.keepsComing ha' hlive' (hper.of_probes ?_)
    rw [haft]

theorem accepted_probe_keeps_coming : (probeOf minute).interval = minute ∧
    KeepsComing (effectiveQueueSize 0) (probeOf minute).key
      (after 0 false ([.call (probeOf minute) true 100 100] ++ [.round 100 (.stored _) (.submit 1)])) := by
  refine ⟨rfl, (periodic_probe_keeps_coming 0 false [.call (probeOf minute) true 100 100] 100 (.stored _) 1
    _ .accepted (by decide) rfl (by decide) (by decide) (.inl rfl)).mpr (.inl (by decide))⟩

/-- A periodic submission joins a running probe that is the last one, and is
lost with its completion. -/
theorem coalesced_period_is_lost :
    let joined := probeRunning 0 ++
      [.call (probeOf minute) true 102 102, .round 102 (.stored _) (.submit 2)]
    let completion : Event := .round 103 (.stored _)
      (.complete 0 { outcome := .success, reason := "" } 104 105 (.stored _))
    (after 0 false joined).answers = [(1, .accepted), (2, .coalesced)] ∧
      Undisturbed (effectiveQueueSize 0) (probeOf minute).key (after 0 false joined) completion ∧
      ∀ place, entryAt (after 0 false (joined ++ [completion])) place (probeOf minute).key = none := by
  refine ⟨by decide, fun _ _ _ _ => by decide, fun place => ?_⟩
  cases place <;> decide

end SingBox.ProbePeriods
