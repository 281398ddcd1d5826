import SingBox.ProbeMoves

namespace SingBox.ProbeArrangement

open List Values Maps Runs ProbeTasks ProbeDispatcher ProbeMoves

/-- Pending and running probes have different keys, a rerun waits for a running
probe, and the running probes are the jobs of the workers. -/
structure Arranged (s : Dispatcher) : Prop where
  keyed : ∀ place key entry, entryAt s place key = some entry → entry.task.key = key
  apart : ∀ key, entryAt s .active key ≠ none → entryAt s .pending key = none
  backed : ∀ key, entryAt s .rerun key ≠ none → entryAt s .active key ≠ none
  running : ∀ key entry, entryAt s .active key = some entry → entry.task ∈ s.jobs
  working : ∀ task ∈ s.jobs, ∃ entry, entryAt s .active task.key = some entry ∧ entry.task = task
  once : (s.jobs.map (·.key)).Nodup

variable {s s' : Dispatcher} {place : Place} {key : ProbeKey} {entry : ScheduledProbe} {task : ProbeTask}
  {waiter i queueSize : Nat} {status : ProbeSubmitStatus} {order : RangeOrder Nat} {result : ProbeResult}
  {taken : Branch} {event : Event}

theorem Arranged.thinned (h : Arranged s) (hjobs : s'.jobs = s.jobs)
    (he : ∀ q k, entryAt s' q k = entryAt s q k ∨ q ≠ .active ∧ entryAt s' q k = none) : Arranged s' := by
  have hact : ∀ k, entryAt s' .active k = entryAt s .active k := fun k =>
    (he .active k).resolve_right fun hn => hn.1 rfl
  constructor
  · intro q k entry hk
    rcases he q k with heq | ⟨_, hno⟩
    · exact h.keyed q k entry (heq ▸ hk)
    · rw [hno] at hk
      cases hk
  · intro k hk
    rw [hact] at hk
    rcases he .pending k with heq | ⟨_, hno⟩
    · rw [heq]
      exact h.apart k hk
    · exact hno
  · intro k hk
    rw [hact]
    rcases he .rerun k with heq | ⟨_, hno⟩
    · exact h.backed k (heq ▸ hk)
    · exact absurd hno hk
  · intro k entry hk
    rw [hjobs]
    exact h.running k entry (hact k ▸ hk)
  · intro task ht
    rw [hact]
    exact h.working task (hjobs ▸ ht)
  · rw [hjobs]
    exact h.once

theorem Arranged.of_same (h : Arranged s) (hpb : s'.probes = s.probes) (hjobs : s'.jobs = s.jobs) :
    Arranged s' := by
  refine h.thinned hjobs fun place key => .inl ?_
  rw [entryAt, hpb]
  rfl

theorem Arranged.replaced (h : Arranged s) (hen : entryAt s place key = some entry) {entry'}
    (hke : entry'.task.key = entry.task.key) (hact : place = .active → entry'.task = entry.task) :
    Arranged (put s place key entry') := by
  have hno : ∀ q k, entryAt (put s place key entry') q k = none ↔ entryAt s q k = none := by
    intro q k
    rw [entryAt_put]
    split
    · next heq =>
      rw [heq.1, heq.2, hen]
      exact ⟨nofun, nofun⟩
    · rfl
  constructor
  · intro q k e hk
    rw [entryAt_put] at hk
    split at hk
    · next heq =>
      cases hk
      rw [hke, heq.2]
      exact h.keyed place key entry hen
    · exact h.keyed q k e hk
  · intro k hk
    rw [hno]
    exact h.apart k (by rwa [Ne, ← hno])
  · intro k hk
    rw [Ne, hno]
    exact h.backed k (by rwa [Ne, ← hno])
  · intro k e hk
    rw [entryAt_put] at hk
    split at hk
    · next heq =>
      cases hk
      rw [hact heq.1.symm]
      exact h.running key entry (heq.1 ▸ hen)
    · exact h.running k e hk
  · intro task ht
    obtain ⟨e, he, ht⟩ := h.working task ht
    rw [entryAt_put]
    split
    · next heq =>
      refine ⟨entry', rfl, ?_⟩
      rw [heq.1, heq.2, hen] at he
      cases he
      rw [hact heq.1.symm, ht]
    · exact ⟨e, he, ht⟩
  · exact h.once

theorem Arranged.added (h : Arranged s) (hke : entry.task.key = key) (hpl : place ≠ .active)
    (hpend : place = .pending → entryAt s .active key = none)
    (hrer : place = .rerun → entryAt s .active key ≠ none) : Arranged (put s place key entry) := by
  have he := fun q k => entryAt_put s place q key k entry
  have hact : ∀ k, entryAt (put s place key entry) .active k = entryAt s .active k := by
    intro k
    rw [he, if_neg]
    rintro ⟨heq, _⟩
    exact hpl heq.symm
  constructor
  · intro q k e hk
    rw [he] at hk
    split at hk
    · next heq =>
      cases hk
      rw [hke, heq.2]
    · exact h.keyed q k e hk
  · intro k hk
    rw [hact] at hk
    rw [he, if_neg]
    · exact h.apart k hk
    · rintro ⟨hp, rfl⟩
      exact hk (hpend hp.symm)
  · intro k hk
    rw [he] at hk
    rw [hact]
    split at hk
    · next heq =>
      rw [heq.2]
      exact hrer heq.1.symm
    · exact h.backed k hk
  · intro k e hk
    exact h.running k e (hact k ▸ hk)
  · intro t ht
    rw [hact]
    exact h.working t ht
  · exact h.once

theorem accepted_arranged (h : Accepted s task waiter s' status) (hs : Arranged s) : Arranged s' := by
  cases h with
  | joined place entry merged h hk hact => exact hs.replaced h hk hact
  | deferred => exact hs.of_same rfl rfl
  | scheduled _ hact =>
    have hput : Arranged (put s .pending task.key ⟨s.allocated, task, [waiter]⟩) :=
      hs.added rfl (by rintro ⟨⟩) (fun _ => hact) (by rintro ⟨⟩)
    exact hput.of_same rfl rfl
  | again running hact _ =>
    have hput : Arranged (put s .rerun task.key ⟨s.allocated, task, [waiter]⟩) :=
      hs.added rfl (by rintro ⟨⟩) (by rintro ⟨⟩) fun _ => by rw [hact]; rintro ⟨⟩
    exact hput.of_same rfl rfl

theorem cancelled_arranged (h : Cancelled s waiter s') (hs : Arranged s) : Arranged s' := by
  cases h with
  | missed => exact hs
  | kept place key entry h _ =>
    have hput : Arranged (put s place key { entry with waiters := entry.waiters.erase waiter }) :=
      hs.replaced h rfl fun _ => rfl
    exact hput.of_same rfl rfl
  | dropped place key entry h _ _ hp =>
    refine hs.thinned rfl fun q k => ?_
    change entryAt (drop s place key) q k = _ ∨ _ ∧ entryAt (drop s place key) q k = _
    rw [entryAt_drop]
    split
    · next heq => exact .inr ⟨heq.1 ▸ hp, rfl⟩
    · exact .inl rfl

theorem removeProbes_arranged (h : Arranged s) (orders removal) : Arranged (removeProbes orders removal s) := by
  refine h.thinned (removeProbes_control orders removal s).jobs fun q k => ?_
  rw [removeProbes_entryAt]
  split
  · next hq => exact .inr ⟨hq.1, rfl⟩
  · exact .inl rfl

theorem releaseDispatch_arranged (h : Arranged s) : Arranged (releaseDispatch s) := by
  rcases releaseDispatch_cases s with heq | heq
  · rw [heq]
    exact h
  · rw [heq]
    exact h.of_same rfl rfl

theorem select_arranged (h : Arranged s) (now order) : Arranged (select s now order) := by
  rcases select_cases s now order with heq | ⟨_, _, _, _, heq⟩
  · rw [heq]
    exact h
  · rw [heq]
    exact h.of_same rfl rfl

theorem handed_arranged (h : Handed s s') (hs : Arranged s) : Arranged s' := by
  cases h with
  | none => exact hs
  | job key entry h hdisp =>
    have hen := handed_entryAt s key entry
    have hf : entryAt s .active key = none := by
      by_contra hne
      rw [hs.apart key hne] at h
      cases h
    have ht := hs.keyed .pending key entry h
    constructor
    · intro q k e hk
      rw [hen] at hk
      split at hk
      · next heq =>
        cases hk
        rw [ht, heq.1]
      · split at hk
        · cases hk
        · exact hs.keyed q k e hk
    · intro k hk
      rw [hen] at hk ⊢
      by_cases hke : k = key
      · simp [hke]
      · simp only [hke, false_and, if_false] at hk ⊢
        exact hs.apart k hk
    · intro k hk
      rw [hen] at hk ⊢
      by_cases hke : k = key
      · simp [hke]
      · simp only [hke, false_and, if_false] at hk ⊢
        exact hs.backed k hk
    · intro k e hk
      rw [hen] at hk
      split at hk
      · cases hk
        exact mem_append_right _ mem_cons_self
      split at hk
      · cases hk
      · exact mem_append_left _ (hs.running k e hk)
    · intro task hm
      rw [hen]
      rcases mem_append.mp hm with hm | hm
      · obtain ⟨e, he, heq⟩ := hs.working task hm
        have hne : task.key ≠ key := by
          rintro rfl
          rw [hf] at he
          cases he
        simp only [hne, false_and, if_false]
        exact ⟨e, he, heq⟩
      · obtain rfl := mem_singleton.mp hm
        exact ⟨entry, if_pos ⟨ht, rfl⟩, rfl⟩
    · rw [map_append, nodup_append]
      refine ⟨hs.once, nodup_singleton _, ?_⟩
      intro k hk k' hk' heq
      obtain ⟨task, hm, rfl⟩ := mem_map.mp hk
      obtain rfl := mem_singleton.mp hk'
      obtain ⟨e, he, _⟩ := hs.working task hm
      have hke : task.key = key := heq.trans ht
      rw [hke, hf] at he
      cases he

theorem settle_arranged (h : Arranged s) (hjob : s.jobs[i]? = some task) (order result) :
    Arranged (settle order s i task result) := by
  have he := entryAt_settle order s i task result
  have hjobs : (settle order s i task result).jobs = s.jobs.eraseIdx i :=
    (takeOut_control order .active result { s with jobs := s.jobs.eraseIdx i } task.key).jobs
  have hoth : ∀ other, other ∈ s.jobs.eraseIdx i ↔ other ∈ s.jobs ∧ other.key ≠ task.key := by
    intro other
    rw [List.mem_eraseIdx_iff_getElem?]
    constructor
    · rintro ⟨j, hj, hother⟩
      refine ⟨List.mem_of_getElem? hother, fun heq => hj ?_⟩
      have hkeys : (s.jobs.map (·.key))[j]? = (s.jobs.map (·.key))[i]? := by
        rw [List.getElem?_map, List.getElem?_map, hother, hjob]
        exact congrArg some heq
      have hlt : j < (s.jobs.map (·.key)).length := by
        rw [List.length_map]
        exact (List.getElem?_eq_some_iff.mp hother).1
      exact (List.getElem?_inj hlt h.once).mp hkeys
    · rintro ⟨hm, hne⟩
      obtain ⟨j, hj⟩ := List.getElem?_of_mem hm
      refine ⟨j, ?_, hj⟩
      rintro rfl
      rw [hjob] at hj
      cases hj
      exact hne rfl
  constructor
  · intro q k e hk
    rw [he] at hk
    split at hk
    · cases hk
    · exact h.keyed q k e hk
  · intro k hk
    rw [he] at hk
    rw [he]
    split at hk
    · exact absurd rfl hk
    · exact h.apart k hk
  · intro k hk
    rw [he] at hk ⊢
    by_cases hke : k = task.key
    · simp [hke] at hk
    · simp only [hke, and_false, if_false] at hk ⊢
      exact h.backed k hk
  · intro k e hk
    rw [he] at hk
    rw [hjobs, hoth]
    split at hk
    · cases hk
    rename_i hne
    refine ⟨h.running k e hk, fun heq => hne ⟨by rintro ⟨⟩, ?_⟩⟩
    rw [← heq, h.keyed .active k e hk]
  · intro other hm
    rw [hjobs, hoth] at hm
    rw [he, if_neg fun heq => hm.2 heq.2]
    exact h.working other hm.1
  · rw [hjobs]
    exact h.once.sublist ((List.eraseIdx_sublist s.jobs i).map _)

theorem completed_arranged {now later} (h : Completed queueSize order s i result now later s') (hs : Arranged s) :
    Arranged s' := by
  cases h with
  | missing => exact hs
  | stale task hjob hact =>
    obtain ⟨entry, he, _⟩ := hs.working task (mem_of_getElem? hjob)
    rw [hact] at he
    cases he
  | ended task running hjob => exact settle_arranged hs hjob order result
  | queued task running next hjob hact hn hroom =>
    have hk : next.task.key = task.key := followUp_key (hs.keyed .rerun _) hn
    have hf : entryAt (settle order s i task result) .active next.task.key = none := by
      rw [entryAt_settle, if_pos ⟨by rintro ⟨⟩, hk⟩]
    have hput : Arranged (put (settle order s i task result) .pending next.task.key next) :=
      (settle_arranged hs hjob order result).added rfl (by rintro ⟨⟩) (fun _ => hf) (by rintro ⟨⟩)
    exact hput.of_same rfl rfl
  | refused task running next hjob => exact (settle_arranged hs hjob order result).of_same rfl rfl

theorem arranged_of_empty (hjobs : s.jobs = []) (hno : ∀ q k, entryAt s q k = none) : Arranged s := by
  constructor
  · intro q k e hk
    rw [hno] at hk
    cases hk
  · intro k _
    exact hno .pending k
  · intro k hk
    exact absurd (hno .rerun k) hk
  · intro k e hk
    rw [hno] at hk
    cases hk
  · intro task ht
    rw [hjobs] at ht
    cases ht
  · rw [hjobs]
    exact nodup_nil

theorem round_arranged (h : Round queueSize s taken s') (hs : Arranged s) : Arranged s' := by
  cases h with
  | idle | unasked => exact hs
  | ownerReady => exact hs.of_same rfl rfl
  | submitted waiter task t status hreq h =>
    have hask : Arranged { s with requests := s.requests.erase waiter } := hs.of_same rfl rfl
    exact (accepted_arranged h hask).of_same rfl rfl
  | cancelled key waiter t h => exact releaseDispatch_arranged (cancelled_arranged h hs)
  | removed removal orders => exact releaseDispatch_arranged (removeProbes_arranged hs orders removal)
  | handed _ h => exact handed_arranged h hs
  | completed _ _ _ _ _ _ h => exact completed_arranged h hs
  | stopped orders => exact arranged_of_empty rfl (stop_entryAt orders s)

theorem change_arranged (h : Change queueSize s event s') (hs : Arranged s) : Arranged s' := by
  cases h with
  | refused => exact hs
  | called => exact hs.of_same rfl rfl
  | round now order taken _ _ h => exact round_arranged h (select_arranged hs now order)

theorem after_arranged (queueSize owned events) : Arranged (after queueSize owned events) :=
  run_invariant (I := Arranged) (fun s event => change_arranged (step_change _ s event))
    (arranged_of_empty rfl fun _ _ => rfl) events

/-- The probe selected for a worker is the pending one of its key. -/
def Selected (s : Dispatcher) : Prop :=
  ∀ key addr, s.dispatch = some (key, addr) → ∃ entry, entryAt s .pending key = some entry ∧ entry.addr = addr

theorem Selected.kept (h : Selected s) (hdisp : s'.dispatch = s.dispatch)
    (hkept : ∀ k e, entryAt s .pending k = some e → ∃ e', entryAt s' .pending k = some e' ∧ e'.addr = e.addr) :
    Selected s' := by
  intro key addr hd
  obtain ⟨entry, he, rfl⟩ := h key addr (hdisp ▸ hd)
  exact hkept key entry he

theorem Selected.released (h : Selected s) (hdisp : s'.dispatch = s.dispatch)
    (hkept : ∀ k e, entryAt s .pending k = some e →
      entryAt s' .pending k = none ∨ ∃ e', entryAt s' .pending k = some e' ∧ e'.addr = e.addr) :
    Selected (releaseDispatch s') := by
  intro key addr hd
  rw [releaseDispatch] at hd ⊢
  cases hs' : s'.dispatch with
  | none =>
    rw [hs'] at hd
    cases hs'.symm.trans hd
  | some selected =>
    obtain ⟨k, a⟩ := selected
    obtain ⟨entry, he, rfl⟩ := h k a (hdisp ▸ hs')
    rcases hkept k entry he with hno | ⟨e', he', ha⟩
    · rw [entryAt] at hno
      simp only [hs', hno] at hd
      cases hd
    · rw [entryAt] at he'
      simp only [hs', he'] at hd ⊢
      cases hd
      exact ⟨e', he', ha⟩

theorem put_kept (h : place = .pending → ∀ e, entryAt s .pending key = some e → entry.addr = e.addr) (k e)
    (he : entryAt s .pending k = some e) :
    ∃ e', entryAt (put s place key entry) .pending k = some e' ∧ e'.addr = e.addr := by
  rw [entryAt_put]
  split
  · next heq => exact ⟨entry, rfl, h heq.1.symm e (heq.2 ▸ he)⟩
  · exact ⟨e, he, rfl⟩

theorem accepted_selected (h : Accepted s task waiter s' status) (hs : Selected s) : Selected s' := by
  cases h with
  | joined place entry merged hen =>
    refine hs.kept rfl (put_kept ?_)
    rintro rfl e he
    cases hen.symm.trans he
    rfl
  | deferred => exact hs
  | scheduled hpend =>
    refine hs.kept rfl (put_kept fun _ e he => ?_)
    cases hpend.symm.trans he
  | again => exact hs.kept rfl (put_kept (by rintro ⟨⟩))

theorem cancelled_selected (h : Cancelled s waiter s') (hs : Selected s) : Selected (releaseDispatch s') := by
  cases h with
  | missed => exact hs.released rfl fun _ e he => .inr ⟨e, he, rfl⟩
  | kept place key entry hen =>
    refine hs.released rfl fun k e he => .inr (put_kept ?_ k e he)
    rintro rfl e he
    cases hen.symm.trans he
    rfl
  | dropped place key =>
    refine hs.released rfl fun k e he => ?_
    change entryAt (drop s place key) .pending k = none ∨ ∃ e', entryAt (drop s place key) .pending k = some e' ∧ _
    rw [entryAt_drop]
    split
    · exact .inl rfl
    · exact .inr ⟨e, he, rfl⟩

theorem completed_selected {now later} (h : Completed queueSize order s i result now later s') (ha : Arranged s)
    (hs : Selected s) : Selected s' := by
  have hset : ∀ task, Selected (settle order s i task result) := fun task =>
    hs.kept (takeOut_control ..).dispatch fun k e he => ⟨e, by rw [entryAt_settle, if_neg (by simp), he], rfl⟩
  cases h with
  | missing | stale => exact hs
  | ended task | refused task => exact hset task
  | queued task running next hjob hact hn =>
    have hk : next.task.key = task.key := followUp_key (ha.keyed .rerun _) hn
    -- a running probe is not pending, so the next one takes a free key
    have hf : entryAt (settle order s i task result) .pending next.task.key = none := by
      rw [entryAt_settle, hk]
      exact ha.apart _ (hact ▸ Option.some_ne_none running)
    refine (hset task).kept rfl (put_kept fun _ e he => ?_)
    cases hf.symm.trans he

theorem round_selected (h : Round queueSize s taken s') (ha : Arranged s) (hs : Selected s) : Selected s' := by
  cases h with
  | idle | ownerReady | unasked => exact hs
  | submitted waiter _ t _ _ h =>
    have ht : Selected t := accepted_selected h hs
    exact ht
  | cancelled _ _ _ h => exact cancelled_selected h hs
  | removed removal orders =>
    refine hs.released (removeProbes_control orders removal s).dispatch fun k e he => ?_
    rw [removeProbes_entryAt]
    split
    · exact .inl rfl
    · exact .inr ⟨e, he, rfl⟩
  | handed _ h =>
    cases h with
    | none => exact hs
    | job => exact nofun
  | completed _ _ _ _ _ _ h => exact completed_selected h ha hs
  | stopped => exact nofun

theorem select_selected (ha : Arranged s) (hs : Selected s) (now order) : Selected (select s now order) := by
  rcases select_cases s now order with heq | ⟨key, entry, _, he, heq⟩
  · rwa [heq]
  · rw [heq]
    rintro _ _ ⟨⟩
    exact ⟨entry, ha.keyed .pending key entry he ▸ he, rfl⟩

theorem change_selected (h : Change queueSize s event s') (ha : Arranged s) (hs : Selected s) : Selected s' := by
  cases h with
  | refused | called => exact hs
  | round now order _ _ _ h =>
    exact round_selected h (select_arranged ha now order) (select_selected ha hs now order)

theorem after_selected (queueSize owned events) : Selected (after queueSize owned events) :=
  (run_invariant (I := fun s => Arranged s ∧ Selected s)
    (fun s event h => ⟨change_arranged (step_change _ s event) h.1, change_selected (step_change _ s event) h.1 h.2⟩)
    ⟨arranged_of_empty rfl fun _ _ => rfl, fun _ _ hd => by cases hd⟩ events).2

end SingBox.ProbeArrangement
