import SingBox.ProbeDispatcher

namespace SingBox.ProbeMoves

open Values Maps Runs ProbeTasks ProbeDispatcher

def entryAt (s : Dispatcher) (place : Place) (key : ProbeKey) : Option ScheduledProbe :=
  (s.probes place).lookup key

section

variable (s : Dispatcher) (place q : Place) (key k : ProbeKey)

theorem entryAt_put (entry) :
    entryAt (put s place key entry) q k = if q = place ∧ k = key then some entry else entryAt s q k := by
  simp only [entryAt, put, setProbes]
  by_cases hq : q = place
  · simp only [hq, if_true, lookup_set, true_and]
  · simp only [hq, if_false, false_and]

theorem entryAt_drop : entryAt (drop s place key) q k = if q = place ∧ k = key then none else entryAt s q k := by
  simp only [entryAt, drop, setProbes]
  by_cases hq : q = place
  · simp only [hq, if_true, lookup_del, true_and]
  · simp only [hq, if_false, false_and]

end

section

variable (order : RangeOrder Nat) (place : Place) (result : ProbeResult) (s : Dispatcher) (key : ProbeKey) (q : Place)

theorem takeOut_cases : entryAt s place key = none ∧ takeOut order place result s key = s ∨
      ∃ entry, entryAt s place key = some entry ∧ takeOut order place result s key =
            { drop s place key with out := finish order s.out entry result } := by
  rw [takeOut]
  cases h : entryAt s place key with
  | none =>
    rw [entryAt] at h
    exact .inl ⟨rfl, by rw [h]⟩
  | some entry =>
    rw [entryAt] at h
    exact .inr ⟨entry, rfl, by rw [h]⟩

theorem entryAt_takeOut (k) :
    entryAt (takeOut order place result s key) q k = if q = place ∧ k = key then none else entryAt s q k := by
  rcases takeOut_cases order place result s key with ⟨hno, h⟩ | ⟨entry, _, h⟩
  · rw [h]
    split
    · next heq => rw [heq.1, heq.2, hno]
    · rfl
  · rw [h]
    exact entryAt_drop s place q key k

end

structure SameBooks (s s' : Dispatcher) : Prop where
  requests : s'.requests = s.requests
  waiterID : s'.waiterID = s.waiterID
  answers : s'.answers = s.answers
  stopped : s'.stopped = s.stopped

theorem SameBooks.trans {a b c} (hab : SameBooks a b) (hbc : SameBooks b c) : SameBooks a c :=
  ⟨hbc.requests.trans hab.requests, hbc.waiterID.trans hab.waiterID, hbc.answers.trans hab.answers,
    hbc.stopped.trans hab.stopped⟩

structure SameControl (s s' : Dispatcher) : Prop extends SameBooks s s' where
  jobs : s'.jobs = s.jobs
  dispatch : s'.dispatch = s.dispatch

section

variable (order : RangeOrder Nat) (place : Place) (result : ProbeResult) (test : ProbeKey → Bool)
  (keys : List ProbeKey) (s : Dispatcher)

theorem SameControl.refl : SameControl s s := ⟨⟨rfl, rfl, rfl, rfl⟩, rfl, rfl⟩

theorem SameControl.trans {a b c} (hab : SameControl a b) (hbc : SameControl b c) : SameControl a c :=
  ⟨hab.toSameBooks.trans hbc.toSameBooks, hbc.jobs.trans hab.jobs, hbc.dispatch.trans hab.dispatch⟩

theorem takeOut_control (key) : SameControl s (takeOut order place result s key) := by
  rcases takeOut_cases order place result s key with ⟨_, h⟩ | ⟨entry, _, h⟩
  · rw [h]
    exact .refl s
  · rw [h]
    exact ⟨⟨rfl, rfl, rfl, rfl⟩, rfl, rfl⟩

theorem entryAt_takeOuts (q k) :
    entryAt (run (fun s key => if test key then takeOut order place result s key else s) s keys) q k =
      if q = place ∧ k ∈ keys ∧ test k = true then none else entryAt s q k := by
  induction keys generalizing s with
  | nil => simp
  | cons key keys ih =>
    rw [run_cons, ih]
    by_cases htest : test key = true
    · rw [if_pos htest, entryAt_takeOut]
      by_cases hk : k = key
      · subst hk
        by_cases hq : q = place <;> simp [hq, htest]
      · simp [hk]
    · rw [if_neg htest]
      by_cases hk : k = key
      · subst hk
        simp [htest]
      · simp [hk]

end

inductive Accepted (s : Dispatcher) (task : ProbeTask) (waiter : Nat) : Dispatcher → ProbeSubmitStatus → Prop
  | joined (place : Place) (entry : ScheduledProbe) (merged : ProbeTask)
      (h : entryAt s place task.key = some entry)
      (hkey : merged.key = entry.task.key) (hactive : place = .active → merged = entry.task) :
      Accepted s task waiter (join s place task.key entry merged waiter) .coalesced
  | deferred (reason : String) : Accepted s task waiter (deferWaiter s waiter reason) .deferred
  | scheduled (hpending : entryAt s .pending task.key = none) (hactive : entryAt s .active task.key = none) :
      Accepted s task waiter (schedule s .pending task [waiter]) .accepted
  | again (running : ScheduledProbe) (hactive : entryAt s .active task.key = some running)
      (hrerun : entryAt s .rerun task.key = none) :
      Accepted s task waiter (schedule s .rerun task [waiter]) .coalesced

theorem acceptSubmission_accepted (queueSize s task waiter) :
    Accepted s task waiter (acceptSubmission queueSize s task waiter).1
      (acceptSubmission queueSize s task waiter).2 := by
  rw [acceptSubmission]
  split
  · next existing h => exact .joined .pending existing _ h rfl (by rintro ⟨⟩)
  rename_i hpend
  split
  · next running hact =>
    split
    · exact .joined .active running _ hact rfl fun _ => rfl
    split
    · next existing h => exact .joined .rerun existing _ h rfl (by rintro ⟨⟩)
    rename_i hrer
    split
    · exact .deferred _
    · exact .again running hact hrer
  · next hact =>
    split
    · exact .deferred _
    · exact .scheduled hpend hact

inductive Cancelled (s : Dispatcher) (waiter : Nat) : Dispatcher → Prop
  | missed : Cancelled s waiter s
  | kept (place : Place) (key : ProbeKey) (entry : ScheduledProbe) (h : entryAt s place key = some entry)
      (hw : waiter ∈ entry.waiters) : Cancelled s waiter { put s place key
        { entry with waiters := entry.waiters.erase waiter } with
          out := answer s.out waiter (deferred "context canceled") }
  | dropped (place : Place) (key : ProbeKey) (entry : ScheduledProbe) (h : entryAt s place key = some entry)
      (hw : waiter ∈ entry.waiters) (hlast : entry.waiters.erase waiter = []) (hplace : place ≠ .active) :
      Cancelled s waiter { drop s place key with out := answer s.out waiter (deferred "context canceled") }

variable {s s' : Dispatcher} {entry : ScheduledProbe} {task : ProbeTask} {waiter : Nat}

theorem cancelAt_cancelled {place key} (h : entryAt s place key = some entry) (waiter) :
    Cancelled s waiter (cancelAt s place key entry waiter) := by
  rw [cancelAt]
  split
  · next hw =>
    dsimp only
    split
    · next hc => exact .dropped place key entry h hw hc.1 hc.2.2
    · exact .kept place key entry h hw
  · exact .missed

theorem cancelProbeWaiter_cancelled (s key waiter) : Cancelled s waiter (cancelProbeWaiter s key waiter) := by
  rw [cancelProbeWaiter]
  split
  · next h => exact cancelAt_cancelled h waiter
  split
  · next h => exact cancelAt_cancelled h waiter
  split
  · next h => exact cancelAt_cancelled h waiter
  · exact .missed

inductive Completed (queueSize : Nat) (order : RangeOrder Nat) (s : Dispatcher) (i : Nat) (result : ProbeResult)
    (now later : Time) : Dispatcher → Prop
  | missing (h : s.jobs[i]? = none) : Completed queueSize order s i result now later s
  | stale (task : ProbeTask) (hjob : s.jobs[i]? = some task) (hactive : entryAt s .active task.key = none) :
      Completed queueSize order s i result now later { s with jobs := s.jobs.eraseIdx i }
  | ended (task : ProbeTask) (running : ScheduledProbe) (hjob : s.jobs[i]? = some task)
      (hactive : entryAt s .active task.key = some running)
      (hnext : followUp s.allocated task result now later (entryAt s .rerun task.key) = none) :
      Completed queueSize order s i result now later (settle order s i task result)
  | queued (task : ProbeTask) (running next : ScheduledProbe) (hjob : s.jobs[i]? = some task)
      (hactive : entryAt s .active task.key = some running)
      (hnext : followUp s.allocated task result now later (entryAt s .rerun task.key) = some next)
      (hroom : queueLength (settle order s i task result) < queueSize) :
      Completed queueSize order s i result now later
        (put { settle order s i task result with allocated := s.allocated + 1 } .pending next.task.key next)
  | refused (task : ProbeTask) (running next : ScheduledProbe) (hjob : s.jobs[i]? = some task)
      (hactive : entryAt s .active task.key = some running)
      (hnext : followUp s.allocated task result now later (entryAt s .rerun task.key) = some next)
      (hfull : ¬ queueLength (settle order s i task result) < queueSize) :
      Completed queueSize order s i result now later { settle order s i task result with
        allocated := s.allocated + 1
        out := finish order (settle order s i task result).out next (deferred errProbeQueueFull) }

section

variable (queueSize : Nat) (order : RangeOrder Nat) (s : Dispatcher) (i : Nat) (result : ProbeResult)
  (now later : Time)

theorem complete_completed :
    Completed queueSize order s i result now later (complete queueSize order s i result now later) := by
  rw [complete]
  split
  · next h => exact .missing h
  rename_i task hjob
  split
  · next hact => exact .stale task hjob hact
  rename_i running hact
  split
  · next hn => exact .ended task running hjob hact hn
  rename_i next hn
  dsimp only
  split
  · next hroom => exact .queued task running next hjob hact hn hroom
  · next hfull => exact .refused task running next hjob hact hn hfull

theorem entryAt_settle (task result q k) : entryAt (settle order s i task result) q k =
      if q ≠ .pending ∧ k = task.key then none else entryAt s q k := by
  rw [settle, entryAt_drop, entryAt_takeOut]
  by_cases hk : k = task.key
  · cases q <;> simp [entryAt]
  · simp [hk, entryAt]

theorem followUp_key {addr result now later next} (hk : ∀ e, next = some e → e.task.key = task.key)
    (h : followUp addr task result now later next = some entry) : entry.task.key = task.key := by
  rw [followUp] at h
  split at h
  · split at h
    · cases h
      exact nextRound_key ..
    rename_i e
    split at h
    · cases h
      exact hk e rfl
    · cases h
      exact hk _ rfl
  · exact hk entry h

theorem removeProbes_entryAt (orders removal s q k) : entryAt (removeProbes orders removal s) q k =
      if q ≠ .active ∧ probeRemovalMatches removal k = true then none else entryAt s q k := by
  have hme : ∀ (t : Dispatcher) place, k ∈ orders.probes.visit (t.probes place).keys ↔
      entryAt t place k ≠ none := by
    intro t place
    rw [orders.probes.mem_visit, mem_keys_iff, Option.ne_none_iff_exists']
    rfl
  rw [removeProbes]
  have hpend := entryAt_takeOuts orders.waiters .pending (deferred "probe identity retired")
    (probeRemovalMatches removal) (orders.probes.visit (s.probes .pending).keys) s
  change ∀ q k, entryAt (run (removeProbe orders.waiters removal .pending) s _) q k = _ at hpend
  generalize run _ s _ = t at hpend
  have hrer := entryAt_takeOuts orders.waiters .rerun (deferred "probe identity retired")
    (probeRemovalMatches removal) (orders.probes.visit (t.probes .rerun).keys) t q k
  change entryAt (run (removeProbe orders.waiters removal .rerun) t _) q k = _ at hrer
  simp only [hrer, hme, hpend]
  by_cases hm : probeRemovalMatches removal k = true
  · cases q with
    | pending =>
      by_cases hn : entryAt s .pending k = none <;> simp [hn]
    | active => simp
    | rerun =>
      by_cases hn : entryAt s .rerun k = none <;> simp [hn]
  · simp [hm]

theorem run_removeProbe_control (removal place keys s) :
    SameControl s (run (removeProbe order removal place) s keys) := by
  refine run_invariant (I := SameControl s) (fun t key ht => ht.trans ?_) (.refl s) keys
  rw [removeProbe]
  split
  · exact takeOut_control ..
  · exact .refl t

theorem removeProbes_control (orders removal s) : SameControl s (removeProbes orders removal s) :=
  (run_removeProbe_control _ _ _ _ s).trans (run_removeProbe_control ..)

theorem releaseDispatch_cases :
    releaseDispatch s = s ∨ releaseDispatch s = { s with dispatch := none } := by
  rw [releaseDispatch]
  split
  · exact .inl rfl
  split
  · exact .inr rfl
  · exact .inl rfl

theorem select_cases (order) : select s now order = s ∨
    ∃ key entry selection, entryAt s .pending key = some entry ∧
      select s now order = { s with dispatch := some (entry.task.key, entry.addr), selection := selection } := by
  rw [select]
  split
  · split
    · exact .inl rfl
    rename_i entry selection h
    obtain ⟨key, hk⟩ := nextScheduledProbe_pending h
    exact .inr ⟨key, entry, selection, hk, rfl⟩
  · exact .inl rfl

theorem select_probes (order) : (select s now order).probes = s.probes ∧ (select s now order).jobs = s.jobs := by
  rcases select_cases s now order with heq | ⟨_, _, _, _, heq⟩ <;> rw [heq] <;> exact ⟨rfl, rfl⟩

end

inductive Handed (s : Dispatcher) : Dispatcher → Prop
  | none : Handed s s
  | job (key : ProbeKey) (entry : ScheduledProbe) (h : entryAt s .pending key = some entry)
      (hdispatch : s.dispatch = some (key, entry.addr)) :
      Handed s { put (drop s .pending key) .active key entry with dispatch := none, jobs := s.jobs ++ [entry.task] }

theorem handOff_handed (s) : Handed s (handOff s) := by
  rw [handOff]
  split
  · exact .none
  rename_i key addr hdisp
  split
  · exact .none
  rename_i entry h
  split
  · exact .none
  rename_i ha
  rw [not_not] at ha
  exact .job key entry h (ha ▸ hdisp)

theorem handed_entryAt (s key entry q k) : entryAt { put (drop s .pending key) .active key entry with
      dispatch := none, jobs := s.jobs ++ [entry.task] } q k =
      if k = key ∧ q = .active then some entry else if k = key ∧ q = .pending then none else entryAt s q k := by
  change entryAt (put (drop s .pending key) .active key entry) q k = _
  rw [entryAt_put, entryAt_drop]
  simp only [and_comm]

section

variable (orders : Orders)

section

variable (result : ProbeResult) (s : Dispatcher) (place q : Place) (k : ProbeKey)

theorem takeOutAll_entryAt :
    entryAt (takeOutAll orders result s place) q k = if q = place then none else entryAt s q k := by
  have h := entryAt_takeOuts orders.waiters place result (fun _ => true)
    (orders.probes.visit (s.probes place).keys) s q k
  simp only [if_true] at h
  apply h.trans
  by_cases hq : q = place
  · subst hq
    cases he : (s.probes q).lookup k with
    | none => simp [entryAt, he]
    | some entry =>
      have hm := orders.probes.mem_visit.mpr (mem_keys_iff.mpr ⟨entry, he⟩)
      rw [if_pos ⟨rfl, hm, trivial⟩, if_pos rfl]
  · simp [hq]

theorem takeOutAll_control : SameControl s (takeOutAll orders result s place) :=
  run_invariant (I := SameControl s) (fun _ _ h => h.trans (takeOut_control ..)) (.refl s) _

theorem stop_entryAt : entryAt (stop orders s) q k = none := by
  change entryAt (takeOutAll orders _ (takeOutAll orders _ (takeOutAll orders _ s .pending) .rerun) .active) q k = none
  rw [takeOutAll_entryAt, takeOutAll_entryAt, takeOutAll_entryAt]
  cases q <;> rfl

theorem stop_books : (stop orders s).requests = s.requests ∧
    (stop orders s).waiterID = s.waiterID ∧ (stop orders s).answers = s.answers := by
  have h : SameControl s (run (takeOutAll orders (deferred "scheduler stopped")) s [.pending, .rerun, .active]) :=
    run_invariant (I := SameControl s) (fun _ _ h => h.trans (takeOutAll_control ..)) (.refl s) _
  exact ⟨h.requests, h.waiterID, h.answers⟩

end

end

theorem accepted_books {status} (h : Accepted s task waiter s' status) : SameBooks s s' := by
  cases h <;> exact ⟨rfl, rfl, rfl, rfl⟩

theorem cancelled_books (h : Cancelled s waiter s') : SameBooks s s' := by
  cases h <;> exact ⟨rfl, rfl, rfl, rfl⟩

theorem handed_books (h : Handed s s') : SameBooks s s' := by
  cases h <;> exact ⟨rfl, rfl, rfl, rfl⟩

theorem completed_books {queueSize order i result now later} (h : Completed queueSize order s i result now later s') :
    SameBooks s s' := by
  have hset : ∀ task, SameBooks s (settle order s i task result) := by
    intro task
    have h := takeOut_control order .active result { s with jobs := s.jobs.eraseIdx i } task.key
    exact { h with }
  cases h with
  | missing | stale => exact ⟨rfl, rfl, rfl, rfl⟩
  | ended task => exact hset task
  | queued task | refused task => exact (hset task).trans ⟨rfl, rfl, rfl, rfl⟩

theorem releaseDispatch_books (s) : SameBooks s (releaseDispatch s) := by
  rcases releaseDispatch_cases s with heq | heq <;> rw [heq] <;> exact ⟨rfl, rfl, rfl, rfl⟩

theorem select_books (s now order) : SameBooks s (select s now order) := by
  rcases select_cases s now order with heq | ⟨_, _, _, _, heq⟩ <;> rw [heq] <;> exact ⟨rfl, rfl, rfl, rfl⟩

theorem round_live {queueSize} (hlive : s.stopped = false) (now order taken) :
    step queueSize s (.round now order taken) = branch queueSize (select s now order) taken := by
  rw [step, hlive]
  rfl

inductive Round (queueSize : Nat) (s : Dispatcher) : Branch → Dispatcher → Prop
  | idle : Round queueSize s .idle s
  | ownerReady : Round queueSize s .ownerReady { s with ownerReady := true }
  | unasked (waiter : Nat) : Round queueSize s (.submit waiter) s
  | submitted (waiter : Nat) (task : ProbeTask) (s' : Dispatcher) (status : ProbeSubmitStatus)
      (hrequest : s.requests.lookup waiter = some task)
      (h : Accepted { s with requests := s.requests.erase waiter } task waiter s' status) :
      Round queueSize s (.submit waiter) { s' with answers := s'.answers ++ [(waiter, status)] }
  | cancelled (key : ProbeKey) (waiter : Nat) (s' : Dispatcher) (h : Cancelled s waiter s') :
      Round queueSize s (.cancel key waiter) (releaseDispatch s')
  | removed (removal : ProbeRemoval) (orders : Orders) :
      Round queueSize s (.remove removal orders) (releaseDispatch (removeProbes orders removal s))
  | handed (s' : Dispatcher) (h : Handed s s') : Round queueSize s .handOff s'
  | completed (job : Nat) (result : ProbeResult) (now later : Time) (order : RangeOrder Nat) (s' : Dispatcher)
      (h : Completed queueSize order s job result now later s') :
      Round queueSize s (.complete job result now later order) s'
  | stopped (orders : Orders) : Round queueSize s (.stop orders) (stop orders s)

theorem branch_round (queueSize s taken) : Round queueSize s taken (branch queueSize s taken) := by
  cases taken with
  | idle => exact .idle
  | ownerReady => exact .ownerReady
  | submit waiter =>
    rw [branch, submit]
    split
    · exact .unasked waiter
    · next task hreq =>
      exact .submitted waiter task _ _ hreq (acceptSubmission_accepted queueSize _ task waiter)
  | cancel key waiter => exact .cancelled key waiter _ (cancelProbeWaiter_cancelled s key waiter)
  | remove removal orders => exact .removed removal orders
  | handOff => exact .handed _ (handOff_handed s)
  | complete job result now later order =>
    exact .completed job result now later order _ (complete_completed queueSize order s job result now later)
  | stop orders => exact .stopped orders

/-- All that one step can do: a call leaves a request, and a live dispatcher
selects a probe and takes a branch. -/
inductive Change (queueSize : Nat) (s : Dispatcher) : Event → Dispatcher → Prop
  | refused {event : Event} : Change queueSize s event s
  | called (task task' : ProbeTask) (owned : Bool) (now later : Time) :
      Change queueSize s (.call task owned now later)
      { s with waiterID := s.waiterID + 1, requests := s.requests.insert (s.waiterID + 1) task' }
  | round (now : Time) (order : RangeOrder ProbeKey) (taken : Branch) (s' : Dispatcher)
      (hlive : s.stopped = false)
      (h : Round queueSize (select s now order) taken s') : Change queueSize s (.round now order taken) s'

theorem step_change (queueSize s event) : Change queueSize s event (step queueSize s event) := by
  cases event with
  | call task owned now later =>
    rw [step]
    split
    · exact .refused
    · exact .called task _ owned now later
  | round now order taken =>
    rw [step]
    split
    · exact .refused
    · next hlive => exact .round now order taken _ (Bool.not_eq_true _ ▸ hlive) (branch_round queueSize _ taken)

end SingBox.ProbeMoves
