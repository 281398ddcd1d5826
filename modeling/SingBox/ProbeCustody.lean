import Mathlib.Logic.Equiv.Basic
import SingBox.ProbeRemovals

namespace SingBox.ProbeCustody

open List Values Maps Runs ProbeTasks ProbeDispatcher ProbeMoves ProbeArrangement ProbeRemovals

def received (out : Outputs) (waiter : Nat) : List ChanEvent :=
  (out.log.filter fun event => event.1 = waiter).map (·.2)

def waitersAt (s : Dispatcher) (q : Place × ProbeKey) : List Nat :=
  ((entryAt s q.1 q.2).map (·.waiters)).getD []

theorem received_answer (out v result w) :
    received (answer out v result) w = received out w ++ if w = v then [.send result, .close] else [] := by
  rw [received, answer]
  by_cases h : w = v
  · simp [received, h]
  · simp [received, h, Ne.symm h]

theorem received_answers (result) (waiters : List Nat) (hn : waiters.Nodup) (out : Outputs) (w : Nat) :
    received (waiters.foldl (fun out waiter => answer out waiter result) out) w =
      received out w ++ if w ∈ waiters then [.send result, .close] else [] := by
  induction waiters generalizing out with
  | nil => simp
  | cons v waiters ih =>
    rw [nodup_cons] at hn
    rw [foldl_cons, ih hn.2, received_answer]
    by_cases h : w = v
    · subst h
      simp [hn.1]
    · simp [h]

theorem received_finish (order) (out : Outputs) (entry : ScheduledProbe) (result : ProbeResult)
    (hn : entry.waiters.Nodup) (w : Nat) : received (finish order out entry result) w =
      received out w ++ if w ∈ entry.waiters then [.send result, .close] else [] := by
  have h := received_answers result _ (order.nodup_visit hn) out w
  simp only [order.mem_visit] at h
  rw [finish]
  split
  · exact h
  · exact h

/-- Every waiter of the set is with one probe and has heard nothing, or it has
its result and its channel is closed. -/
structure Custody (known : Nat → Prop) (s : Dispatcher) : Prop where
  nodup : ∀ q, (waitersAt s q).Nodup
  unique : ∀ q q' w, w ∈ waitersAt s q → w ∈ waitersAt s q' → q = q'
  silent : ∀ q w, w ∈ waitersAt s q → received s.out w = []
  held : ∀ q w, w ∈ waitersAt s q → known w
  settled : ∀ w, known w → (∃ q, w ∈ waitersAt s q) ∨ ∃ result, received s.out w = [.send result, .close]
  unknown : ∀ w, ¬ known w → received s.out w = []

variable {known : Nat → Prop} {s s' : Dispatcher} {waiter : Nat} {entry : ScheduledProbe}
  {result : ProbeResult} {task : ProbeTask} {t : Dispatcher} {place : Place} {key : ProbeKey} {order : RangeOrder Nat}
  {status : ProbeSubmitStatus} {addr queueSize : Nat} {later : Time} {next : Option ScheduledProbe}

section

variable (h : Custody known s)
include h

theorem Custody.answered {known'} (gone : Nat → Prop) (hkn : ∀ w, known' w ↔ known w ∨ gone w)
    (hsil : ∀ w, gone w → received s.out w = []) (hn : ∀ q, (waitersAt s' q).Nodup)
    (hw : ∀ q w, w ∈ waitersAt s' q ↔ w ∈ waitersAt s q ∧ ¬ gone w)
    (hans : ∀ w, gone w → ∃ result, received s'.out w = received s.out w ++ [.send result, .close])
    (hsame : ∀ w, ¬ gone w → received s'.out w = received s.out w) : Custody known' s' := by
  constructor
  · exact hn
  · intro q q' w hq hq'
    exact h.unique q q' w ((hw q w).mp hq).1 ((hw q' w).mp hq').1
  · intro q w hq
    obtain ⟨hq, hstay⟩ := (hw q w).mp hq
    rw [hsame w hstay]
    exact h.silent q w hq
  · intro q w hq
    exact (hkn w).2 (.inl (h.held q w ((hw q w).mp hq).1))
  · intro w hboth
    by_cases hg : gone w
    · obtain ⟨result, hr⟩ := hans w hg
      rw [hsil w hg] at hr
      exact .inr ⟨result, hr⟩
    · rcases h.settled w (((hkn w).1 hboth).resolve_right hg) with ⟨q, hq⟩ | ⟨result, hr⟩
      · exact .inl ⟨q, (hw q w).mpr ⟨hq, hg⟩⟩
      · exact .inr ⟨result, (hsame w hg).trans hr⟩
  · intro w hnei
    rw [hkn, not_or] at hnei
    rw [hsame w hnei.2]
    exact h.unknown w hnei.1

theorem Custody.moved (places : Equiv.Perm (Place × ProbeKey)) (hw : ∀ q, waitersAt s' q = waitersAt s (places q))
    (hout : s'.out = s.out) : Custody known s' := by
  constructor
  · intro q
    rw [hw]
    exact h.nodup _
  · intro q q' w hq hq'
    rw [hw] at hq hq'
    exact places.injective (h.unique _ _ w hq hq')
  · intro q w hq
    rw [hw] at hq
    rw [hout]
    exact h.silent _ w hq
  · intro q w hq
    rw [hw] at hq
    exact h.held _ w hq
  · intro w hkn
    rw [hout]
    rcases h.settled w hkn with ⟨q, hq⟩ | hr
    · refine .inl ⟨places.symm q, ?_⟩
      rw [hw, Equiv.apply_symm_apply]
      exact hq
    · exact .inr hr
  · intro w hkn
    rw [hout]
    exact h.unknown w hkn

omit h in
theorem waitersAt_congr (hpb : s'.probes = t.probes) (q) : waitersAt s' q = waitersAt t q := by
  rw [waitersAt, entryAt, hpb]
  rfl

theorem Custody.of_same (hpb : s'.probes = s.probes) (hout : s'.out = s.out) : Custody known s' :=
  h.moved (.refl _) (waitersAt_congr hpb) hout

theorem Custody.joined (hnew : ¬ known waiter) (place)
    (hp : waitersAt s' place = (waitersAt s place).insert waiter)
    (hoth : ∀ q, q ≠ place → waitersAt s' q = waitersAt s q) (hout : s'.out = s.out) :
    Custody (fun w => known w ∨ w = waiter) s' := by
  have hw : ∀ q w, w ∈ waitersAt s' q → w ∈ waitersAt s q ∨ w = waiter ∧ q = place := by
    intro q w hq
    by_cases heq : q = place
    · subst heq
      rw [hp, mem_insert_iff] at hq
      rcases hq with rfl | hq
      · exact .inr ⟨rfl, rfl⟩
      · exact .inl hq
    · exact .inl (hoth q heq ▸ hq)
  have hf : ∀ q, waiter ∉ waitersAt s q := fun q hq => hnew (h.held q waiter hq)
  constructor
  · intro q
    by_cases heq : q = place
    · subst heq
      rw [hp]
      exact (h.nodup q).insert
    · rw [hoth q heq]
      exact h.nodup q
  · intro q q' w hq hq'
    rcases hw q w hq with hq | ⟨rfl, rfl⟩
    · rcases hw q' w hq' with hq' | ⟨rfl, rfl⟩
      · exact h.unique q q' w hq hq'
      · exact absurd hq (hf q)
    · rcases hw q' w hq' with hq' | ⟨_, rfl⟩
      · exact absurd hq' (hf q')
      · rfl
  · intro q w hq
    rw [hout]
    rcases hw q w hq with hq | ⟨rfl, _⟩
    · exact h.silent q w hq
    · exact h.unknown w hnew
  · intro q w hq
    rcases hw q w hq with hq | ⟨rfl, _⟩
    · exact .inl (h.held q w hq)
    · exact .inr rfl
  · intro w hkn
    rw [hout]
    rcases hkn with hkn | rfl
    · rcases h.settled w hkn with ⟨q, hq⟩ | hr
      · refine .inl ⟨q, ?_⟩
        by_cases heq : q = place
        · subst heq
          rw [hp]
          exact mem_insert_of_mem hq
        · rw [hoth q heq]
          exact hq
      · exact .inr hr
    · refine .inl ⟨place, ?_⟩
      rw [hp]
      exact mem_insert_self
  · intro w hkn
    rw [hout]
    exact h.unknown w fun hk => hkn (.inl hk)

theorem Custody.refused (hnew : ¬ known waiter) (result : ProbeResult) (hpb : s'.probes = s.probes)
    (hout : s'.out = answer s.out waiter result) : Custody (fun w => known w ∨ w = waiter) s' := by
  refine h.answered (· = waiter) (fun _ => .rfl) ?_ ?_ ?_ ?_ ?_
  · rintro w rfl
    exact h.unknown w hnew
  · intro q
    rw [waitersAt_congr hpb]
    exact h.nodup q
  · intro q w
    rw [waitersAt_congr hpb, iff_self_and]
    rintro hq rfl
    exact hnew (h.held q w hq)
  · rintro w rfl
    exact ⟨result, by rw [hout, received_answer, if_pos rfl]⟩
  · intro w hne
    rw [hout, received_answer, if_neg hne, append_nil]

end

theorem waitersAt_of_some (h : entryAt s place key = some entry) : waitersAt s (place, key) = entry.waiters := by
  rw [waitersAt, h]
  rfl

theorem waitersAt_of_none (h : entryAt s place key = none) : waitersAt s (place, key) = [] := by
  rw [waitersAt, h]
  rfl

theorem waitersAt_put (s place key entry q) :
    waitersAt (put s place key entry) q = if q = (place, key) then entry.waiters else waitersAt s q := by
  rw [waitersAt, entryAt_put]
  simp only [Prod.ext_iff]
  split <;> rfl

theorem waitersAt_drop (s place key q) :
    waitersAt (drop s place key) q = if q = (place, key) then [] else waitersAt s q := by
  rw [waitersAt, entryAt_drop]
  simp only [Prod.ext_iff]
  split <;> rfl

theorem Custody.finished (h : Custody known s) (he : waitersAt s (place, key) = entry.waiters)
    (hpb : s'.probes = (drop s place key).probes) (hout : s'.out = finish order s.out entry result) :
    Custody known s' := by
  have hw : ∀ q, waitersAt s' q = if q = (place, key) then [] else waitersAt s q :=
    fun q => (waitersAt_congr hpb q).trans (waitersAt_drop s place key q)
  have hrec : ∀ w, received s'.out w =
      received s.out w ++ if w ∈ entry.waiters then [.send result, .close] else [] := by
    intro w
    rw [hout]
    exact received_finish order s.out entry result (he ▸ h.nodup (place, key)) w
  have hat : ∀ w ∈ entry.waiters, w ∈ waitersAt s (place, key) := fun w hgone => he ▸ hgone
  refine h.answered _
    (fun w => (or_iff_left_of_imp fun hgone => h.held _ w (hat w hgone)).symm)
    (fun w hgone => h.silent _ w (hat w hgone)) ?_ ?_ ?_ ?_
  · intro q
    rw [hw]
    split
    · exact nodup_nil
    · exact h.nodup q
  · intro q w
    rw [hw]
    split
    · next heq =>
      subst heq
      rw [he]
      exact ⟨fun hnil => absurd hnil not_mem_nil, fun hand => absurd hand.1 hand.2⟩
    · next hne =>
      refine ⟨fun hq => ⟨hq, fun hgone => hne ?_⟩, And.left⟩
      exact h.unique q (place, key) w hq (hat w hgone)
  · intro w hgone
    exact ⟨result, by rw [hrec, if_pos hgone]⟩
  · intro w hgone
    rw [hrec, if_neg hgone, append_nil]

theorem takeOut_custody (h : Custody known s) (order place result key) :
    Custody known (takeOut order place result s key) := by
  rcases takeOut_cases order place result s key with ⟨_, heq⟩ | ⟨entry, he, heq⟩
  · rw [heq]
    exact h
  · rw [heq]
    exact h.finished (waitersAt_of_some he) rfl rfl

theorem accepted_custody (h : Accepted s task waiter s' status) (hs : Custody known s) (hnew : ¬ known waiter) :
    Custody (fun w => known w ∨ w = waiter) s' := by
  have hadd : ∀ place entry (s' : Dispatcher), s'.probes = (put s place task.key entry).probes →
      s'.out = s.out →
      entry.waiters = (waitersAt s (place, task.key)).insert waiter →
          Custody (fun w => known w ∨ w = waiter) s' := by
    intro place entry s' hpb hout hwt
    have hw : ∀ q, waitersAt s' q = if q = (place, task.key) then entry.waiters else waitersAt s q :=
      fun q => (waitersAt_congr hpb q).trans (waitersAt_put s place task.key entry q)
    refine hs.joined hnew (place, task.key) ?_ ?_ hout
    · rw [hw, if_pos rfl, hwt]
    · intro q hne
      rw [hw, if_neg hne]
  cases h with
  | joined place entry merged h =>
    exact hadd place _ _ rfl rfl (by rw [waitersAt_of_some h])
  | deferred reason => exact hs.refused hnew _ rfl rfl
  | scheduled hpend =>
    exact hadd .pending ⟨s.allocated, task, [waiter]⟩ _ rfl rfl (by rw [waitersAt_of_none hpend]; rfl)
  | again _ _ hrer =>
    exact hadd .rerun ⟨s.allocated, task, [waiter]⟩ _ rfl rfl (by rw [waitersAt_of_none hrer]; rfl)

theorem cancelled_custody (h : Cancelled s waiter s') (hs : Custody known s) : Custody known s' := by
  have hleft : ∀ place key entry (s' : Dispatcher), entryAt s place key = some entry → waiter ∈ entry.waiters →
      (∀ q, waitersAt s' q = if q = (place, key) then entry.waiters.erase waiter else waitersAt s q) →
      s'.out = answer s.out waiter (deferred "context canceled") → Custody known s' := by
    intro place key entry s' he hm hw hout
    have hat := waitersAt_of_some he
    have hnd : entry.waiters.Nodup := hat ▸ hs.nodup (place, key)
    refine hs.answered (· = waiter) ?_ ?_ ?_ ?_ ?_ ?_
    · refine fun w => (or_iff_left_of_imp ?_).symm
      rintro rfl
      exact hs.held (place, key) w (hat ▸ hm)
    · rintro w rfl
      exact hs.silent (place, key) w (hat ▸ hm)
    · intro q
      rw [hw]
      split
      · exact hnd.erase waiter
      · exact hs.nodup q
    · intro q w
      rw [hw]
      split
      · next heq =>
        subst heq
        rw [hat, hnd.mem_erase_iff]
        exact and_comm
      · next hne =>
        refine ⟨fun hq => ⟨hq, ?_⟩, And.left⟩
        rintro rfl
        exact hne (hs.unique q (place, key) w hq (hat ▸ hm))
    · rintro w rfl
      exact ⟨deferred "context canceled", by rw [hout, received_answer, if_pos rfl]⟩
    · intro w hne
      rw [hout, received_answer, if_neg hne, append_nil]
  cases h with
  | missed => exact hs
  | kept place key entry h hw => exact hleft place key entry _ h hw (waitersAt_put s place key _) rfl
  | dropped place key entry h hw hl =>
    refine hleft place key entry _ h hw (fun q => ?_) rfl
    rw [hl]
    exact waitersAt_drop s place key q

theorem releaseDispatch_custody (h : Custody known s) : Custody known (releaseDispatch s) := by
  rcases releaseDispatch_cases s with heq | heq
  · rw [heq]
    exact h
  · rw [heq]
    exact h.of_same rfl rfl

theorem handed_custody (h : Handed s s') (ha : Arranged s) (hs : Custody known s) : Custody known s' := by
  cases h with
  | none => exact hs
  | job key entry h hdisp =>
    have hf : entryAt s .active key = none := by
      by_contra hne
      rw [ha.apart key hne] at h
      cases h
    refine hs.moved (.swap (.pending, key) (.active, key)) (fun q => ?_) rfl
    change waitersAt (put (drop s .pending key) .active key entry) q = _
    rw [waitersAt_put, waitersAt_drop]
    by_cases hact : q = (.active, key)
    · rw [if_pos hact, hact, Equiv.swap_apply_right, waitersAt_of_some h]
    rw [if_neg hact]
    by_cases hpend : q = (.pending, key)
    · rw [if_pos hpend, hpend, Equiv.swap_apply_left, waitersAt_of_none hf]
    · rw [if_neg hpend, Equiv.swap_apply_of_ne_of_ne hpend hact]

theorem followUp_waiters {now} (h : followUp addr task result now later next = some entry) :
    (next.map (·.waiters)).getD [] = entry.waiters := by
  rw [followUp] at h
  split at h
  · split at h
    · cases h
      rfl
    split at h
    · cases h
      rfl
    · cases h
      rfl
  · rw [h]
    rfl

theorem followUp_none {now} (h : followUp addr task result now later next = none) : next = none := by
  rw [followUp] at h
  split at h
  · split at h
    · cases h
    · split at h <;> cases h
  · exact h

theorem completed_custody {i now} (h : Completed queueSize order s i result now later s') (ha : Arranged s)
    (hs : Custody known s) : Custody known s' := by
  have hjobs : Custody known { s with jobs := s.jobs.eraseIdx i } := hs.of_same rfl rfl
  have hrun : ∀ task : ProbeTask,
      Custody known (takeOut order .active result { s with jobs := s.jobs.eraseIdx i } task.key) :=
    fun task => takeOut_custody hjobs order .active result task.key
  have hrer : ∀ task : ProbeTask,
      entryAt (takeOut order .active result { s with jobs := s.jobs.eraseIdx i } task.key) .rerun task.key =
        entryAt s .rerun task.key := by
    intro task
    rw [entryAt_takeOut]
    rfl
  cases h with
  | missing => exact hs
  | stale => exact hjobs
  | ended task running hjob hact hn =>
    refine (hrun task).moved (.refl _) (fun q => ?_) rfl
    rw [settle, waitersAt_drop]
    split
    · next heq =>
      rw [heq]
      exact (waitersAt_of_none ((hrer task).trans (followUp_none hn))).symm
    · rfl
  | queued task running next hjob hact hn hroom =>
    have hk : next.task.key = task.key := followUp_key (ha.keyed .rerun _) hn
    have hf : entryAt (takeOut order .active result { s with jobs := s.jobs.eraseIdx i } task.key) .pending
        task.key = none := by
      rw [entryAt_takeOut]
      exact ha.apart task.key (by rw [hact]; rintro ⟨⟩)
    refine (hrun task).moved (.swap (.rerun, task.key) (.pending, task.key)) (fun q => ?_) rfl
    change waitersAt (put (settle order s i task result) .pending next.task.key next) q = _
    rw [waitersAt_put, hk, settle, waitersAt_drop]
    by_cases hpend : q = (.pending, task.key)
    · rw [if_pos hpend, hpend, Equiv.swap_apply_right, waitersAt, hrer, followUp_waiters hn]
    rw [if_neg hpend]
    by_cases hr : q = (.rerun, task.key)
    · rw [if_pos hr, hr, Equiv.swap_apply_left, waitersAt_of_none hf]
    · rw [if_neg hr, Equiv.swap_apply_of_ne_of_ne hr hpend]
  | refused task running next hjob hact hn =>
    have hwt : waitersAt (takeOut order .active result { s with jobs := s.jobs.eraseIdx i } task.key)
        (.rerun, task.key) = next.waiters := by
      rw [waitersAt, hrer, followUp_waiters hn]
    exact (hrun task).finished hwt rfl rfl

theorem removeProbes_custody (h : Custody known s) (orders removal) :
    Custody known (removeProbes orders removal s) := by
  have hloop : ∀ place keys t, Custody known t →
      Custody known (run (removeProbe orders.waiters removal place) t keys) := by
    intro place keys t ht
    refine run_invariant (I := Custody known) (fun t key ht => ?_) ht keys
    rw [removeProbe]
    split
    · exact takeOut_custody ht ..
    · exact ht
  exact hloop _ _ _ (hloop _ _ _ h)

theorem stop_custody (h : Custody known s) (orders) : Custody known (stop orders s) := by
  have hloop : Custody known
      (run (takeOutAll orders (deferred "scheduler stopped")) s [.pending, .rerun, .active]) := by
    refine run_invariant (I := Custody known) (fun t place ht => ?_) h _
    exact run_invariant (I := Custody known) (fun t key ht => takeOut_custody ht ..) ht _
  exact hloop.of_same rfl rfl

def Answered (s : Dispatcher) (waiter : Nat) : Prop := ∃ status, (waiter, status) ∈ s.answers

/-- Waiters are numbered in the order of the calls, and a request is open
until it is answered. -/
structure Numbered (s : Dispatcher) : Prop where
  requested : ∀ w task, s.requests.lookup w = some task → w ≤ s.waiterID ∧ ¬ Answered s w
  answered : ∀ w, Answered s w → w ≤ s.waiterID

theorem answered_congr (h : s'.answers = s.answers) : Answered s' = Answered s := by
  funext w
  rw [Answered, h]
  rfl

theorem Numbered.of_same (h : Numbered s) (hreq : s'.requests = s.requests) (hid : s'.waiterID = s.waiterID)
    (hans : s'.answers = s.answers) : Numbered s' := by
  constructor
  · intro w task hw
    rw [hid, answered_congr hans]
    exact h.requested w task (hreq ▸ hw)
  · intro w hw
    rw [hid]
    exact h.answered w (answered_congr hans ▸ hw)

structure Kept (s : Dispatcher) : Prop where
  arranged : Arranged s
  numbered : Numbered s
  custody : Custody (Answered s) s
  stopped : s.stopped = true → ∀ place key, entryAt s place key = none

theorem Kept.of_books (h : Kept s) (hlive : s.stopped = false) (hbooks : SameBooks s s') (ha : Arranged s')
    (hc : Custody (Answered s) s') : Kept s' where
  arranged := ha
  numbered := h.numbered.of_same hbooks.requests hbooks.waiterID hbooks.answers
  custody := by
    rw [answered_congr hbooks.answers]
    exact hc
  stopped hs := by
    rw [hbooks.stopped, hlive] at hs
    cases hs

theorem called_kept (h : Kept s) (task) :
    Kept { s with waiterID := s.waiterID + 1, requests := s.requests.insert (s.waiterID + 1) task } := by
  refine ⟨h.arranged.of_same rfl rfl, ⟨?_, ?_⟩, h.custody.of_same rfl rfl, h.stopped⟩
  · intro w task hw
    rcases lookup_of_insert hw with ⟨rfl, _⟩ | ⟨_, hw⟩
    · refine ⟨le_rfl, fun hans => ?_⟩
      have := h.numbered.answered _ hans
      omega
    · exact ⟨Nat.le_succ_of_le (h.numbered.requested w _ hw).1, (h.numbered.requested w _ hw).2⟩
  · intro w hw
    exact Nat.le_succ_of_le (h.numbered.answered w hw)

theorem submitted_kept (h : Kept s) (hlive : s.stopped = false) (hreq : s.requests.lookup waiter = some task)
    (hacc : Accepted { s with requests := s.requests.erase waiter } task waiter t status) :
    Kept { t with answers := t.answers ++ [(waiter, status)] } := by
  obtain ⟨hle, hnew⟩ := h.numbered.requested waiter task hreq
  have hbooks := accepted_books hacc
  have ha := accepted_arranged hacc (h.arranged.of_same rfl rfl)
  have hc := accepted_custody hacc (h.custody.of_same rfl rfl) hnew
  have hans : t.answers = s.answers := hbooks.answers
  have hid : t.waiterID = s.waiterID := hbooks.waiterID
  have hansw : Answered { t with answers := t.answers ++ [(waiter, status)] } =
      fun w => Answered s w ∨ w = waiter := by
    funext w
    simp only [Answered, hans, mem_append, mem_singleton, Prod.mk.injEq, exists_or,
      exists_and_left, exists_eq, and_true]
  refine ⟨ha.of_same rfl rfl, ⟨?_, ?_⟩, ?_, ?_⟩
  · intro w task' hw
    rw [hbooks.requests] at hw
    obtain ⟨hne, hw⟩ := lookup_of_erase hw
    obtain ⟨hle', hnew'⟩ := h.numbered.requested w task' hw
    rw [hansw]
    exact ⟨hid.symm ▸ hle', fun hor => hor.elim hnew' hne⟩
  · intro w hw
    rw [hansw] at hw
    rw [hid]
    rcases hw with hw | rfl
    · exact h.numbered.answered w hw
    · exact hle
  · rw [hansw]
    exact hc.of_same rfl rfl
  · intro hs
    have hstop : s.stopped = true := hbooks.stopped.symm.trans hs
    rw [hlive] at hstop
    cases hstop

theorem round_kept {taken} (h : Round queueSize s taken s') (hs : Kept s) (hlive : s.stopped = false) : Kept s' := by
  have ha := round_arranged h hs.arranged
  have hc := hs.custody
  cases h with
  | idle | unasked => exact hs
  | ownerReady => exact hs.of_books hlive ⟨rfl, rfl, rfl, rfl⟩ ha (hc.of_same rfl rfl)
  | submitted waiter task t status hreq h => exact submitted_kept hs hlive hreq h
  | cancelled key waiter t h =>
    exact hs.of_books hlive ((cancelled_books h).trans (releaseDispatch_books t)) ha
      (releaseDispatch_custody (cancelled_custody h hc))
  | removed removal orders =>
    exact hs.of_books hlive ((removeProbes_control orders removal s).toSameBooks.trans (releaseDispatch_books _)) ha
      (releaseDispatch_custody (removeProbes_custody hc orders removal))
  | handed _ h => exact hs.of_books hlive (handed_books h) ha (handed_custody h hs.arranged hc)
  | completed _ _ _ _ _ _ h => exact hs.of_books hlive (completed_books h) ha (completed_custody h hs.arranged hc)
  | stopped orders =>
    obtain ⟨hrequ, hid, hans⟩ := stop_books orders s
    refine ⟨ha, hs.numbered.of_same hrequ hid hans, ?_, fun _ => stop_entryAt orders s⟩
    rw [answered_congr hans]
    exact stop_custody hc orders

theorem select_kept (h : Kept s) (hlive : s.stopped = false) (now order) : Kept (select s now order) := by
  apply h.of_books hlive (select_books s now order) (select_arranged h.arranged now order)
  rcases select_cases s now order with heq | ⟨_, _, _, _, heq⟩
  · rw [heq]
    exact h.custody
  · rw [heq]
    exact h.custody.of_same rfl rfl

theorem change_kept {event} (h : Change queueSize s event s') (hs : Kept s) : Kept s' := by
  cases h with
  | refused => exact hs
  | called task task' => exact called_kept hs task'
  | round now order taken _ hlive h =>
    exact round_kept h (select_kept hs hlive now order) ((select_books s now order).stopped.trans hlive)

theorem new_kept (owned) : Kept (newDispatcher owned) := by
  refine ⟨arranged_of_empty rfl fun _ _ => rfl, ?_, ?_, by simp [newDispatcher]⟩
  · constructor <;> simp [newDispatcher, Answered]
  · constructor <;> simp [newDispatcher, Answered, waitersAt, entryAt, received]

theorem after_kept (queueSize owned events) : Kept (after queueSize owned events) :=
  run_invariant (I := Kept) (fun s event => change_kept (step_change _ s event)) (new_kept owned) events

/-- Nobody hears more than one result, and all have heard one when the dispatcher has stopped. -/
theorem waiters_answered_once (queueSize : Int) (owned : Bool) (events : List Event) :
    let s := after queueSize owned events
    (∀ w, received s.out w = [] ∨ ∃ result, received s.out w = [.send result, .close]) ∧
    (∀ w status, (w, status) ∈ s.answers → (∃ result, received s.out w = [.send result, .close]) ∨
      received s.out w = [] ∧ ∃! q, w ∈ waitersAt s q) ∧
    (s.stopped = true → ∀ w status, (w, status) ∈ s.answers →
      ∃ result, received s.out w = [.send result, .close]) := by
  intro s
  have hkept : Kept s := after_kept queueSize owned events
  have hc := hkept.custody
  have hans : ∀ w, Answered s w → (∃ result, received s.out w = [.send result, .close]) ∨
      received s.out w = [] ∧ ∃! q, w ∈ waitersAt s q := by
    intro w hw
    rcases hc.settled w hw with ⟨q, hq⟩ | hr
    · exact .inr ⟨hc.silent q w hq, q, hq, fun q' hq' => hc.unique q' q w hq' hq⟩
    · exact .inl hr
  refine ⟨fun w => ?_, fun w status hw => hans w ⟨status, hw⟩, fun hstop w status hw => ?_⟩
  · by_cases hw : Answered s w
    · exact (hans w hw).elim .inr fun h => .inl h.1
    · exact .inl (hc.unknown w hw)
  · rcases hans w ⟨status, hw⟩ with hr | ⟨_, q, hq, _⟩
    · exact hr
    · rw [waitersAt_of_none (hkept.stopped hstop q.1 q.2)] at hq
      cases hq

theorem received_cancelAt (place key) (hw : waiter ∈ entry.waiters) :
    received (cancelAt s place key entry waiter).out waiter =
      received s.out waiter ++ [.send (deferred "context canceled"), .close] := by
  have hout : (cancelAt s place key entry waiter).out = answer s.out waiter (deferred "context canceled") := by
    rw [cancelAt, if_pos hw]
    dsimp only
    split <;> rfl
  rw [hout, received_answer, if_pos rfl]

theorem release_out (s) : (releaseDispatch s).out = s.out := by
  rcases releaseDispatch_cases s with heq | heq <;> rw [heq]

/-- The cancellation looks for the waiter in one place only. It is the right one
unless the waiter is with a running probe whose rerun is queued. -/
theorem cancelProbeWaiter_finds (waiter) (h : Arranged s) (he : entryAt s place key = some entry)
    (hcond : place = .active → entryAt s .rerun key = none) :
    cancelProbeWaiter s key waiter = cancelAt s place key entry waiter := by
  have hne : entryAt s place key ≠ none := he ▸ Option.some_ne_none entry
  rw [cancelProbeWaiter, ← entryAt, ← entryAt, ← entryAt]
  cases place with
  | pending => rw [he]
  | active => rw [h.apart key hne, hcond rfl, he]
  | rerun => rw [h.apart key (h.backed key hne), he]

theorem cancelled_waiter_answered (queueSize : Int) (owned : Bool) (events : List Event) (now : Time)
    (order : RangeOrder ProbeKey) (place : Place) (key : ProbeKey) (waiter : Nat)
    (hw : waiter ∈ waitersAt (after queueSize owned events) (place, key)) :
    let s := after queueSize owned (events ++ [.round now order (.cancel key waiter)])
    (∀ q, waiter ∉ waitersAt s q) ∧ received s.out waiter = [.send (deferred "context canceled"), .close] ↔
      (place = .active → entryAt (after queueSize owned events) .rerun key = none) := by
  intro s
  have hkept := after_kept queueSize owned events
  have hs : s = step _ (after queueSize owned events) (.round now order (.cancel key waiter)) := run_append _ _ events _
  have haft : Kept s := after_kept queueSize owned _
  generalize after queueSize owned events = t at *
  obtain ⟨entry, he⟩ : ∃ entry, entryAt t place key = some entry := by
    rw [← Option.ne_none_iff_exists']
    intro hno
    rw [waitersAt_of_none hno] at hw
    cases hw
  have hlive : t.stopped = false := by
    rw [← Bool.not_eq_true]
    intro hstop
    cases he.symm.trans (hkept.stopped hstop place key)
  have hsel := select_kept hkept hlive now order
  have hen : ∀ place key, entryAt (select t now order) place key = entryAt t place key := by
    intro place key
    rw [entryAt, (select_probes t now order).1]
    rfl
  have hsil : received (select t now order).out waiter = [] := by
    apply hsel.custody.silent (place, key)
    rwa [waitersAt, hen]
  rw [hs, round_live hlive, branch] at haft ⊢
  constructor
  · rintro ⟨-, hout⟩ rfl
    by_contra hre
    obtain ⟨rerun, hre⟩ := Option.ne_none_iff_exists'.1 hre
    have hoth : waiter ∉ rerun.waiters := fun hin =>
      absurd (hkept.custody.unique _ (.rerun, key) waiter hw (by rwa [waitersAt_of_some hre])) (by simp)
    rw [cancelProbeWaiter_finds waiter hsel.arranged ((hen .rerun key).trans hre) (by simp), cancelAt, if_neg hoth,
      release_out, hsil] at hout
    cases hout
  intro hcond
  rw [waitersAt_of_some he] at hw
  have hf := cancelProbeWaiter_finds waiter hsel.arranged ((hen place key).trans he)
    fun h => (hen .rerun key).trans (hcond h)
  rw [hf] at haft ⊢
  have hout : received (releaseDispatch (cancelAt (select t now order) place key entry waiter)).out waiter =
      [.send (deferred "context canceled"), .close] := by
    rw [release_out, received_cancelAt place key hw, hsil]
    rfl
  refine ⟨fun q hq => ?_, hout⟩
  rw [haft.custody.silent q waiter hq] at hout
  cases hout

theorem running_waiter_answered : 1 ∈ waitersAt (after 0 false (probeRunning 0)) (.active, (probeOf 0).key) ∧
    received (after 0 false (probeRunning 0 ++ [.round 102 (.stored _) (.cancel (probeOf 0).key 1)])).out 1 =
      [.send (deferred "context canceled"), .close] :=
  ⟨by decide, ((cancelled_waiter_answered 0 false (probeRunning 0) 102 (.stored _) .active _ 1 (by decide)).2
    fun _ => by decide).2⟩

/-- A rerun with a waiter of its own hides the waiter of the running probe. -/
theorem cancelled_waiter_forgotten :
    let events := probeRunning 0 ++ [.call { probeOf 0 with freshAfterCurrent := true } true 102 102,
      .round 102 (.stored _) (.submit 2)]
    let s := after 0 false (events ++ [.round 103 (.stored _) (.cancel (probeOf 0).key 1)])
    1 ∈ waitersAt (after 0 false events) (.active, (probeOf 0).key) ∧
      1 ∈ waitersAt s (.active, (probeOf 0).key) ∧ received s.out 1 = [] := by
  decide

end SingBox.ProbeCustody
