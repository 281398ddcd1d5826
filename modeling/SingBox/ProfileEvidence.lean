import SingBox.ProfileSingleFlight

namespace SingBox.ProfileEvidence

open List Arena Maps Runs Values ProfileProbes ProfileFlights

def stored (r : NodeProfileRegistry) (key : String) : Option NodeProfileResult :=
  (r.entries.lookup key).bind fun entry => r.cells[entry]?.map (·.result)

def evidence (r : NodeProfileRegistry) (key : String) : Bool × UInt16 × UInt8 × UInt8 :=
  let result := (stored r key).getD {}
  (result.success, result.delay, result.successes, result.failures)

def completes (r : NodeProfileRegistry) : Op → Option (String × Bool)
  | .finish i _ =>
    match r.calls[i]? with
    | some { key := key, phase := .probed _ _ ok, .. } => if ended r i then none else some (key, ok)
    | _ => none
  | _ => none

/-- How many of the last probes of a key have ended alike, and how. -/
def streak (key : String) (r : NodeProfileRegistry) : List Op → Bool × Nat → Bool × Nat
  | [], s => s
  | op :: ops, s =>
    streak key (step r op) ops <|
      match completes r op with
      | some (k, ok) => if k ≠ key then s else if ok = s.1 then (ok, s.2 + 1) else (ok, 1)
      | none => s

def accumulated (ok : Bool) (n : Nat) (delay : UInt16) (completedAt : Time) : NodeProfileResult :=
  { delay := delay, success := ok, completedAt := completedAt
    nextProbeAt := completedAt +
      if ok then if n = 1 then 5 * minute else if n = 2 then 15 * minute else 30 * minute
      else if n = 1 then 30 * second else if n = 2 then minute else 5 * minute
    successes := if ok then .ofNat (min n 3) else 0
    failures := if ok then 0 else .ofNat (min n 3) }

variable {r : NodeProfileRegistry} {i entry : Nat} {cell : NodeProfileEntry}

theorem closeChannel_frame (r channel) :
    (closeChannel r channel).cells = r.cells ∧ (closeChannel r channel).entries = r.entries := by
  cases channel <;> exact ⟨rfl, rfl⟩

theorem dropEndpoint_frame (r endpointKey) :
    (dropEndpoint r endpointKey).cells = r.cells ∧ (dropEndpoint r endpointKey).entries = r.entries := by
  rw [dropEndpoint]
  split
  · exact ⟨rfl, rfl⟩
  · exact closeChannel_frame r _

theorem settle_frame (hc : r.cells[entry]? = some cell) (endpointKey result answer) :
    (settle r i endpointKey entry result answer).cells =
        r.cells.set entry { cell with result := result, inflight := false, done := none } ∧
      (settle r i endpointKey entry result answer).entries = r.entries := by
  rw [settle, hc]
  obtain ⟨hcel, hent⟩ := dropEndpoint_frame
    { closeChannel r cell.done with
      cells := r.cells.set entry { cell with result := result, inflight := false, done := none } } endpointKey
  exact ⟨hcel, hent.trans (closeChannel_frame r cell.done).2⟩

def Blank (cells : List NodeProfileEntry) : Prop := ∀ cell ∈ cells, cell.inflight = true → cell.result = {}

theorem Blank.append {cells} (h : Blank cells) (cell : NodeProfileEntry) (hce : cell.result = {}) :
    Blank (cells ++ [cell]) := by
  intro c hc hrun
  rcases mem_append.1 hc with hc | hc
  · exact h c hc hrun
  · rw [mem_singleton.1 hc, hce]

theorem Blank.settle (h : Blank r.cells) (endpointKey result answer) :
    Blank (settle r i endpointKey entry result answer).cells := by
  cases hce : r.cells[entry]? with
  | none =>
    rw [ProfileProbes.settle, hce]
    exact h
  | some cell =>
    rw [(settle_frame hce endpointKey result answer).1]
    intro c hc hrun
    rcases mem_or_eq_of_mem_set hc with hc | rfl
    · exact h c hc hrun
    · cases hrun

theorem Blank.register (h : Blank r.cells) (call) (now : Time) (order : RangeOrder String)
    (orders : Nat → RangeOrder String) : Blank (register r i call now order orders).cells := by
  have hclaim : Blank (claimEndpoint r i call.endpointKey).cells := by
    rw [claimEndpoint]
    split <;> exact h
  rw [ProfileProbes.register]
  split
  case h_1 => exact h
  case h_2 =>
  dsimp only
  split
  · exact hclaim.append _ rfl
  split
  · exact hclaim.append { inflight := true, done := _ } rfl
  · have hdrop := dropEndpoint_frame (pruneLocked (claimEndpoint r i call.endpointKey) now order orders) call.endpointKey
    exact hdrop.1.symm ▸ hclaim

theorem Blank.rewrite (h : Blank r.cells) (hout : ¬inflight r entry = true)
    (result : NodeProfileEntry → NodeProfileResult) :
    Blank (r.cells.modify entry fun cell => { cell with result := result cell }) := by
  intro c hc hrun
  obtain ⟨j, hj⟩ := getElem?_of_mem hc
  obtain ⟨old, hold, rfl⟩ := of_modify hj
  by_cases heq : entry = j
  · subst heq
    rw [if_pos rfl] at hrun
    exact absurd ((inflight_of hold).trans hrun) hout
  · rw [if_neg heq] at hrun ⊢
    exact h old (mem_of_getElem? hold) hrun

theorem Blank.step (h : Blank r.cells) (op : Op) : Blank (step r op).cells := by
  cases op with
  | enter i now order orders =>
    change Blank (enter r i now order orders).cells
    rw [enter]
    split
    · exact h
    split
    · exact h
    split
    · exact h.register _ now order orders
    split
    · split <;> exact h
    split
    · exact h
    · exact h.register _ now order orders
  | recordPassive key success failureTTL now order orders =>
    change Blank (recordPassive r key success failureTTL now order orders).cells
    rw [recordPassive]
    split
    · exact h
    have hgrown : Blank (r.cells ++ [({} : NodeProfileEntry)]) := h.append _ rfl
    cases r.entries.lookup key with
    | some entry =>
      dsimp only
      split
      · exact h
      case isFalse hout => split; exacts [h, h.rewrite hout _]
    | none =>
      dsimp only
      split
      · exact hgrown
      case isFalse hout => split; exacts [hgrown, Blank.rewrite hgrown hout _]
  | abandon i completedAt nextProbeAt =>
    change Blank (abandon r i completedAt nextProbeAt).cells
    rw [abandon]
    split
    · exact h.settle _ _ _
    · exact h
  | finish i completedAt =>
    change Blank (finish r i completedAt).cells
    rw [finish]
    split
    · split <;> exact h.settle _ _ _
    · exact h
  | _ =>
    simp only [ProfileProbes.step, check, wake, leave, ProfileProbes.read, takeSlot, probe, closeStart, closeClear]
    repeat' split
    all_goals exact h

theorem stored_settle {key} (hlk : r.entries.lookup key = some entry) (hc : r.cells[entry]? = some cell)
    (endpointKey result answer) : stored (settle r i endpointKey entry result answer) key = some result := by
  obtain ⟨hcel, hent⟩ := settle_frame (i := i) hc endpointKey result answer
  rw [stored, hent, hlk, hcel, Option.bind_some, getElem?_set_self (lt_of_some hc)]
  rfl

/-- Every probe starts from an entry of its own, so that only the first of a streak is right. -/
theorem first_of_streak_stored (pre mid : List Op) (i entry : Nat) (call : Call)
    (hcall : (after (pre ++ mid)).calls[i]? = some call)
    (hlookup : (after (pre ++ mid)).entries.lookup call.key = some entry)
    (hrunning : inflight (after (pre ++ mid)) entry = true) :
    (∀ delay ok completedAt n, call.phase = .probed entry delay ok → ended (after (pre ++ mid)) i = false →
      streak call.key {} (pre ++ mid ++ [.finish i completedAt]) (false, 0) = (ok, n) →
        (stored (finish (after (pre ++ mid)) i completedAt) call.key = some (accumulated ok n delay completedAt) ↔
          n = 1)) ∧
    (∀ completedAt nextProbeAt, call.phase = .abandoned entry →
      (evidence (abandon (after (pre ++ mid)) i completedAt nextProbeAt) call.key = evidence (after pre) call.key ↔
        evidence (after pre) call.key = (false, 0, 0, 0))) ∧
    ∀ delay ok completedAt, call.phase = .probed entry delay ok → ended (after (pre ++ mid)) i = true →
      (evidence (finish (after (pre ++ mid)) i completedAt) call.key = evidence (after pre) call.key ↔
        evidence (after pre) call.key = (false, 0, 0, 0)) := by
  have hblank : Blank (after (pre ++ mid)).cells :=
    run_invariant (I := fun r : NodeProfileRegistry => Blank r.cells) (fun _ op h => h.step op) (by simp [Blank]) _
  generalize after (pre ++ mid) = r at *
  obtain ⟨key, endpointKey, force, retry, phase⟩ := call
  cases hc : r.cells[entry]? with
  | none => simp [inflight, hc] at hrunning
  | some cell =>
  have hres : cell.result = {} :=
    hblank cell (mem_of_getElem? hc) ((inflight_of hc).symm.trans hrunning)
  have hprev : previousResult r entry = {} := by
    rw [previousResult, hc]
    exact hres
  refine ⟨?_, ?_, ?_⟩
  · rintro delay ok completedAt n rfl hlive -
    rw [finish, hcall]
    dsimp only
    rw [hlive, hprev, if_neg Bool.false_ne_true, stored_settle hlookup hc]
    have hone : probeResult {} delay ok completedAt = accumulated ok 1 delay completedAt := by cases ok <;> rfl
    refine ⟨fun heq => ?_, fun h => by rw [h, hone]⟩
    by_contra hn
    have hcnt := congrArg (fun r => if ok then r.successes else r.failures) (hone.symm.trans (Option.some.inj heq))
    obtain hm | hm | hm : min n 3 = 0 ∨ min n 3 = 2 ∨ min n 3 = 3 := by omega
    all_goals cases ok <;> simp [accumulated, hm] at hcnt
  · rintro completedAt nextProbeAt rfl
    rw [abandon, hcall]
    rw [evidence, stored_settle hlookup hc]
    exact eq_comm
  · rintro delay ok completedAt rfl hend
    rw [finish, hcall]
    dsimp only
    rw [hend, if_pos rfl, hprev, evidence, stored_settle hlookup hc]
    exact eq_comm

def untilProbed (i : Nat) (delay : UInt16) (ok : Bool) : List Op :=
  [.call "tcp" "" true false, .check i, .enter i 1 (.stored _) anyOrder, .takeSlot i, .probe i delay ok]

theorem first_success_stored :
    stored (finish (after (untilProbed 0 20 true)) 0 5) "tcp" = some (accumulated true 1 20 5) :=
  ((first_of_streak_stored [] (untilProbed 0 20 true) 0 0
    { key := "tcp", endpointKey := "", force := true, retryAfterInflight := false, phase := .probed 0 20 true }
    (by decide +kernel) (by decide +kernel) (by decide +kernel)).1 20 true 5 1 rfl (by decide +kernel)
      (by decide +kernel)).2 rfl

/-- The second failure in a row counts as the first, and a cancelled probe forgets the success before it. -/
theorem second_failure_counts_one :
    streak "tcp" {} (untilProbed 0 0 false ++ .finish 0 5 :: untilProbed 1 0 false ++ [.finish 1 9]) (false, 0) =
      (false, 2) ∧
    stored (after (untilProbed 0 0 false ++ .finish 0 5 :: untilProbed 1 0 false ++ [.finish 1 9])) "tcp" =
      some (accumulated false 1 0 9) ∧
    some (accumulated false 1 0 9) ≠ some (accumulated false 2 0 9) ∧
    evidence (after (untilProbed 0 20 true ++ [.finish 0 5])) "tcp" = (true, 20, 1, 0) ∧
    evidence (after (untilProbed 0 20 true ++ .finish 0 5 :: untilProbed 1 0 false ++ [.cancel 1, .finish 1 9])) "tcp" =
      (false, 0, 0, 0) := by
  decide +kernel

end SingBox.ProfileEvidence
