import SingBox.BreakerRecord

namespace SingBox.BreakerMoves

open Values BreakerRecord

/-- A token is held in half-open state only, the published end of the cooldown
is the one the breaker waits for, and a tripped breaker was opened before. -/
structure Coherent (r : HealthRecord) : Prop where
  token : r.halfOpenToken ≠ 0 → r.status.breaker = .halfOpen
  cooldown : r.status.breaker = .opened ∨ r.status.breaker = .cooldown → r.status.cooldownUntil = r.openUntil
  opened : tripped r = true → 0 < r.version

structure SameBreaker (r r' : HealthRecord) : Prop where
  addr : r'.addr = r.addr
  key : r'.key = r.key
  breaker : r'.status.breaker = r.status.breaker
  version : r'.version = r.version
  token : r'.halfOpenToken = r.halfOpenToken
  openUntil : r'.openUntil = r.openUntil
  cooldownUntil : r'.status.cooldownUntil = r.status.cooldownUntil
  consecutiveFailure : r'.consecutiveFailure = r.consecutiveFailure

theorem SameBreaker.refl (r) : SameBreaker r r := ⟨rfl, rfl, rfl, rfl, rfl, rfl, rfl, rfl⟩

theorem tripped_iff (r) : tripped r = true ↔
    r.status.breaker = .opened ∨ r.status.breaker = .cooldown ∨ r.status.breaker = .halfOpen := by
  simp [tripped, or_assoc]

variable {r : HealthRecord}

theorem SameBreaker.tripped {r'} (h : SameBreaker r r') : BreakerRecord.tripped r' = BreakerRecord.tripped r := by
  simp [BreakerRecord.tripped, h.breaker]

theorem SameBreaker.coherent {r'} (h : SameBreaker r r') (hr : Coherent r) : Coherent r' where
  token := by rw [h.token, h.breaker]; exact hr.token
  cooldown := by rw [h.breaker, h.cooldownUntil, h.openUntil]; exact hr.cooldown
  opened := by rw [h.tripped, h.version]; exact hr.opened

theorem Coherent.token_eq_zero (h : Coherent r) (hb : r.status.breaker ≠ .halfOpen) : r.halfOpenToken = 0 := by
  by_contra ht
  exact hb (h.token ht)

theorem coherent_of_untripped (ht : r.halfOpenToken = 0) (hb : tripped r = false) : Coherent r := by
  refine ⟨absurd ht, fun h => ?_, fun h => ?_⟩
  · rcases h with h | h <;> simp [tripped, h] at hb
  · rw [hb] at h
    cases h

theorem noteReport_same (r outcome time delay reason) : SameBreaker r (noteReport r outcome time delay reason) := by
  rw [noteReport]
  split
  · rw [recordHealthDelay]
    split <;> exact ⟨rfl, rfl, rfl, rfl, rfl, rfl, rfl, rfl⟩
  · exact ⟨rfl, rfl, rfl, rfl, rfl, rfl, rfl, rfl⟩

theorem reportQuality_same (cfg r outcome time delay reason weight) :
    SameBreaker r (reportQuality cfg r outcome time delay reason weight) := by
  have h := noteReport_same r outcome time delay reason
  have hstat : ∀ f : HealthStatus → Prop, f (noteReport r outcome time delay reason).status →
      (∀ status, f status → ∀ successes failures health, f { status with
        nonBreakerSuccesses := successes, nonBreakerFailures := failures, health := health }) →
      f (reportQuality cfg r outcome time delay reason weight).status := by
    intro f hf hkeep
    rw [reportQuality]
    dsimp only
    (repeat' split) <;> exact hkeep _ hf ..
  refine { h with breaker := ?_, cooldownUntil := ?_ }
  · exact hstat (fun status => status.breaker = r.status.breaker) h.breaker fun _ hf _ _ _ => hf
  · exact hstat (fun status => status.cooldownUntil = r.status.cooldownUntil) h.cooldownUntil fun _ hf _ _ _ => hf

section

variable (cfg : BreakerConfig) (draw : Nat) (r : HealthRecord) (outcome : ObservationOutcome) (time : Time)
  (delay : Duration) (reason : String)

/-- The three ways in which a report can end: the breaker is half open after
the first of two recoveries, closed, or open anew. -/
inductive AfterReport (r' : HealthRecord) : Prop
  | recovering (hs : outcome = .success) (hb : r.status.breaker = .halfOpen)
      (hb' : r'.status.breaker = .halfOpen) (ht : r'.halfOpenToken = 0) (hv : r'.version = r.version)
  | closed (hs : outcome = .success ∨ opensOnFailure cfg r = false) (hb' : r'.status.breaker = .closed)
      (ht : r'.halfOpenToken = 0 ∨ r.status.breaker ≠ .halfOpen ∧ r'.halfOpenToken = r.halfOpenToken)
      (hv : r'.version = r.version)
  | opened (hs : outcome ≠ .success) (hopens : opensOnFailure cfg r = true) (hb' : r'.status.breaker = .opened)
      (ht : r'.halfOpenToken = 0) (hv : r'.version = r.version + 1)
      (hcooldown : r'.status.cooldownUntil = r'.openUntil)

variable {cfg r outcome} in
theorem AfterReport.of_same {noted r'} (h : AfterReport cfg noted outcome r') (hn : SameBreaker r noted) :
    AfterReport cfg r outcome r' := by
  have ho : opensOnFailure cfg noted = opensOnFailure cfg r := by
    rw [opensOnFailure, opensOnFailure, hn.breaker, hn.consecutiveFailure]
  cases h with
  | recovering hs hb hb' ht hv => exact .recovering hs (hn.breaker ▸ hb) hb' ht (hv.trans hn.version)
  | closed hs hb' ht hv =>
    rw [ho] at hs
    rw [hn.breaker, hn.token] at ht
    exact .closed hs hb' ht (hv.trans hn.version)
  | opened hs hopens hb' ht hv hcool =>
    exact .opened hs (ho ▸ hopens) hb' ht (hv.trans (congrArg (· + 1) hn.version)) hcool

theorem reportSuccess_after : AfterReport cfg r .success (reportSuccess r) := by
  rw [reportSuccess]
  split
  · next hf =>
    have hb : r.status.breaker = .halfOpen := by
      rw [firstRecovery, Bool.and_eq_true, beq_iff_eq] at hf
      exact hf.1
    exact .recovering rfl hb rfl rfl rfl
  · exact .closed (.inl rfl) rfl (.inl rfl) rfl

theorem reportFailure_after (hs : outcome ≠ .success) :
    AfterReport cfg r outcome (reportFailure cfg draw r time) := by
  rw [reportFailure]
  split
  · next hopens => exact .opened hs hopens rfl rfl rfl rfl
  rename_i hopens
  rw [Bool.not_eq_true] at hopens
  have hb : r.status.breaker ≠ .halfOpen := by
    intro hb
    simp [opensOnFailure, hb] at hopens
  exact .closed (.inr hopens) rfl (.inr ⟨hb, rfl⟩) rfl

theorem report_after : AfterReport cfg r outcome (report cfg draw r outcome time delay reason) := by
  have hn := noteReport_same r outcome time delay reason
  rw [report]
  split
  · next hs =>
    subst hs
    exact (reportSuccess_after cfg _).of_same hn
  · next hs => exact (reportFailure_after cfg draw _ outcome time hs).of_same hn

@[simp] theorem report_addr : (report cfg draw r outcome time delay reason).addr = r.addr := by
  rw [← (noteReport_same r outcome time delay reason).addr, report]
  split
  · rw [reportSuccess]
    split <;> rfl
  rw [reportFailure]
  split <;> rfl

theorem report_token (hr : Coherent r) : (report cfg draw r outcome time delay reason).halfOpenToken = 0 := by
  cases report_after cfg draw r outcome time delay reason with
  | recovering _ _ _ ht _ | opened _ _ _ ht _ _ => exact ht
  | closed _ _ ht _ =>
    rcases ht with ht | ⟨hb, ht⟩
    · exact ht
    · rw [ht]
      exact hr.token_eq_zero hb

theorem report_coherent (hr : Coherent r) : Coherent (report cfg draw r outcome time delay reason) := by
  have ht := report_token cfg draw r outcome time delay reason hr
  cases report_after cfg draw r outcome time delay reason with
  | recovering _ hb hb' _ hv =>
    have hpos := hr.opened ((tripped_iff r).mpr (.inr (.inr hb)))
    exact ⟨absurd ht, by simp [hb'], fun _ => by omega⟩
  | closed _ hb' => exact coherent_of_untripped ht (by simp [tripped, hb'])
  | opened _ _ _ _ hv hcool => exact ⟨absurd ht, fun _ => hcool, fun _ => by omega⟩

theorem report_version_le : r.version ≤ (report cfg draw r outcome time delay reason).version := by
  cases report_after cfg draw r outcome time delay reason <;> omega

theorem report_tripped (h : tripped (report cfg draw r outcome time delay reason) = true)
    (hv : (report cfg draw r outcome time delay reason).version = r.version) : tripped r = true := by
  cases report_after cfg draw r outcome time delay reason with
  | recovering _ hb => exact (tripped_iff r).mpr (.inr (.inr hb))
  | closed _ hb' => simp [tripped, hb'] at h
  | opened _ _ _ _ hv' => omega

end

theorem available_same_or_relabel (r now) : (available r now).1 = r ∨
      r.status.breaker = .opened ∧ (available r now).2 = false ∧ (available r now).1 =
        { r with status := { r.status with breaker := .cooldown, cooldownUntil := r.openUntil } } := by
  rw [available]
  split
  · next hb =>
    split
    · exact .inr ⟨hb, rfl, rfl⟩
    · exact .inl rfl
  all_goals exact .inl rfl

theorem reserve_coherent (hr : Coherent r) (ht : tripped r = true) (token) : Coherent (reserve r token) :=
  ⟨fun _ => rfl, by simp [reserve], fun _ => hr.opened ht⟩

theorem giveBack_coherent (hr : Coherent r) (hb : r.status.breaker = .halfOpen) :
    Coherent (giveBack r) :=
  ⟨absurd rfl, fun _ => rfl, fun _ => hr.opened ((tripped_iff r).mpr (.inr (.inr hb)))⟩

end SingBox.BreakerMoves
