import SingBox.HealthLedger

namespace SingBox.CooldownWindows

open Values BreakerRecord HealthLedger

def nextBelowOne : ℚ := 1 - 1 / 2 ^ 53

/-- With exact arithmetic in place of `float64`. -/
def applyBackoffJitter (backoff : Duration) (fraction sample : ℚ) : Duration :=
  if backoff ≤ 0 ∨ fraction ≤ 0 then backoff
  else
    let sample := if sample < 0 then 0 else if sample ≥ 1 then nextBelowOne else sample
    let scale := 1 + (sample * 2 - 1) * fraction
    (backoff * if scale < 1 / 10 then 1 / 10 else scale).floor

def normalizeFraction (fraction : ℚ) : ℚ := min (if fraction < 0 then 1 / 5 else fraction) (1 / 2)

/-- The breaker of a new store, whose random source gives `samples`. -/
def breakerOf (threshold : Int) (base max : Duration) (fraction : ℚ) (samples : Nat → ℚ) : BreakerConfig :=
  (newHealthStoreWithClock 0 0 ⟨threshold, base, max, fun draw backoff =>
    applyBackoffJitter backoff (normalizeFraction fraction) (samples draw)⟩).breaker

/-- The doubling loop on `int64`. -/
def doubleBackoff64 (cfg : BreakerConfig) : Nat → Duration → Duration
  | 0, backoff => backoff
  | n + 1, backoff =>
    if backoff ≥ cfg.maxCooldown.tdiv 2 then cfg.maxCooldown
    else doubleBackoff64 cfg n ((backoff * 2).bmod (2 ^ 64))

def window (cfg : BreakerConfig) (draw : Nat) (r : HealthRecord) (now : Time) : Duration :=
  (openBreakerRecord cfg draw r now).openUntil - now

variable {cfg : BreakerConfig} {backoff : Duration}

theorem window_eq (cfg draw r now) : window cfg draw r now = openBackoff cfg draw r.reopenCount := by
  simp [window, openBreakerRecord]

theorem openBackoff_bounds (hbase : 0 < cfg.baseCooldown) (hcap : cfg.baseCooldown.tdiv 2 ≤ cfg.maxCooldown) (draw n) :
    cfg.baseCooldown.tdiv 2 ≤ openBackoff cfg draw n ∧ openBackoff cfg draw n ≤ cfg.maxCooldown := by
  rw [openBackoff]
  unfold Duration at *
  split <;> omega

theorem doubleBackoff64_eq (hpos : 0 ≤ cfg.maxCooldown) (hmax : cfg.maxCooldown ≤ maxDuration) (n) (hb : 0 < backoff) :
    doubleBackoff64 cfg n backoff = doubleBackoff cfg n backoff := by
  induction n generalizing backoff with
  | zero => rfl
  | succ n ih =>
    rw [doubleBackoff64, doubleBackoff]
    split
    · rfl
    rename_i hsmall
    rw [Int.tdiv_eq_ediv_of_nonneg hpos] at hsmall
    have hfits : (backoff * 2).bmod (2 ^ 64) = backoff * 2 := by
      unfold maxDuration Duration at *
      apply Int.bmod_eq_of_le <;> omega
    rw [hfits]
    exact ih (Int.mul_pos hb (by decide))

theorem capped_le_succ (n) (hb : 0 < backoff) :
    min (doubleBackoff cfg n backoff) cfg.maxCooldown ≤ min (doubleBackoff cfg (n + 1) backoff) cfg.maxCooldown := by
  induction n generalizing backoff with
  | zero =>
    simp only [doubleBackoff]
    unfold Duration at *
    split <;> omega
  | succ n ih =>
    rw [doubleBackoff, doubleBackoff.eq_def cfg (n + 1 + 1)]
    dsimp only
    split
    · exact le_rfl
    · exact ih (Int.mul_pos hb (by decide))

theorem openBackoff_mono (hbase : 0 < cfg.baseCooldown) (hjit : ∀ draw backoff, cfg.jitter draw backoff = backoff)
    {n m} (h : n ≤ m) (draw draw') : openBackoff cfg draw n ≤ openBackoff cfg draw' m := by
  have hcap : Monotone fun n => min (doubleBackoff cfg n cfg.baseCooldown) cfg.maxCooldown :=
    monotone_nat_of_le_succ fun n => capped_le_succ n hbase
  have hle := hcap (Nat.sub_le_sub_right h 1)
  simp only [openBackoff, hjit] at hle ⊢
  unfold Duration at hle ⊢
  split <;> split <;> omega

def opened : HealthRecord := { addr := 0, key := ⟨0, 0, 0, .endpoint, "", ""⟩, reopenCount := 1 }

variable (threshold : Int) (base max : Duration) (fraction : ℚ) (samples : Nat → ℚ)

theorem breakerOf_jitter (draw backoff) : (breakerOf threshold base max 0 samples).jitter draw backoff = backoff := by
  simp [breakerOf, newHealthStoreWithClock, applyBackoffJitter, normalizeFraction]

theorem breakerOf_cooldowns (hmax : max ≤ maxDuration) :
    let cfg := breakerOf threshold base max fraction samples
    0 < cfg.baseCooldown ∧ 0 ≤ cfg.maxCooldown ∧ cfg.maxCooldown ≤ maxDuration ∧
      (cfg.baseCooldown.tdiv 2 ≤ cfg.maxCooldown ↔ base ≤ max ∨ base.tdiv 2 ≤ 300 * second) := by
  intro cfg
  have hbase : 0 < cfg.baseCooldown := by
    simp only [cfg, breakerOf, newHealthStoreWithClock, defaultBreakerConfig]
    unfold second Duration
    split <;> omega
  have hhalf : base.tdiv 2 ≤ 300 * second ↔ base ≤ 600 * second + 1 := by
    rw [Int.tdiv_eq_ediv, Int.sign_eq_one_of_pos (by decide)]
    unfold second Duration
    split <;> omega
  rw [hhalf, Int.tdiv_eq_ediv_of_nonneg hbase.le]
  refine ⟨hbase, ?_⟩
  simp only [cfg, breakerOf, newHealthStoreWithClock, defaultBreakerConfig]
  unfold second maxDuration Duration at *
  split <;> split <;> omega

/-- The windows keep within the bounds exactly if the configured maximum is not below the base, or if half of
the base is within the five minutes that then take its place. -/
theorem cooldown_windows (hmax : max ≤ maxDuration) :
    let cfg := breakerOf threshold base max fraction samples
    ((∀ draw r now, 1 ≤ r.reopenCount → cfg.baseCooldown.tdiv 2 ≤ window cfg draw r now ∧
      window cfg draw r now ≤ cfg.maxCooldown) ↔ base ≤ max ∨ base.tdiv 2 ≤ 300 * second) ∧
    (∀ n, doubleBackoff64 cfg n cfg.baseCooldown = doubleBackoff cfg n cfg.baseCooldown) ∧
    (fraction = 0 → ∀ draw draw' r r' now now', 1 ≤ r.reopenCount → r.reopenCount ≤ r'.reopenCount →
      window cfg draw r now ≤ window cfg draw' r' now') := by
  intro cfg
  obtain ⟨hbase, hpos, hfits, hhalf⟩ := breakerOf_cooldowns threshold base max fraction samples hmax
  refine ⟨?_, ?_, ?_⟩
  · rw [← hhalf]
    constructor
    · intro hwn
      have hwind := hwn 0 opened 0 le_rfl
      exact hwind.1.trans hwind.2
    · intro hcap draw r now _
      rw [window_eq]
      exact openBackoff_bounds hbase hcap draw _
  · intro n
    exact doubleBackoff64_eq hpos hfits n hbase
  · rintro rfl draw draw' r r' now now' _ hle
    rw [window_eq, window_eq]
    exact openBackoff_mono hbase (breakerOf_jitter threshold base max samples) hle draw draw'

theorem tenSeconds_window : let cfg := breakerOf 3 (10 * second) 0 (1 / 5) fun _ => 1 / 2
    5 * second ≤ window cfg 0 opened 0 ∧ window cfg 0 opened 0 ≤ 300 * second :=
  (cooldown_windows 3 (10 * second) 0 (1 / 5) (fun _ => 1 / 2) (by decide)).1.2 (.inr (by decide)) 0 opened 0 le_rfl

theorem twentyMinutes_window : let cfg := breakerOf 3 (1200 * second) 0 0 fun _ => 0
    window cfg 0 opened 0 = 600 * second ∧ cfg.maxCooldown = 300 * second := by
  decide +kernel

end SingBox.CooldownWindows
