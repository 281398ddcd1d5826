import SingBox.SmartEngine

namespace SingBox.EngineDecisions

open List Machine Runs EngineScoring EngineMetrics EnginePolicy

theorem usable_iff (c) : usable c ↔ c.id ≠ 0 ∧ c.eligible ≠ 0 ∧ c.state ≠ 4 := by
  simp [usable, and_assoc]

variable {c : Candidate} {state : State} {listed : List Candidate} {current : Candidate}

theorem lowestTier_le {cs} (h : c ∈ cs) : lowestTier cs ≤ healthTier c.state := by
  induction cs using reverseRecOn with
  | nil => cases h
  | append_singleton cs d ih =>
    simp only [lowestTier, foldl_append, foldl_cons, foldl_nil] at ih ⊢
    rcases mem_append.1 h with h | h
    · have hle := ih h
      split <;> omega
    · rw [mem_singleton.1 h]
      split <;> omega

theorem bestTier_le (hc : c ∈ listed) (husab : usable c)
    (hkept : deferRecovered state listed → c.id ≠ state.deferredID) : bestTier state listed ≤ healthTier c.state := by
  unfold bestTier
  split
  case isTrue hdef =>
    have hle : lowestTier (listed.filter fun c => usable c && c.id != state.deferredID) ≤
        healthTier c.state := by
      apply lowestTier_le
      simp [hc, husab, hkept hdef]
    dsimp only
    split
    · exact hle
    · exact lowestTier_le (by simp [hc, husab])
  case isFalse => exact lowestTier_le (by simp [hc, husab])

theorem mem_of_foldl_takes {α β : Type} {f} (hf : ∀ found a, f found a = found ∨ ∃ b, f found a = some (a, b))
    {l : List α} {p : α × β} (h : l.foldl f none = some p) : p.1 ∈ l := by
  have hkept : ∀ q, run f none l = some q → q.1 ∈ l := by
    apply run_keeps_mem (I := fun found : Option (α × β) => ∀ q, found = some q → q.1 ∈ l)
    · intro found a ha hfo q hq
      rcases hf found a with hgoesOn | ⟨b, htk⟩
      · exact hfo q (hgoesOn ▸ hq)
      rw [htk] at hq
      cases hq
      exact ha
    · nofun
  exact hkept p h

structure Fits (state : State) (listed : List Candidate) (c : Candidate) : Prop where
  mem : c ∈ listed
  usable : usable c
  tier : healthTier c.state = bestTier state listed

theorem fits_of_contender (h : c ∈ contenders state listed (bestTier state listed)) : Fits state listed c := by
  simp only [contenders, mem_filter, Bool.and_eq_true, beq_iff_eq] at h
  exact ⟨h.1, h.2.1.1, h.2.1.2⟩

theorem mem_of_findIncumbent (h : findIncumbent state listed = some c) :
    c ∈ listed ∧ c.id = state.selectedID ∧ state.selectedID ≠ 0 := by
  unfold findIncumbent at h
  split at h
  · cases h
  case isFalse hid => exact ⟨mem_of_find?_eq_some h, by simpa using find?_some h, hid⟩

def Names (candidates : List Candidate) (id : UInt64) : Prop :=
  ∃ c ∈ candidates, c.id = id ∧ c.eligible ≠ 0 ∧ c.state ≠ 4

instance (candidates : List Candidate) (id : UInt64) : Decidable (Names candidates id) :=
  inferInstanceAs (Decidable (∃ c ∈ candidates, _))

theorem Fits.names (h : Fits state listed c) :
    Names listed c.id :=
  ⟨c, h.mem, rfl, ((usable_iff c).1 h.usable).2⟩

theorem names_map_enrich (s candidates id) : Names (candidates.map (enrich s)) id ↔ Names candidates id := by
  simp [Names, (enrich_sameLine s _).id, (enrich_sameLine s _).eligible, (enrich_sameLine s _).state]

theorem findIncumbent_map_enrich (s state candidates) :
    findIncumbent state (candidates.map (enrich s)) = (findIncumbent state candidates).map (enrich s) := by
  unfold findIncumbent
  split
  · rfl
  have hsame : (fun c => c.id == state.selectedID) ∘ enrich s =
      fun c => c.id == state.selectedID := by
    funext c
    simp [(enrich_sameLine s c).id]
  rw [find?_map, hsame]

structure Ranked (state : State) (listed : List Candidate) (r : Ranking) : Prop where
  selected : Fits state listed r.selected
  incumbent : r.incumbent = findIncumbent state listed

theorem Ranked.mem_incumbent {r} (hr : Ranked state listed r) (h : r.incumbent = some current) :
    current ∈ listed ∧ current.id = state.selectedID := by
  rw [hr.incumbent] at h
  exact ⟨(mem_of_findIncumbent h).1, (mem_of_findIncumbent h).2.1⟩

/-- What the ranking puts forward: a contender, or the incumbent that stable
affinity keeps in its place. -/
inductive PutForward (state : State) (listed : List Candidate) (c : Candidate) : Prop
  | contender (h : c ∈ contenders state listed (bestTier state listed))
  | incumbent (hlisted : findIncumbent state listed = some c) (husable : usable c)
      (htier : healthTier c.state = bestTier state listed)

theorem PutForward.fits (h : PutForward state listed c) : Fits state listed c := by
  cases h with
  | contender h => exact fits_of_contender h
  | incumbent hls husab htier => exact ⟨(mem_of_findIncumbent hls).1, husab, htier⟩

theorem PutForward.ne_deferred (h : PutForward state listed c) (hdef : deferRecovered state listed)
    (hoth : state.selectedID ≠ state.deferredID) : c.id ≠ state.deferredID := by
  cases h with
  | contender h =>
    simp only [contenders, mem_filter, hdef, Bool.and_eq_true, Bool.true_and, Bool.not_eq_true',
      beq_eq_false_iff_ne] at h
    exact h.2.2
  | incumbent hls => rwa [(mem_of_findIncumbent hls).2.1]

variable [MathLibrary]

theorem hashRound_takes (config totalSamples profile threshold found c) :
    hashRound config totalSamples profile threshold found c = found ∨
      ∃ value, hashRound config totalSamples profile threshold found c = some (c, value) := by
  unfold hashRound
  dsimp only
  split
  · exact .inl rfl
  split
  · exact .inr ⟨_, rfl⟩
  · exact .inl rfl

theorem affine_putForward {best : Candidate × Float} (hbest : PutForward state listed best.1) (config totalSamples profile) :
    PutForward state listed (affine config totalSamples profile best (findIncumbent state listed)
      (contenders state listed (bestTier state listed)) (bestTier state listed)).1 := by
  unfold affine
  dsimp only
  split
  case h_1 current hcur =>
    obtain ⟨hinc, hfit⟩ := Option.filter_eq_some_iff.1 hcur
    simp only [Bool.and_eq_true, beq_iff_eq] at hfit
    exact .incumbent hinc hfit.1.1.1 hfit.1.1.2
  case h_2 =>
  cases hf : (contenders state listed _).foldl
      (hashRound config totalSamples profile _) none with
  | none => exact hbest
  | some p => exact .contender (mem_of_foldl_takes (hashRound_takes _ _ _ _) hf)

theorem rank_putForward {config} {profile : TrafficProfile} {r : Ranking}
    (h : rank state config listed profile = some r) :
    PutForward state listed r.selected ∧ r.incumbent = findIncumbent state listed := by
  unfold rank at h
  split at h
  · cases h
  dsimp only at h
  split at h
  · cases h
  case h_2 best hbest =>
  obtain rfl := Option.some.inj h
  have hbest : PutForward state listed best.1 := by
    refine .contender (mem_of_foldl_takes (fun found c => ?_) hbest)
    unfold rankRound
    dsimp only
    split
    · exact .inr ⟨_, rfl⟩
    · exact .inl rfl
  refine ⟨?_, rfl⟩
  split
  · exact affine_putForward hbest ..
  · exact hbest

section

variable (state : State) (config : Config) (now : UInt64) (r : Ranking) (profile : TrafficProfile)

/-- The selected candidate is another one than the incumbent, and better by all
that a switch asks for. -/
structure Beats (current : Candidate) : Prop where
  listed : r.incumbent = some current
  notOpen : current.state ≠ 4
  other : state.selectedID ≠ r.selected.id
  margin : ¬improvement config r profile current < switchMargin config
  absolute : absoluteImprovement r.selected current config.switchMinImprovementMs = true
  cooled : state.cooldownUntil ≤ now

/-- Every return of `chooseProfile` behind the ranking: when it is reached, and
with which state and decision. -/
inductive Outcome : Verdict → State × Decision → Prop
  | held {current : Candidate} {value : Float} (hlisted : r.incumbent = some current)
      (heligible : current.eligible ≠ 0) (hopen : current.state ≠ 4)
      (hsticky : sticky state config r now profile = some (current, value)) :
      Outcome (.held current value) (state, ⟨current.id, value, 0, .retained⟩)
  | best (hbest : state.selectedID = 0 ∨ state.selectedID = r.selected.id) :
      Outcome .best (state, ⟨r.selected.id, r.selectedScore, 0, .best⟩)
  | failover {current : Candidate} (hlisted : r.incumbent = some current) (hopen : current.state = 4) :
      Outcome (.failover current)
        (startCooldown { state with deferredID := current.id } config now,
          ⟨r.selected.id, r.selectedScore, 1, .confirmed⟩)
  | adopted (hselected : state.selectedID ≠ 0) (hgone : r.incumbent = none) :
      Outcome .adopted (startCooldown state config now, ⟨r.selected.id, r.selectedScore, 1, .confirmed⟩)
  | retained {current : Candidate} {value : Float} (hlisted : r.incumbent = some current)
      (hopen : current.state ≠ 4) (hkept : improvement config r profile current < switchMargin config ∨
        absoluteImprovement r.selected current config.switchMinImprovementMs = false ∨ now < state.cooldownUntil) :
      Outcome (.retained current value) (state, ⟨current.id, value, 0, .retained⟩)
  | opened {current : Candidate} (hbeats : Beats state config now r profile current)
      (hnew : state.challengeID ≠ r.selected.id ∨ state.challengeSince = 0) :
      Outcome .contested
        ({ state with challengeID := r.selected.id, challengeCount := 1, challengeSince := now },
          ⟨state.selectedID, r.selectedScore, 0, .retained⟩)
  | counted {current : Candidate} (hbeats : Beats state config now r profile current)
      (hid : state.challengeID = r.selected.id) (hsince : state.challengeSince ≠ 0) :
      Outcome .contested
        ({ state with challengeCount := satSucc state.challengeCount },
          ⟨state.selectedID, r.selectedScore, 0, .retained⟩)
  | confirmed {current : Candidate} (hbeats : Beats state config now r profile current)
      (hid : state.challengeID = r.selected.id) (hsince : state.challengeSince ≠ 0)
      (hcount : config.switchConfirmSamples ≤ satSucc state.challengeCount)
      (hspan : config.switchConfirmMs ≤ satSub now state.challengeSince) :
      Outcome .contested
        (startCooldown { state with challengeCount := satSucc state.challengeCount } config now,
          ⟨r.selected.id, r.selectedScore, 1, .confirmed⟩)

theorem challenge_outcome (hb : Beats state config now r profile current) :
    Outcome state config now r profile .contested (conclude state config r now .contested) := by
  unfold conclude challenge
  dsimp only
  split
  case isTrue hnew => exact .opened hb hnew
  case isFalse hnew =>
  obtain ⟨hid, hsince⟩ := not_or.1 hnew
  split
  · exact .counted hb (not_not.1 hid) hsince
  case isFalse hdone =>
    obtain ⟨hcnt, hspan⟩ := not_or.1 hdone
    exact .confirmed hb (not_not.1 hid) hsince (UInt32.not_lt.1 hcnt) (UInt64.not_lt.1 hspan)

theorem sticky_eq_some {value} (h : sticky state config r now profile = some (current, value)) :
    r.incumbent = some current ∧ current.eligible ≠ 0 ∧ current.state ≠ 4 := by
  unfold sticky at h
  split at h
  · cases h
  case h_2 hls =>
  dsimp only at h
  split at h
  case isTrue hheld =>
    cases h
    simp only [Bool.and_eq_true, bne_iff_ne] at hheld
    exact ⟨hls, hheld.1.1.2, hheld.1.1.1.2⟩
  · cases h

theorem verdict_outcome : Outcome state config now r profile (verdict state config r now profile)
      (conclude state config r now (verdict state config r now profile)) := by
  unfold verdict
  split
  case h_1 hstic =>
    obtain ⟨hls, helig, hopen⟩ := sticky_eq_some _ _ _ _ _ hstic
    exact .held hls helig hopen hstic
  case h_2 =>
  split
  case isTrue hbest => exact .best hbest
  case isFalse hoth =>
  obtain ⟨hsel, hoth⟩ := not_or.1 hoth
  split
  case h_1 hgone => exact .adopted hsel hgone
  case h_2 current hls =>
  split
  case isTrue hopen => exact .failover hls hopen
  case isFalse hopen =>
  split
  case isTrue hkept => exact .retained hls hopen hkept
  case isFalse hbet =>
  obtain ⟨hmarg, hr⟩ := not_or.1 hbet
  obtain ⟨habs, hcool⟩ := not_or.1 hr
  apply challenge_outcome
  exact ⟨hls, hopen, hoth, hmarg, by simpa using habs, UInt64.not_lt.1 hcool⟩

end

end SingBox.EngineDecisions
