import SingBox.EngineDecisions

namespace SingBox.EngineSelection

open Machine EngineScoring EngineMetrics EnginePolicy SmartEngine EngineDecisions

def listed (e : Engine) (q : Request) : List Candidate := q.candidates.map (enrich e.observations)

theorem mem_listed {e q c} (h : c ∈ listed e q) : ∃ raw ∈ q.candidates, SameLine c raw := by
  obtain ⟨raw, hraw, rfl⟩ := List.mem_map.1 h
  exact ⟨raw, hraw, enrich_sameLine ..⟩

def line (id : UInt64) (reliability : Float) (state eligible : UInt8) : Candidate :=
  { id := id, reliability := reliability, connectMs := 0.0, firstByteMs := 0.0, jitterMs := 0.0,
    throughputBps := 0.0, samples := 0.0, weight := 1.0, state := state, eligible := eligible }

def between (a b : Candidate) (now : UInt64) : Request := ⟨[a, b], now, .interactive⟩

def twoConfirm : Config :=
  { exploration := 0.0, switchMargin := 0.05, switchConfirmSamples := 2, switchConfirmMs := 0,
    switchCooldownMs := 0 }

section

variable [MathLibrary]

def ranking (e : Engine) (q : Request) : Option Ranking :=
  if q.candidates.length > maxCandidates then none else rank e.state e.config (listed e q) q.profile

variable {e : Engine} {q : Request} {r : Ranking}

theorem ranking_putForward (h : ranking e q = some r) :
    PutForward e.state (listed e q) r.selected ∧ r.incumbent = findIncumbent e.state (listed e q) := by
  unfold ranking at h
  split at h
  · cases h
  · exact rank_putForward h

theorem ranking_ranked (h : ranking e q = some r) :
    Ranked e.state (listed e q) r :=
  ⟨(ranking_putForward h).1.fits, (ranking_putForward h).2⟩

theorem answer_eq (e : Engine) (q : Request) : answer e q =
    match ranking e q with
    | none => (e.state, noCandidate)
    | some r => conclude e.state e.config r q.now (verdict e.state e.config r q.now q.profile) := by
  rw [answer, ranking]
  split
  · rfl
  · rfl

theorem outcome_names {state config now profile cs} (hr : Ranked state cs r)
    (hinc : ∀ current ∈ r.incumbent, current.state ≠ 4 → Names cs state.selectedID) {v out}
    (hout : Outcome state config now r profile v out) : Names cs out.2.selectedID := by
  cases hout with
  | held hls helig hopen => exact ⟨_, (hr.mem_incumbent hls).1, rfl, helig, hopen⟩
  | best | failover | adopted | confirmed => exact hr.selected.names
  | retained hls hopen =>
    have hnam := hinc _ hls hopen
    rwa [← (hr.mem_incumbent hls).2] at hnam
  | opened hb | counted hb => exact hinc _ hb.listed hb.notOpen

theorem answer_outcome (h : ranking e q = some r) :
    Outcome e.state e.config q.now r q.profile (verdict e.state e.config r q.now q.profile) (answer e q) := by
  rw [answer_eq, h]
  apply verdict_outcome

/-- Where the remembered incumbent is listed and not open, it is eligible too. -/
def IncumbentUsable (e : Engine) (q : Request) : Prop :=
  ∀ current ∈ findIncumbent e.state q.candidates, current.state ≠ 4 → Names q.candidates e.state.selectedID

instance (e : Engine) (q : Request) : Decidable (IncumbentUsable e q) :=
  inferInstanceAs (Decidable (∀ current ∈ findIncumbent e.state q.candidates, _))

/-- A decision names a candidate of the list that is eligible and not open. -/
theorem decision_names_usable (config : Config) (ops : List Op) (q : Request)
    (hincumbent : IncumbentUsable (after config ops) q)
    (hsome : (decision (after config ops) q).selectedID ≠ 0) :
    Names q.candidates (decision (after config ops) q).selectedID := by
  generalize after config ops = e at *
  cases hrank : ranking e q with
  | none =>
    rw [decision, answer_eq, hrank] at hsome
    exact absurd rfl hsome
  | some r =>
    have hr := ranking_ranked hrank
    rw [← names_map_enrich e.observations]
    apply outcome_names hr _ (answer_outcome hrank)
    intro current hcur hopen
    rw [hr.incumbent, listed, findIncumbent_map_enrich] at hcur
    obtain ⟨raw, hraw, rfl⟩ := Option.map_eq_some_iff.1 hcur
    rw [listed, names_map_enrich]
    apply hincumbent raw hraw
    rwa [← (enrich_sameLine e.observations raw).state]

end

theorem eligible_incumbent_is_named :
    Names [line 57 1.0 1 1, line 63 1.0 1 1]
      (decision (after twoConfirm [.setSelected 57 1]) (between (line 57 1.0 1 1) (line 63 1.0 1 1) 2)).selectedID :=
  decision_names_usable twoConfirm [.setSelected 57 1] (between (line 57 1.0 1 1) (line 63 1.0 1 1) 2)
    (by decide +kernel) (by decide +kernel)

/-- The incumbent has lost its eligibility, and is retained because the other
line is no better. -/
theorem ineligible_incumbent_is_named :
    (decision (after twoConfirm [.setSelected 57 1]) (between (line 57 1.0 1 0) (line 63 1.0 1 1) 2)).selectedID = 57 ∧
      ¬Names [line 57 1.0 1 0, line 63 1.0 1 1] 57 := by
  constructor
  · decide +kernel
  · decide

/-- Where the incumbent is itself the recovered primary that is kept out of the
ranking, and is not the only usable line, some other one is as healthy. -/
def HasPeer (e : Engine) (q : Request) (current : Candidate) : Prop :=
  e.state.deferredID = e.state.selectedID →
    (∃ c ∈ q.candidates, usable c ∧ c.id ≠ e.state.selectedID) →
      ∃ c ∈ q.candidates, usable c ∧ c.id ≠ e.state.selectedID ∧ healthTier c.state ≤ healthTier current.state

theorem bestTier_le_incumbent {e q current} (hcur : current ∈ q.candidates)
    (hid : current.id = e.state.selectedID) (husab : usable current) (hpeer : HasPeer e q current) :
    bestTier e.state (listed e q) ≤ healthTier current.state := by
  have hle {c} (hc : c ∈ q.candidates) (hu : usable c)
      (hkept : deferRecovered e.state (listed e q) → c.id ≠ e.state.deferredID) :
      bestTier e.state (listed e q) ≤ healthTier c.state := by
    have hsame := enrich_sameLine e.observations c
    rw [← hsame.state]
    apply bestTier_le (List.mem_map_of_mem hc)
    · rwa [usable, hsame.id, hsame.eligible, hsame.state]
    · rwa [hsame.id]
  by_cases hdef : deferRecovered e.state (listed e q) ∧ e.state.deferredID = e.state.selectedID
  · obtain ⟨hdef, hsame⟩ := hdef
    -- The incumbent is out of the ranking, and the peer stands in for it.
    have hoth : ∃ c ∈ q.candidates, usable c ∧ c.id ≠ e.state.selectedID := by
      simp only [deferRecovered, Bool.and_eq_true, List.any_eq_true, bne_iff_ne] at hdef
      obtain ⟨c, hc, hu, hne⟩ := hdef.2
      obtain ⟨raw, hraw, hline⟩ := mem_listed hc
      rw [usable_iff, hline.id, hline.eligible, hline.state, ← usable_iff] at hu
      exact ⟨raw, hraw, hu, by rwa [← hline.id, ← hsame]⟩
    obtain ⟨c, hc, hu, hne, htier⟩ := hpeer hsame hoth
    exact (hle hc hu fun _ => hsame ▸ hne).trans htier
  · apply hle hcur husab
    intro h hmine
    exact hdef ⟨h, hmine.symm.trans hid⟩

section

variable [MathLibrary]

inductive Switches (e : Engine) (q : Request) (r : Ranking) : Prop
  | failover {current : Candidate} (hlisted : r.incumbent = some current) (hopen : current.state = 4)
  | adopted (hselected : e.state.selectedID ≠ 0) (hgone : r.incumbent = none)
  | confirmed {current : Candidate} (hbeats : Beats e.state e.config q.now r q.profile current)
      (hid : e.state.challengeID = r.selected.id) (hsince : e.state.challengeSince ≠ 0)
      (hcount : e.config.switchConfirmSamples ≤ satSucc e.state.challengeCount)
      (hspan : e.config.switchConfirmMs ≤ satSub q.now e.state.challengeSince)

theorem decision_switches {e q} (hsw : (decision e q).switched = 1) :
    ∃ r, ranking e q = some r ∧ (decision e q).selectedID = r.selected.id ∧ Switches e q r := by
  rw [decision] at hsw ⊢
  cases hrank : ranking e q with
  | none =>
    rw [answer_eq, hrank] at hsw
    simp [noCandidate] at hsw
  | some r =>
    refine ⟨r, rfl, ?_⟩
    have hout := answer_outcome hrank
    generalize answer e q = out at hout hsw ⊢
    generalize verdict e.state e.config r q.now q.profile = v at hout
    cases hout with
    | failover hls hopen => exact ⟨rfl, .failover hls hopen⟩
    | adopted hsel hgone => exact ⟨rfl, .adopted hsel hgone⟩
    | confirmed hb hid hsince hcnt hspan => exact ⟨rfl, .confirmed hb hid hsince hcnt hspan⟩
    | held | best | retained | opened | counted => simp at hsw

theorem Switches.selectedID_ne_zero {e q r} (h : Switches e q r) (hr : Ranked e.state (listed e q) r) :
    e.state.selectedID ≠ 0 := by
  have hkn {current} (h : r.incumbent = some current) : e.state.selectedID ≠ 0 :=
    (mem_of_findIncumbent (hr.incumbent ▸ h)).2.2
  cases h with
  | failover hls => exact hkn hls
  | adopted hsel => exact hsel
  | confirmed hb => exact hkn hb.listed

/-- No switch away from a usable incumbent is to a line of a worse tier. -/
theorem switch_keeps_tier (config : Config) (ops : List Op) (q : Request) (current : Candidate)
    (hcurrent : current ∈ q.candidates) (hid : current.id = (after config ops).state.selectedID)
    (heligible : current.eligible ≠ 0) (hopen : current.state ≠ 4)
    (hpeer : HasPeer (after config ops) q current)
    (hswitched : (decision (after config ops) q).switched = 1) :
    ∃ c ∈ q.candidates, c.id = (decision (after config ops) q).selectedID ∧ c.eligible ≠ 0 ∧ c.state ≠ 4 ∧
      healthTier c.state ≤ healthTier current.state := by
  obtain ⟨r, hrank, hto, hsw⟩ := decision_switches hswitched
  have hr := ranking_ranked hrank
  have hfrom := hsw.selectedID_ne_zero hr
  have husab : usable current := (usable_iff current).2 ⟨hid ▸ hfrom, heligible, hopen⟩
  obtain ⟨raw, hraw, hline⟩ := mem_listed hr.selected.mem
  obtain ⟨-, hto_eligible, hto_open⟩ := (usable_iff r.selected).1 hr.selected.usable
  refine ⟨raw, hraw, ?_, hline.eligible ▸ hto_eligible, hline.state ▸ hto_open, ?_⟩
  · rw [hto, hline.id]
  · rw [← hline.state, hr.selected.tier]
    exact bestTier_le_incumbent hcurrent hid husab hpeer

end

def challengedOnce : List Op := [.setSelected 57 1, .choose [line 57 0.0 1 1, line 63 1.0 1 1] 2]

theorem confirmed_switch_keeps_tier :
    ∃ c ∈ (between (line 57 0.0 1 1) (line 63 1.0 1 1) 3).candidates,
      c.id = (decision (after twoConfirm challengedOnce) (between (line 57 0.0 1 1) (line 63 1.0 1 1) 3)).selectedID ∧
        c.eligible ≠ 0 ∧ c.state ≠ 4 ∧ healthTier c.state ≤ healthTier (line 57 0.0 1 1).state :=
  switch_keeps_tier twoConfirm challengedOnce (between (line 57 0.0 1 1) (line 63 1.0 1 1) 3) (line 57 0.0 1 1)
    List.mem_cons_self (by decide +kernel) (by decide) (by decide)
    (fun hdeferred => absurd hdeferred (by decide +kernel)) (by decide +kernel)

def recovered : List Op :=
  [.setSelected 57 1, .choose [line 57 0.0 4 1, line 63 1.0 1 1] 2, .choose [line 57 0.0 1 1, line 63 1.0 3 1] 3]

/-- The healthy incumbent, still deferred, is given up for the suspect line. -/
theorem recovered_incumbent_is_given_up :
    (after twoConfirm recovered).state.selectedID = 57 ∧
      (decision (after twoConfirm recovered) (between (line 57 0.0 1 1) (line 63 1.0 3 1) 4)).switched = 1 ∧
      (decision (after twoConfirm recovered) (between (line 57 0.0 1 1) (line 63 1.0 3 1) 4)).selectedID = 63 ∧
      healthTier (line 57 0.0 1 1).state < healthTier (line 63 1.0 3 1).state := by
  decide +kernel

end SingBox.EngineSelection
