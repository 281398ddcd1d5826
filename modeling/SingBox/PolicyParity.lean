import SingBox.PlanParity

namespace SingBox.PolicyParity

open Option Maps Runs Values OrderFree PolicyPlan PolicySoundness KernelBinding KernelParity PlanParity
open SessionLeases (SessionLease)

/-- One policy engine in a build without the kernel and one in a build with it,
under the same calls. `unconfirmed` is not in the program: it has the first
candidate of the last plan of a context in which the kernel took part, until a
selection of the context is remembered or forgotten. -/
structure System where
  host : PolicyEngine
  zig : PolicyEngine
  kernel : ZigAdaptivePolicyKernel
  unconfirmed : GoMap String NodeHandle := ∅

/-- The orders are those of the loops over maps, where a call has one. -/
inductive Event
  | plan (r : Request) (now : Time) (order : RangeOrder String)
  | remember (key : String) (handle : NodeHandle) (now : Time) (order : RangeOrder String)
  | forget (service : ServiceContext) (handle : NodeHandle) (now : Time)

def begin_ (maxAttempts : Int) (failClosed affinityDisabled : Bool) (margin : Float) (cooldown : Duration) : System :=
  let e := bindSwitchStability
    { newPolicyEngine maxAttempts failClosed with affinityDisabled := affinityDisabled } margin cooldown
  { host := e, zig := e, kernel := configure {} e.switchMargin e.switchCooldown failClosed }

variable {cooldownMs : UInt64} {sticky : Option StickyPreference} {handle : NodeHandle}

section

variable [NetworkNames]

def consult (s : System) (r : Request) (now : Time) (order : RangeOrder String) (eligible : List Candidate) :
    ZigAdaptivePolicyKernel × KernelDecision :=
  choose s.kernel order (stickyKey s.zig r.service)
    (eligible.map (kernelCandidate r.view r.service r.lease r.pinned)) (modeOf r.service) now

def hostPlan (s : System) (r : Request) (now : Time) : PolicyEngine × Except PlanError DecisionPlan :=
  planFor s.host r none now

def zigPlan (s : System) (r : Request) (now : Time) (order : RangeOrder String) :
    PolicyEngine × Except PlanError DecisionPlan :=
  planFor s.zig r (some fun eligible => (consult s r now order eligible).2) now

def noteFirst (s : System) (r : Request) (decision : KernelDecision) (first : Option Candidate) :
    GoMap String NodeHandle :=
  match first with
  | some c => if decision.selectedID = 0 then s.unconfirmed else s.unconfirmed.insert (stickyKey s.zig r.service) c.handle
  | none => s.unconfirmed

def step (s : System) : Event → System
  | .plan r now order =>
    let host := (hostPlan s r now).1
    let zig := zigPlan s r now order
    match ranking s.zig r with
    | none => { s with host := host, zig := zig.1 }
    | some eligible =>
      let answer := consult s r now order eligible
      { host := host, zig := zig.1, kernel := answer.1, unconfirmed := noteFirst s r answer.2 (firstOf zig.2) }
  | .remember key handle now order =>
    { host := rememberSelection s.host order key handle now
      zig := rememberSelection s.zig order key handle now
      kernel :=
        if remembers s.zig key handle then remember s.kernel order key handle.nodeID now s.zig.switchCooldown
        else s.kernel
      unconfirmed := if remembers s.zig key handle then s.unconfirmed.erase key else s.unconfirmed }
  | .forget service handle now =>
    let host := (forgetSelectionAfterEarlyFailure s.host service handle now).getD s.host
    match forgetSelectionAfterEarlyFailure s.zig service handle now with
    | none => { s with host := host }
    | some zig =>
      { host := host, zig := zig, kernel := forget s.kernel (stickyKey s.zig service)
        unconfirmed := s.unconfirmed.erase (stickyKey s.zig service) }

def Room (k : ZigAdaptivePolicyKernel) (key : String) : Prop :=
  key ∈ k.engines.keys ∨ k.engines.keys.length < adaptiveKernelMaxContexts

@[mk_iff] structure SteadyRanking (q : ℚ) (s : System) (r : Request) (now : Time) (eligible : List Candidate) :
    Prop where
  comparable : Comparable q s.host.switchMargin (normalizedMargin s.kernel.switchMargin) r.view eligible
  room : Room s.kernel (stickyKey s.host r.service)
  confirmed : ∀ handle ∈ s.unconfirmed.lookup (stickyKey s.host r.service),
    ∃ pref ∈ s.host.sticky.lookup (stickyKey s.host r.service), pref.handle = handle
  standing : ∀ pref ∈ s.host.sticky.lookup (stickyKey s.host r.service),
    Standing q s.host s.kernel.switchCooldownMs r.view eligible pref now

/-- The snapshot finds its candidates by their ids, which their handles have too. -/
def Built (r : Request) : Prop :=
  ∀ snapshot ∈ r.snapshot, ∀ c ∈ snapshot.candidates,
    lookupCandidate snapshot c.id = some c ∧ c.handle.nodeID = c.id

def Steady (q : ℚ) (s : System) : Event → Prop
  | .plan r now _ =>
    (modeOf r.service = .adaptive ∨ modeOf r.service = .strictAffinity) ∧ Built r ∧
      ∀ eligible ∈ ranking s.host r, SteadyRanking q s r now eligible
  | .remember key _ _ _ => Room s.kernel key
  | .forget _ _ _ => True

instance (k : ZigAdaptivePolicyKernel) (key : String) : Decidable (Room k key) := inferInstanceAs (Decidable (_ ∨ _))

instance (q : ℚ) (s : System) (r : Request) (now : Time) (eligible : List Candidate) :
    Decidable (SteadyRanking q s r now eligible) :=
  decidable_of_iff _ (steadyRanking_iff ..).symm

instance (r : Request) : Decidable (Built r) :=
  inferInstanceAs (Decidable (∀ snapshot ∈ r.snapshot, ∀ c ∈ snapshot.candidates, _ ∧ _))

instance (q : ℚ) (s : System) : ∀ e, Decidable (Steady q s e)
  | .plan _ _ _ => inferInstanceAs (Decidable (_ ∧ _ ∧ _))
  | .remember _ _ _ _ => inferInstanceAs (Decidable (Room _ _))
  | .forget _ _ _ => .isTrue trivial

def HeldBy (id : UInt64) : Option NodeHandle → Prop
  | none => id = 0
  | some handle => id = kernelCandidateID handle.nodeID

structure Tracks (cooldownMs : UInt64) (state : AdaptiveKernel.State) (unconfirmed : Option NodeHandle)
    (sticky : Option StickyPreference) : Prop where
  holder : HeldBy state.stickyID (unconfirmed.or (sticky.map (·.handle)))
  until_ : ∀ pref ∈ sticky, (∀ handle ∈ unconfirmed, pref.handle = handle) →
    state.stickyUntil = AdaptiveKernel.cooldownEnd (kernelNowMS pref.updatedAt) cooldownMs

structure Simulates (s : System) : Prop where
  same : s.zig = s.host
  cooldown : s.kernel.switchCooldownMs = maxDurationMS s.host.switchCooldown
  stored : ∀ key pref, s.host.sticky.lookup key = some pref →
    key ≠ "" ∧ pref.handle.nodeID ≠ 0 ∧ key ∈ s.kernel.engines.keys
  bounded : s.kernel.engines.keys.length ≤ adaptiveKernelMaxContexts
  tracks : ∀ key, Tracks s.kernel.switchCooldownMs ((s.kernel.engines.lookup key).getD {}) (s.unconfirmed.lookup key)
    (s.host.sticky.lookup key)

omit [NetworkNames] in
theorem simulates_begin (maxAttempts failClosed affinityDisabled margin cooldown) :
    Simulates (begin_ maxAttempts failClosed affinityDisabled margin cooldown) := by
  refine ⟨rfl, rfl, ?_, Nat.zero_le _, ?_⟩
  · intro key pref h
    cases h
  · intro key
    exact ⟨rfl, fun pref h => by cases h⟩

variable {state : AdaptiveKernel.State} {k : ZigAdaptivePolicyKernel} {key : String}

omit [NetworkNames] in
theorem Tracks.holds {unconfirmed} (h : Tracks cooldownMs state unconfirmed sticky)
    (hconf : ∀ handle ∈ unconfirmed, ∃ pref ∈ sticky, pref.handle = handle) : Holds state cooldownMs sticky := by
  have hhd := h.holder
  cases unconfirmed with
  | none =>
    cases sticky with
    | none => exact hhd
    | some pref => exact ⟨hhd, h.until_ pref rfl fun handle hno => by cases hno⟩
  | some handle =>
    obtain ⟨pref, hpref, hhand⟩ := hconf handle rfl
    have hunt := h.until_ pref hpref fun handle' hhd' => hhand.trans (some.inj hhd')
    rw [← hhand] at hhd
    rw [hpref]
    exact ⟨hhd, hunt⟩

omit [NetworkNames] in
theorem engineLocked_eq (hroom : Room k key) (order) : (engineLocked k order key).2 = (k.engines.lookup key).getD {} ∧
      ∃ engines, (engineLocked k order key).1 = { k with engines := engines } ∧
        ∀ state, engines.insert key state = k.engines.insert key state := by
  rw [engineLocked]
  cases hlk : k.engines.lookup key with
  | some state => exact ⟨rfl, k.engines, rfl, fun _ => rfl⟩
  | none =>
    have habs : key ∉ k.engines.keys := by
      rw [mem_keys_iff]
      rintro ⟨state, hst⟩
      rw [hlk] at hst
      cases hst
    have hfew : ¬k.engines.keys.length ≥ adaptiveKernelMaxContexts := Nat.not_le.2 (hroom.resolve_left habs)
    refine ⟨rfl, k.engines.insert key {}, ?_, fun state => AList.insert_insert _⟩
    rw [if_neg hfew]

omit [NetworkNames] in
theorem choose_context (hke : key ≠ "") (hroom : Room k key) {candidates} (hsome : candidates ≠ [])
    (hlen : candidates.length ≤ AdaptiveKernel.maxCandidates) (order mode now) :
    (choose k order key candidates mode now).1 =
        { k with
          engines := k.engines.insert key
            (AdaptiveKernel.choose ((k.engines.lookup key).getD {}) (engineConfig k mode) candidates (kernelNowMS now)).1 } ∧
      (choose k order key candidates mode now).2.selectedID =
        (AdaptiveKernel.choose ((k.engines.lookup key).getD {}) (engineConfig k mode) candidates
          (kernelNowMS now)).2.selectedID := by
  obtain ⟨hst, engines, hk, hins⟩ := engineLocked_eq hroom order
  have hask : ¬(key = "" ∨ candidates = [] ∨ candidates.length > AdaptiveKernel.maxCandidates) :=
    not_or.2 ⟨hke, not_or.2 ⟨hsome, Nat.not_lt.2 hlen⟩⟩
  rw [choose, if_neg hask]
  dsimp only
  rw [hst, hk]
  rw [hins]
  exact ⟨rfl, rfl⟩

omit [NetworkNames] in
theorem remember_context {id} (hke : key ≠ "") (hid : id ≠ 0) (hroom : Room k key) (order now cooldown) :
    ∃ state, state.stickyID = kernelCandidateID id ∧
      state.stickyUntil = AdaptiveKernel.cooldownEnd (kernelNowMS now) (maxDurationMS cooldown) ∧
      remember k order key id now cooldown = { k with engines := k.engines.insert key state } := by
  obtain ⟨-, engines, hk, hins⟩ := engineLocked_eq hroom order
  rw [remember, if_neg (not_or.2 ⟨hke, hid⟩)]
  dsimp only
  rw [hk]
  rw [hins]
  exact ⟨_, rfl, rfl, rfl⟩

omit [NetworkNames] in
theorem commit_stickyID (state config now id) : (AdaptiveKernel.commit state config now id).stickyID = id := by
  rw [AdaptiveKernel.commit]
  split
  · rfl
  · exact not_not.1 ‹_›

omit [NetworkNames] in
theorem tracks_commit (h : Holds state cooldownMs sticky) {x : Candidate} (hx : x.handle.nodeID = x.id) (config now) :
    Tracks cooldownMs (AdaptiveKernel.commit state config now (kernelCandidateID x.id)) (some x.handle) sticky := by
  constructor
  · rw [some_or, HeldBy, commit_stickyID, hx]
  · intro pref hpref hhd
    rw [hpref] at h
    have hid : state.stickyID = kernelCandidateID x.id := by
      rw [h.1, hhd x.handle rfl, hx]
    rw [AdaptiveKernel.commit, if_neg (not_not.2 hid)]
    exact h.2

structure Agrees (s : System) (r : Request) (now : Time) (order : RangeOrder String) (eligible : List Candidate)
    (x : Candidate) : Prop where
  hostFirst : firstOf (hostPlan s r now).2 = some x
  zigFirst : firstOf (zigPlan s r now order).2 = some x
  host : (hostPlan s r now).1 = s.host
  zig : (zigPlan s r now order).1 = s.zig
  kernel : (consult s r now order eligible = (s.kernel, ⟨0, 0⟩)) ∨
    ∃ state : AdaptiveKernel.State, (consult s r now order eligible).1 =
        { s.kernel with engines := s.kernel.engines.insert (stickyKey s.host r.service) state } ∧
      (consult s r now order eligible).2.selectedID ≠ 0 ∧ Room s.kernel (stickyKey s.host r.service) ∧
      Tracks s.kernel.switchCooldownMs state (some x.handle) (s.host.sticky.lookup (stickyKey s.host r.service))

variable {q : ℚ} {s : System} {r : Request} {now : Time} {order : RangeOrder String}

omit [NetworkNames] in
theorem stickyPreferred_eq (h : Simulates s)
    (hunex : ∀ pref ∈ s.host.sticky.lookup key, ¬(pref.until_ ≠ 0 ∧ now > pref.until_ + 24 * hour)) :
    stickyPreferred s.host key now = (s.host, s.host.sticky.lookup key) := by
  rw [stickyPreferred]
  cases hlk : s.host.sticky.lookup key with
  | none => split <;> rfl
  | some pref =>
    obtain ⟨hk, hid, -⟩ := h.stored key pref hlk
    rw [if_neg hk]
    dsimp only
    rw [if_neg hid, if_neg (hunex pref hlk)]

theorem unpinned_of_built {snapshot eligible} (hbuilt : Built r) (hrk : Ranked s.host r snapshot eligible) :
    ∀ c ∈ eligible, r.pinned ≠ some c.id := by
  intro c hc hpin
  have husab := planPinned_none hrk.unpinned
  rw [hrk.drawn, mem_eligible] at hc
  obtain ⟨hm, hsup, hblk⟩ := hc
  rw [usablePin, hpin, bind_some, (hbuilt snapshot hrk.given c hm).1, filter_eq_none_iff] at husab
  exact husab c rfl (by rw [hsup, hblk]; rfl)

def planned (s : System) (r : Request) (now : Time) (eligible : List Candidate) (b : Candidate) : Candidate :=
  firstChoice s.host r.view eligible r.lease (s.host.sticky.lookup (stickyKey s.host r.service)) now b

section

variable {snapshot : ExecutionSnapshot} {eligible : List Candidate} {b : Candidate}

theorem handles_of_built (hbuilt : Built r) (hrk : Ranked s.host r snapshot eligible) :
    ∀ c ∈ eligible, c.handle.nodeID = c.id := by
  intro c hc
  rw [hrk.drawn, mem_eligible] at hc
  exact (hbuilt snapshot hrk.given c hc.1).2

theorem least_of_steady (hrk : Ranked s.host r snapshot eligible) (hsteady : SteadyRanking q s r now eligible) :
    ∃ b, Least (rankKey r.view) eligible b := by
  have hada : PolicyMode.adaptive ≠ .bulk := by decide
  have hfol : Follows (ranksBefore r.view .adaptive) (rankKey r.view) eligible :=
    follows_ranksBefore hada hsteady.comparable.ids
  rcases scan_spec hfol with ⟨hnil, -⟩ | ⟨b, -, hleast⟩
  · exact absurd hnil hrk.nonempty
  · exact ⟨b, hleast⟩

variable (h : Simulates s) (hmode : modeOf r.service = .adaptive ∨ modeOf r.service = .strictAffinity)
  (hbuilt : Built r) (hsteady : SteadyRanking q s r now eligible)
include h hmode hbuilt hsteady

theorem hostPlan_steady (hrk : Ranked s.host r snapshot eligible) (hleast : Least (rankKey r.view) eligible b) :
    (hostPlan s r now).1 = s.host ∧ firstOf (hostPlan s r now).2 = some (planned s r now eligible b) := by
  rw [hostPlan, hrk.plans]
  exact planRanked_host hmode hsteady.comparable.ids (handles_of_built hbuilt hrk) hrk.unleased
    (stickyPreferred_eq h fun pref hpref => (hsteady.standing pref hpref).unexpired) hleast

theorem consult_steady (hq : 0 ≤ q) (hrk : Ranked s.host r snapshot eligible)
    (hleast : Least (rankKey r.view) eligible b) (hk : stickyKey s.host r.service ≠ "")
    (hlen : eligible.length ≤ AdaptiveKernel.maxCandidates) (order) :
    (∃ state, (consult s r now order eligible).1 =
        { s.kernel with engines := s.kernel.engines.insert (stickyKey s.host r.service) state } ∧
      Tracks s.kernel.switchCooldownMs state (some (planned s r now eligible b).handle)
        (s.host.sticky.lookup (stickyKey s.host r.service))) ∧
      (consult s r now order eligible).2.selectedID = kernelCandidateID (planned s r now eligible b).id := by
  have hsome : eligible.map (kernelCandidate r.view r.service r.lease r.pinned) ≠ [] := by
    rw [ne_eq, List.map_eq_nil_iff]
    exact hrk.nonempty
  have hlen' : (eligible.map (kernelCandidate r.view r.service r.lease r.pinned)).length ≤
      AdaptiveKernel.maxCandidates := by
    rw [List.length_map]
    exact hlen
  have hkernelMode : (engineConfig s.kernel (modeOf r.service)).mode = 0 ∨
      (engineConfig s.kernel (modeOf r.service)).mode = 1 := by
    rcases hmode with hmode | hmode <;> rw [hmode]
    · exact .inr rfl
    · exact .inl rfl
  have hhand := handles_of_built hbuilt hrk
  have hh := (h.tracks (stickyKey s.host r.service)).holds hsteady.confirmed
  have hx : planned s r now eligible b ∈ eligible := firstChoice_mem hleast.1
  obtain ⟨hker, hdec⟩ := choose_context hk hsteady.room hsome hlen' order _ now
  have hcomp : Comparable q s.host.switchMargin (engineConfig s.kernel (modeOf r.service)).switchMargin r.view
      eligible := hsteady.comparable
  obtain ⟨hst, hsel⟩ := choose_eq r.service r.lease hcomp hq hhand hkernelMode hh
    hsteady.standing (unpinned_of_built hbuilt hrk) hlen hleast
  rw [consult, h.same]
  have htr := tracks_commit hh (hhand _ hx) (engineConfig s.kernel (modeOf r.service)) (kernelNowMS now)
  refine ⟨⟨_, ?_, htr⟩, ?_⟩
  · rw [hker, hst]
    rfl
  · rw [hdec, hsel]
    rfl

theorem agrees_of_steady (hq : 0 ≤ q) (hrk : ranking s.host r = some eligible) (order) :
    ∃ x, Agrees s r now order eligible x := by
  obtain ⟨snapshot, hrank⟩ := ranked_of_ranking hrk
  obtain ⟨b, hleast⟩ := least_of_steady hrank hsteady
  obtain ⟨hhost, hf⟩ := hostPlan_steady h hmode hbuilt hsteady hrank hleast
  by_cases hask : stickyKey s.host r.service = "" ∨ eligible.length > AdaptiveKernel.maxCandidates
  · have hcons : consult s r now order eligible = (s.kernel, ⟨0, 0⟩) := by
      rw [consult, choose, h.same, if_pos]
      rw [List.length_map]
      exact hask.imp_right .inr
    have hund : zigPlan s r now order = hostPlan s r now := by
      rw [zigPlan, hostPlan, h.same, hrank.plans, hrank.plans]
      apply planRanked_undecided
      rw [hcons]
    refine ⟨planned s r now eligible b, hf, ?_, hhost, ?_, .inl hcons⟩
    · rw [hund]
      exact hf
    · rw [hund, h.same]
      exact hhost
  · obtain ⟨hk, hlen⟩ := not_or.1 hask
    obtain ⟨⟨state, hker, htr⟩, hsel⟩ := consult_steady h hmode hbuilt hsteady hq hrank hleast hk
      (Nat.not_lt.1 hlen) order
    have hzig : (zigPlan s r now order).1 = s.zig ∧
        firstOf (zigPlan s r now order).2 = some (planned s r now eligible b) := by
      rw [zigPlan, h.same, hrank.plans]
      refine planRanked_kernel hmode hsteady.comparable.ids hsteady.comparable.hashes (firstChoice_mem hleast.1)
        hsel ?_
      intro c hc
      rw [planned, firstChoice, hc]
      rfl
    refine ⟨_, hf, hzig.2, hhost, hzig.1, .inr ⟨state, hker, ?_, hsteady.room, htr⟩⟩
    rw [hsel]
    exact kernelCandidateID_ne_zero _

end

omit [NetworkNames] in
theorem simulates_context {unconfirmed e} (h : Simulates s) (hroom : Room s.kernel key)
    (hk : k = { s.kernel with engines := s.kernel.engines.insert key state })
    (he : e.switchCooldown = s.host.switchCooldown)
    (hsto : ∀ pref, e.sticky.lookup key = some pref → key ≠ "" ∧ pref.handle.nodeID ≠ 0)
    (htr : Tracks s.kernel.switchCooldownMs state (unconfirmed.lookup key) (e.sticky.lookup key)) (hoth : ∀
      key', key' ≠ key → unconfirmed.lookup key' = s.unconfirmed.lookup key' ∧ e.sticky.lookup key' =
      s.host.sticky.lookup key') :
    Simulates { host := e, zig := e, kernel := k, unconfirmed := unconfirmed } := by
  have hlk : ∀ key', k.engines.lookup key' = if key' = key then some state else s.kernel.engines.lookup key' := by
    intro key'
    rw [hk]
    exact lookup_set _ key key' state
  have hcool : k.switchCooldownMs = s.kernel.switchCooldownMs := by
    rw [hk]
  refine ⟨rfl, ?_, ?_, ?_, ?_⟩
  · rw [hcool, h.cooldown, he]
  · intro key' pref hpref
    rw [mem_keys_iff, hlk]
    rcases eq_or_ne key' key with rfl | hne
    · exact ⟨(hsto pref hpref).1, (hsto pref hpref).2, state, if_pos rfl⟩
    rw [(hoth key' hne).2] at hpref
    obtain ⟨hke, hid, hm⟩ := h.stored key' pref hpref
    rw [if_neg hne]
    exact ⟨hke, hid, mem_keys_iff.1 hm⟩
  · rw [hk]
    rcases hroom with hm | hlt
    · refine (length_keys_le fun key' hk' => ?_).trans h.bounded
      rcases (AList.mem_insert _).1 hk' with rfl | hk'
      · exact hm
      · exact hk'
    · exact (length_keys_insert_le ..).trans hlt
  · intro key'
    rw [hcool, hlk]
    rcases eq_or_ne key' key with rfl | hne
    · rw [if_pos rfl]
      exact htr
    · rw [if_neg hne, (hoth key' hne).1, (hoth key' hne).2]
      exact h.tracks key'

theorem simulates_plan (hq : 0 ≤ q) (h : Simulates s) (hsteady : Steady q s (.plan r now order)) :
    Simulates (step s (.plan r now order)) := by
  obtain ⟨hmode, hbuilt, hranks⟩ := hsteady
  rw [step]
  rw [h.same]
  cases hrk : ranking s.host r with
  | none =>
    have hhost : (hostPlan s r now).1 = s.host := by
      rw [hostPlan, planFor_unranked hrk]
    have hzig : (zigPlan s r now order).1 = s.host := by
      rw [zigPlan, h.same, planFor_unranked hrk]
    rw [hhost, hzig]
    exact { h with same := rfl }
  | some eligible =>
    obtain ⟨x, hagr⟩ := agrees_of_steady h hmode hbuilt (hranks eligible hrk) hq hrk order
    dsimp only
    rw [hagr.host, hagr.zig, hagr.zigFirst, h.same]
    rcases hagr.kernel with hcons | ⟨state, hker, hsel, hroom, htr⟩
    · rw [hcons]
      exact { h with same := rfl }
    have hnote : noteFirst s r (consult s r now order eligible).2 (some x) =
        s.unconfirmed.insert (stickyKey s.host r.service) x.handle := by
      rw [noteFirst, if_neg hsel, h.same]
    rw [hnote]
    refine simulates_context h hroom hker rfl ?_ ?_ ?_
    · intro pref hpref
      obtain ⟨hk, hid, -⟩ := h.stored _ pref hpref
      exact ⟨hk, hid⟩
    · rw [lookup_set, if_pos rfl]
      exact htr
    · intro key' hne
      rw [lookup_set, if_neg hne]
      exact ⟨rfl, rfl⟩

omit [NetworkNames] in
theorem nextPreference_spec (e key handle now) :
    (nextPreference e key handle now).handle = handle ∧ (nextPreference e key handle now).updatedAt = now := by
  rw [nextPreference]
  split
  · split <;> exact ⟨rfl, rfl⟩
  · exact ⟨rfl, rfl⟩

theorem simulates_remember (h : Simulates s) (hroom : Room s.kernel key) :
    Simulates (step s (.remember key handle now order)) := by
  rw [step, h.same]
  by_cases hrem : remembers s.host key handle = true
  · obtain ⟨⟨hk, hid⟩, -⟩ : (key ≠ "" ∧ handle.nodeID ≠ 0) ∧ s.host.affinityDisabled = false := by
      simpa [remembers] using hrem
    obtain ⟨state, hst, hunt, hker⟩ :=
      remember_context hk hid hroom order now s.host.switchCooldown
    obtain ⟨hhd, hupd⟩ := nextPreference_spec s.host key handle now
    -- every remembered selection has a context, so that there are few of them
    have hfew : ¬(s.host.sticky.insert key (nextPreference s.host key handle now)).keys.length > maxStickyEntries := by
      have hle : s.host.sticky.keys.length ≤ s.kernel.engines.keys.length := by
        refine List.Subperm.length_le (List.subperm_of_subset s.host.sticky.keys_nodup fun key' hk' => ?_)
        obtain ⟨pref, hpref⟩ := mem_keys_iff.1 hk'
        exact (h.stored key' pref hpref).2.2
      have hins := length_keys_insert_le s.host.sticky key (nextPreference s.host key handle now)
      have hbd := h.bounded
      rw [maxStickyEntries]
      rw [adaptiveKernelMaxContexts] at hbd
      omega
    have hstic : rememberSelection s.host order key handle now =
        { s.host with sticky := s.host.sticky.insert key (nextPreference s.host key handle now) } := by
      rw [rememberSelection, if_pos hrem]
      dsimp only
      rw [if_neg hfew]
    rw [if_pos hrem, if_pos hrem, hstic]
    refine simulates_context h hroom hker rfl ?_ ?_ ?_
    · intro pref hpref
      rw [lookup_set, if_pos rfl] at hpref
      rw [← some.inj hpref, hhd]
      exact ⟨hk, hid⟩
    · rw [lookup_del, if_pos rfl, lookup_set, if_pos rfl]
      constructor
      · rw [map_some, hhd]
        exact hst
      · intro pref hpref _
        rw [hunt, h.cooldown, ← some.inj hpref, hupd]
    · intro key' hne
      rw [lookup_del, if_neg hne, lookup_set, if_neg hne]
      exact ⟨rfl, rfl⟩
  · have hsame : rememberSelection s.host order key handle now = s.host := if_neg hrem
    rw [if_neg hrem, if_neg hrem, hsame]
    exact { h with same := rfl }

theorem simulates_forget (h : Simulates s) {service} : Simulates (step s (.forget service handle now)) := by
  rw [step, h.same]
  cases hforg : forgetSelectionAfterEarlyFailure s.host service handle now with
  | none => exact { h with same := rfl }
  | some e =>
    rw [forgetSelectionAfterEarlyFailure] at hforg
    split at hforg
    · cases hforg
    split at hforg
    · rename_i pref hpref
      dsimp only at hforg
      split at hforg
      · cases hforg
      obtain rfl := some.inj hforg
      obtain ⟨hk, -, hm⟩ := h.stored _ pref hpref
      obtain ⟨state, hst⟩ := mem_keys_iff.1 hm
      have hker : forget s.kernel (stickyKey s.host service) =
          { s.kernel with
            engines := s.kernel.engines.insert (stickyKey s.host service)
              { state with stickyID := 0, stickyUntil := 0 } } := by
        rw [forget, if_neg hk, hst]
      dsimp only [getD_some]
      refine simulates_context h (.inl hm) hker rfl ?_ ?_ ?_
      · intro pref' hpref'
        rw [lookup_del, if_pos rfl] at hpref'
        cases hpref'
      · rw [lookup_del, if_pos rfl, lookup_del, if_pos rfl]
        exact ⟨rfl, fun pref' hpref' => by cases hpref'⟩
      · intro key' hne
        rw [lookup_del, if_neg hne, lookup_del, if_neg hne]
        exact ⟨rfl, rfl⟩
    · cases hforg

theorem simulates_step (hq : 0 ≤ q) (s e) (hsteady : Steady q s e) (h : Simulates s) : Simulates (step s e) := by
  cases e with
  | plan r now order => exact simulates_plan hq h hsteady
  | remember key handle now order => exact simulates_remember h hsteady
  | forget service handle now => exact simulates_forget h

/-- In every steady run, the builds with and without the kernel put the same
candidate first. -/
theorem builds_agree (hq : 0 ≤ q) (maxAttempts : Int) (failClosed affinityDisabled : Bool)
    (margin : Float) (cooldown : Duration) (es : List Event) (r : Request) (now : Time) (order : RangeOrder String)
    (hsteady : Meets step (Steady q) (begin_ maxAttempts failClosed affinityDisabled margin cooldown)
      (es ++ [.plan r now order])) :
    firstOf (zigPlan (run step (begin_ maxAttempts failClosed affinityDisabled margin cooldown) es) r now order).2 =
      firstOf (hostPlan (run step (begin_ maxAttempts failClosed affinityDisabled margin cooldown) es) r now).2 := by
  rw [meets_append] at hsteady
  obtain ⟨hbef, ⟨hmode, hbuilt, hranks⟩, -⟩ := hsteady
  have h := run_keeps (fun s e _ => simulates_step hq s e)
    (simulates_begin maxAttempts failClosed affinityDisabled margin cooldown) hbef
  generalize run step (begin_ maxAttempts failClosed affinityDisabled margin cooldown) es = s at h hranks ⊢
  cases hrk : ranking s.host r with
  | none => rw [zigPlan, hostPlan, h.same, planFor_unranked hrk]
  | some eligible =>
    obtain ⟨x, hagr⟩ := agrees_of_steady h hmode hbuilt (hranks eligible hrk) hq hrk order
    rw [hagr.zigFirst, hagr.hostFirst]

end

def candidate (id : NodeID) : Candidate := ⟨id, ⟨id, 0, 1, 1⟩, ["tcp"]⟩

def service : ServiceContext := ⟨"mail", "", "", .adaptive, "tcp"⟩

def request (first second : Int × Int) : Request where
  view c := ⟨false, if c.id = 1 then first.1 else second.1, millisecond * if c.id = 1 then first.2 else second.2, 0, 0.0⟩
  snapshot := some ⟨1, 1, 1, [candidate 1, candidate 2], (AList.insert 1 0 ∅).insert 2 1⟩
  service := service
  lease := none
  pinned := none

def at_ (seconds : Int) : Time := unixEpoch + (1700000000 + seconds) * second

def planAt (seconds : Int) (first second : Int × Int) : Event :=
  .plan (request first second) (at_ seconds) (.stored _)

def rememberAt (seconds : Int) (c : Candidate) : Event := .remember "mail" c.handle (at_ seconds) (.stored _)

def quarter : System := begin_ 3 false false 0.25 (120 * Values.second)

def firsts (s : System) (es : List Event) (seconds : Int) (first second : Int × Int) :
    Option Candidate × Option Candidate :=
  (firstOf (hostPlan (run step s es) (request first second) (at_ seconds)).2,
    firstOf (zigPlan (run step s es) (request first second) (at_ seconds) (.stored _)).2)

theorem faster_challenger_agrees :
    firsts quarter [rememberAt 0 (candidate 1), planAt 1 (0, 100) (0, 80)] 150 (0, 100) (0, 70) =
      (some (candidate 2), some (candidate 2)) := by
  have hagr := builds_agree (q := 1 / 4) (by decide +kernel) 3 false false 0.25 (120 * second)
    [rememberAt 0 (candidate 1), planAt 1 (0, 100) (0, 80)] (request (0, 100) (0, 70)) (at_ 150) (.stored _)
    (by decide +kernel)
  have hhost : firstOf (hostPlan (run step quarter [rememberAt 0 (candidate 1), planAt 1 (0, 100) (0, 80)])
      (request (0, 100) (0, 70)) (at_ 150)).2 = some (candidate 2) := by decide +kernel
  rw [← quarter] at hagr
  rw [firsts, hagr, hhost]

/-- A healthier challenger within the cooldown, a plan that was never confirmed, a
selection that was confirmed twice, and a tie with no margin. -/
theorem builds_diverge :
    firsts quarter [rememberAt 0 (candidate 1)] 1 (2, 100) (0, 100) = (some (candidate 2), some (candidate 1)) ∧
      firsts quarter [planAt 0 (0, 50) (0, 100)] 1 (0, 50) (0, 45) = (some (candidate 2), some (candidate 1)) ∧
      firsts quarter [rememberAt 0 (candidate 1), rememberAt 119 (candidate 1)] 150 (0, 100) (0, 10) =
        (some (candidate 2), some (candidate 1)) ∧
      firsts (begin_ 3 false false 0.0 (120 * second)) [rememberAt 0 (candidate 2)] 150 (0, 100) (0, 100) =
        (some (candidate 2), some (candidate 1)) := by
  decide +kernel

end SingBox.PolicyParity
