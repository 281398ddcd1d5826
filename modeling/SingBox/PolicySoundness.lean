import Mathlib.Data.List.Perm.Basic
import SingBox.PolicyPlan

namespace SingBox.PolicySoundness

open List Option OrderFree Values PolicyPlan
open SessionLeases (SessionLease)

theorem moveCandidateFirst_perm (candidates index) : (moveCandidateFirst candidates index).Perm candidates := by
  rw [moveCandidateFirst]
  split
  case h_1 candidate hget =>
    obtain ⟨hlt, rfl⟩ := List.getElem?_eq_some_iff.1 hget
    exact List.getElem_cons_eraseIdx_perm hlt
  case h_2 => exact .refl _

theorem sortStable_perm (less candidates) : (sortStable less candidates).Perm candidates :=
  (reverse_perm _).trans (perm_sortFromEnd ..)

theorem sortRest_perm (less kernelUsed eligible) : (sortRest less kernelUsed eligible).Perm eligible := by
  rw [sortRest]
  split
  · have hr := (sortStable_perm less (eligible.drop 1)).append_left (eligible.take 1)
    rwa [take_append_drop] at hr
  · exact sortStable_perm less eligible

theorem applyKernel_perm (eligible decision) : (applyKernel eligible decision).1.Perm eligible := by
  cases decision with
  | none => exact .refl _
  | some decision =>
    rw [applyKernel]
    split
    · exact .refl _
    split
    · exact moveCandidateFirst_perm ..
    · exact .refl _

theorem stickyPreferred_maxAttempts (e key now) : (stickyPreferred e key now).1.maxAttempts = e.maxAttempts := by
  rw [stickyPreferred]
  split
  · rfl
  split
  · rfl
  split
  · rfl
  · split <;> rfl

theorem applyStickyStability_spec (e view eligible service now) :
    (applyStickyStability e view eligible service now).1.maxAttempts = e.maxAttempts ∧
      (applyStickyStability e view eligible service now).2.1.Perm eligible := by
  have hmax := stickyPreferred_maxAttempts e (stickyKey e service) now
  rw [applyStickyStability]
  split
  case h_1 e' heq =>
    rw [heq] at hmax
    exact ⟨hmax, .refl _⟩
  case h_2 e' pref heq =>
  rw [heq] at hmax
  split
  · split
    · split
      · exact ⟨hmax, moveCandidateFirst_perm ..⟩
      · exact ⟨hmax, .refl _⟩
    · exact ⟨hmax, .refl _⟩
  · exact ⟨hmax, .refl _⟩

variable {offset : Int} {maxAttempts : Nat}

theorem rotateCandidates_perm {candidates rotated} (h : rotateCandidates candidates offset = some rotated) :
    rotated.Perm candidates := by
  rw [rotateCandidates] at h
  split at h
  · obtain rfl := some.inj h
    exact .refl _
  dsimp only at h
  split at h
  · cases h
  obtain rfl := some.inj h
  refine perm_append_comm.trans ?_
  rw [take_append_drop]

structure Picks (maxAttempts : Nat) (eligible picked : List Candidate) : Prop where
  nonempty : picked ≠ []
  nodup : (picked.map (·.id)).Nodup
  drawn : ∀ c ∈ picked, c ∈ eligible
  bounded : picked.length ≤ maxAttempts

theorem picks_limit {eligible ordered} (hpos : 0 < maxAttempts) (hsome : eligible ≠ [])
    (hids : (eligible.map (·.id)).Nodup) (hperm : ordered.Perm eligible) :
    Picks maxAttempts eligible (limitCandidates ordered maxAttempts) := by
  rw [limitCandidates]
  refine ⟨?_, ?_, ?_, length_take_le ..⟩
  · have hlen : 0 < ordered.length := by
      rw [hperm.length_eq]
      exact length_pos_of_ne_nil hsome
    apply ne_nil_of_length_pos
    rw [length_take]
    omega
  · have hnd : (ordered.map (·.id)).Nodup := (hperm.map _).nodup_iff.2 hids
    exact ((take_sublist ..).map _).nodup hnd
  · intro c hc
    exact hperm.mem_iff.1 (mem_of_mem_take hc)

variable {c : Candidate} {kernelReason : Option DecisionReason} {sequence : UInt64}

theorem picks_single {eligible} (hpos : 0 < maxAttempts) (hc : c ∈ eligible) : Picks maxAttempts eligible [c] :=
  ⟨by simp, by simp, by simpa using hc, hpos⟩

def Plans (e : PolicyEngine) (eligible : List Candidate) (p : DecisionPlan) : Prop :=
  Picks e.maxAttempts eligible p.candidates ∧ p.allowBlocked = false

variable {e : PolicyEngine} {view : HealthView} {snapshot : ExecutionSnapshot} {service : ServiceContext}
  {lease : Option SessionLease} {pinned : Option NodeID} {mode : PolicyMode}
  {kernel : Option (List Candidate → KernelDecision)} {now : Time} {eligible ordered : List Candidate}
  {p : DecisionPlan}

section

variable (hsome : eligible ≠ []) (hids : (eligible.map (·.id)).Nodup) (hperm : ordered.Perm eligible)
include hsome hids hperm

theorem plans_limited (reason) : Plans e eligible (limitedPlan e snapshot mode reason service ordered) :=
  ⟨picks_limit e.attempts_pos hsome hids hperm, rfl⟩

theorem plans_rotated (h : rotatedPlan e snapshot service ordered offset = .ok p) :
    Plans e eligible p ∧ p.mode = .bulk := by
  rw [rotatedPlan] at h
  split at h
  case h_1 rotated hrot =>
    obtain rfl := Except.ok.inj h
    exact ⟨plans_limited hsome hids ((rotateCandidates_perm hrot).trans hperm) _, rfl⟩
  case h_2 => cases h

theorem plans_bulk (h : planBulk e view snapshot service kernelReason sequence ordered = .ok p) :
    Plans e eligible p ∧ p.mode = .bulk := by
  cases kernelReason with
  | some reason =>
    obtain rfl := Except.ok.inj h
    exact ⟨plans_limited hsome hids hperm _, rfl⟩
  | none =>
    rw [planBulk] at h
    split at h
    · split at h
      · obtain rfl := Except.ok.inj h
        exact ⟨plans_limited hsome hids hperm _, rfl⟩
      · exact plans_rotated hsome hids hperm h
    · exact plans_rotated hsome hids hperm h

theorem plans_mode {reason}
    (h : planMode e view snapshot service mode lease kernelReason reason sequence ordered = .ok p) :
    Plans e eligible p ∧ p.mode = mode := by
  cases mode with
  | strictAffinity =>
    rw [planMode] at h
    split at h
    case h_1 candidate hf =>
      obtain rfl := Except.ok.inj h
      exact ⟨⟨picks_single e.attempts_pos (hperm.mem_iff.1 (mem_of_find?_eq_some hf)), rfl⟩, rfl⟩
    case h_2 =>
      obtain rfl := Except.ok.inj h
      exact ⟨plans_limited hsome hids hperm _, rfl⟩
  | bulk => exact plans_bulk hsome hids hperm h
  | adaptive | latency =>
    obtain rfl := Except.ok.inj h
    exact ⟨plans_limited hsome hids hperm _, rfl⟩
  | manual | unset => cases h

end

theorem planRanked_eq (e view snapshot service mode lease pinned kernel now eligible) :
    ∃ e' kernelReason reason ordered, planRanked e view snapshot service mode lease pinned kernel now eligible =
        (e', planMode e' view snapshot service mode lease kernelReason reason e'.bulkSequence ordered) ∧
      e'.maxAttempts = e.maxAttempts ∧ ordered.Perm eligible := by
  rw [planRanked]
  have hker := applyKernel_perm eligible (kernel.map fun choose => choose eligible)
  generalize applyKernel eligible _ = answer at hker ⊢
  obtain ⟨moved, kernelReason⟩ := answer
  dsimp only at hker ⊢
  have hsort := (sortRest_perm (ranksBefore view mode) kernelReason.isSome moved).trans hker
  have hmax : (if mode = .bulk then { e with bulkSequence := e.bulkSequence + 1 } else e).maxAttempts =
      e.maxAttempts := by
    split <;> rfl
  generalize (if mode = .bulk then { e with bulkSequence := e.bulkSequence + 1 } else e) = e' at hmax ⊢
  split
  case isTrue =>
    obtain ⟨hmax', hperm⟩ := applyStickyStability_spec e' view
      (sortRest _ kernelReason.isSome moved) service now
    exact ⟨_, kernelReason, _, _, rfl, hmax'.trans hmax, hperm.trans hsort⟩
  case isFalse => exact ⟨e', kernelReason, _, _, rfl, hmax, hsort⟩

theorem plans_ranked (hsome : eligible ≠ []) (hids : (eligible.map (·.id)).Nodup)
    (h : (planRanked e view snapshot service mode lease pinned kernel now eligible).2 = .ok p) :
    Plans e eligible p ∧ p.mode = mode := by
  obtain ⟨e', kernelReason, reason, ordered, heq, hmax, hperm⟩ :=
    planRanked_eq e view snapshot service mode lease pinned kernel now eligible
  rw [heq] at h
  obtain ⟨⟨hpicks, hblk⟩, hm⟩ := plans_mode hsome hids hperm h
  exact ⟨⟨hmax ▸ hpicks, hblk⟩, hm⟩

theorem leased_unique {d} (hids : (eligible.map (·.id)).Nodup) (hc : c ∈ eligible) (hd : d ∈ eligible)
    (hls : leasedBy lease c = true) (hls' : leasedBy lease d = true) : c = d := by
  cases lease with
  | none => cases hls
  | some lease =>
    simp only [leasedBy, any_some, Bool.and_eq_true, beq_iff_eq] at hls hls'
    exact inj_on_of_nodup_map hids hc hd (hls.1.1.trans hls'.1.1.symm)

theorem planRanked_strict (hids : (eligible.map (·.id)).Nodup) (hc : c ∈ eligible) (hls : leasedBy lease c = true)
    (h : (planRanked e view snapshot service .strictAffinity lease pinned kernel now eligible).2 = .ok p) :
    p.candidates = [c] := by
  obtain ⟨e', kernelReason, reason, ordered, heq, -, hperm⟩ :=
    planRanked_eq e view snapshot service .strictAffinity lease pinned kernel now eligible
  rw [heq, planMode] at h
  split at h
  case h_1 d hf =>
    obtain rfl := Except.ok.inj h
    have hd := hperm.mem_iff.1 (mem_of_find?_eq_some hf)
    rw [leased_unique hids hc hd hls (find?_some hf)]
    rfl
  case h_2 hf =>
    exact absurd hls (find?_eq_none.1 hf c (hperm.mem_iff.2 hc))

theorem head_moveCandidateFirst {index} (hids : (eligible.map (·.id)).Nodup) (hc : c ∈ eligible)
    (hls : leasedBy lease c = true) (hf : eligible.findIdx? (leasedBy lease) = some index) :
    (moveCandidateFirst eligible index).head? = some c := by
  obtain ⟨hlt, hidx, -⟩ := findIdx?_eq_some_iff_getElem.1 hf
  have huniq := leased_unique hids hc (getElem_mem hlt) hls hidx
  rw [moveCandidateFirst, getElem?_eq_getElem hlt, huniq]
  rfl

theorem mem_of_lookupCandidate {id} (h : lookupCandidate snapshot id = some c) : c ∈ snapshot.candidates := by
  rw [lookupCandidate] at h
  split at h
  · split at h
    · cases h
    · exact mem_of_getElem? h
  · cases h

section

variable [NetworkNames]

def usablePin (view : HealthView) (snapshot : ExecutionSnapshot) (service : ServiceContext)
    (pinned : Option NodeID) : Option Candidate :=
  (pinned.bind (lookupCandidate snapshot)).filter fun c =>
    candidateSupports c service.transport && !(view c).blocked

inductive Outcome (e : PolicyEngine) (view : HealthView) (snapshot : ExecutionSnapshot) (service : ServiceContext)
    (lease : Option SessionLease) (pinned : Option NodeID) (kernel : Option (List Candidate → KernelDecision))
    (now : Time) (p : DecisionPlan) : Prop
  | pinned {c : Candidate} (hpin : usablePin view snapshot service pinned = some c)
      (hplan : p = makePlan snapshot .manual .manualPin service [c])
  | warming (hpin : usablePin view snapshot service pinned = none)
      (hnone : eligibleCandidates view snapshot service = []) (hsome : supportedCandidates snapshot service ≠ [])
      (hplan : p = warmingPlan snapshot (modeOf service) service (supportedCandidates snapshot service))
  | leased {index : Nat} (hpin : usablePin view snapshot service pinned = none)
      (hsome : eligibleCandidates view snapshot service ≠ []) (hmode : modeOf service = .adaptive)
      (hfind : (eligibleCandidates view snapshot service).findIdx? (leasedBy lease) = some index)
      (hplan : p = limitedPlan e snapshot (modeOf service) .lease service
        (moveCandidateFirst (eligibleCandidates view snapshot service) index))
  | ranked (hpin : usablePin view snapshot service pinned = none)
      (hsome : eligibleCandidates view snapshot service ≠ [])
      (hfind : modeOf service = .adaptive →
        (eligibleCandidates view snapshot service).findIdx? (leasedBy lease) = none)
      (hplan : (planRanked e view snapshot service (modeOf service) lease pinned kernel now
        (eligibleCandidates view snapshot service)).2 = .ok p)

theorem planPinned_ok (h : planPinned e view snapshot service pinned = some (.ok p)) :
    ∃ c, usablePin view snapshot service pinned = some c ∧ p = makePlan snapshot .manual .manualPin service [c] := by
  cases pinned with
  | none => cases h
  | some id =>
    rw [planPinned] at h
    split at h
    case h_1 c hlk =>
      split at h
      case isTrue husab =>
        refine ⟨c, ?_, (Except.ok.inj (some.inj h)).symm⟩
        rw [usablePin, bind_some, hlk]
        exact filter_some_pos husab
      case isFalse => split at h <;> cases h
    case h_2 => split at h <;> cases h

theorem planPinned_none (h : planPinned e view snapshot service pinned = none) :
    usablePin view snapshot service pinned = none := by
  cases pinned with
  | none => rfl
  | some id =>
    rw [planPinned] at h
    rw [usablePin, bind_some]
    split at h
    case h_1 c hlk =>
      split at h
      case isTrue => cases h
      case isFalse husab =>
        rw [hlk]
        exact filter_some_neg (Bool.eq_false_of_not_eq_true husab)
    case h_2 hlk =>
      rw [hlk]
      rfl

theorem outcome_of_plan {e'} (h : plan e view (some snapshot) service lease pinned kernel now = (e', .ok p)) :
    Outcome e view snapshot service lease pinned kernel now p := by
  rw [plan] at h
  dsimp only at h
  split at h
  case h_1 result hres =>
    obtain ⟨-, rfl⟩ := Prod.mk.inj h
    obtain ⟨c, hpin, hplan⟩ := planPinned_ok hres
    exact .pinned hpin hplan
  case h_2 hpinn =>
  have hpin := planPinned_none hpinn
  split at h
  case isTrue hno =>
    split at h
    case isTrue hsup =>
      rw [Bool.and_eq_true] at hsup
      refine .warming hpin (isEmpty_iff.1 hno) ?_ (Except.ok.inj (Prod.mk.inj h).2).symm
      intro hemp
      rw [hemp] at hsup
      exact absurd hsup.1 (by decide)
    case isFalse => cases (Prod.mk.inj h).2
  case isFalse hno =>
    have hsome : eligibleCandidates view snapshot service ≠ [] := fun hemp => hno (isEmpty_iff.2 hemp)
    split at h
    case h_1 index hf =>
      split at hf
      case isTrue hm => exact .leased hpin hsome hm hf (Except.ok.inj (Prod.mk.inj h).2).symm
      case isFalse => cases hf
    case h_2 hf =>
    refine .ranked hpin hsome ?_ (congrArg Prod.snd h)
    intro hm
    rwa [if_pos hm] at hf

variable {c : Candidate}

theorem mem_eligible : c ∈ eligibleCandidates view snapshot service ↔
      c ∈ snapshot.candidates ∧ candidateSupports c service.transport = true ∧ (view c).blocked = false := by
  rw [eligibleCandidates, mem_filter, Bool.and_eq_true, Bool.not_eq_true']

theorem eligible_of_usablePin (h : usablePin view snapshot service pinned = some c) :
    c ∈ eligibleCandidates view snapshot service := by
  obtain ⟨hbind, husab⟩ := filter_eq_some_iff.1 h
  obtain ⟨id, -, hlk⟩ := bind_eq_some_iff.1 hbind
  rw [Bool.and_eq_true, Bool.not_eq_true'] at husab
  exact mem_eligible.2 ⟨mem_of_lookupCandidate hlk, husab⟩

structure SoundPlan (e : PolicyEngine) (view : HealthView) (snapshot : ExecutionSnapshot) (service : ServiceContext)
    (lease : Option SessionLease) (pinned : Option NodeID) (p : DecisionPlan) : Prop where
  nonempty : p.candidates ≠ []
  distinct : (p.candidates.map (·.id)).Nodup
  drawn : ∀ c ∈ p.candidates, c ∈ snapshot.candidates
  supported : ∀ c ∈ p.candidates, candidateSupports c service.transport = true
  bounded : p.candidates.length ≤ e.maxAttempts
  unblocked : p.allowBlocked = false → ∀ c ∈ p.candidates, (view c).blocked = false
  warming : p.allowBlocked = true → p.candidates.length = 1 ∧ p.disableHedge = true ∧
    ∀ c ∈ snapshot.candidates, candidateSupports c service.transport = true → (view c).blocked = true
  manual : ∀ c, usablePin view snapshot service pinned = some c → p.mode = .manual ∧ p.candidates = [c]
  unpinned : usablePin view snapshot service pinned = none → p.mode = modeOf service
  strict : p.mode = .strictAffinity → ∀ c ∈ eligibleCandidates view snapshot service, leasedBy lease c = true →
    p.candidates = [c]
  adaptive : p.mode = .adaptive → ∀ c ∈ eligibleCandidates view snapshot service, leasedBy lease c = true →
    p.candidates.head? = some c

theorem usablePin_exclusive (hpin : usablePin view snapshot service pinned = none)
    (hpin' : usablePin view snapshot service pinned = some c) : False := by
  rw [hpin] at hpin'
  cases hpin'

theorem sound_pinned (hpin : usablePin view snapshot service pinned = some c) :
    SoundPlan e view snapshot service lease pinned (makePlan snapshot .manual .manualPin service [c]) := by
  obtain ⟨hm, hsup, hblk⟩ := mem_eligible.1 (eligible_of_usablePin hpin)
  refine { nonempty := cons_ne_nil _ _, distinct := nodup_singleton _, bounded := e.attempts_pos
           drawn := forall_mem_singleton.2 hm, supported := forall_mem_singleton.2 hsup
           unblocked := fun _ => forall_mem_singleton.2 hblk, warming := nofun, manual := ?_, unpinned := ?_
           strict := nofun, adaptive := nofun }
  · intro d hd
    obtain rfl := mem_unique hpin hd
    exact ⟨rfl, rfl⟩
  · intro hno
    exact (usablePin_exclusive hno hpin).elim

theorem sound_warming (hpin : usablePin view snapshot service pinned = none)
    (hno : eligibleCandidates view snapshot service = []) (hsome : supportedCandidates snapshot service ≠ []) :
    SoundPlan e view snapshot service lease pinned
      (warmingPlan snapshot (modeOf service) service (supportedCandidates snapshot service)) := by
  obtain ⟨c, rest, hcons⟩ := exists_cons_of_ne_nil hsome
  have hcand : (warmingPlan snapshot (modeOf service) service
      (supportedCandidates snapshot service)).candidates = [c] := by
    rw [hcons]
    rfl
  have hc : c ∈ supportedCandidates snapshot service := by
    rw [hcons]
    exact mem_cons_self
  obtain ⟨hm, hsup⟩ := mem_filter.1 hc
  have hall : ∀ d ∈ snapshot.candidates, candidateSupports d service.transport = true →
      (view d).blocked = true := by
    intro d hd hsup
    by_contra hblk
    have hd' : d ∈ eligibleCandidates view snapshot service :=
      mem_eligible.2 ⟨hd, hsup, Bool.eq_false_of_not_eq_true hblk⟩
    rw [hno] at hd'
    exact not_mem_nil hd'
  refine { nonempty := ?_, distinct := ?_, bounded := ?_, drawn := ?_, supported := ?_, unblocked := nofun
           warming := ?_, manual := ?_, unpinned := fun _ => rfl, strict := ?_, adaptive := ?_ }
  · rw [hcand]
    exact cons_ne_nil _ _
  · rw [hcand]
    exact nodup_singleton _
  · rw [hcand]
    exact forall_mem_singleton.2 hm
  · rw [hcand]
    exact forall_mem_singleton.2 hsup
  · rw [hcand]
    exact e.attempts_pos
  · intro _
    rw [hcand]
    exact ⟨rfl, rfl, hall⟩
  · intro d hd
    exact (usablePin_exclusive hpin hd).elim
  · intro _ d hd
    rw [hno] at hd
    exact (not_mem_nil hd).elim
  · intro _ d hd
    rw [hno] at hd
    exact (not_mem_nil hd).elim

theorem sound_of_plans (hpin : usablePin view snapshot service pinned = none)
    (h : Plans e (eligibleCandidates view snapshot service) p) (hm : p.mode = modeOf service)
    (hstr : p.mode = .strictAffinity → ∀ c ∈ eligibleCandidates view snapshot service,
      leasedBy lease c = true → p.candidates = [c])
    (hada : p.mode = .adaptive → ∀ c ∈ eligibleCandidates view snapshot service,
      leasedBy lease c = true → p.candidates.head? = some c) : SoundPlan e view snapshot service lease pinned p := by
  obtain ⟨hpicks, hall⟩ := h
  exact
    { nonempty := hpicks.nonempty
      distinct := hpicks.nodup
      drawn := fun c hc => (mem_eligible.1 (hpicks.drawn c hc)).1
      supported := fun c hc => (mem_eligible.1 (hpicks.drawn c hc)).2.1
      bounded := hpicks.bounded
      unblocked := fun _ c hc => (mem_eligible.1 (hpicks.drawn c hc)).2.2
      warming := fun hwarm => absurd (hall.symm.trans hwarm) (by decide)
      manual := fun c hc => (usablePin_exclusive hpin hc).elim
      unpinned := fun _ => hm
      strict := hstr
      adaptive := hada }

theorem plan_sound (e : PolicyEngine) (view : HealthView) (snapshot : ExecutionSnapshot) (service : ServiceContext)
    (lease : Option SessionLease) (pinned : Option NodeID) (kernel : Option (List Candidate → KernelDecision))
    (now : Time) (hids : (snapshot.candidates.map (·.id)).Nodup) (e' : PolicyEngine) (p : DecisionPlan)
    (h : plan e view (some snapshot) service lease pinned kernel now = (e', .ok p)) :
    SoundPlan e view snapshot service lease pinned p := by
  have hids' : ((eligibleCandidates view snapshot service).map (·.id)).Nodup :=
    (filter_sublist.map _).nodup hids
  cases outcome_of_plan h with
  | pinned hpin hplan =>
    rw [hplan]
    exact sound_pinned hpin
  | warming hpin hno hsome hplan =>
    rw [hplan]
    exact sound_warming hpin hno hsome
  | @leased index hpin hsome hm hf hplan =>
    have hperm := moveCandidateFirst_perm (eligibleCandidates view snapshot service) index
    rw [hplan]
    refine sound_of_plans hpin (plans_limited hsome hids' hperm _) rfl ?_ ?_
    · intro hstr
      cases hm.symm.trans hstr
    · intro _ c hc hls
      have hhead := head_moveCandidateFirst hids' hc hls hf
      change (List.take e.maxAttempts _).head? = some c
      rw [head?_take, if_neg e.attempts_pos.ne', hhead]
  | ranked hpin hsome hf hplan =>
    obtain ⟨hplans, hm⟩ := plans_ranked hsome hids' hplan
    refine sound_of_plans hpin hplans hm ?_ ?_
    · intro hstr c hc hls
      rw [← hm, hstr] at hplan
      exact planRanked_strict hids' hc hls hplan
    · intro hada c hc hls
      have hno := findIdx?_eq_none_iff.1 (hf (hm.symm.trans hada)) c hc
      exact absurd (hno.symm.trans hls) (by decide)

end

def twoNodes : ExecutionSnapshot :=
  { runtimeEpochID := 1, catalogRevision := 1, generation := 1
    candidates := [⟨1, ⟨1, 0, 1, 1⟩, ["tcp"]⟩, ⟨2, ⟨2, 1, 1, 1⟩, ["tcp", "udp"]⟩]
    byID := (AList.insert (2 : NodeID) (1 : Int) (AList.insert 1 0 ∅)) }

def account : ServiceContext :=
  { id := "ai", affinityID := "", session := "s", mode := .strictAffinity, transport := "tcp" }

def secondNode : SessionLease :=
  { key := 1, nodeID := 2, nodeSlot := 1, nodeVersion := 1, serviceID := "ai", mode := .strictAffinity
    expiresAt := 0, updatedAt := 0 }

def idle : HealthView := fun _ => ⟨false, 0, 100, 0, 0.0⟩

theorem leased_account_sound :
    (twoNodes.candidates.map (·.id)).Nodup ∧
      ∃ p, (plan (newPolicyEngine 0 false) idle (some twoNodes) account (some secondNode) none none 5).2 = .ok p ∧
        p.candidates.map (·.id) = [2] ∧
        SoundPlan (newPolicyEngine 0 false) idle twoNodes account (some secondNode) none p := by
  refine ⟨by decide, _, rfl, by decide +kernel, ?_⟩
  exact plan_sound _ _ _ _ _ _ none 5 (by decide) _ _ rfl

end SingBox.PolicySoundness
