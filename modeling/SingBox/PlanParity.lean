import SingBox.KernelParity

namespace SingBox.PlanParity

open List Option Values OrderFree PolicyPlan PolicySoundness KernelParity
open SessionLeases (SessionLease)

def firstOf (result : Except PlanError DecisionPlan) : Option Candidate :=
  match result with
  | .ok p => p.candidates.head?
  | .error _ => none

variable {index : Nat} {c : Candidate} {kernel : List Candidate → KernelDecision}

section

variable {q : ℚ} {e : PolicyEngine} {view : HealthView} {snapshot : ExecutionSnapshot} {service : ServiceContext}
  {mode : PolicyMode} {lease : Option SessionLease} {pinned : Option NodeID} {now : Time}
  {eligible ordered : List Candidate} {sticky : Option StickyPreference} {b : Candidate}

theorem find?_of_findIdx? {α : Type} {p} {l : List α} (h : l.findIdx? p = some index) :
    ∃ a, l[index]? = some a ∧ l.find? p = some a := by
  obtain ⟨hlt, hp, hbef⟩ := findIdx?_eq_some_iff_getElem.1 h
  refine ⟨l[index], getElem?_eq_getElem hlt, find?_eq_some_iff_getElem.2 ⟨hp, index, hlt, rfl, ?_⟩⟩
  intro j hj
  exact Bool.not_eq_true' _ ▸ Bool.eq_false_iff.2 (hbef j hj)

theorem head?_moveCandidateFirst (h : eligible[index]? = some c) :
    (moveCandidateFirst eligible index).head? = some c := by
  rw [moveCandidateFirst, h]
  rfl

theorem incumbent_unique {pref d} (hids : (eligible.map (·.id)).Nodup)
    (hhand : ∀ c ∈ eligible, c.handle.nodeID = c.id) (hc : c ∈ eligible) (hd : d ∈ eligible)
    (hinc : isIncumbent pref c = true) (hinc' : isIncumbent pref d = true) : c = d := by
  apply inj_on_of_nodup_map hids hc hd
  rw [id_of_isIncumbent (hhand c hc) hinc, id_of_isIncumbent (hhand d hd) hinc']

theorem applyStickyStability_head (view) (hids : (eligible.map (·.id)).Nodup)
    (hhand : ∀ c ∈ eligible, c.handle.nodeID = c.id) (hp : ordered.Perm eligible)
    (hhead : ordered.head? = some b) (hstic : stickyPreferred e (stickyKey e service) now = (e, sticky)) :
    (applyStickyStability e view ordered service now).1 = e ∧
      (applyStickyStability e view ordered service now).2.1.head? = some (stableChoice e view eligible sticky now b) := by
  rw [applyStickyStability, hstic]
  cases sticky with
  | none => exact ⟨rfl, hhead⟩
  | some pref =>
    obtain ⟨rest, rfl⟩ : ∃ rest, ordered = b :: rest := by
      cases ordered with
      | nil => cases hhead
      | cons a rest => exact ⟨rest, by rw [some.inj hhead]⟩
    have hfd : eligible.find? (isIncumbent pref) = (b :: rest).find? (isIncumbent pref) :=
      find?_eq_of_perm hp.symm fun c hc d => incumbent_unique hids hhand hc
    rw [stableChoice, bind_some, hfd]
    dsimp only
    cases hidx : (b :: rest).findIdx? (isIncumbent pref) with
    | none =>
      have hno : (b :: rest).find? (isIncumbent pref) = none := by
        rw [find?_eq_none]
        intro c hc
        exact Bool.eq_false_iff.1 (findIdx?_eq_none_iff.1 hidx c hc)
      rw [hno]
      exact ⟨rfl, rfl⟩
    | some index =>
      obtain ⟨i, hget, hf⟩ := find?_of_findIdx? hidx
      rw [hf]
      cases index with
      | zero =>
        obtain rfl := some.inj hget
        simp
      | succ index =>
        have hne : i ≠ b := by
          rintro rfl
          obtain ⟨_, _, hbef⟩ := findIdx?_eq_some_iff_getElem.1 hidx
          exact hbef 0 (Nat.succ_pos _) (find?_some hf)
        dsimp only [map_some]
        rw [hget]
        dsimp only
        cases hkeep : keepsIncumbent e view pref b i now with
        | none => exact ⟨rfl, by simp⟩
        | some reason => exact ⟨rfl, by simpa [hne] using head?_moveCandidateFirst hget⟩

section

variable (hmode : mode = .adaptive ∨ mode = .strictAffinity)
include hmode

section

variable (hids : (eligible.map (·.id)).Nodup)
include hids

theorem firstOf_planMode (hp : ordered.Perm eligible) (kernelReason reason sequence) :
    firstOf (planMode e view snapshot service mode lease kernelReason reason sequence ordered) =
      (if mode = .strictAffinity then eligible.find? (leasedBy lease) else none).or ordered.head? := by
  have hlim : (limitCandidates ordered e.maxAttempts).head? = ordered.head? := by
    rw [limitCandidates, head?_take, if_neg (Nat.ne_of_gt e.attempts_pos)]
  rcases hmode with rfl | rfl
  · exact hlim
  have hf : eligible.find? (leasedBy lease) = ordered.find? (leasedBy lease) :=
    find?_eq_of_perm hp.symm fun c hc d => leased_unique hids hc
  rw [planMode, hf]
  cases ordered.find? (leasedBy lease) with
  | some c => rfl
  | none => exact hlim

theorem planRanked_host (hhand : ∀ c ∈ eligible, c.handle.nodeID = c.id)
    (hls : mode = .adaptive → eligible.find? (leasedBy lease) = none)
    (hstic : stickyPreferred e (stickyKey e service) now = (e, sticky)) (hleast : Least (rankKey view) eligible b) :
    (planRanked e view snapshot service mode lease pinned none now eligible).1 = e ∧
      firstOf (planRanked e view snapshot service mode lease pinned none now eligible).2 =
        some (firstChoice e view eligible lease sticky now b) := by
  have hbulk : mode ≠ .bulk := by
    rcases hmode with rfl | rfl <;> decide
  have hp := sortStable_perm (ranksBefore view mode) eligible
  have hhead : (sortStable (ranksBefore view mode) eligible).head? = some b := by
    rw [sortStable, head?_sortFromEnd (follows_ranksBefore hbulk hids)]
    exact scan_eq_of_least (follows_ranksBefore hbulk hids) hleast
  obtain ⟨heng, hf⟩ := applyStickyStability_head view hids hhand hp hhead hstic
  have hord := (applyStickyStability_spec e view _ service now).2.trans hp
  set out := applyStickyStability e view (sortStable (ranksBefore view mode) eligible) service now with hout
  have hplan : planRanked e view snapshot service mode lease pinned none now eligible =
      (out.1, planMode e view snapshot service mode lease none
        (out.2.2.getD (if pinned.isSome then .fallback else .ranked)) e.bulkSequence out.2.1) := by
    rw [planRanked, if_neg hbulk]
    simp only [map_none, applyKernel, sortRest, isSome_none, isNone_none, Bool.false_eq_true,
      if_false, true_and, if_pos hmode, ← hout, heng, getD_none]
  rw [hplan]
  refine ⟨heng, ?_⟩
  rw [firstOf_planMode hmode hids hord, hf, firstChoice]
  rcases hmode with rfl | rfl
  · rw [hls rfl]
    rfl
  · cases eligible.find? (leasedBy lease) <;> rfl

theorem planRanked_kernel (hhash : (eligible.map fun c => kernelCandidateID c.id).Nodup) {x : Candidate}
    (hx : x ∈ eligible) (hker : (kernel eligible).selectedID = kernelCandidateID x.id)
    (hls : ∀ c, eligible.find? (leasedBy lease) = some c → x = c) :
    (planRanked e view snapshot service mode lease pinned (some kernel) now eligible).1 = e ∧
      firstOf (planRanked e view snapshot service mode lease pinned (some kernel) now eligible).2 = some x := by
  have hbulk : mode ≠ .bulk := by
    rcases hmode with rfl | rfl <;> decide
  obtain ⟨index, hidx⟩ : ∃ index, eligible.findIdx? (fun c => kernelCandidateID c.id == (kernel eligible).selectedID) =
      some index := by
    rw [← Option.isSome_iff_exists, List.findIdx?_isSome, List.any_eq_true]
    exact ⟨x, hx, beq_iff_eq.2 hker.symm⟩
  obtain ⟨c, hget, hfd⟩ := find?_of_findIdx? hidx
  have hc : c = x := by
    have hid := List.find?_some hfd
    exact List.inj_on_of_nodup_map hhash (List.mem_of_find?_eq_some hfd) hx ((beq_iff_eq.1 hid).trans hker)
  subst hc
  have happly : applyKernel eligible (some (kernel eligible)) =
      (moveCandidateFirst eligible index, some (kernelDecisionReason (kernel eligible).reason)) := by
    rw [applyKernel, if_neg, hidx]
    rw [hker]
    exact kernelCandidateID_ne_zero _
  have hhead : (sortRest (ranksBefore view mode) true (moveCandidateFirst eligible index)).head? = some c := by
    rw [sortRest, List.take_one, head?_moveCandidateFirst hget]
    rfl
  have hp := (sortRest_perm (ranksBefore view mode) true _).trans
    (moveCandidateFirst_perm eligible index)
  have hplan : ∃ reason, planRanked e view snapshot service mode lease pinned (some kernel) now eligible =
      (e, planMode e view snapshot service mode lease (some (kernelDecisionReason (kernel eligible).reason)) reason
        e.bulkSequence (sortRest (ranksBefore view mode) true (moveCandidateFirst eligible index))) := by
    rw [planRanked, if_neg hbulk]
    simp only [Option.map_some, happly, Option.isSome_some, Option.isNone_some, Bool.false_eq_true, false_and, if_false]
    exact ⟨_, rfl⟩
  obtain ⟨reason, hplan⟩ := hplan
  rw [hplan]
  refine ⟨rfl, ?_⟩
  rw [firstOf_planMode hmode hids hp, hhead]
  split
  · cases hf : eligible.find? (leasedBy lease) with
    | none => rfl
    | some d => rw [hls d hf, Option.some_or]
  · rfl

end

end

theorem planRanked_undecided (h : (kernel eligible).selectedID = 0) :
    planRanked e view snapshot service mode lease pinned (some kernel) now eligible =
      planRanked e view snapshot service mode lease pinned none now eligible := by
  have happly : applyKernel eligible (some (kernel eligible)) = applyKernel eligible none := if_pos h
  rw [planRanked, planRanked, map_some, map_none, happly]

end

structure Request where
  view : HealthView
  snapshot : Option ExecutionSnapshot
  service : ServiceContext
  lease : Option SessionLease
  pinned : Option NodeID

section

variable [NetworkNames] {e : PolicyEngine} {r : Request} {now : Time}

def planFor (e : PolicyEngine) (r : Request) (kernel : Option (List Candidate → KernelDecision)) (now : Time) :
    PolicyEngine × Except PlanError DecisionPlan :=
  plan e r.view r.snapshot r.service r.lease r.pinned kernel now

def ranking (e : PolicyEngine) (r : Request) : Option (List Candidate) :=
  r.snapshot.bind fun snapshot =>
    let eligible := eligibleCandidates r.view snapshot r.service
    if (planPinned e r.view snapshot r.service r.pinned).isSome ∨ eligible = [] ∨
        modeOf r.service = .adaptive ∧ (eligible.findIdx? (leasedBy r.lease)).isSome then none
    else some eligible

theorem planFor_unranked (h : ranking e r = none) (kernel) :
    planFor e r kernel now = (e, (planFor e r none now).2) := by
  rw [planFor, planFor]
  cases hsnap : r.snapshot with
  | none => rfl
  | some snapshot =>
    rw [ranking, hsnap, bind_some] at h
    rw [plan, plan]
    dsimp only at h ⊢
    split at h
    · rename_i hearly
      cases hpin : planPinned e r.view snapshot r.service r.pinned with
      | some result => rfl
      | none =>
        rw [hpin] at hearly
        dsimp only
        by_cases hemp : eligibleCandidates r.view snapshot r.service = []
        · rw [hemp, isEmpty_nil, if_pos rfl]
          split <;> rfl
        obtain ⟨hmode, hls⟩ := (hearly.resolve_left (by simp)).resolve_left hemp
        obtain ⟨index, hidx⟩ := isSome_iff_exists.1 hls
        have hnon : (eligibleCandidates r.view snapshot r.service).isEmpty = false :=
          isEmpty_eq_false_iff.2 hemp
        rw [hnon, if_pos hmode, hidx]
        rfl
    · cases h

structure Ranked (e : PolicyEngine) (r : Request) (snapshot : ExecutionSnapshot) (eligible : List Candidate) :
    Prop where
  given : r.snapshot = some snapshot
  drawn : eligible = eligibleCandidates r.view snapshot r.service
  nonempty : eligible ≠ []
  unpinned : planPinned e r.view snapshot r.service r.pinned = none
  unleased : modeOf r.service = .adaptive → eligible.find? (leasedBy r.lease) = none
  plans : ∀ kernel now, planFor e r kernel now =
    planRanked e r.view snapshot r.service (modeOf r.service) r.lease r.pinned kernel now eligible

theorem ranked_of_ranking {eligible} (h : ranking e r = some eligible) :
    ∃ snapshot, Ranked e r snapshot eligible := by
  obtain ⟨snapshot, hsnap, h⟩ := bind_eq_some_iff.1 h
  dsimp only at h
  split at h
  · cases h
  rename_i hlate
  obtain rfl := some.inj h
  rw [not_or, not_or, not_and] at hlate
  obtain ⟨hpin, hnon, hls⟩ := hlate
  have hpin := not_isSome_iff_eq_none.1 hpin
  have hidx : modeOf r.service = .adaptive →
      (eligibleCandidates r.view snapshot r.service).findIdx? (leasedBy r.lease) = none := fun hmode =>
    not_isSome_iff_eq_none.1 (hls hmode)
  refine ⟨snapshot, hsnap, rfl, hnon, hpin, ?_, ?_⟩
  · intro hmode
    rw [find?_eq_none]
    intro c hc
    exact Bool.eq_false_iff.1 (findIdx?_eq_none_iff.1 (hidx hmode) c hc)
  · intro kernel now
    have hearly : (if modeOf r.service = .adaptive then
        (eligibleCandidates r.view snapshot r.service).findIdx? (leasedBy r.lease) else none) = none := by
      split
      · exact hidx ‹_›
      · rfl
    have hsome : (eligibleCandidates r.view snapshot r.service).isEmpty = false :=
      isEmpty_eq_false_iff.2 hnon
    rw [planFor, hsnap, plan, hpin]
    dsimp only
    rw [hsome, hearly]
    rfl

end

end SingBox.PlanParity
