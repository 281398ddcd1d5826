import SingBox.EpochLinks

namespace SingBox.EpochLeases

open Maps Runs IdentityState EpochManager EpochMoves EpochLinks

def refCountOf (groups : GoMap String SharedGroupState) (g : String) (e : Nat) : Nat :=
  ((epochIn groups g e).map (·.refCount)).getD 0

def isOpen (g : String) (e : Nat) (lease : RuntimeEpochIdentityLease) : Bool :=
  lease.groupID = g ∧ lease.epochID = e ∧ lease.released = false

def openLeases (m : RuntimeManager) (g : String) (e : Nat) : Nat := m.leases.countP (isOpen g e)

/-- A commit does not open an epoch that is still there, and a rollback that
takes effect finds no lease that it would lose: none on the epoch it closes,
and on the epoch it brings back as many as when the revision was prepared. -/
def LeaseSafe (m : RuntimeManager) : Op → Prop
  | .commit i => ∀ p base, m.prepared[i]? = some p → p.kind = .newEpoch base → p.committed = false →
      (identityIn m.groups p.groupID).map (·.addr) = base.map (·.addr) →
        epochIn m.groups p.groupID p.identity.epochID = none
  | .rollback i => ∀ p, m.prepared[i]? = some p → p.committed = true → p.rolledBack = false →
      (identityIn m.groups p.groupID).map (·.addr) = some p.next.addr →
        match p.kind with
        | .newEpoch _ => refCountOf m.groups p.groupID p.identity.epochID = 0
        | .revision _ previous => refCountOf m.groups p.groupID p.identity.epochID = previous.refCount
  | _ => True

def Counted (m : RuntimeManager) : Prop := ∀ g e, refCountOf m.groups g e = openLeases m g e

variable {groups : GoMap String SharedGroupState} {g : String} {e : Nat} {ep ep' : StableEpoch}
  {m m' : RuntimeManager} {f : StableEpoch → Option StableEpoch} {op : Op} {g' : String} {e' : Nat}
  {p : PreparedIdentity}

theorem refCountOf_of_some (h : epochIn groups g e = some ep) : refCountOf groups g e = ep.refCount := by
  rw [refCountOf, h]
  rfl

theorem refCountOf_of_none (h : epochIn groups g e = none) : refCountOf groups g e = 0 := by
  rw [refCountOf, h]
  rfl

theorem epochIn_restored (h : groups.lookup g = none) (identity g' e) :
    epochIn (groups.insert g ⟨identity, ∅⟩) g' e = epochIn groups g' e := by
  rw [epochIn_insert]
  split
  · next hg => rw [hg, epochIn_of_none h]; rfl
  · rfl

theorem updatedAt_refCount (h : UpdatedAt m m' g e f) (count : Nat → Nat)
    (hzero : epochIn m.groups g e = none → count 0 = 0)
    (hf : ∀ ep, ((f ep).map (·.refCount)).getD 0 = count ep.refCount) (g') (e' : Nat) : refCountOf m'.groups g' e' =
      if g' = g ∧ e' = e then count (refCountOf m.groups g e) else refCountOf m.groups g' e' := by
  rw [refCountOf, h g' e']
  split
  · cases hep : epochIn m.groups g e with
    | none =>
      rw [refCountOf_of_none hep, hzero hep]
      rfl
    | some ep =>
      rw [refCountOf_of_some hep, ← hf ep]
      rfl
  · rfl

theorem afterRelease_refCount (ep) : ((afterRelease ep).map (·.refCount)).getD 0 = ep.refCount - 1 := by
  rw [afterRelease]
  split
  · next h => exact h.2.symm
  · rfl

theorem afterRetire_refCount (ep) : ((afterRetire ep).map (·.refCount)).getD 0 = ep.refCount := by
  rw [afterRetire]
  split
  · rfl
  split
  · next h => exact h.symm
  · rfl

theorem isOpen_eq : isOpen g' e' ⟨g, e, false⟩ = decide (g' = g ∧ e' = e) := by
  simp only [isOpen, and_true, eq_comm]

theorem leaseMove_counted (h : LeaseMove m op m') (hm : Counted m) : Counted m' := by
  intro g' e'
  have hbef := hm g' e'
  rw [openLeases] at hbef ⊢
  cases h with
  | idle _ hepoc hleas =>
    rw [hleas, ← hbef, updatedAt_refCount hepoc (fun n => n) (fun _ => rfl) fun _ => rfl]
    split
    · next h => rw [h.1, h.2]
    · rfl
  | acquired g e ep _ hep hepoc hleas =>
    have hzero : epochIn m.groups g e = none → 0 + 1 = 0 := by
      rw [hep]
      rintro ⟨⟩
    rw [hleas, List.countP_append, List.countP_singleton, isOpen_eq, ← hbef,
      updatedAt_refCount hepoc (fun n => n + 1) hzero fun _ => rfl]
    by_cases h : g' = g ∧ e' = e
    · simp [h]
    · simp [h]
  | released i lease _ hlease hopen hepoc hleas =>
    obtain ⟨hlt, rfl⟩ := List.getElem?_eq_some_iff.mp hlease
    have hcl : isOpen g' e' { m.leases[i] with released := true } = false := by simp [isOpen]
    rw [hleas, List.countP_set hlt, hcl, ← hbef,
      updatedAt_refCount hepoc (fun n => n - 1) (fun _ => rfl) afterRelease_refCount]
    have hthis : isOpen g' e' m.leases[i] = decide (g' = m.leases[i].groupID ∧ e' = m.leases[i].epochID) := by
      rw [← isOpen_eq, ← hopen]
    rw [hthis]
    by_cases h : g' = m.leases[i].groupID ∧ e' = m.leases[i].epochID
    · simp [h]
    · simp [h]
  | retired g e _ hepoc hleas =>
    rw [hleas, ← hbef, updatedAt_refCount hepoc (fun n => n) (fun _ => rfl) afterRetire_refCount]
    split
    · next h => rw [h.1, h.2]
    · rfl

theorem commits_refCount {group} (h : Commits m p group) (hf : ∀ base,
      p.kind = .newEpoch base → (identityIn m.groups p.groupID).map (·.addr) = base.map (·.addr) → epochIn m.groups
      p.groupID p.identity.epochID = none) (g e) :
    refCountOf (m.groups.insert p.groupID group) g e = refCountOf m.groups g e := by
  obtain ⟨ep, hwr, hepoc⟩ := commits_epochs h
  rw [refCountOf, hepoc]
  split
  · next hp =>
    rw [hp.1, hp.2]
    cases hwr with
    | opened base hk hbase =>
      rw [refCountOf_of_none (hf base hk hbase)]
      rfl
    | revised _ _ epoch _ hep =>
      rw [refCountOf_of_some hep]
      rfl
  · rfl

theorem rollsBack_refCount {i} (h : RollsBack m p groups) (hm : Linked m) (hp : m.prepared[i]? = some p)
    (hdone : p.committed = true) (hlive : p.rolledBack = false) (hsafe : LeaseSafe m (.rollback i)) (g e) :
    refCountOf groups g e = refCountOf m.groups g e := by
  have hcnt := hsafe p hp hdone hlive (rollsBack_next_addr h)
  rw [refCountOf, rollsBack_epochs h hm hp]
  split
  · next hpl =>
    rw [hpl.1, hpl.2, undoneEpoch]
    cases hk : p.kind with
    | newEpoch base | revision base previous =>
      rw [hk] at hcnt
      exact hcnt.symm
  · rfl

theorem change_counted (h : Change m op m') (hm : Linked m) (hsafe : LeaseSafe m op) (hc : Counted m) : Counted m' := by
  cases h with
  | kept _ _ hmove => exact leaseMove_counted hmove hc
  | restored g persisted identity hok hg =>
    intro g' e
    rw [refCountOf, epochIn_restored hg]
    exact hc g' e
  | prepared | spent => exact hc
  | committed i p group hp hopen h =>
    intro g e
    exact (commits_refCount h (fun base hk => hsafe p base hp hk hopen) g e).trans (hc g e)
  | rolledBack i p groups hp hdone hlive h =>
    intro g e
    exact (rollsBack_refCount h hm hp hdone hlive hsafe g e).trans (hc g e)

inductive Removal (m : RuntimeManager) (g : String) (e : Nat) (ep : StableEpoch) : Op → Prop
  | retire : Removal m g e ep (.retire g e)
  | release (i : Nat) (h : ep.lifecycle = .retiring) : Removal m g e ep (.release i)
  | rollback (i : Nat) (p : PreparedIdentity) (base : Option IdentityRef) (hp : m.prepared[i]? = some p)
      (hgroup : p.groupID = g) (hkind : p.kind = .newEpoch base) (hepoch : p.identity.epochID = e) :
      Removal m g e ep (.rollback i)

/-- What becomes of one epoch: how it can be removed, and that only `RetireEpoch` takes it out of the active state. -/
structure Follows (m m' : RuntimeManager) (op : Op) (g : String) (e : Nat) : Prop where
  removed : ∀ ep, epochIn m.groups g e = some ep → epochIn m'.groups g e = none → Removal m g e ep op
  lifecycle : ∀ ep', epochIn m'.groups g e = some ep' → ep'.lifecycle ≠ .active →
    op = .retire g e ∨ ∃ ep, epochIn m.groups g e = some ep ∧ ep'.lifecycle = ep.lifecycle

theorem follows_of_same (h : epochIn m'.groups g e = epochIn m.groups g e) : Follows m m' op g e := by
  refine ⟨fun ep hep hgone => ?_, fun ep' hep' _ => .inr ⟨ep', h ▸ hep', rfl⟩⟩
  rw [h, hep] at hgone
  cases hgone

theorem updatedAt_follows (h : UpdatedAt m m' g' e' f)
    (hrem : ∀ ep, f ep = none → g = g' → e = e' → Removal m g e ep op)
    (hlif : ∀ ep ep', f ep = some ep' → op = .retire g' e' ∨ ep'.lifecycle = ep.lifecycle) :
    Follows m m' op g e := by
  by_cases hp : g = g' ∧ e = e'
  · obtain ⟨rfl, rfl⟩ := hp
    have hbind : epochIn m'.groups g e = (epochIn m.groups g e).bind f := (h g e).trans (if_pos ⟨rfl, rfl⟩)
    refine ⟨fun ep hep hgone => ?_, fun ep' hep' _ => ?_⟩
    · rw [hbind, hep] at hgone
      exact hrem ep hgone rfl rfl
    · rw [hbind] at hep'
      obtain ⟨ep, hep, hfep⟩ := Option.bind_eq_some_iff.mp hep'
      exact (hlif ep ep' hfep).imp_right fun heq => ⟨ep, hep, heq⟩
  · exact follows_of_same ((h g e).trans (if_neg hp))

theorem leaseMove_follows (h : LeaseMove m op m') : Follows m m' op g e := by
  cases h with
  | idle _ hepoc => exact updatedAt_follows hepoc (by simp) (by simp)
  | acquired _ _ _ _ _ hepoc => exact updatedAt_follows hepoc (by simp [afterAcquire]) (by simp [afterAcquire])
  | released i lease _ _ _ hepoc =>
    refine updatedAt_follows hepoc (fun ep hno _ _ => ?_) fun ep ep' hsome => .inr ?_
    · rw [afterRelease] at hno
      split at hno
      · next hl => exact .release i hl.1
      · cases hno
    · rw [afterRelease] at hsome
      split at hsome
      · cases hsome
      · cases hsome
        rfl
  | retired _ _ _ hepoc =>
    refine updatedAt_follows hepoc ?_ fun _ _ _ => .inl rfl
    rintro ep - rfl rfl
    exact .retire

theorem change_follows (h : Change m op m') (hm : Linked m) : Follows m m' op g e := by
  cases h with
  | kept _ _ hmove => exact leaseMove_follows hmove
  | restored g' persisted identity hok hg => exact follows_of_same (epochIn_restored hg _ g e)
  | prepared | spent => exact follows_of_same rfl
  | committed i p group hp hopen h =>
    obtain ⟨written, hwr, hepoc⟩ := commits_epochs h
    by_cases hpl : g = p.groupID ∧ e = p.identity.epochID
    · have hnew := (hepoc g e).trans (if_pos hpl)
      refine ⟨fun ep _ hgone => ?_, fun ep' hep' hlive => ?_⟩
      · cases hnew.symm.trans hgone
      · cases hnew.symm.trans hep'
        exact absurd hwr.active hlive
    · exact follows_of_same ((hepoc g e).trans (if_neg hpl))
  | rolledBack i p groups hp hdone hopen h =>
    have hepoc := rollsBack_epochs h hm hp g e
    by_cases hpl : g = p.groupID ∧ e = p.identity.epochID
    · rw [if_pos hpl, undoneEpoch] at hepoc
      refine ⟨fun ep _ hgone => ?_, fun ep' hep' hlive => ?_⟩
      · rw [hepoc] at hgone
        split at hgone
        · next base hk => exact .rollback i p base hp hpl.1.symm hk hpl.2.symm
        · cases hgone
      · rw [hepoc] at hep'
        split at hep'
        · cases hep'
        rename_i hk
        cases hep'
        exact absurd ((hm.recorded i p hp).previous _ _ hk).2 hlive
    · exact follows_of_same (hepoc.trans (if_neg hpl))

theorem retiring_was_retired (ops g e ep) (hep : epochIn (after ops).groups g e = some ep)
    (hlive : ep.lifecycle ≠ .active) : .retire g e ∈ ops := by
  induction ops using List.reverseRecOn generalizing ep with
  | nil => cases hep
  | append_singleton ops op ih =>
    rw [after_snoc] at hep
    rw [List.mem_append]
    rcases (change_follows (step_change ..) (after_linked ops)).lifecycle ep hep hlive with rfl | ⟨ep₀, hep₀, heq⟩
    · exact .inr List.mem_cons_self
    · exact .inl (ih ep₀ hep₀ (heq ▸ hlive))

theorem run_counted (ops) (h : Meets step LeaseSafe newRuntimeManager ops) : Counted (after ops) := by
  refine (run_keeps (I := fun m => Linked m ∧ Counted m) ?_ ⟨start_linked, fun _ _ => rfl⟩ h).2
  exact fun m op _ hsafe hm =>
    ⟨change_linked (step_change m op) hm.1, change_counted (step_change m op) hm.1 hsafe hm.2⟩

/-- The reference count of an epoch is the number of open leases on it, and it is not removed
while there are any. -/
theorem ref_count_is_open_leases (ops : List Op) (h : Meets step LeaseSafe newRuntimeManager ops) :
    (∀ g e ep, epochIn (after ops).groups g e = some ep → ep.refCount = openLeases (after ops) g e) ∧
      ∀ xs op ys g e ep, ops = xs ++ op :: ys → epochIn (after xs).groups g e = some ep →
        epochIn (after (xs ++ [op])).groups g e = none →
          openLeases (after (xs ++ [op])) g e = 0 ∧
            (.retire g e ∈ xs ++ [op] ∨ ∃ i p base, op = .rollback i ∧ (after xs).prepared[i]? = some p ∧
              p.groupID = g ∧ p.kind = .newEpoch base ∧ p.identity.epochID = e) := by
  refine ⟨fun g e ep hep => ?_, fun xs op ys g e ep hops hep hgone => ⟨?_, ?_⟩⟩
  · rw [← run_counted ops h g e, refCountOf_of_some hep]
  · have hpref : Meets step LeaseSafe newRuntimeManager (xs ++ [op]) := by
      rw [hops, List.append_cons, meets_append] at h
      exact h.1
    rw [← run_counted (xs ++ [op]) hpref g e, refCountOf_of_none hgone]
  · rw [after_snoc] at hgone
    cases (change_follows (step_change ..) (after_linked xs)).removed ep hep hgone with
    | retire => exact .inl (List.mem_append_right _ List.mem_cons_self)
    | release i hret =>
      refine .inl (List.mem_append_left _ (retiring_was_retired xs g e ep hep ?_))
      rw [hret]
      rintro ⟨⟩
    | rollback i p base hp hg hk hepoch => exact .inr ⟨i, p, base, rfl, hp, hg, hk, hepoch⟩

def oneNode (generation : Nat) : IdentitySnapshot := ⟨generation, [⟨7, true⟩]⟩

def leasedEpoch : List Op :=
  [.prepareEpoch "g" (oneNode 1) (.stored _), .commit 0, .acquire "g" 1]

theorem leased_epoch_counted : openLeases (after (leasedEpoch ++ [.retire "g" 1])) "g" 1 = 1 ∧
    ∃ ep, epochIn (after (leasedEpoch ++ [.retire "g" 1])).groups "g" 1 = some ep ∧
      ep.refCount = openLeases (after (leasedEpoch ++ [.retire "g" 1])) "g" 1 := by
  have hsafe : Meets step LeaseSafe newRuntimeManager (leasedEpoch ++ [.retire "g" 1]) := by
    refine ⟨trivial, ?_, trivial, trivial, trivial⟩
    rintro p base ⟨⟩ ⟨⟩ _ _
    rfl
  obtain ⟨ep, hep⟩ := Option.isSome_iff_exists.mp
    (by decide : (epochIn (after (leasedEpoch ++ [.retire "g" 1])).groups "g" 1).isSome)
  exact ⟨by decide, ep, hep, (ref_count_is_open_leases _ hsafe).1 "g" 1 ep hep⟩

def revisedUnderLease : List Op :=
  [.prepareEpoch "g" (oneNode 1) (.stored _), .commit 0, .prepareRevision "g" 1 (oneNode 2) (.stored _),
    .acquire "g" 1, .commit 1, .rollback 1]

/-- The rollback of a revision puts back the reference count of its
preparation, and that of a new epoch drops it whatever leases it has. -/
theorem rollback_loses_leases :
    ((epochIn (after revisedUnderLease).groups "g" 1).map (·.refCount) = some 0 ∧
      openLeases (after revisedUnderLease) "g" 1 = 1) ∧
    (epochIn (after leasedEpoch).groups "g" 1).isSome ∧
      epochIn (after (leasedEpoch ++ [.rollback 0])).groups "g" 1 = none ∧
      openLeases (after (leasedEpoch ++ [.rollback 0])) "g" 1 = 1 :=
  ⟨⟨by decide, by decide⟩, by decide, rfl, by decide⟩

end SingBox.EpochLeases
