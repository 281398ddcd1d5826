import SingBox.EpochLeases

namespace SingBox.PublicationCommit

open Arena Runs EpochManager EpochMoves EpochLinks EpochLeases

/-- No rollback intervenes; and where the group was absent before, it is not
dropped either. -/
def Undisturbed (base : Option IdentityRef) (op : Op) : Prop :=
  (∀ i, op ≠ .rollback i) ∧ (base = none → ¬ MayClean op)

structure Superseded (g : String) (addr : Nat) (m : RuntimeManager) : Prop where
  linked : Linked m
  old : addr < m.allocated
  group : ∀ r, identityIn m.groups g = some r → r.addr ≠ addr
  pending : ∀ (j : Nat) q, m.prepared[j]? = some q → q.committed = false → q.next.addr ≠ addr

variable {m : RuntimeManager} {p : PreparedIdentity} {group : SharedGroupState} {m' : RuntimeManager} {op : Op}
  {g : String} {i : Nat}

theorem change_superseded {addr} (h : Change m op m') (hop : ∀ i, op ≠ .rollback i) (hs : Superseded g addr m) :
    Superseded g addr m' := by
  refine ⟨change_linked h hs.linked, ?_, ?_, ?_⟩
  · rcases change_refs h with ⟨halc, _⟩ | ⟨_, _, halc, _⟩
    · exact halc ▸ hs.old
    · exact halc ▸ Nat.lt_succ_of_lt hs.old
  · intro r hr
    cases change_identity h hr with
    | kept hr => exact hs.group r hr
    | restored ha =>
      have := hs.old
      omega
    | committed i p hp hopen _ hn => exact hn ▸ hs.pending i p hp hopen
    | rolledBack i => exact absurd rfl (hop i)
  · intro j q hq hopen
    rcases change_prepared h hq with ⟨p, hp, hsame⟩ | ⟨_, hprep, _⟩
    · rw [hsame.next]
      exact hs.pending j p hp (hsame.uncommitted hopen)
    · rw [prepares_next_addr hprep]
      exact (ne_of_lt hs.old).symm

theorem change_present (h : Change m op m') (hop : Undisturbed none op) (hpre : identityIn m.groups g ≠ none) :
    identityIn m'.groups g ≠ none := by
  cases h with
  | kept _ _ _ hstay =>
    rcases hstay with hclean | hstay
    · exact absurd hclean (hop.2 rfl)
    · rw [hstay]
      exact hpre
  | prepared => exact hpre
  | restored | committed =>
    rw [identityIn_insert]
    split
    · rintro ⟨⟩
    · exact hpre
  | rolledBack i | spent i => exact absurd rfl (hop.1 i)

theorem step_commit_ok (hp : m.prepared[i]? = some p) (h : commit m p = .ok group) : step m (.commit i) = { m with
      groups := m.groups.insert p.groupID group, prepared :=
          m.prepared.set i { p with committed := true } } := by
  simp only [step, hp, h]

theorem commit_supersedes (hm : Linked m) (hp : m.prepared[i]? = some p) (h : commit m p = .ok group) {seg}
    (hseg : ∀ op ∈ seg, Undisturbed p.baseState op) :
    (identityIn (run step (step m (.commit i)) seg).groups p.groupID).map (·.addr) ≠ p.baseState.map (·.addr) := by
  have hopen := (commit_ok h).1
  have hnow : identityIn (step m (.commit i)).groups p.groupID = some p.next := by
    rw [step_commit_ok hp h, identityIn_insert, if_pos rfl, commits_identity (commit_ok h).2.2]
  cases hb : p.baseState with
  | none =>
    have hpre : identityIn (run step (step m (.commit i)) seg).groups p.groupID ≠ none := by
      refine run_keeps_mem (I := fun m : RuntimeManager => identityIn m.groups p.groupID ≠ none) ?_ ?_
      · intro m op hop
        exact change_present (step_change m op) (hb ▸ hseg op hop)
      · rw [hnow]
        rintro ⟨⟩
    intro hno
    exact hpre (Option.map_eq_none_iff.mp hno)
  | some base =>
    have hs : Superseded p.groupID base.addr (run step (step m (.commit i)) seg) := by
      refine run_keeps_mem (I := Superseded p.groupID base.addr) ?_ ?_
      · intro m op hop
        exact change_superseded (step_change m op) (hseg op hop).1
      · have hlnk := change_linked (step_change m (.commit i)) hm
        have hbase : base.addr < m.allocated := hm.bound base (.base i p hp hb)
        refine ⟨hlnk, ?_, ?_, ?_⟩
        · rw [step_commit_ok hp h]
          exact hbase
        · intro r hr
          rw [hnow] at hr
          cases hr
          exact ((hm.unshared i p hp hopen).bases i p base hp hb).symm
        · intro j q hq hq'
          rcases change_prepared (step_change m (.commit i)) hq with ⟨q₀, hq₀, hsame⟩ | ⟨_, hprep, _⟩
          · rw [hsame.next]
            exact ((hm.unshared j q₀ hq₀ (hsame.uncommitted hq')).bases i p base hp hb).symm
          · cases hprep
    intro heq
    obtain ⟨r, hr, ha⟩ := Option.map_eq_some_iff.mp heq
    exact hs.group r hr ha

def Restored (m m' : RuntimeManager) : Prop :=
  (∀ g, identityIn m'.groups g = identityIn m.groups g) ∧ ∀ g e, epochIn m'.groups g e = epochIn m.groups g e

/-- A commit of the preparation can be undone: the epoch it opens is not there
yet, or the one it revises has the leases it had at the preparation. -/
def Undoable (m : RuntimeManager) (p : PreparedIdentity) : Prop :=
  match p.kind with
  | .newEpoch _ => epochIn m.groups p.groupID p.identity.epochID = none
  | .revision _ previous => refCountOf m.groups p.groupID p.identity.epochID = previous.refCount

theorem eq_of_contents {ep ep'} (h : contents ep = contents ep') (hl : ep.lifecycle = ep'.lifecycle)
    (hr : ep.refCount = ep'.refCount) : ep = ep' := by
  cases ep
  simp only [contents] at h
  simp_all

theorem rollback_after_commit (hp : m.prepared[i]? = some p) (h : commit m p = .ok group) :
    RollsBack (step m (.commit i)) { p with committed := true } (step (step m (.commit i)) (.rollback i)).groups := by
  have hlt := lt_of_some hp
  obtain ⟨_, hlive, hcom⟩ := commit_ok h
  have ha : group.identity.addr = p.next.addr := by rw [commits_identity hcom]
  apply rollback_ok
  rw [step_commit_ok hp h]
  rcases p.kind with (_ | base) | ⟨base, previous⟩ <;>
    simp only [step, List.getElem?_set_self hlt, hlive, Bool.not_true, Bool.or_false, Bool.false_eq_true,
      if_false, rollback, AList.lookup_insert, ha, ne_eq, not_true]

theorem commit_rollback (hm : Linked m) (hp : m.prepared[i]? = some p) (h : commit m p = .ok group) :
    (∀ g, identityIn (step (step m (.commit i)) (.rollback i)).groups g = identityIn m.groups g) ∧
      ∀ g e, epochIn (step (step m (.commit i)) (.rollback i)).groups g e =
        if g = p.groupID ∧ e = p.identity.epochID then undoneEpoch p else epochIn m.groups g e := by
  have hback := rollback_after_commit hp h
  have hlnk := change_linked (step_change m (.commit i)) hm
  have hcom := (commit_ok h).2.2
  have hp' : (step m (.commit i)).prepared[i]? = some { p with committed := true } := by
    rw [step_commit_ok hp h]
    exact set_self hp
  obtain ⟨written, _, hepoc⟩ := commits_epochs hcom
  constructor
  · intro g
    rw [rollsBack_identity hback, step_commit_ok hp h, identityIn_insert]
    split
    · next hg =>
      subst hg
      exact (commits_base hcom hm hp).symm
    · rfl
  · intro g e
    rw [rollsBack_epochs hback hlnk hp']
    by_cases hpl : g = p.groupID ∧ e = p.identity.epochID
    · rw [if_pos hpl, if_pos hpl]
      rfl
    · rw [if_neg hpl, if_neg hpl, step_commit_ok hp h]
      exact (hepoc g e).trans (if_neg hpl)

theorem commit_undone (hm : Linked m) (hp : m.prepared[i]? = some p) (h : commit m p = .ok group) :
    Restored m (step (step m (.commit i)) (.rollback i)) ↔ Undoable m p := by
  obtain ⟨hiden, hepoc⟩ := commit_rollback hm hp h
  have hcom := (commit_ok h).2.2
  have hrst : Restored m (step (step m (.commit i)) (.rollback i)) ↔
      epochIn m.groups p.groupID p.identity.epochID = undoneEpoch p := by
    constructor
    · intro hrst
      rw [← hrst.2, hepoc, if_pos ⟨rfl, rfl⟩]
    · intro hsame
      refine ⟨hiden, fun g e => ?_⟩
      rw [hepoc]
      split
      · next hpl => rw [hpl.1, hpl.2, hsame]
      · rfl
  rw [hrst, Undoable, undoneEpoch]
  cases hk : p.kind with
  | newEpoch base => exact .rfl
  | revision base previous =>
    obtain ⟨_, hwr, _⟩ := commits_epochs hcom
    cases hwr with
    | opened base hk' =>
      rw [hk] at hk'
      cases hk'
    | revised _ _ epoch _ hep hact =>
      simp only [hep, refCountOf_of_some hep]
      constructor
      · rintro ⟨⟩
        rfl
      · intro hcnt
        -- the epoch still has the contents that the preparation copied
        obtain ⟨hprev, hlive⟩ := (hm.recorded i p hp).previous base previous hk
        have hbase := commits_base hcom hm hp
        rw [PreparedIdentity.baseState, hk] at hbase
        have hcon := hm.faithful p.groupID _ _ epoch hbase hep
        rw [hprev] at hcon
        rw [eq_of_contents (Option.some.inj hcon).symm (hact.trans hlive.symm) hcnt]

/-- A commit is the only one onto its base, and a rollback right after it restores the group
exactly when it can be undone. -/
theorem commit_once_and_undone (xs : List Op) (i : Nat) (p : PreparedIdentity)
    (hp : (after xs).prepared[i]? = some p) :
    (∀ e, commit (after xs) p = .error e → after (xs ++ [.commit i]) = after xs) ∧
      ∀ group, commit (after xs) p = .ok group →
        (∀ seg (j : Nat) q, (∀ op ∈ seg, Undisturbed p.baseState op) →
            (after (xs ++ .commit i :: seg)).prepared[j]? = some q →
          q.groupID = p.groupID → q.baseState.map (·.addr) = p.baseState.map (·.addr) →
          ∀ group', commit (after (xs ++ .commit i :: seg)) q ≠ .ok group') ∧
        (Restored (after xs) (after (xs ++ [.commit i, .rollback i])) ↔ Undoable (after xs) p) := by
  have hlnk := after_linked xs
  refine ⟨fun e herr => ?_, fun group hok => ⟨?_, ?_⟩⟩
  · rw [after_snoc]
    simp only [step, hp, herr]
  · intro seg j q hseg hq hg hbase group' hok'
    rw [after_append] at hok'
    have hcur := commits_base_addr (commit_ok hok').2.2
    rw [hg, hbase] at hcur
    exact commit_supersedes hlnk hp hok hseg hcur
  · rw [after_append]
    exact commit_undone hlnk hp hok

def preparedRevision : List Op :=
  [.prepareEpoch "g" (oneNode 1) (.stored _), .commit 0, .prepareRevision "g" 1 (oneNode 2) (.stored _)]

theorem revision_undone : ∃ p group, (after preparedRevision).prepared[1]? = some p ∧
    commit (after preparedRevision) p = .ok group ∧
    Restored (after preparedRevision) (after (preparedRevision ++ [.commit 1, .rollback 1])) := by
  refine ⟨_, _, rfl, rfl, ?_⟩
  exact ((commit_once_and_undone preparedRevision 1 _ rfl).2 _ rfl).2.mpr rfl

/-- A lease acquired between the preparation and the commit of a revision is
lost in the rollback. -/
theorem rollback_forgets_lease :
    let xs := preparedRevision ++ [.acquire "g" 1]
    ((after (xs ++ [.commit 1])).prepared[1]?).map (·.committed) = some true ∧
      (epochIn (after xs).groups "g" 1).map (·.refCount) = some 1 ∧
      (epochIn (after (xs ++ [.commit 1, .rollback 1])).groups "g" 1).map (·.refCount) = some 0 := by
  decide

end SingBox.PublicationCommit
