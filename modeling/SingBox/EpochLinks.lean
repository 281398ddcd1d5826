import SingBox.EpochMoves

namespace SingBox.EpochLinks

open Option Arena Maps Runs IdentityState IdentityInvariant EpochManager EpochMoves

inductive IsRef (m : RuntimeManager) (r : IdentityRef) : Prop
  | group (g : String) (h : identityIn m.groups g = some r)
  | base (j : Nat) (q : PreparedIdentity) (hq : m.prepared[j]? = some q) (h : q.baseState = some r)
  | next (j : Nat) (q : PreparedIdentity) (hq : m.prepared[j]? = some q) (h : q.next = r)

inductive Created (m : RuntimeManager) (op : Op) (r : IdentityRef) : Prop
  | restored (persisted : PersistedIdentityState) (h : restoreStableIdentityState persisted = .ok r.state)
      (haddr : r.addr = m.allocated)
  | prepared (p : PreparedIdentity) (h : Prepares m op p) (hr : r = p.next)

variable {m m' : RuntimeManager} {op : Op} {p : PreparedIdentity} {r : IdentityRef} {i : Nat}
  {groups : GoMap String SharedGroupState} {group : SharedGroupState}

theorem prepares_next_addr (h : Prepares m op p) : p.next.addr = m.allocated := by
  cases h <;> rfl

theorem prepares_base (h : Prepares m op p) : p.baseState = identityIn m.groups p.groupID := by
  cases h with
  | first g snapshot order hvalid hg =>
    change none = identityIn m.groups g
    rw [identityIn, hg]
    rfl
  | epoch g snapshot order group hvalid hg => exact (identityIn_lookup hg).symm
  | revision g e snapshot order group epoch hvalid hg => exact (identityIn_lookup hg).symm

theorem Created.addr (h : Created m op r) : r.addr = m.allocated := by
  cases h with
  | restored _ _ ha => exact ha
  | prepared p h hr => rw [hr, prepares_next_addr h]

inductive Origin (m m' : RuntimeManager) (g : String) (r : IdentityRef) : Op → Prop
  | kept {op : Op} (h : identityIn m.groups g = some r) : Origin m m' g r op
  | restored {op : Op} (haddr : r.addr = m.allocated) : Origin m m' g r op
  | committed (i : Nat) (p : PreparedIdentity) (hp : m.prepared[i]? = some p) (hopen : p.committed = false)
      (hdone : m'.prepared[i]? = some { p with committed := true }) (h : p.next = r) :
      Origin m m' g r (.commit i)
  | rolledBack (i : Nat) (p : PreparedIdentity) (hp : m.prepared[i]? = some p) (h : p.baseState = some r) :
      Origin m m' g r (.rollback i)

theorem change_identity (h : Change m op m') {g} (hr : identityIn m'.groups g = some r) : Origin m m' g r op := by
  cases h with
  | kept _ h =>
    rcases h.identity g with heq | hno
    · exact .kept (heq ▸ hr)
    · rw [hno] at hr
      cases hr
  | restored g' =>
    rw [identityIn_insert] at hr
    split at hr
    · cases hr
      exact .restored rfl
    · exact .kept hr
  | prepared | spent => exact .kept hr
  | committed i p group hp hopen h =>
    rw [identityIn_insert] at hr
    split at hr
    · cases hr
      exact .committed i p hp hopen (set_self hp)
        (commits_identity h).symm
    · exact .kept hr
  | rolledBack i p groups hp _ _ h =>
    rw [rollsBack_identity h] at hr
    split at hr
    · exact .rolledBack i p hp hr
    · exact .kept hr

theorem prepared_refs (hp : Prepares m op p)
    (hr : IsRef { m with prepared := m.prepared ++ [p], allocated := m.allocated + 1 } r) :
    IsRef m r ∨ r = p.next := by
  cases hr with
  | group g hg => exact .inl (.group g hg)
  | base j q hq hb =>
    rcases of_append hq with hq | ⟨-, rfl⟩
    · exact .inl (.base j q hq hb)
    · exact .inl (.group q.groupID (prepares_base hp ▸ hb))
  | next j q hq hn =>
    rcases of_append hq with hq | ⟨-, rfl⟩
    · exact .inl (.next j q hq hn)
    · exact .inr hn.symm

theorem change_refs_of_groups (h : Change m op m')
    (hno : ¬ ∃ p, Prepares m op p ∧ m' = { m with prepared := m.prepared ++ [p], allocated := m.allocated + 1 })
    {P : IdentityRef → Prop} (hP : ∀ r, IsRef m r → P r) (hgroups : ∀ g r, identityIn m'.groups g = some r → P r)
    (r) (hr : IsRef m' r) : P r := by
  have hlist : ∀ (j : Nat) q, m'.prepared[j]? = some q → ∃ p, m.prepared[j]? = some p ∧
      SamePreparation p q := by
    intro j q hq
    rcases change_prepared h hq with hsame | ⟨_, hp, heq⟩
    · exact hsame
    · exact absurd ⟨q, hp, heq⟩ hno
  cases hr with
  | group g h => exact hgroups g r h
  | base j q hq hb =>
    obtain ⟨p, hp, hsame⟩ := hlist j q hq
    exact hP r (.base j p hp (hsame.baseState ▸ hb))
  | next j q hq hn =>
    obtain ⟨p, hp, hsame⟩ := hlist j q hq
    exact hP r (.next j p hp (hsame.next ▸ hn))

theorem change_refs (h : Change m op m') : m'.allocated = m.allocated ∧ (∀ r, IsRef m' r → IsRef m r) ∨
      ∃ fresh, Created m op fresh ∧ m'.allocated = m.allocated + 1 ∧ ∀ r, IsRef m' r → IsRef m r ∨ r = fresh := by
  by_cases hprep : ∃ p, Prepares m op p ∧
      m' = { m with prepared := m.prepared ++ [p], allocated := m.allocated + 1 }
  · obtain ⟨p, hp, rfl⟩ := hprep
    exact .inr ⟨p.next, .prepared p hp rfl, rfl, fun r => prepared_refs hp⟩
  have hrefs := fun {P} hP hgroups => change_refs_of_groups (P := P) h hprep hP hgroups
  cases h with
  | kept _ h =>
    refine .inl ⟨h.allocated, hrefs (fun _ hr => hr) fun g r hr => ?_⟩
    rcases h.identity g with heq | hno
    · exact .group g (heq ▸ hr)
    · rw [hno] at hr
      cases hr
  | restored g persisted identity hok hg =>
    refine .inr ⟨⟨m.allocated, identity, ∅⟩, .restored persisted hok rfl, rfl, ?_⟩
    refine hrefs (fun _ => .inl) fun g' r hr => ?_
    rw [identityIn_insert] at hr
    split at hr
    · exact .inr (some.inj hr).symm
    · exact .inl (.group g' hr)
  | prepared p hp => exact absurd ⟨p, hp, rfl⟩ hprep
  | committed i p group hp hopen h =>
    refine .inl ⟨rfl, hrefs (fun _ hr => hr) fun g r hr => ?_⟩
    rw [identityIn_insert] at hr
    split at hr
    · exact .next i p hp (commits_identity h ▸ some.inj hr)
    · exact .group g hr
  | rolledBack i p groups hp hdone _ h =>
    refine .inl ⟨rfl, hrefs (fun _ hr => hr) fun g r hr => ?_⟩
    rw [rollsBack_identity h] at hr
    split at hr
    · exact .base i p hp hr
    · exact .group g hr
  | spent i p hp => exact .inl ⟨rfl, hrefs (fun _ hr => hr) fun g r hr => .group g hr⟩

structure Recorded (q : PreparedIdentity) : Prop where
  published : q.next.published = ((q.baseState.map IdentityRef.published).getD ∅).insert q.identity.epochID
    ⟨q.identity.revision, q.identity.sourceGeneration, q.identity.handles⟩
  previous : ∀ base previous, q.kind = .revision base previous →
    base.published.lookup q.identity.epochID = some (contents previous) ∧ previous.lifecycle = .active

def Faithful (groups : GoMap String SharedGroupState) : Prop :=
  ∀ g r e ep, identityIn groups g = some r → epochIn groups g e = some ep →
    r.published.lookup e = some (contents ep)

/-- Nothing points to the state of a preparation before it is committed. -/
structure Unshared (m : RuntimeManager) (q : PreparedIdentity) : Prop where
  groups : ∀ g r, identityIn m.groups g = some r → r.addr ≠ q.next.addr
  bases : ∀ (k : Nat) p r, m.prepared[k]? = some p → p.baseState = some r → r.addr ≠ q.next.addr

structure Linked (m : RuntimeManager) : Prop where
  same : ∀ r r', IsRef m r → IsRef m r' → r.addr = r'.addr → r = r'
  bound : ∀ r, IsRef m r → r.addr < m.allocated
  distinct : ∀ (j k : Nat) p q, m.prepared[j]? = some p → m.prepared[k]? = some q →
    p.next.addr = q.next.addr → j = k
  unshared : ∀ (j : Nat) q, m.prepared[j]? = some q → q.committed = false → Unshared m q
  faithful : Faithful m.groups
  recorded : ∀ (j : Nat) q, m.prepared[j]? = some q → Recorded q

theorem start_linked : Linked newRuntimeManager := by
  have hno : ∀ r, ¬ IsRef newRuntimeManager r := by
    rintro r (⟨g, h⟩ | ⟨j, q, hq, _⟩ | ⟨j, q, hq, _⟩)
    · cases h
    · cases hq
    · cases hq
  refine ⟨fun r _ h => absurd h (hno r), fun r h => absurd h (hno r), ?_, ?_, ?_, ?_⟩
  · rintro j k p q hp
    cases hp
  · rintro j q hq
    cases hq
  · rintro g r e ep hr
    cases hr
  · rintro j q hq
    cases hq

theorem change_same (h : Change m op m') (hm : Linked m) :
    (∀ r r', IsRef m' r → IsRef m' r' → r.addr = r'.addr → r = r') ∧ ∀ r, IsRef m' r → r.addr < m'.allocated := by
  rcases change_refs h with ⟨halc, hrefs⟩ | ⟨fresh, hcre, halc, hrefs⟩
  · refine ⟨fun r r' hr hr' => hm.same r r' (hrefs r hr) (hrefs r' hr'), fun r hr => ?_⟩
    rw [halc]
    exact hm.bound r (hrefs r hr)
  · have ha := hcre.addr
    constructor
    · intro r r' hr hr' heq
      rcases hrefs r hr with hr | rfl
      · rcases hrefs r' hr' with hr' | rfl
        · exact hm.same r r' hr hr' heq
        · exact absurd (hm.bound r hr) (by omega)
      · rcases hrefs r' hr' with hr' | rfl
        · exact absurd (hm.bound r' hr') (by omega)
        · rfl
    · intro r hr
      rcases hrefs r hr with hr | rfl
      · have := hm.bound r hr
        omega
      · omega

theorem change_distinct (h : Change m op m') (hm : Linked m) (j k : Nat) (p q) (hp : m'.prepared[j]? = some p)
    (hq : m'.prepared[k]? = some q) (ha : p.next.addr = q.next.addr) : j = k := by
  rcases change_prepared h hp with ⟨p₀, hp₀, hsame⟩ | ⟨hj, hprep, _⟩
  · rcases change_prepared h hq with ⟨q₀, hq₀, hsame'⟩ | ⟨_, hprep, _⟩
    · exact hm.distinct j k p₀ q₀ hp₀ hq₀ (by rw [← hsame.next, ← hsame'.next, ha])
    have hlt := hm.bound p.next (.next j p₀ hp₀ hsame.next.symm)
    have hnew := prepares_next_addr hprep
    omega
  · rcases change_prepared h hq with ⟨q₀, hq₀, hsame'⟩ | ⟨hk, _, _⟩
    · have hlt := hm.bound q.next (.next k q₀ hq₀ hsame'.next.symm)
      have hnew := prepares_next_addr hprep
      omega
    · omega

theorem change_base (h : Change m op m') {k : Nat} (hp : m'.prepared[k]? = some p) (hr : p.baseState = some r) :
    (∃ p₀, m.prepared[k]? = some p₀ ∧ p₀.baseState = some r) ∨ ∃ g, identityIn m.groups g = some r := by
  rcases change_prepared h hp with ⟨p₀, hp₀, hsame⟩ | ⟨_, hprep, _⟩
  · exact .inl ⟨p₀, hp₀, hsame.baseState ▸ hr⟩
  · exact .inr ⟨p.groupID, prepares_base hprep ▸ hr⟩

theorem change_unshared (h : Change m op m') (hm : Linked m) (j : Nat) (q) (hq : m'.prepared[j]? = some q)
    (hopen : q.committed = false) : Unshared m' q := by
  rcases change_prepared h hq with ⟨q₀, hq₀, hsame⟩ | ⟨_, hprep, rfl⟩
  · have hopen₀ := hsame.uncommitted hopen
    have hlt := hm.bound q.next (.next j q₀ hq₀ hsame.next.symm)
    have hu : Unshared m q := by
      obtain ⟨hgroups, hbas⟩ := hm.unshared j q₀ hq₀ hopen₀
      rw [← hsame.next] at hgroups hbas
      exact ⟨hgroups, hbas⟩
    constructor
    · intro g r hr
      cases change_identity h hr with
      | kept hr => exact hu.groups g r hr
      | restored ha => omega
      | committed i p hp _ hdone hn =>
        intro heq
        rw [← hn, hsame.next] at heq
        obtain rfl := hm.distinct i j p q₀ hp hq₀ heq
        rw [hdone] at hq
        cases hq
        cases hopen
      | rolledBack i p hp hr => exact hu.bases i p r hp hr
    · intro k p r hp hr
      rcases change_base h hp hr with ⟨p₀, hp₀, hr₀⟩ | ⟨g, hr₀⟩
      · exact hu.bases k p₀ r hp₀ hr₀
      · exact hu.groups g r hr₀
  · have hnew := prepares_next_addr hprep
    constructor
    · intro g r hr
      have := hm.bound r (.group g hr)
      omega
    · intro k p r hp hr
      rcases change_base h hp hr with ⟨p₀, hp₀, hr₀⟩ | ⟨g, hr₀⟩
      · have := hm.bound r (.base k p₀ hp₀ hr₀)
        omega
      · have := hm.bound r (.group g hr₀)
        omega

theorem commits_base (h : Commits m p group) (hm : Linked m) (hp : m.prepared[i]? = some p) :
    identityIn m.groups p.groupID = p.baseState := by
  have ha := commits_base_addr h
  cases hb : p.baseState with
  | none =>
    rw [hb] at ha
    exact map_eq_none_iff.mp ha
  | some base =>
    rw [hb] at ha
    obtain ⟨r, hr, heq⟩ := map_eq_some_iff.mp ha
    rw [hr, hm.same r base (.group p.groupID hr) (.base i p hp hb) heq]

theorem rollsBack_next (h : RollsBack m p groups) (hm : Linked m) (hp : m.prepared[i]? = some p) :
    identityIn m.groups p.groupID = some p.next := by
  obtain ⟨r, hr, heq⟩ := map_eq_some_iff.mp (rollsBack_next_addr h)
  rw [hr, hm.same r p.next (.group p.groupID hr) (.next i p hp rfl) heq]

theorem commits_faithful (h : Commits m p group) (hm : Linked m) (hp : m.prepared[i]? = some p) :
    Faithful (m.groups.insert p.groupID group) := by
  obtain ⟨written, hwr, hepoc⟩ := commits_epochs h
  intro g r e ep hr hep
  rw [identityIn_insert] at hr
  rw [hepoc] at hep
  split at hr
  · next hg =>
    cases hr
    rw [commits_identity h, (hm.recorded i p hp).published, lookup_set]
    split at hep
    · next hpl =>
      cases hep
      rw [if_pos hpl.2, hwr.contents]
    · next hpl =>
      -- away from the published epoch, the group still has the epochs of the base
      subst hg
      rw [if_neg fun he => hpl ⟨rfl, he⟩, ← commits_base h hm hp]
      obtain ⟨r, hr⟩ := identityIn_of_epochIn hep
      rw [hr]
      exact hm.faithful p.groupID r e ep hr hep
  · next hg =>
    rw [if_neg fun hpl => hg hpl.1] at hep
    exact hm.faithful g r e ep hr hep

theorem first_epoch_only (hm : Linked m) (hp : m.prepared[i]? = some p) (hk : p.kind = .newEpoch none)
    (hn : identityIn m.groups p.groupID = some p.next) {e ep} (hep : epochIn m.groups p.groupID e = some ep) :
    e = p.identity.epochID := by
  have hpub := hm.faithful p.groupID _ e ep hn hep
  rw [(hm.recorded i p hp).published, PreparedIdentity.baseState, hk] at hpub
  rcases lookup_of_insert hpub with ⟨he, _⟩ | ⟨_, hno⟩
  · exact he
  · cases hno

theorem rollsBack_epochs (h : RollsBack m p groups) (hm : Linked m) (hp : m.prepared[i]? = some p) (g e) :
    epochIn groups g e =
      if g = p.groupID ∧ e = p.identity.epochID then undoneEpoch p else epochIn m.groups g e := by
  have hn := rollsBack_next h hm hp
  cases h with
  | first before hk hgr ha h =>
    rw [h, epochIn_erase, undoneEpoch, hk]
    by_cases hg : g = p.groupID
    · subst hg
      cases hep : epochIn m.groups p.groupID e with
      | none => simp
      | some ep => simp [first_epoch_only hm hp hk hn hep]
    · simp [hg]
  | epoch base before hk hgr ha h =>
    rw [h, epochIn_delete (epochIn_lookup hgr), undoneEpoch, hk]
  | revision base previous before hk hgr ha h =>
    rw [h, epochIn_write (epochIn_lookup hgr), undoneEpoch, hk]

theorem rollsBack_faithful (h : RollsBack m p groups) (hm : Linked m) (hp : m.prepared[i]? = some p) :
    Faithful groups := by
  intro g r e ep hr hep
  rw [rollsBack_identity h] at hr
  rw [rollsBack_epochs h hm hp] at hep
  split at hr
  · next hg =>
    split at hep
    · next hpl =>
      rw [undoneEpoch] at hep
      rw [PreparedIdentity.baseState] at hr
      split at hep
      · cases hep
      rename_i base previous hk
      rw [hk] at hr
      cases hep
      cases hr
      rw [hpl.2]
      exact ((hm.recorded i p hp).previous _ _ hk).1
    · next hpl =>
      subst hg
      have hpub := hm.faithful p.groupID _ e ep (rollsBack_next h hm hp) hep
      rw [(hm.recorded i p hp).published, lookup_set, if_neg fun he => hpl ⟨rfl, he⟩, hr] at hpub
      exact hpub
  · next hg =>
    rw [if_neg fun hpl => hg hpl.1] at hep
    exact hm.faithful g r e ep hr hep

theorem change_faithful (h : Change m op m') (hm : Linked m) : Faithful m'.groups := by
  cases h with
  | kept _ h =>
    intro g r e ep' hr hep'
    obtain ⟨ep, hep, heq⟩ := h.epochs g e ep' hep'
    rcases h.identity g with hid | hno
    · rw [heq]
      exact hm.faithful g r e ep (hid ▸ hr) hep
    · rw [hno] at hr
      cases hr
  | restored g persisted identity hok hgr =>
    intro g' r e ep hr hep
    rw [epochIn_insert] at hep
    rw [identityIn_insert] at hr
    split at hep
    · cases hep
    rename_i hg
    rw [if_neg hg] at hr
    exact hm.faithful g' r e ep hr hep
  | prepared | spent => exact hm.faithful
  | committed i p group hp _ h => exact commits_faithful h hm hp
  | rolledBack i p groups hp _ _ h => exact rollsBack_faithful h hm hp

theorem prepares_recorded (h : Prepares m op p) (hm : Faithful m.groups) : Recorded p := by
  cases h with
  | first | epoch => exact ⟨rfl, fun _ _ hk => by cases hk⟩
  | revision g e snapshot order group epoch hvalid hg hcur hep hact =>
    refine ⟨rfl, ?_⟩
    rintro base previous ⟨⟩
    refine ⟨?_, hact⟩
    have hid : (preparePublish group.identity.state snapshot false order).2.epochID = e :=
      (preparePublish_counters ..).currentEpoch.trans hcur
    change group.identity.published.lookup (preparePublish group.identity.state snapshot false order).2.epochID = _
    rw [hid]
    exact hm g _ e epoch (identityIn_lookup hg) ((epochIn_lookup hg e).trans hep)

theorem change_recorded (h : Change m op m') (hm : Linked m) (j : Nat) (q) (hq : m'.prepared[j]? = some q) :
    Recorded q := by
  rcases change_prepared h hq with ⟨p, hp, hsame⟩ | ⟨_, hprep, _⟩
  · have hrec := hm.recorded j p hp
    constructor
    · rw [hsame.next, hsame.baseState, hsame.identity]
      exact hrec.published
    · intro base previous hk
      rw [hsame.identity]
      exact hrec.previous base previous (hsame.kind ▸ hk)
  · exact prepares_recorded hprep hm.faithful

theorem change_linked (h : Change m op m') (hm : Linked m) : Linked m' :=
  ⟨(change_same h hm).1, (change_same h hm).2, change_distinct h hm, change_unshared h hm, change_faithful h hm,
    change_recorded h hm⟩

theorem after_linked (ops) : Linked (after ops) :=
  run_invariant (fun m op => change_linked (step_change m op)) start_linked ops

/-- The epochs of a group are as they were published last, and no preparation is in use before its commit. -/
theorem epochs_as_published (ops : List Op) :
    Faithful (after ops).groups ∧ ∀ (j : Nat) q, (after ops).prepared[j]? = some q → q.committed = false →
      Unshared (after ops) q := by
  have h := after_linked ops
  exact ⟨h.faithful, h.unshared⟩

end SingBox.EpochLinks
