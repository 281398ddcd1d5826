import SingBox.OutboundManager

namespace SingBox.ProviderRefresh

open List Maps Runs OutboundManager

structure OutboundOptions (O : Type) where
  kind : String
  tag : String
  options : O
  deriving DecidableEq

/-- The options are known by their fingerprints, which leave out the tag, and by whether they ask for fast open. -/
class Options (O : Type) where
  withoutFastOpen : O → O
  endpointIdentity : String → O → String
  dialIdentity : String → O → String

export Options (withoutFastOpen endpointIdentity dialIdentity)

structure Adapter (O : Type) where
  outbounds : List (Outbound O) := []
  outboundIDs : GoMap String String := ∅
  outboundDialIDs : GoMap String String := ∅

/-- The options in `assigned` are `lastOutOpts`. The tags that the last refresh gave them are not kept by the source. -/
structure Remote (O : Type) where
  manager : Manager O
  adapter : Adapter O := {}
  assigned : List (String × OutboundOptions O) := []

/-- The new options with the tags that `resolveOutboundTags` gives them, and the tags it now gives to the old ones. Both
depend on the order in which a map is visited. -/
structure Refresh (O : Type) where
  assigned : List (String × OutboundOptions O)
  nodup : (assigned.map Prod.fst).Nodup
  oldTags : List String
  making : String → Making
  closes : String → Bool

variable {O : Type} [DecidableEq O] [Options O]

def stripTCPFastOpenForAnyTLS (opt : OutboundOptions O) : OutboundOptions O :=
  if opt.kind ≠ "anytls" then opt else { opt with options := withoutFastOpen opt.options }

def removeUseless (a : Adapter O) (newTags : List String) (closes : String → Bool) (m : Manager O) : Manager O :=
  (a.outbounds.filter (·.tag ∉ newTags)).foldl (fun m o => (remove m o.tag (closes o.tag)).1) m

def byTag {V : Type} (value : OutboundOptions O → V) (assigned : List (String × OutboundOptions O)) : GoMap String V :=
  assigned.foldl (fun map p => map.insert p.1 (value p.2)) ∅

structure Progress (O : Type) where
  manager : Manager O
  outbounds : List (Outbound O) := []
  failed : List String := []

def round (active : List String) (old : GoMap String (OutboundOptions O)) (making : String → Making) (s : Progress O)
    (p : String × OutboundOptions O) : Progress O :=
  let found := outbound s.manager p.1
  let kept := if p.1 ∈ active then found.toList else []
  if found.isSome ∧ p.1 ∈ active ∧ old.lookup p.1 = some p.2 then { s with outbounds := s.outbounds ++ found.toList }
  else
    let opt := stripTCPFastOpenForAnyTLS p.2
    match create s.manager p.1 opt.kind opt.options (making p.1) with
    | (m, some _) => ⟨m, s.outbounds ++ kept, p.1 :: s.failed⟩
    | (m, none) => ⟨m, s.outbounds ++ ((outbound m p.1).toList ++ if (outbound m p.1).isNone then kept else []), s.failed⟩

def roundOf (r : Remote O) (old : List (String × OutboundOptions O)) : (String → Making) → Progress O →
    String × OutboundOptions O → Progress O :=
  round (r.adapter.outbounds.map (·.tag)) (byTag id old)

def rounds (r : Remote O) (e : Refresh O) : Progress O :=
  e.assigned.foldl (roundOf r (e.oldTags.zip (r.assigned.map Prod.snd)) e.making)
    { manager := removeUseless r.adapter (e.assigned.map Prod.fst) e.closes r.manager }

def updateOutbounds (r : Remote O) (e : Refresh O) : Remote O where
  manager := (rounds r e).manager
  adapter :=
    { outbounds := (rounds r e).outbounds
      outboundIDs := byTag (fun opt => endpointIdentity opt.kind opt.options) e.assigned
      outboundDialIDs := byTag (fun opt => dialIdentity opt.kind opt.options) e.assigned }
  assigned := e.assigned

def MadeFrom (opt : OutboundOptions O) (o : Outbound O) : Prop := o.kind = opt.kind ∧ o.options = opt.options

structure Published (r : Remote O) : Prop where
  assigned : ∀ o ∈ r.adapter.outbounds, ∃ opt, (o.tag, opt) ∈ r.assigned ∧ MadeFrom opt o
  identified : ∀ o ∈ r.adapter.outbounds, r.adapter.outboundIDs.lookup o.tag = some (endpointIdentity o.kind o.options) ∧
    r.adapter.outboundDialIDs.lookup o.tag = some (dialIdentity o.kind o.options)

/-- Only creations of outbounds that were not there before have failed. -/
def Quiet (r : Remote O) (s : Progress O) : Prop := ∀ o ∈ r.adapter.outbounds, o.tag ∉ s.failed

structure Regular (r : Remote O) (e : Refresh O) : Prop where
  sameTags : e.oldTags = r.assigned.map Prod.fst
  plain : ∀ p ∈ e.assigned, stripTCPFastOpenForAnyTLS p.2 = p.2
  quiet : Quiet r (rounds r e)

section

variable (m : Manager O) (tag kind : String) (options : O) (w : Making)

omit [Options O]

theorem lookup_create_ne (t) (ht : t ≠ tag) :
    (create m tag kind options w).1.outboundByTag.lookup t = m.outboundByTag.lookup t := by
  unfold create
  grind [register, lookup_set]

theorem lookup_create (h : (create m tag kind options w).2 = none) :
    ∃ o, (create m tag kind options w).1.outboundByTag.lookup tag = some o ∧ o.tag = tag ∧ o.kind = kind ∧
      o.options = options := by
  unfold create at h ⊢
  grind [register, lookup_set]

variable {m tag} {t : String}

theorem lookup_remove_ne {closes} (ht : t ≠ tag) :
    (remove m tag closes).1.outboundByTag.lookup t = m.outboundByTag.lookup t := by
  unfold remove
  grind [lookup_del]

theorem lookup_removeUseless {a tags closes} (ht : t ∈ tags) :
    (removeUseless a tags closes m).outboundByTag.lookup t = m.outboundByTag.lookup t := by
  have hoth : ∀ o ∈ a.outbounds.filter (·.tag ∉ tags), o.tag ∉ tags := by simp
  unfold removeUseless
  generalize a.outbounds.filter _ = useless at hoth ⊢
  induction useless generalizing m with
  | nil => rfl
  | cons o rest ih =>
    rw [foldl_cons, ih fun x hx => hoth x (mem_cons_of_mem _ hx), lookup_remove_ne]
    exact ne_of_mem_of_not_mem ht (hoth o mem_cons_self)

end

omit [DecidableEq O] [Options O] in
theorem lookup_byTag {V : Type} (value : OutboundOptions O → V) {assigned} (hnd : (assigned.map Prod.fst).Nodup)
    (tag) (v : V) : (byTag value assigned).lookup tag = some v ↔ ∃ opt, (tag, opt) ∈ assigned ∧ value opt = v := by
  rw [byTag, lookup_foldl_insert Prod.fst (fun p => value p.2) hnd]
  simp

variable {r : Remote O} {e : Refresh O}

structure Kept (r : Remote O) : Prop extends Published r where
  nodup : (r.assigned.map Prod.fst).Nodup
  known : ∀ o ∈ r.adapter.outbounds, r.manager.outboundByTag.lookup o.tag = some o

structure Sound (r : Remote O) (all rest : List (String × OutboundOptions O)) (s : Progress O) : Prop where
  known : ∀ o ∈ s.outbounds, s.manager.outboundByTag.lookup o.tag = some o ∧ ∀ p ∈ rest, p.1 ≠ o.tag
  made : ∀ o ∈ s.outbounds, ∃ opt, (o.tag, opt) ∈ all ∧ MadeFrom opt o
  ahead : ∀ p ∈ rest, s.manager.outboundByTag.lookup p.1 = r.manager.outboundByTag.lookup p.1

section

variable {all rest : List (String × OutboundOptions O)} {p : String × OutboundOptions O} {s : Progress O}
  {making : String → Making}

omit [DecidableEq O] [Options O] in
theorem Sound.add (h : Sound r all (p :: rest) s) (hp : p ∈ all) (hr : ∀ q ∈ rest, q.1 ≠ p.1) {m}
    (hm : ∀ t, t ≠ p.1 → m.outboundByTag.lookup t = s.manager.outboundByTag.lookup t) {new}
    (hnew : ∀ o ∈ new, o.tag = p.1 ∧ m.outboundByTag.lookup p.1 = some o ∧ MadeFrom p.2 o) (failed) :
    Sound r all rest ⟨m, s.outbounds ++ new, failed⟩ where
  known o ho := by
    rcases mem_append.1 ho with ho | ho
    · obtain ⟨hlk, hne⟩ := h.known o ho
      exact ⟨(hm _ (hne p mem_cons_self).symm).trans hlk, fun q hq => hne q (mem_cons_of_mem _ hq)⟩
    · obtain ⟨htag, hlk, -⟩ := hnew o ho
      exact ⟨htag ▸ hlk, htag ▸ hr⟩
  made o ho := by
    rcases mem_append.1 ho with ho | ho
    · exact h.made o ho
    · obtain ⟨htag, -, hmade⟩ := hnew o ho
      exact ⟨p.2, htag ▸ hp, hmade⟩
  ahead q hq := (hm _ (hr q hq)).trans (h.ahead q (mem_cons_of_mem _ hq))

theorem Sound.round (hr : Kept r) (h : Quiet r s → Sound r all (p :: rest) s) (hp : p ∈ all)
    (hre : ∀ q ∈ rest, q.1 ≠ p.1) (hplain : stripTCPFastOpenForAnyTLS p.2 = p.2)
    (hqt : Quiet r (roundOf r r.assigned making s p)) : Sound r all rest (roundOf r r.assigned making s p) := by
  unfold roundOf ProviderRefresh.round at hqt ⊢
  dsimp only at hqt ⊢
  split
  case isTrue hsame =>
    rw [if_pos hsame] at hqt
    have h := h hqt
    obtain ⟨-, hact, hold⟩ := hsame
    obtain ⟨o, ho, htag⟩ := mem_map.1 hact
    obtain ⟨opt, hin, hmade⟩ := hr.assigned o ho
    obtain ⟨opt', hin', hopt⟩ := (lookup_byTag id hr.nodup ..).1 hold
    have hkn : s.manager.outboundByTag.lookup p.1 = some o := by
      rw [h.ahead p mem_cons_self, ← htag, hr.known o ho]
    have hsame := inj_on_of_nodup_map hr.nodup hin hin' htag
    refine h.add hp hre (fun _ _ => rfl) ?_ _
    simp only [outbound, hkn, Option.some_or, Option.toList_some, mem_singleton, forall_eq]
    refine ⟨htag, trivial, ?_⟩
    rw [← show opt' = p.2 from hopt, ← (Prod.mk.inj hsame).2]
    exact hmade
  case isFalse hnew =>
    rw [if_neg hnew, hplain] at hqt
    rw [hplain]
    have hoth := lookup_create_ne s.manager p.1 p.2.kind p.2.options (making p.1)
    have hcre := lookup_create s.manager p.1 p.2.kind p.2.options (making p.1)
    split
    · next m fault hcr =>
      rw [hcr] at hqt hoth
      have hinac : p.1 ∉ r.adapter.outbounds.map (·.tag) := by
        rintro hin
        obtain ⟨o, ho, htag⟩ := mem_map.1 hin
        exact hqt o ho (htag ▸ mem_cons_self)
      refine (h fun o ho hin => hqt o ho (mem_cons_of_mem _ hin)).add hp hre hoth ?_ _
      simp [hinac]
    · next m hcr =>
      rw [hcr] at hqt hoth hcre
      obtain ⟨o, hlk, htag, hk, hopti⟩ := hcre rfl
      refine (h hqt).add hp hre hoth ?_ _
      simp [outbound, hlk, htag, MadeFrom, hk, hopti]

theorem Sound.rounds (hr : Kept r) (h : Quiet r s → Sound r all rest s)
    (hall : ∀ p ∈ rest, p ∈ all ∧ stripTCPFastOpenForAnyTLS p.2 = p.2) (hnd : (rest.map Prod.fst).Nodup)
    (hqt : Quiet r (rest.foldl (roundOf r r.assigned making) s)) :
    Sound r all [] (rest.foldl (roundOf r r.assigned making) s) := by
  induction rest generalizing s with
  | nil => exact h hqt
  | cons p rest ih =>
    obtain ⟨hnew, hnd⟩ := nodup_cons.1 hnd
    obtain ⟨hp, hplain⟩ := hall p mem_cons_self
    refine ih (Sound.round hr h hp ?_ hplain) (fun q hq => hall q (mem_cons_of_mem _ hq)) hnd hqt
    exact fun q hq heq => hnew (heq ▸ mem_map_of_mem hq)

end

theorem Kept.updateOutbounds (h : Kept r) (hreg : Regular r e) : Kept (updateOutbounds r e) := by
  have hold : e.oldTags.zip (r.assigned.map Prod.snd) = r.assigned := by
    rw [hreg.sameTags, zip_map']
    simp
  have hso : Sound r e.assigned [] (ProviderRefresh.rounds r e) := by
    have hqt := hreg.quiet
    unfold ProviderRefresh.rounds at hqt ⊢
    rw [hold] at hqt ⊢
    refine Sound.rounds h (fun _ => ⟨by simp, by simp, ?_⟩) (fun p hp => ⟨hp, hreg.plain p hp⟩) e.nodup hqt
    exact fun p hp => lookup_removeUseless (mem_map_of_mem hp)
  refine ⟨⟨hso.made, fun o ho => ?_⟩, e.nodup, fun o ho => (hso.known o ho).1⟩
  obtain ⟨opt, hopt, hk, hopti⟩ := hso.made o ho
  rw [hk, hopti]
  exact ⟨(lookup_byTag _ e.nodup ..).2 ⟨opt, hopt, rfl⟩, (lookup_byTag _ e.nodup ..).2 ⟨opt, hopt, rfl⟩⟩

/-- In every run in which creations fail for new tags only, the members are made from the
options of the last refresh. -/
theorem members_fresh (m : Manager O) (es : List (Refresh O)) (h : Meets updateOutbounds Regular { manager := m } es) :
    Published (run updateOutbounds { manager := m } es) := by
  have hkept : Kept (run updateOutbounds { manager := m } es) :=
    run_keeps (fun _ _ _ hreg hr => hr.updateOutbounds hreg) ⟨⟨by simp, by simp⟩, by simp, by simp⟩ h
  exact hkept.toPublished

instance textOptions : Options String := ⟨id, fun kind options => kind ++ options, fun kind options => kind ++ options⟩

def offered (options : String) (constructs : Bool) (oldTags : List String) : Refresh String where
  assigned := [("home/a", ⟨"vless", "a", options⟩)]
  nodup := by simp
  oldTags := oldTags
  making _ := { constructs := constructs }
  closes _ := true

def unmanaged : Remote String where
  manager := newManager "" true fun _ => none

theorem offered_fresh :
    Published (run updateOutbounds unmanaged [offered "old" true [], offered "new" true ["home/a"]]) := by
  refine members_fresh _ _ ⟨⟨rfl, ?_, ?_⟩, ⟨?_, ?_, ?_⟩, trivial⟩
  all_goals (try unfold Quiet); decide +kernel

/-- The second creation fails, and the third refresh does not try it again. -/
def staleRun : List (Refresh String) :=
  [offered "old" true [], offered "new" false ["home/a"], offered "new" true ["home/a"]]

theorem staleRun_stale :
    ((run updateOutbounds unmanaged staleRun).adapter.outbounds.map fun o => (o.tag, o.options)) = [("home/a", "old")] ∧
      (run updateOutbounds unmanaged staleRun).assigned = [("home/a", ⟨"vless", "a", "new"⟩)] ∧
      (run updateOutbounds unmanaged staleRun).adapter.outboundDialIDs.lookup "home/a" = some "vlessnew" := by
  decide +kernel

end SingBox.ProviderRefresh
