import Mathlib.Data.List.TakeWhile
import SingBox.SourceRuntime

namespace SingBox.ProviderLog

open List Option SourceSnapshots SourceRuntime OrderFree

variable {tag : String} {p : Provider} {c : Contents} {revision : Nat} {deltas : List ProviderDelta}
  {delta : ProviderDelta}

theorem Contents.outbound_eq_some {o} : c.outbound tag = some o ↔ o ∈ c.outbounds ∧ o.tag = tag := by
  constructor
  · intro h
    have htag := find?_some h
    exact ⟨mem_of_find?_eq_some h, eq_of_beq htag⟩
  · rintro ⟨hm, rfl⟩
    cases hf : c.outbound o.tag with
    | none => exact absurd (beq_self_eq_true o.tag) (find?_eq_none.1 hf o hm)
    | some o' =>
      have htag := find?_some hf
      rw [inj_on_of_nodup_map c.distinct (mem_of_find?_eq_some hf) hm (eq_of_beq htag)]

theorem mem_sortTags {tags} : tag ∈ sortTags tags ↔ tag ∈ tags := by
  rw [sortTags, mem_reverse]
  exact (perm_sortFromEnd ..).mem_iff

theorem mem_tags : tag ∈ c.outbounds.map (·.tag) ↔ c.outbound tag ≠ none := by
  rw [List.mem_map]
  constructor
  · rintro ⟨o, ho, rfl⟩
    rw [Contents.outbound_eq_some.2 ⟨ho, rfl⟩]
    exact some_ne_none o
  · intro hne
    obtain ⟨o, ho⟩ := ne_none_iff_exists'.1 hne
    exact ⟨o, Contents.outbound_eq_some.1 ho⟩

theorem mem_removedTags {previous current} :
    tag ∈ removedTags previous current ↔ previous.outbound tag ≠ none ∧ current.outbound tag = none := by
  rw [removedTags, mem_sortTags, mem_filter, isNone_iff_eq_none, mem_tags]

/-- The tags of a delta tell how the outbounds have changed: what is not named is
as it was, and what is named and still there is among the upserts. -/
structure Truthful (before after : String → Option Outbound) (upserts removes : List String) : Prop where
  untouched : ∀ tag, tag ∉ upserts → tag ∉ removes → before tag = after tag
  present : ∀ tag, tag ∈ removes → after tag ≠ none → tag ∈ upserts

theorem Truthful.refl (f) : Truthful f f [] [] :=
  ⟨fun _ _ _ => rfl, fun _ h => absurd h not_mem_nil⟩

theorem Truthful.trans {f g h upserts removes upserts' removes'} (hfg : Truthful f g upserts removes)
    (hgh : Truthful g h upserts' removes') : Truthful f h (upserts ++ upserts') (removes ++ removes') := by
  constructor
  · intro tag hups hrem
    rw [mem_append, not_or] at hups hrem
    exact (hfg.untouched tag hups.1 hrem.1).trans (hgh.untouched tag hups.2 hrem.2)
  · intro tag hrem hthere
    by_cases hlat : tag ∈ upserts'
    · exact mem_append_right _ hlat
    have hnot : tag ∉ removes' := fun hin => hlat (hgh.present tag hin hthere)
    have hear := (mem_append.1 hrem).resolve_right hnot
    rw [← hgh.untouched tag hlat hnot] at hthere
    exact mem_append_left _ (hfg.present tag hear hthere)

theorem truthful_record (previous current) :
    Truthful previous.outbound current.outbound (upsertedTags previous current) (removedTags previous current) := by
  constructor
  · intro tag hups hrem
    rw [upsertedTags, mem_sortTags, mem_filter, decide_eq_true_eq, mem_tags, not_and_not_right] at hups
    rw [mem_removedTags] at hrem
    by_cases hthere : current.outbound tag = none
    · rw [hthere]
      by_contra hbef
      exact hrem ⟨hbef, hthere⟩
    · exact hups hthere
  · intro tag hrem hthere
    exact absurd (mem_removedTags.1 hrem).2 hthere

def version (p : Provider) (revision : Nat) (tag : String) : Option Outbound :=
  (p.versions[revision]?).bind (·.outbound tag)

structure WellLogged (p : Provider) : Prop where
  length : p.versions.length = p.deltaRevision + 1
  current : version p p.deltaRevision = p.contents.outbound
  entries : ∀ d ∈ p.deltaHistory, Truthful (version p d.baseRevision) (version p d.revision) d.upserts d.removes ∧
    d.baseRevision < p.deltaRevision ∧ d.revision ≤ p.deltaRevision
  latest : ∀ d, p.deltaHistory.getLast? = some d → d.revision = p.deltaRevision

theorem wellLogged_new (contents) : WellLogged { contents := contents } :=
  ⟨rfl, rfl, fun _ h => absurd h not_mem_nil, fun _ h => by cases h⟩

theorem recordOutboundDelta_contents (p current) : (recordOutboundDelta p current).contents = current := by
  rw [recordOutboundDelta]
  split <;> rfl

theorem le_recordOutboundDelta (p current) : p.deltaRevision ≤ (recordOutboundDelta p current).deltaRevision := by
  rw [recordOutboundDelta]
  split
  · exact Nat.le_refl _
  · exact Nat.le_succ _

theorem version_recordOutboundDelta (h : WellLogged p) (current) (hle : revision ≤ p.deltaRevision) :
    version (recordOutboundDelta p current) revision = version p revision := by
  funext tag
  rw [recordOutboundDelta]
  split
  · rfl
  rw [version, version]
  rw [getElem?_append_left]
  rw [h.length]
  omega

theorem wellLogged_record (h : WellLogged p) (current) : WellLogged (recordOutboundDelta p current) := by
  have htruth := truthful_record p.contents current
  have hvers : ∀ {revision : Nat}, revision ≤ p.deltaRevision →
      version (recordOutboundDelta p current) revision = version p revision := version_recordOutboundDelta h current
  by_cases hsame : upsertedTags p.contents current = [] ∧ removedTags p.contents current = []
  · rw [hsame.1, hsame.2] at htruth
    have hequal : p.contents.outbound = current.outbound := by
      funext tag
      exact htruth.untouched tag not_mem_nil not_mem_nil
    have hrec : recordOutboundDelta p current = { p with contents := current } := by
      exact if_pos hsame
    rw [hrec]
    exact { h with current := h.current.trans hequal }
  · have hl : version (recordOutboundDelta p current) (p.deltaRevision + 1) = current.outbound := by
      funext tag
      rw [recordOutboundDelta, if_neg hsame, version]
      rw [← h.length, getElem?_concat_length]
      rfl
    have hent : ∀ d ∈ (recordOutboundDelta p current).deltaHistory, d ∈ p.deltaHistory ∨
        d = ⟨p.deltaRevision, p.deltaRevision + 1, upsertedTags p.contents current, removedTags p.contents current⟩ := by
      intro d hd
      rw [recordOutboundDelta, if_neg hsame] at hd
      exact (mem_append.1 (mem_of_mem_drop hd)).imp_right mem_singleton.1
    have hrevi : (recordOutboundDelta p current).deltaRevision = p.deltaRevision + 1 := by
      rw [recordOutboundDelta, if_neg hsame]
    constructor
    · rw [recordOutboundDelta, if_neg hsame, length_append, h.length]
      rfl
    · rw [hrevi, hl, recordOutboundDelta_contents]
    · intro d hd
      rw [hrevi]
      rcases hent d hd with hold | rfl
      · obtain ⟨hd, hbase, hrev⟩ := h.entries d hold
        rw [hvers hbase.le, hvers hrev]
        exact ⟨hd, hbase.trans (Nat.lt_succ_self _), Nat.le_succ_of_le hrev⟩
      · rw [hvers (Nat.le_refl _), hl, h.current]
        exact ⟨htruth, Nat.lt_succ_self _, Nat.le_refl _⟩
    · intro d hd
      rw [recordOutboundDelta, if_neg hsame] at hd
      rw [getLast?_drop] at hd
      split at hd
      · cases hd
      · rw [getLast?_concat] at hd
        rw [hrevi, ← some.inj hd]

theorem collectDeltas_truthful (h : WellLogged p) {base result} (hds : ∀ d ∈ deltas, d ∈ p.deltaHistory)
    (hres : Truthful (version p base) (version p result.revision) result.upserts result.removes)
    (hcol : collectDeltas result deltas = some delta) :
    Truthful (version p base) (version p delta.revision) delta.upserts delta.removes ∧
      delta.revision = (deltas.getLast?.map (·.revision)).getD result.revision := by
  induction deltas generalizing result with
  | nil =>
    obtain rfl := some.inj hcol
    exact ⟨hres, rfl⟩
  | cons d deltas ih =>
    rw [collectDeltas] at hcol
    split at hcol
    · cases hcol
    rename_i hbase
    have he := (h.entries d (hds d mem_cons_self)).1
    rw [not_not.1 hbase] at he
    obtain ⟨htruth, hrev⟩ := ih (fun d' h' => hds d' (mem_cons_of_mem _ h'))
      (hres.trans he) hcol
    refine ⟨htruth, hrev.trans ?_⟩
    cases deltas with
    | nil => rfl
    | cons d' deltas => simp [getLast?_cons]

theorem outboundDelta_truthful (h : WellLogged p) (hde : outboundDelta p revision = some delta) :
    Truthful (version p revision) p.contents.outbound delta.upserts delta.removes ∧
      delta.revision = p.deltaRevision := by
  rw [outboundDelta] at hde
  split at hde
  · rename_i heq
    obtain rfl := some.inj hde
    rw [heq, h.current]
    exact ⟨.refl _, rfl⟩
  · split at hde
    · cases hde
    split at hde
    · cases hde
    rename_i deltas hdrop hds
    have hsuf := dropWhile_suffix (fun d => d.baseRevision != revision) (l := p.deltaHistory)
    obtain ⟨htruth, hrev⟩ := collectDeltas_truthful h (fun d hd => hsuf.subset hd) (.refl _) hde
    have hl : delta.revision = p.deltaRevision := by
      obtain ⟨earlier, hear⟩ := hsuf
      cases hend : (p.deltaHistory.dropWhile fun d => d.baseRevision != revision).getLast? with
      | none => exact absurd (getLast?_eq_none_iff.1 hend) hds
      | some d =>
        rw [hend] at hrev
        refine hrev.trans (h.latest d ?_)
        rw [← hear, getLast?_append, hend]
        rfl
    rw [hl, h.current] at htruth
    exact ⟨htruth, hl⟩

theorem mem_collectDeltas {result} (h : collectDeltas result deltas = some delta) :
    tag ∈ delta.upserts ↔ tag ∈ result.upserts ∨ ∃ d ∈ deltas, tag ∈ d.upserts := by
  induction deltas generalizing result with
  | nil =>
    obtain rfl := some.inj h
    simp
  | cons d deltas ih =>
    rw [collectDeltas] at h
    split at h
    · cases h
    rw [ih h, mem_append]
    grind

theorem mem_outboundDelta (h : WellLogged p) (hde : outboundDelta p revision = some delta) :
    tag ∈ delta.upserts ↔ ∃ d ∈ p.deltaHistory.dropWhile (·.baseRevision != revision), tag ∈ d.upserts := by
  rw [outboundDelta] at hde
  split at hde
  · next heq =>
    obtain rfl := some.inj hde
    -- no refresh starts from the current revision
    have hnil : p.deltaHistory.dropWhile (·.baseRevision != revision) = [] := by
      simp only [dropWhile_eq_nil_iff, bne_iff_ne]
      exact fun d hd => heq ▸ (h.entries d hd).2.1.ne
    simp [hnil]
  split at hde
  · cases hde
  split at hde
  · cases hde
  simpa using mem_collectDeltas hde

def refreshed (first : Contents) (refreshes : List Contents) : Provider :=
  refreshes.foldl recordOutboundDelta { contents := first }

/-- What a refresh after the revision has added or changed is still there. -/
def Lasting (p : Provider) (revision : Nat) : Prop :=
  ∀ d ∈ p.deltaHistory.dropWhile (·.baseRevision != revision), ∀ tag ∈ d.upserts, p.contents.outbound tag ≠ none

theorem delta_gives_members {first : Contents} {refreshes : List Contents} (hp : refreshed first refreshes = p)
    {revision : Nat} {delta : ProviderDelta} (hdelta : outboundDelta p revision = some delta) :
    ((∀ tag, version p revision tag ≠ none ∧ tag ∉ delta.removes ∨ tag ∈ delta.upserts ↔
      p.contents.outbound tag ≠ none) ↔ Lasting p revision) ∧
    ∀ tag, p.contents.outbound tag ≠ none → version p revision tag ≠ p.contents.outbound tag → tag ∈ delta.upserts := by
  have hlog : WellLogged p := hp ▸ foldlRecOn _ _ (wellLogged_new first) fun _ h current _ => wellLogged_record h current
  have htruth := (outboundDelta_truthful hlog hdelta).1
  have hmem (tag) := @mem_outboundDelta tag _ _ _ hlog hdelta
  have hchg : ∀ tag, p.contents.outbound tag ≠ none → tag ∉ delta.upserts →
      tag ∉ delta.removes ∧ version p revision tag = p.contents.outbound tag := by
    intro tag hthere hup
    have hkept : tag ∉ delta.removes := fun hin => hup (htruth.present tag hin hthere)
    exact ⟨hkept, htruth.untouched tag hup hkept⟩
  refine ⟨⟨fun hall d hd tag hin => (hall tag).1 (.inr ((hmem tag).2 ⟨d, hd, hin⟩)), fun hl tag => ⟨?_, fun hthere => ?_⟩⟩,
    fun tag hthere hne => ?_⟩
  · intro hls
    by_cases hup : tag ∈ delta.upserts
    · obtain ⟨d, hd, hin⟩ := (hmem tag).1 hup
      exact hl d hd tag hin
    · obtain ⟨hbef, hkept⟩ := hls.resolve_right hup
      rwa [← htruth.untouched tag hup hkept]
  · by_cases hup : tag ∈ delta.upserts
    · exact .inr hup
    · obtain ⟨hkept, heq⟩ := hchg tag hthere hup
      exact .inl ⟨heq ▸ hthere, hkept⟩
  · by_contra hup
    exact hne (hchg tag hthere hup).2

def none_ : Contents := ⟨[], nodup_nil⟩

def one (object : Nat) : Contents := ⟨[⟨object, "a", "", [], [], none, none⟩], nodup_singleton _⟩

theorem changed_member_there : (refreshed none_ [one 1, one 2]).contents.outbound "a" ≠ none :=
  ((@delta_gives_members _ none_ [one 1, one 2] rfl 1 ⟨1, 2, ["a"], []⟩ (by decide +kernel)).1.2
    (by unfold Lasting; decide +kernel) "a").1 (.inr mem_cons_self)

/-- A tag that comes and goes is removed first and added again. -/
theorem gone_member_listed : outboundDelta (refreshed none_ [one 1, none_]) 0 = some ⟨0, 2, ["a"], ["a"]⟩ ∧
    (refreshed none_ [one 1, none_]).contents.outbound "a" = none := by
  decide +kernel

end SingBox.ProviderLog
