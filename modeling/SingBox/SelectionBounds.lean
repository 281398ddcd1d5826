import Mathlib.Data.List.Dedup
import SingBox.SelectionCommits

namespace SingBox.SelectionBounds

open List Maps Runs Values SmartSelection SelectionCommits

variable {V : Type} {limit : Int} {s : Smart}

theorem foldl_lt {S : Type} {f} {m : S → GoMap String V} (hlim : 0 < limit)
    (hf : ∀ s key, (((m s).keys.length : Int) < limit ∧ m (f s key) = m s) ∨ m (f s key) = (m s).erase key)
    {keys : List String} {s : S} (h : ((m s).keys.length : Int) < limit ∨ ∀ k ∈ (m s).keys, k ∈ keys) :
    ((m (keys.foldl f s)).keys.length : Int) < limit := by
  induction keys generalizing s with
  | nil =>
    refine h.elim id fun hno => ?_
    rw [foldl_nil, eq_nil_iff_forall_not_mem.2 fun k hk => not_mem_nil (hno k hk)]
    exact hlim
  | cons key keys ih =>
    refine ih ?_
    rcases hf s key with ⟨hlt, heq⟩ | heq
    · exact .inl (heq ▸ hlt)
    rw [heq]
    refine h.imp (lt_of_le_of_lt (Int.ofNat_le.2 (erase_submap _ key).length_le)) fun hall k hk => ?_
    rw [AList.keys_erase, (AList.keys_nodup _).mem_erase_iff] at hk
    exact (mem_cons.1 (hall k hk.2)).resolve_left hk.1

theorem deleteIf_submap (drop) (m : GoMap String V) : Submap (deleteIf drop m) m := by
  refine foldl_submap (fun m key => ?_) m.keys m
  split
  · exact erase_submap m key
  · exact .refl m

theorem deleteOver_lt (hlim : 0 < limit) (order : RangeOrder String) (m : GoMap String V) :
    ((deleteOver limit (order.visit m.keys) m).keys.length : Int) < limit := by
  refine foldl_lt (m := id) hlim (fun m key => ?_) (.inr fun k => order.mem_visit.2)
  by_cases hlt : (m.keys.length : Int) < limit
  · exact .inl ⟨hlt, if_pos hlt⟩
  · exact .inr (if_neg hlt)

theorem pruneLimit_pos (o) : 0 < pruneLimit o :=
  lt_min (by decide) (lt_max_of_lt_left (by decide))

structure Pruned (o : SmartOptions) (s t : Smart) : Prop where
  affinity : (t.affinity.keys.length : Int) < pruneLimit o
  generations : (t.selectionGeneration.keys.length : Int) < pruneLimit o
  endpoints : (t.zigSelectedEndpoint.keys.length : Int) < pruneLimit o
  cooldown : Submap t.performanceCooldown s.performanceCooldown
  challenges : Submap t.switchChallenges s.switchChallenges

theorem pruneAffinity_lt (o : SmartOptions) (orders : PruneOrders) (now) (s : Smart) :
    ((pruneAffinityLocked o orders now s).affinity.keys.length : Int) < pruneLimit o := by
  rw [pruneAffinityLocked]
  split
  · assumption
  · exact deleteOver_lt (pruneLimit_pos o) ..

theorem pruneEndpoints_lt (o order s) :
    ((pruneEndpoints o order s).zigSelectedEndpoint.keys.length : Int) < pruneLimit o := by
  rw [pruneEndpoints]
  split
  · refine foldl_lt (m := Smart.zigSelectedEndpoint) (pruneLimit_pos o) (fun s key => ?_)
      (.inr fun k => order.mem_visit.2)
    rw [pruneEndpoint]
    split
    · next hlt => exact .inl ⟨hlt.1, rfl⟩
    · exact .inr rfl
  · next hlt => exact Int.not_le.1 hlt

theorem prune_pruned (o : SmartOptions) (orders : PruneOrders) (now) (s : Smart) :
    Pruned o s (pruneContextStateLocked o orders now (pruneAffinityLocked o orders now s)) := by
  have haffi := pruneAffinity_lt o orders now s
  obtain ⟨rows, haff⟩ : ∃ rows, pruneAffinityLocked o orders now s = { s with affinity := rows } := by
    rw [pruneAffinityLocked]
    split <;> exact ⟨_, rfl⟩
  have hlt := pruneEndpoints_lt o orders.endpoints (pruneExpired o now (pruneAffinityLocked o orders now s))
  obtain ⟨endpoints, generations, hframe⟩ := pruneEndpoints_frame o orders.endpoints
    (pruneExpired o now _)
  rw [hframe] at hlt
  rw [pruneContextStateLocked, hframe]
  rw [haff] at haffi hlt ⊢
  rw [pruneGenerations]
  split
  · exact ⟨haffi, deleteOver_lt (pruneLimit_pos o) .., hlt, deleteIf_submap _ _, deleteIf_submap _ _⟩
  · next hfew => exact ⟨haffi, Int.not_le.1 hfew, hlt, deleteIf_submap _ _, deleteIf_submap _ _⟩

/-- The three maps that are pruned by number. -/
def Held (limit : Int) (s : Smart) : Prop :=
  (s.affinity.keys.length : Int) ≤ limit ∧ (s.selectionGeneration.keys.length : Int) ≤ limit ∧
    (s.zigSelectedEndpoint.keys.length : Int) ≤ limit

/-- The maps that are not held to the limit. -/
def Capped (limit : Int) (s : Smart) : Prop :=
  (s.lastSelected.keys.length : Int) ≤ limit ∧ (s.lastSelectedAt.keys.length : Int) ≤ limit ∧
    (s.performanceCooldown.keys.length : Int) ≤ limit ∧ (s.switchChallenges.keys.length : Int) ≤ limit

variable {o : SmartOptions} {r : SmartRanking} {d : Dial} {w : System} {events : List Event}

theorem complete_held (hbe : o.policyBackendRequired = true → d.usePolicyBackend = true) :
    Held (pruneLimit o) (complete o s r d) ∧
      ((complete o s r d).performanceCooldown.keys ⊆ smartSelectionKey r.context :: s.performanceCooldown.keys) ∧
      (complete o s r d).switchChallenges.keys ⊆ s.switchChallenges.keys := by
  have hins {V} {m : GoMap String V} {limit : Int} (h : (m.keys.length : Int) < limit) (k : String) (v : V) :
      ((m.insert k v).keys.length : Int) ≤ limit := by
    have := length_keys_insert_le m k v
    omega
  have hpr := prune_pruned o d.orders d.now s
  have hcool := hpr.cooldown.keys_subset
  rw [complete, markSelectedWithSnapshot, if_neg (by simpa using hbe)]
  dsimp only
  split
  · refine ⟨⟨?_, hins hpr.generations .., hpr.endpoints.le⟩, ?_, ?_⟩
    · dsimp only [commit]
      split
      · exact hins hpr.affinity ..
      · exact hpr.affinity.le
    · dsimp only [commit]
      split
      · rw [AList.keys_insert]
        exact cons_subset_cons _ fun k hk => hcool (mem_of_mem_erase hk)
      · exact fun k hk => mem_cons_of_mem _ (hcool hk)
    · exact ((erase_submap _ _).trans hpr.challenges).keys_subset
  · exact ⟨⟨hpr.affinity.le, hpr.generations.le, hpr.endpoints.le⟩,
      fun k hk => mem_cons_of_mem _ (hcool hk), hpr.challenges.keys_subset⟩

theorem complete_new (hbe : o.policyBackendRequired = true → d.usePolicyBackend = true)
    (hnew : s.lastSelected.lookup (smartSelectionKey r.context) = none) :
    (complete o s r d).lastSelected = s.lastSelected.insert (smartSelectionKey r.context) d.candidate := by
  have hsame := prune_selections o d.orders d.now s
  rw [complete, markSelectedWithSnapshot, if_neg (by simpa using hbe)]
  dsimp only
  generalize pruneContextStateLocked o d.orders d.now _ = t at hsame ⊢
  have hno : (inForce o d.now (stored t (smartSelectionKey r.context))).1 = "" := by
    rw [stored, hsame.1, hnew, inForce]
    split <;> rfl
  have hv : verdict o d.metadataByTag d.usePolicyBackend d.now t
      (inForce o d.now (stored t (smartSelectionKey r.context))) (completionOf r d) = .selected := by
    simp [verdict, logicalSwitch, hno]
  rw [show (completionOf r d).context = r.context from rfl, hv, ← hsame.1]
  rfl

/-- The program's calls: a challenge is confirmed only for a context that has a
selection, a dial is that of a ranking, and no completion is turned away for want
of the policy backend. -/
def Called (o : SmartOptions) (w : System) : Event → Prop
  | .confirm key _ _ => key ∈ w.smart.lastSelected.keys
  | .complete d => d.ranking < w.rankings.length ∧ (o.policyBackendRequired = true → d.usePolicyBackend = true)
  | _ => True

/-- The contexts that were ranked and the keys of the dials that completed, as the calls alone have them. -/
structure Asked where
  contexts : List Context := []
  keys : List String := []

def ask (a : Asked) : Event → Asked
  | .rank context _ => { a with contexts := a.contexts ++ [context] }
  | .complete d => { a with keys := (a.contexts[d.ranking]?).toList.map smartSelectionKey ++ a.keys }
  | _ => a

structure Mirrors (w : System) (a : Asked) : Prop where
  contexts : w.rankings.map (·.context) = a.contexts
  selected : ∀ k, k ∈ w.smart.lastSelected.keys ↔ k ∈ a.keys
  selectedAt : ∀ k, k ∈ w.smart.lastSelectedAt.keys ↔ k ∈ a.keys
  cooldown : w.smart.performanceCooldown.keys ⊆ a.keys
  challenges : w.smart.switchChallenges.keys ⊆ a.keys

theorem mem_keys_insert {m : GoMap String V} {k k' v} : k' ∈ (m.insert k v).keys ↔ k' = k ∨ k' ∈ m.keys := by
  rw [← AList.mem_keys, AList.mem_insert, AList.mem_keys]

theorem Mirrors.complete {a} (h : Mirrors w a) (hc : Called o w (.complete d)) :
    Mirrors (step o w (.complete d)) (ask a (.complete d)) := by
  obtain ⟨hlt, hbe⟩ := hc
  have hrk := getElem?_eq_getElem hlt
  generalize w.rankings[d.ranking] = r at hrk
  have hcont : a.contexts[d.ranking]? = some r.context := by rw [← h.contexts, getElem?_map, hrk]; rfl
  obtain ⟨-, hcool, hch⟩ := complete_held (s := w.smart) (r := r) hbe
  simp only [step, ask, hrk, hcont]
  have hkeys : (∀ k, k ∈ (SelectionCommits.complete o w.smart r d).lastSelected.keys ↔
        k = smartSelectionKey r.context ∨ k ∈ a.keys) ∧
      ∀ k, k ∈ (SelectionCommits.complete o w.smart r d).lastSelectedAt.keys ↔
        k = smartSelectionKey r.context ∨ k ∈ a.keys := by
    cases complete_completed o w.smart r d with
    | selected hsel hat =>
      simp only [hsel, hat, mem_keys_insert, h.selected, h.selectedAt, implies_true, and_self]
    | retained hsame =>
      -- what is retained was selected before
      have hin : smartSelectionKey r.context ∈ a.keys := by
        by_contra hout
        have hnew := complete_new hbe (AList.lookup_eq_none.2 (mt (h.selected _).1 hout))
        rw [hsame.1] at hnew
        exact hout ((h.selected _).1 (hnew ▸ mem_keys_insert.2 (.inl rfl)))
      rw [hsame.1, hsame.2]
      constructor <;> intro k
      · rw [h.selected, iff_or_self]
        exact fun hk => hk ▸ hin
      · rw [h.selectedAt, iff_or_self]
        exact fun hk => hk ▸ hin
  exact ⟨h.contexts, fun k => (hkeys.1 k).trans mem_cons.symm, fun k => (hkeys.2 k).trans mem_cons.symm,
    fun k hk => cons_subset_cons _ h.cooldown (hcool hk),
    fun k hk => mem_cons_of_mem _ (h.challenges (hch hk))⟩

theorem Mirrors.step {a e} (h : Mirrors w a) (hc : Called o w e) :
    Mirrors (SelectionCommits.step o w e) (ask a e) := by
  cases e with
  | complete d => exact h.complete hc
  | rank context now => exact { h with contexts := by simp [SelectionCommits.step, ask, takeSnapshot, h.contexts] }
  | clear key => exact { h with challenges := fun k hk => h.challenges ((erase_submap _ _).keys_subset hk) }
  | record statusKey endpointID =>
    simp only [SelectionCommits.step, recordZigSelectedEndpoint]
    split <;> exact ⟨h.contexts, h.selected, h.selectedAt, h.cooldown, h.challenges⟩
  | confirm key candidate now =>
    have hke := (h.selected key).1 hc
    have hput : ∀ c, (w.smart.switchChallenges.insert key c).keys ⊆ a.keys := by
      intro c k hk
      rcases mem_keys_insert.1 hk with rfl | hk
      · exact hke
      · exact h.challenges hk
    simp only [SelectionCommits.step, confirmSwitchChallenge]
    split
    · exact { h with challenges := hput _ }
    split
    · exact { h with challenges := hput _ }
    split
    · exact { h with challenges := hput _ }
    · exact { h with challenges := fun k hk => h.challenges ((erase_submap _ _).keys_subset hk) }

theorem Mirrors.run {a} (h : Mirrors w a) (hcs : Meets (SelectionCommits.step o) (Called o) w events) :
    Mirrors (Runs.run (SelectionCommits.step o) w events) (Runs.run ask a events) := by
  induction events generalizing w a with
  | nil => exact h
  | cons e events ih => exact ih (h.step hcs.1) hcs.2

theorem Mirrors.capped_iff {a} (h : Mirrors w a) : Capped limit w.smart ↔ (a.keys.dedup.length : Int) ≤ limit := by
  have hsel := (perm_ext_iff_of_nodup (AList.keys_nodup _) (nodup_dedup _)).2 fun k =>
    (h.selected k).trans mem_dedup.symm
  have hat := (perm_ext_iff_of_nodup (AList.keys_nodup _) (nodup_dedup _)).2 fun k =>
    (h.selectedAt k).trans mem_dedup.symm
  have hcool := (subperm_of_subset (AList.keys_nodup _) fun k hk => mem_dedup.2 (h.cooldown hk)).length_le
  have hch := (subperm_of_subset (AList.keys_nodup _) fun k hk => mem_dedup.2 (h.challenges hk)).length_le
  rw [Capped, hsel.length_eq, hat.length_eq]
  constructor
  · exact fun hcap => hcap.1
  · intro hlim
    exact ⟨hlim, hlim, (Int.ofNat_le.2 hcool).trans hlim, (Int.ofNat_le.2 hch).trans hlim⟩

/-- After every completion the pruned maps are within the limit; the others are within one more just when
that many contexts were asked for. -/
theorem calls_bound_maps (o : SmartOptions) {events : List Event} {d : Dial}
    (hcalls : Meets (step o) (Called o) {} (events ++ [.complete d])) :
    let s := (run (step o) {} (events ++ [.complete d])).smart
    Held (pruneLimit o) s ∧ (Capped (pruneLimit o + 1) s ↔
      ((run ask {} (events ++ [.complete d])).keys.dedup.length : Int) ≤ pruneLimit o + 1) := by
  have hinit : Mirrors {} {} := ⟨rfl, fun _ => .rfl, fun _ => .rfl, nil_subset _, nil_subset _⟩
  refine ⟨?_, (hinit.run hcalls).capped_iff⟩
  obtain ⟨hlt, hbe⟩ := ((meets_append ..).1 hcalls).2.1
  rw [run_append, run_cons, run_nil, SelectionCommits.step, getElem?_eq_getElem hlt]
  exact (complete_held hbe).1

theorem first_call_bounded : Capped (pruneLimit options + 1)
    (run (step options) {} [.rank site 1, .complete (dialed 0 "a" 2)]).smart :=
  (@calls_bound_maps options [.rank site 1] (dialed 0 "a" 2) ⟨trivial, ⟨by decide, nofun⟩, trivial⟩).2.2 (by decide)

def siteAt (i : Nat) : Context := { site with networkKey := String.ofList (List.replicate i 'a') }

/-- One request after the other, each on a network of its own. -/
def selections : Nat → List Event
  | 0 => []
  | n + 1 => selections n ++ [.rank (siteAt n) n, .complete (dialed n "a" n)]

theorem selected_selections (n) : (run (step options) {} (selections n)).rankings.length = n ∧
      (run (step options) {} (selections n)).smart.lastSelected.keys.length = n ∧
      ∀ k ∈ (run (step options) {} (selections n)).smart.lastSelected.keys, k.length < n + 6 := by
  induction n with
  | zero => exact ⟨rfl, rfl, nofun⟩
  | succ n ih =>
    obtain ⟨hrks, hlen, hkeys⟩ := ih
    rw [selections, run_append]
    generalize run (step options) {} (selections n) = w at hrks hlen hkeys ⊢
    have hke : (smartSelectionKey (siteAt n)).length = n + 6 := by
      simp only [smartSelectionKey, siteAt, site, String.length_append, String.length_ofList, length_replicate]
      rfl
    have hf : smartSelectionKey (siteAt n) ∉ w.smart.lastSelected.keys := fun hk => by
      have := hkeys _ hk
      omega
    have hrk : (w.rankings ++ [takeSnapshot options w.smart (siteAt n) n])[n]? =
        some (takeSnapshot options w.smart (siteAt n) n) := by
      rw [← hrks]
      exact getElem?_concat_length
    have hsel : (complete options w.smart (takeSnapshot options w.smart (siteAt n) n)
        (dialed n "a" n)).lastSelected = w.smart.lastSelected.insert (smartSelectionKey (siteAt n)) "a" :=
      complete_new nofun (AList.lookup_eq_none.2 hf)
    simp only [run, foldl_cons, foldl_nil, step, dialed, hrk]
    rw [← dialed, hsel, AList.keys_insert, erase_of_not_mem hf]
    refine ⟨by simp [hrks], by simp [hlen], fun k hk => ?_⟩
    rcases mem_cons.1 hk with rfl | hk
    · omega
    · exact (hkeys k hk).trans (by omega)

/-- With this number of entries kept, the limit is 2500. -/
theorem selections_grow : pruneLimit options + 1 <
    (run (step options) {} (selections 2502)).smart.lastSelected.keys.length := by
  rw [(selected_selections 2502).2.1]
  decide

end SingBox.SelectionBounds
