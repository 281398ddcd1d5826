import SingBox.Runs
import SingBox.EbpfV3

namespace SingBox.StaticBanks

open List Maps Runs EbpfAbi EbpfMemory EbpfV3

/-- The rows of the active bank that `lookup_static_policy` accepts. -/
def Visible (b : V3Backend) (p : Prefix) : Prop :=
  (b.policy b.kernel.activeBank).lookup p = some b.kernel.policyGeneration

def Within (rows : GoMap Prefix Nat) (ps : List Prefix) : Prop := ∀ p g, rows.lookup p = some g → p ∈ ps

variable {w : Surroundings} {next previous written ps : List Prefix} {rows : GoMap Prefix Nat} {generation : Nat}
  {b b' : V3Backend} {prefixes : List Prefix}

theorem other_ne (bank) : other bank ≠ bank := by
  revert bank
  decide

theorem removeStale_submap : Submap (removeStale w next ps rows).2 rows := by
  induction ps generalizing rows with
  | nil => exact .refl rows
  | cons p ps ih =>
    rw [removeStale]
    split
    · exact ih
    split
    · exact .refl rows
    · exact ih.trans (erase_submap rows p)

theorem removeStale_within (hrows : Within rows ps) (h : (removeStale w next ps rows).1 = true) :
    Within (removeStale w next ps rows).2 next := by
  intro p g hp
  by_contra hn
  have hm : p ∈ ps := hrows p g (removeStale_submap p g hp)
  clear hrows
  induction ps generalizing rows with
  | nil => cases hm
  | cons q ps ih =>
    rw [removeStale] at h hp
    split at h
    case isTrue hq =>
      rw [if_pos hq] at hp
      refine ih h hp ((mem_cons.1 hm).resolve_left ?_)
      rintro rfl
      exact hn hq
    case isFalse hq =>
      rw [if_neg hq] at hp
      split at h
      · cases h
      case isFalse hok =>
      rw [if_neg hok] at hp
      rcases mem_cons.1 hm with rfl | hm
      · have heras := removeStale_submap p g hp
        rw [lookup_del, if_pos rfl] at heras
        cases heras
      · exact ih h hp hm

theorem writeRows_spec (w generation ps written rows) :
    ∃ done rest, ps = done ++ rest ∧ (writeRows w generation ps written rows).2.1 = written ++ done ∧
      (∀ p, (writeRows w generation ps written rows).2.2.lookup p =
        if p ∈ done then some generation else rows.lookup p) ∧
      ((writeRows w generation ps written rows).1 = true → rest = []) := by
  induction ps generalizing written rows with
  | nil => exact ⟨[], [], rfl, by simp [writeRows], by simp [writeRows], fun _ => rfl⟩
  | cons q ps ih =>
    rw [writeRows]
    split
    · exact ⟨[], q :: ps, rfl, by simp, by simp, by simp⟩
    obtain ⟨done, rest, hps, hwr, hrows, hall⟩ := ih ..
    refine ⟨q :: done, rest, by rw [hps, cons_append], by rw [hwr]; simp, fun p => ?_, hall⟩
    rw [hrows, lookup_set]
    by_cases hp : p = q <;> simp [hp]

theorem erased_within (hrows : Within rows (previous ++ written))
    (hdel : ∀ p ∈ written, p ∉ previous → w.fails (.rollbackDelete p) = false) :
    Within (written.foldl (fun rows p => if p ∈ previous ∨ w.fails (.rollbackDelete p) then rows else rows.erase p) rows)
      previous := by
  induction written generalizing rows with
  | nil => simpa using hrows
  | cons q written ih =>
    rw [foldl_cons]
    refine ih (fun p g hp => ?_) fun p hp => hdel p (mem_cons_of_mem _ hp)
    have hcas (hp : rows.lookup p = some g) : p = q ∨ p ∈ previous ++ written := by
      have := hrows p g hp
      simp only [mem_append, mem_cons] at this ⊢
      tauto
    split at hp
    case isTrue hkept =>
      rcases hcas hp with rfl | hp
      · refine mem_append_left _ (by_contra fun hout => ?_)
        simp [hout, hdel p mem_cons_self hout] at hkept
      · exact hp
    case isFalse =>
      obtain ⟨hne, hp⟩ := lookup_of_erase hp
      exact (hcas hp).resolve_left hne

theorem rewritten_within (hrows : Within rows previous) (hps : ∀ p ∈ ps, p ∈ previous) :
    Within (ps.foldl (fun rows p => if w.fails (.rollbackWrite p) then rows else rows.insert p generation) rows)
      previous := by
  induction ps generalizing rows with
  | nil => exact hrows
  | cons q ps ih =>
    rw [foldl_cons]
    refine ih (fun p g hp => ?_) fun p hp => hps p (mem_cons_of_mem _ hp)
    split at hp
    · exact hrows p g hp
    rcases lookup_of_insert hp with ⟨rfl, -⟩ | ⟨-, hp⟩
    · exact hps _ mem_cons_self
    · exact hrows p g hp

theorem rollback_within (hrows : Within rows (previous ++ written))
    (hdel : ∀ p ∈ written, p ∉ previous → w.fails (.rollbackDelete p) = false) :
    Within (rollbackV3StaticBank w previous written generation rows) previous :=
  rewritten_within (erased_within hrows hdel) fun _ hp => hp

structure Banked (b : V3Backend) : Prop where
  kernel : b.kernel = b.control
  within : ∀ bank, Within (b.policy bank) (b.lastStatic bank)
  active : ∀ p ∈ b.lastStatic b.control.activeBank,
    (b.policy b.control.activeBank).lookup p = some b.control.policyGeneration

theorem Banked.visible_iff (h : Banked b) (p) : Visible b p ↔ p ∈ b.lastStatic b.control.activeBank := by
  rw [Visible, h.kernel]
  exact ⟨h.within _ p _, h.active p⟩

theorem Banked.setBank (h : Banked b) (hrows : Within rows (b.lastStatic (other b.control.activeBank))) :
    Banked (setBank b (other b.control.activeBank) rows) := by
  refine ⟨h.kernel, fun bank => ?_, fun p hp => ?_⟩
  · rw [EbpfV3.setBank]
    dsimp only
    by_cases hbank : bank = other b.control.activeBank
    · rw [hbank, Function.update_self]
      exact hrows
    · rw [Function.update_of_ne hbank]
      exact h.within bank
  · rw [EbpfV3.setBank]
    dsimp only
    rw [Function.update_of_ne (other_ne _).symm]
    exact h.active p hp

theorem Banked.flip (h : Banked b) (hker : b'.kernel = b'.control)
    (hact : b'.control.activeBank = other b.control.activeBank)
    (hpol : b'.policy = Function.update b.policy (other b.control.activeBank) rows)
    (hl : b'.lastStatic = Function.update b.lastStatic (other b.control.activeBank) next)
    (hrows : ∀ p, rows.lookup p = if p ∈ next then some b'.control.policyGeneration else none) :
    Banked b' ∧ b'.lastStatic b'.control.activeBank = next := by
  refine ⟨⟨hker, fun bank p g hp => ?_, fun p hp => ?_⟩, by rw [hl, hact, Function.update_self]⟩
  · rw [hpol] at hp
    rw [hl]
    by_cases hbank : bank = other b.control.activeBank
    · rw [hbank, Function.update_self] at hp ⊢
      rw [hrows] at hp
      split at hp
      · assumption
      · cases hp
    · rw [Function.update_of_ne hbank] at hp ⊢
      exact h.within bank p g hp
  · rw [hl, hact, Function.update_self] at hp
    rw [hpol, hact, Function.update_self, hrows, if_pos hp]

/-- The deletes of a rollback succeed. -/
def RollsBack (b : V3Backend) (w : Surroundings) (prefixes : List Prefix) : Prop :=
  ∀ p ∈ normalizePrefixSnapshot prefixes, p ∉ b.lastStatic (other b.control.activeBank) →
    w.fails (.rollbackDelete p) = false

instance decidableRollsBack (b : V3Backend) (w : Surroundings) (prefixes : List Prefix) :
    Decidable (RollsBack b w prefixes) := List.decidableBAll ..

def Outcome (b : V3Backend) (prefixes : List Prefix) : Except V3Backend V3Backend → Prop
  | .error b' => Banked b' ∧ b'.control = b.control ∧ b'.lastStatic = b.lastStatic
  | .ok b' => Banked b' ∧ b'.lastStatic b'.control.activeBank = normalizePrefixSnapshot prefixes

theorem Banked.commit (h : Banked b) (hrol : RollsBack b w prefixes) (generation) :
    Outcome b prefixes (commitStaticDirect w prefixes generation b) := by
  rw [commitStaticDirect]
  dsimp only
  generalize (if generation = 0 then nextGeneration b.control.policyGeneration else generation) = g
  have hprev := h.within (other b.control.activeBank)
  split
  · exact ⟨h, rfl, rfl⟩
  generalize hrem : removeStale w _ _ _ = removed
  have hsub : Submap removed.2 (b.policy (other b.control.activeBank)) := hrem ▸ removeStale_submap
  split
  · refine ⟨h.setBank (rollback_within (fun p g hp => ?_) (by simp)), rfl, rfl⟩
    rw [append_nil]
    exact hprev p g (hsub p g hp)
  · rename_i hall
    obtain ⟨done, rest, hn, hwr, hrows, hr⟩ :=
      writeRows_spec w g _ [] removed.2
    rw [nil_append] at hwr
    generalize writeRows w g _ [] removed.2 = written at *
    have hund : Banked (EbpfV3.setBank b (other b.control.activeBank) (rollbackV3StaticBank w
        (b.lastStatic (other b.control.activeBank)) written.2.1 b.control.policyGeneration written.2.2)) := by
      refine h.setBank (rollback_within (fun p g hp => ?_) fun p hp => hrol p ?_)
      · rw [hrows] at hp
        rw [hwr]
        split at hp
        · exact mem_append_right _ (by assumption)
        · exact mem_append_left _ (hprev p g (hsub p g hp))
      · rw [hn]
        exact mem_append_left _ (hwr ▸ hp)
    split
    · exact ⟨hund, rfl, rfl⟩
    rename_i hwrote
    rw [Bool.not_eq_true, Bool.not_eq_false'] at hwrote
    rw [hr hwrote, append_nil] at hn
    split
    · rename_i hcom
      rw [writeControl] at hcom ⊢
      split at hcom
      · cases hcom
      case isFalse hok =>
      rw [if_neg hok]
      refine h.flip rfl rfl rfl rfl fun p => ?_
      rw [hrows, ← hn]
      split
      · rfl
      rename_i hp
      rw [← Option.not_isSome_iff_eq_none]
      intro hsome
      obtain ⟨g', hg'⟩ := Option.isSome_iff_exists.1 hsome
      rw [← hrem] at hall hg'
      exact hp (removeStale_within hprev (by simpa using hall) p g' hg')
    · rw [writeControl]
      split
      · exact ⟨hund, rfl, rfl⟩
      · exact ⟨{ hund with kernel := rfl }, rfl, rfl⟩

structure Publication where
  surroundings : Surroundings := {}
  prefixes : List Prefix
  generation : Nat := 0

def publish (s : V3Backend × List Prefix) (e : Publication) : V3Backend × List Prefix :=
  ((publishStaticDirect e.surroundings e.prefixes e.generation s.1).2,
    match commitStaticDirect e.surroundings e.prefixes e.generation s.1 with
    | .error _ => s.2
    | .ok _ => normalizePrefixSnapshot e.prefixes)

theorem publish_banked {s} (e) (hrol : RollsBack s.1 e.surroundings e.prefixes)
    (h : Banked s.1 ∧ s.2 = s.1.lastStatic s.1.control.activeBank) :
    Banked (publish s e).1 ∧ (publish s e).2 = (publish s e).1.lastStatic (publish s e).1.control.activeBank := by
  have hcom := h.1.commit hrol e.generation
  rw [publish, publishStaticDirect]
  generalize commitStaticDirect e.surroundings e.prefixes e.generation s.1 = outcome at hcom ⊢
  cases outcome with
  | error b =>
    obtain ⟨hbk, hctl, hl⟩ := hcom
    rw [hctl, hl]
    exact ⟨hbk, h.2⟩
  | ok b =>
    obtain ⟨hbk, hact⟩ := hcom
    dsimp only
    rw [clearDynamicDirect]
    split
    · exact ⟨hbk, hact.symm⟩
    · exact ⟨{ hbk with }, hact.symm⟩

theorem prepared_banked (control) : Banked (prepared control) where
  kernel := rfl
  within _ _ _ hp := by cases hp
  active _ hp := by cases hp

/-- In every history in which the deletes of rollbacks succeed, packets see the snapshot that was committed last. -/
theorem visible_committed (control : Control) (es : List Publication)
    (hes : Meets publish (fun s e => RollsBack s.1 e.surroundings e.prefixes) (prepared control, []) es) (p : Prefix) :
    Visible (run publish (prepared control, []) es).1 p ↔ p ∈ (run publish (prepared control, []) es).2 := by
  obtain ⟨hbk, hl⟩ :=
    run_keeps (I := fun s => Banked s.1 ∧ s.2 = s.1.lastStatic s.1.control.activeBank)
      (fun s e _ => publish_banked e) ⟨prepared_banked control, rfl⟩ hes
  rw [hl]
  exact hbk.visible_iff p

def loopback : Prefix := .v4 0x7F000000#32 8

def lan : Prefix := .v4 0x0A000000#32 8

def seeded : Control where
  enabled := true
  flags := flagStaticPolicy
  activeBank := ⟨0, Nat.two_pos⟩
  policyGeneration := 1

def failedOnce (rollbackFails : Bool) : List Publication :=
  [{ surroundings := { fails := fun call => call == .bankWrite lan || rollbackFails && call == .rollbackDelete loopback }
     prefixes := [loopback, lan] },
    { prefixes := [lan] }]

theorem failedOnce_visible :
    (run publish (prepared seeded, []) (failedOnce false)).2 = [lan] ∧
      (Visible (run publish (prepared seeded, []) (failedOnce false)).1 loopback ↔
        loopback ∈ (run publish (prepared seeded, []) (failedOnce false)).2) :=
  ⟨by decide +kernel, visible_committed seeded (failedOnce false) (by decide +kernel) loopback⟩

/-- The row that the rollback could not delete has the generation of the next attempt. -/
theorem failedOnce_exposed :
    Visible (run publish (prepared seeded, []) (failedOnce true)).1 loopback ∧
      (run publish (prepared seeded, []) (failedOnce true)).2 = [lan] := by
  unfold Visible
  decide +kernel

end SingBox.StaticBanks
