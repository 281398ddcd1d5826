import SingBox.Arena
import SingBox.Runs
import SingBox.Values

namespace SingBox.SchedulerOwnership

open Arena Runs Values

/-- A token with its channels, each known by whether it is closed. A channel
that is closed stays so. `previous` is the token whose `drained` channel the
goroutine that closes `ready` waits for. -/
structure SchedulerOwnershipToken where
  epochID : Nat
  generation : Nat
  previous : Option Nat
  revoked : Bool := false
  done : Bool := false
  ready : Bool := false
  drained : Bool := false
  deriving DecidableEq

/-- `tokens` are all tokens ever made, in order, and a pointer to a token or to
its `drained` channel is its place among them. -/
structure SchedulerCoordinator where
  owner : Nat
  generation : Nat
  token : Option Nat
  drain : Option Nat
  tokens : List SchedulerOwnershipToken
  deriving DecidableEq

def newCoordinator : SchedulerCoordinator := ⟨0, 0, none, none, []⟩

variable (c : SchedulerCoordinator) (i : Nat)

def update (f : SchedulerOwnershipToken → SchedulerOwnershipToken) : SchedulerCoordinator :=
  { c with tokens := c.tokens.modify i f }

def markDone : SchedulerCoordinator :=
  update c i fun t => { t with done := true }

def revokeOwner (token : Option Nat) : SchedulerCoordinator :=
  match token with
  | none => c
  | some i => update c i fun t => { t with revoked := true }

/-- The coordinator and the token it returns. A token without a previous one is
ready at once. -/
def claim (epochID : Nat) : SchedulerCoordinator × Except String Nat :=
  if epochID = 0 then (c, .error "adaptive scheduler owner epoch is required")
  else match (if c.owner = epochID then c.token else none) with
    | some i => (c, .ok i)
    | none =>
      let next : SchedulerOwnershipToken :=
        { epochID := epochID, generation := succ64 c.generation, previous := c.drain, ready := c.drain.isNone }
      let c := revokeOwner c c.token
      ({ owner := epochID
         generation := succ64 c.generation
         token := some c.tokens.length
         drain := some c.tokens.length
         tokens := c.tokens ++ [next] }, .ok c.tokens.length)

def release (epochID generation : Nat) : SchedulerCoordinator :=
  if c.owner = epochID ∧ c.generation = generation ∧ c.token ≠ none then
    { revokeOwner c c.token with owner := 0, token := none }
  else c

def isOwner (token : Option Nat) : Bool :=
  match token.bind fun i => c.tokens[i]? with
  | none => false
  | some t => c.token == token && c.owner == t.epochID && c.generation == t.generation

/-- The goroutine that closes `ready`, once the channel it waits for is closed. -/
def becomeReady : SchedulerCoordinator :=
  match (c.tokens[i]?.bind (·.previous)).bind fun j => c.tokens[j]? with
  | none => c
  | some previous => if previous.drained then update c i fun t => { t with ready := true } else c

/-- The goroutine that closes `drained`, which receives from `ready` and then
from `done`. -/
def becomeDrained : SchedulerCoordinator :=
  update c i fun t => if t.ready && t.done then { t with drained := true } else t

inductive Op
  | claim (epochID : Nat)
  | release (epochID generation : Nat)
  | markDone (token : Nat)
  | becomeReady (token : Nat)
  | becomeDrained (token : Nat)
  deriving DecidableEq

def step : Op → SchedulerCoordinator
  | .claim epochID => (claim c epochID).1
  | .release epochID generation => release c epochID generation
  | .markDone i => markDone c i
  | .becomeReady i => becomeReady c i
  | .becomeDrained i => becomeDrained c i

def after (ops : List Op) : SchedulerCoordinator := run step newCoordinator ops

structure Chained (c : SchedulerCoordinator) : Prop where
  current : ∀ i, c.token = some i → i + 1 = c.tokens.length ∧ ∀ t, c.tokens[i]? = some t → t.revoked = false
  drain : c.drain = if c.tokens = [] then none else some (c.tokens.length - 1)
  previous : ∀ i t, c.tokens[i]? = some t → t.previous = if i = 0 then none else some (i - 1)
  ready : ∀ i t u, c.tokens[i + 1]? = some t → t.ready = true → c.tokens[i]? = some u → u.drained = true
  drained : ∀ (i : Nat) t, c.tokens[i]? = some t → t.drained = true → t.ready = true ∧ t.done = true

structure Closes (f : SchedulerOwnershipToken → SchedulerOwnershipToken) : Prop where
  previous : ∀ t, (f t).previous = t.previous
  done : ∀ t, t.done = true → (f t).done = true
  ready : ∀ t, t.ready = true → (f t).ready = true
  drained : ∀ t, t.drained = true → (f t).drained = true

section

variable {c : SchedulerCoordinator} {i : Nat} {f : SchedulerOwnershipToken → SchedulerOwnershipToken}

theorem update_length : (update c i f).tokens.length = c.tokens.length := by simp [update]

theorem update_eq_nil : (update c i f).tokens = [] ↔ c.tokens = [] := by simp [update]

theorem Chained.update (hc : Chained c) (hf : Closes f) (hrev : c.token = some i → ∀ t, (f t).revoked = t.revoked)
    (hrdy : ∀ t u, c.tokens[i]? = some t → (f t).ready = true → t.ready = false → 0 < i →
      c.tokens[i - 1]? = some u → u.drained = true)
    (hdrain : ∀ t, c.tokens[i]? = some t → (f t).drained = true → t.drained = false →
      t.ready = true ∧ t.done = true) : Chained (update c i f) := by
  constructor
  · intro j hj
    obtain ⟨hl, hlive⟩ := hc.current j hj
    refine ⟨by rw [update_length, hl], fun t ht => ?_⟩
    obtain ⟨u, hu, rfl⟩ := of_modify ht
    split
    · next h => subst h; rw [hrev hj, hlive u hu]
    · exact hlive u hu
  · rw [update_length, if_congr update_eq_nil rfl rfl]
    exact hc.drain
  · intro j t ht
    obtain ⟨u, hu, rfl⟩ := of_modify ht
    rw [← hc.previous j u hu]
    split
    · exact hf.previous u
    · rfl
  · intro j t' u' ht' hr hu'
    obtain ⟨t, ht, rfl⟩ := of_modify ht'
    obtain ⟨u, hu, rfl⟩ := of_modify hu'
    have hdr : u.drained = true := by
      cases htr : t.ready
      · split at hr
        · next h => subst h; exact hrdy t u ht hr htr (Nat.succ_pos j) hu
        · rw [htr] at hr; cases hr
      · exact hc.ready j t u ht htr hu
    split
    · exact hf.drained u hdr
    · exact hdr
  · intro j t ht hd
    obtain ⟨u, hu, rfl⟩ := of_modify ht
    split at hd
    · next h =>
      subst h
      rw [if_pos rfl]
      have h : u.ready = true ∧ u.done = true := by
        cases hud : u.drained
        · exact hdrain u hu hd hud
        · exact hc.drained i u hu hud
      exact ⟨hf.ready u h.1, hf.done u h.2⟩
    · next h =>
      rw [if_neg h]
      exact hc.drained j u hu hd

end

variable {c : SchedulerCoordinator} {i : Nat} {j : Nat}

section

variable (hc : Chained c)
include hc

theorem Chained.markDone (i) : Chained (markDone c i) := by
  apply hc.update
  · exact ⟨fun _ => rfl, fun _ _ => rfl, fun _ h => h, fun _ h => h⟩
  · intro _ _
    rfl
  · intro t u _ hr hr'
    exact absurd hr (by simp [hr'])
  · intro t _ hd hd'
    exact absurd hd (by simp [hd'])

theorem Chained.becomeReady (i) : Chained (becomeReady c i) := by
  rw [SchedulerOwnership.becomeReady]
  split
  · exact hc
  rename_i previous hprev
  split
  · next hdrain =>
    apply hc.update
    · exact ⟨fun _ => rfl, fun _ h => h, fun _ _ => rfl, fun _ h => h⟩
    · intro _ _
      rfl
    · intro t u ht _ _ hi hu
      have hp := hc.previous i t ht
      rw [if_neg (by omega)] at hp
      simp only [ht, Option.bind_some, hp, hu, Option.some.injEq] at hprev
      rw [hprev]
      exact hdrain
    · intro t _ hd hd'
      exact absurd hd (by simp [hd'])
  · exact hc

theorem Chained.becomeDrained (i) : Chained (becomeDrained c i) := by
  apply hc.update
  · refine ⟨fun t => ?_, fun t h => ?_, fun t h => ?_, fun t h => ?_⟩ <;> split <;> simp_all
  · intro _ t
    split <;> rfl
  · intro t u _ hr hr'
    split at hr <;> exact absurd hr (by simp [hr'])
  · intro t _ hd hd'
    split at hd
    · next h => simpa using h
    · exact absurd hd (by simp [hd'])

theorem Chained.revokeOwner : Chained { revokeOwner c c.token with token := none } := by
  have hno : Chained { c with token := none } := ⟨nofun, hc.drain, hc.previous, hc.ready, hc.drained⟩
  cases htok : c.token with
  | none => exact hno
  | some i =>
    apply hno.update
    · exact ⟨fun _ => rfl, fun _ h => h, fun _ h => h, fun _ h => h⟩
    · intro h
      cases h
    · intro t u _ hr hr'
      exact absurd hr (by simp [hr'])
    · intro t _ hd hd'
      exact absurd hd (by simp [hd'])

theorem Chained.release (epochID generation) : Chained (release c epochID generation) := by
  rw [SchedulerOwnership.release]
  split
  · exact ⟨nofun, hc.revokeOwner.drain, hc.revokeOwner.previous, hc.revokeOwner.ready, hc.revokeOwner.drained⟩
  · exact hc

end

theorem Chained.append (hc : Chained c) (owner generation) {next} (hprev : next.previous = c.drain)
    (hrdy : next.ready = c.drain.isNone) (hrev : next.revoked = false) (hdrained : next.drained = false) :
    Chained ⟨owner, generation, some c.tokens.length, some c.tokens.length, c.tokens ++ [next]⟩ := by
  have hdrain : c.drain = if c.tokens.length = 0 then none else some (c.tokens.length - 1) := by
    rw [hc.drain, if_congr List.length_eq_zero_iff.symm rfl rfl]
  constructor
  · intro i hi
    cases hi
    refine ⟨by simp, fun t ht => ?_⟩
    rw [List.getElem?_concat_length, Option.some.injEq] at ht
    rw [← ht, hrev]
  · simp
  · intro i t ht
    rcases of_append ht with ht | ⟨rfl, rfl⟩
    · exact hc.previous i t ht
    · rw [hprev, hdrain]
  · intro i t u ht hr hu
    rcases of_append ht with ht' | ⟨hi, rfl⟩
    · rcases of_append hu with hu' | ⟨rfl, rfl⟩
      · exact hc.ready i t u ht' hr hu'
      · have hlt := lt_of_some ht'
        omega
    · rw [hrdy, hdrain, if_neg (by omega)] at hr
      cases hr
  · intro i t ht hd
    rcases of_append ht with ht | ⟨rfl, rfl⟩
    · exact hc.drained i t ht hd
    · rw [hdrained] at hd
      cases hd

theorem Chained.claim (hc : Chained c) (epochID) : Chained (claim c epochID).1 := by
  rw [SchedulerOwnership.claim]
  split
  · exact hc
  split
  · exact hc
  have h := hc.revokeOwner
  have hdrain : (SchedulerOwnership.revokeOwner c c.token).drain = c.drain := by
    cases c.token <;> rfl
  apply h.append
  · exact hdrain.symm
  · rw [← hdrain]
  · rfl
  · rfl

theorem step_chained (op) (hc : Chained c) : Chained (step c op) := by
  cases op with
  | claim epochID => exact hc.claim epochID
  | release epochID generation => exact hc.release epochID generation
  | markDone i => exact hc.markDone i
  | becomeReady i => exact hc.becomeReady i
  | becomeDrained i => exact hc.becomeDrained i

theorem after_chained (ops) : Chained (after ops) := by
  refine run_invariant (fun c => step_chained) ?_ ops
  refine ⟨nofun, rfl, ?_, ?_, ?_⟩ <;> intros <;> simp_all [newCoordinator]

def Ready (c : SchedulerCoordinator) (i : Nat) : Prop := ∃ t, c.tokens[i]? = some t ∧ t.ready = true

def Done (c : SchedulerCoordinator) (i : Nat) : Prop := ∃ t, c.tokens[i]? = some t ∧ t.done = true

def Revoked (c : SchedulerCoordinator) (i : Nat) : Prop := ∃ t, c.tokens[i]? = some t ∧ t.revoked = true

theorem Chained.drained_of_ready (hc : Chained c) (h : Ready c (i + 1)) : Ready c i ∧ Done c i := by
  obtain ⟨t, ht, hr⟩ := h
  have hlt := lt_of_some ht
  have hi : c.tokens[i]? = some c.tokens[i] := List.getElem?_eq_getElem (by omega)
  obtain ⟨hrdy, hdone⟩ := hc.drained i _ hi (hc.ready i t _ ht hr hi)
  exact ⟨⟨_, hi, hrdy⟩, ⟨_, hi, hdone⟩⟩

theorem Chained.done_of_ready (hc : Chained c) (h : Ready c i) (hji : j < i) : Done c j := by
  induction i with
  | zero => omega
  | succ i ih =>
    obtain ⟨hrdy, hdone⟩ := hc.drained_of_ready h
    rcases Nat.lt_succ_iff_lt_or_eq.mp hji with hlt | rfl
    · exact ih hrdy hlt
    · exact hdone

theorem of_update {P : SchedulerOwnershipToken → Prop} {f} (h : ∃ t, (update c j f).tokens[i]? = some t ∧ P t)
    (hf : ∀ t, P (f t) → P t) : ∃ t, c.tokens[i]? = some t ∧ P t := by
  obtain ⟨t', ht', hp⟩ := h
  obtain ⟨t, ht, rfl⟩ := of_modify ht'
  refine ⟨t, ht, ?_⟩
  split at hp
  · exact hf t hp
  · exact hp

theorem done_of_step {op : Op} (hop : ∀ j, op ≠ .markDone j) (h : Done (step c op) i) : Done c i := by
  have hrev : Done (revokeOwner c c.token) i → Done c i := by
    cases c.token with
    | none => exact id
    | some j => exact fun h => of_update h fun _ => id
  cases op with
  | claim epochID =>
    simp only [step, claim] at h
    split at h
    · exact h
    split at h
    · exact h
    obtain ⟨t, ht, hd⟩ := h
    rcases of_append ht with ht | ⟨-, rfl⟩
    · exact hrev ⟨t, ht, hd⟩
    · cases hd
  | release epochID generation =>
    simp only [step, release] at h
    split at h
    · exact hrev h
    · exact h
  | markDone j => exact absurd rfl (hop j)
  | becomeReady j =>
    rw [step, becomeReady] at h
    split at h
    · exact h
    split at h
    · exact of_update h fun _ => id
    · exact h
  | becomeDrained j =>
    refine of_update h fun t ht => ?_
    split at ht <;> exact ht

theorem isOwner_token (h : isOwner c (some i) = true) : c.token = some i := by
  rw [isOwner] at h
  split at h
  · cases h
  · simp only [Bool.and_eq_true, beq_iff_eq] at h
    exact h.1.1

/-- In every state a token becomes ready only once those made before it are done, and one at
most is the owner. -/
theorem ownership_handed_over (ops : List Op) : let c := after ops
    (∀ op i, ¬ Ready c i → Ready (step c op) i → ∀ j < i, Done c j) ∧
    (∀ i, Ready c i → ∀ j < i, Done c j) ∧
    (∀ i j, Ready c i → ¬ Done c i → Ready c j → ¬ Done c j → i = j) ∧
    (∀ i j, isOwner c (some i) = true → isOwner c (some j) = true → i = j) ∧
    (∀ i, isOwner c (some i) = true → i + 1 = c.tokens.length ∧ ¬ Revoked c i) := by
  intro c
  have hc : Chained c := after_chained ops
  refine ⟨?_, ?_, ?_, ?_, ?_⟩
  · intro op i hnot h j hji
    by_cases hmark : ∃ k, op = .markDone k
    · obtain ⟨k, rfl⟩ := hmark
      exact absurd (of_update h fun _ => id) hnot
    · exact done_of_step (fun k hk => hmark ⟨k, hk⟩) ((step_chained op hc).done_of_ready h hji)
  · intro i h j hji
    exact hc.done_of_ready h hji
  · intro i j hi hdi hj hdj
    by_contra hne
    rcases Nat.lt_or_gt_of_ne hne with hlt | hlt
    · exact hdi (hc.done_of_ready hj hlt)
    · exact hdj (hc.done_of_ready hi hlt)
  · intro i j hi hj
    exact Option.some.inj ((isOwner_token hi).symm.trans (isOwner_token hj))
  · intro i hi
    obtain ⟨hl, hlive⟩ := hc.current i (isOwner_token hi)
    refine ⟨hl, fun ⟨t, ht, hr⟩ => ?_⟩
    rw [hlive t ht] at hr
    cases hr

end SingBox.SchedulerOwnership
