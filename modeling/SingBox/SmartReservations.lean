import SingBox.SmartDial

namespace SingBox.SmartReservations

open List Option Arena Maps Races Runs SmartDial

variable {halfOpen halfOpen' : HalfOpen} {r r' : Request} {event : Event} {progress : Progress}
  {attempt : SmartDialAttempt} {result : Returned} {q : Nat}

inductive Move (halfOpen : HalfOpen) (r : Request) : Event → HalfOpen → Request → Prop
  | stay {event : Event} : Move halfOpen r event halfOpen r
  | callerDone {event : Event} : Move halfOpen r event halfOpen { r with callerDone := true }
  | propagate {event : Event} : Move halfOpen r event halfOpen { r with cancelled := true }
  | skip {event : Event} {k k' : Nat} {seen seen' : List String} (hp : r.progress = .collecting k seen) :
      Move halfOpen r event halfOpen { r with progress := .collecting k' seen' }
  | append {event : Event} {k k' : Nat} {seen seen' : List String} {attempt : SmartDialAttempt}
      (hp : r.progress = .collecting k seen) (hres : attempt.reserved = false) (hrel : attempt.releases = 0) :
      Move halfOpen r event halfOpen
        { r with progress := .collecting k' seen', attempts := r.attempts ++ [attempt] }
  | reserve {event : Event} {k k' : Nat} {seen seen' : List String} (attempt : SmartDialAttempt)
      (hp : r.progress = .collecting k seen) (hrel : attempt.releases = 0)
      (hfree : halfOpen.lookup (halfOpenKey attempt.candidate r.networkKey r.siteKey r.transport) = none) :
      Move halfOpen r event
        (halfOpen.insert (halfOpenKey attempt.candidate r.networkKey r.siteKey r.transport) ())
        { r with progress := .collecting k' seen', attempts := r.attempts ++ [{ attempt with reserved := true }] }
  | dial {event : Event} {k : Nat} {seen : List String} (hp : r.progress = .collecting k seen) :
      Move halfOpen r event halfOpen (dialContextAdaptive r)
  | dialed {event : Event} {i : Nat} {note : Note} (dialed : Dialed)
      (hslot : r.board.slots[i]? = some ⟨.running .dialing, note⟩) :
      Move halfOpen r event halfOpen { r with
        board := r.board.change i ⟨.running (.dialed dialed),
          if dialed = .connection then { note with connections := note.connections + 1 } else note⟩ }
  | release {event : Event} {i : Nat} {note : Note} {dialed : Dialed}
      (hslot : r.board.slots[i]? = some ⟨.running (.dialed dialed), note⟩) :
      Move halfOpen r event
        (release halfOpen { r with board := r.board.change i ⟨.running (.released dialed), note⟩ } i).1
        (release halfOpen { r with board := r.board.change i ⟨.running (.released dialed), note⟩ } i).2
  | close {event : Event} {i : Nat} {note : Note}
      (hslot : r.board.slots[i]? = some ⟨.running (.released .connection), note⟩) :
      Move halfOpen r event halfOpen
        { r with board := r.board.change i ⟨.silent, { note with closed := note.closed + 1 }⟩ }
  | pass {event : Event} {i : Nat} {note : Note} {dialed : Dialed}
      (hslot : r.board.slots[i]? = some ⟨.running (.released dialed), note⟩)
      (hlive : dialed = .connection → r.cancelled = false) :
      Move halfOpen r event halfOpen { r with board := r.board.change i ⟨.running (.sending dialed), note⟩ }
  | send {event : Event} {i : Nat} {note : Note} {dialed : Dialed}
      (hslot : r.board.slots[i]? = some ⟨.running (.sending dialed), note⟩) :
      Move halfOpen r event halfOpen { r with board := r.board.send i dialed note }
  | fire {event : Event} (hp : r.progress = .looping) :
      Move halfOpen r event halfOpen (loop (resetHedge (startAttempt r)))
  | late {event : Event} {i : Nat} {dialed : Dialed} {board : Board Phase Dialed Note}
      (hp : r.progress = .looping) (htake : r.board.take = some (i, dialed, board)) :
      Move halfOpen r event halfOpen
        (leave { r with board := if dialed = .connection then closeTaken board i else board }
          (.callerContext r.attemptErrors))
  | won {event : Event} {i : Nat} {board : Board Phase Dialed Note} (hp : r.progress = .looping)
      (htake : r.board.take = some (i, .connection, board)) :
      Move halfOpen r event halfOpen { r with board := board, progress := .won i }
  | lost {event : Event} {i : Nat} {text : String} {board : Board Phase Dialed Note}
      {errs : List (String × String)} (hp : r.progress = .looping)
      (htake : r.board.take = some (i, .failure text, board)) :
      Move halfOpen r event halfOpen
        (loop (resetHedge (startAttempt { r with board := board, attemptErrors := errs })))
  | contextDone {event : Event} (hp : r.progress = .looping) :
      Move halfOpen r event halfOpen (leave r (.callerContext r.attemptErrors))
  | cancelAll {event : Event} {i : Nat} (hp : r.progress = .won i) :
      Move halfOpen r event halfOpen (leave { r with cancelled := true } (.connection i))
  | cleanup {event : Event} {result : Returned} {k : Nat} (hp : r.progress = .cleaning result k)
      (hk : k < r.attempts.length) :
      Move halfOpen r event (release halfOpen { r with progress := .cleaning result (k + 1) } k).1
        (release halfOpen { r with progress := .cleaning result (k + 1) } k).2
  | finish {result : Returned} {k : Nat} (hp : r.progress = .cleaning result k) (hk : ¬ k < r.attempts.length) :
      Move halfOpen r .cleanup halfOpen { r with cancelled := true, progress := .returned result }

section

variable (halfOpen : HalfOpen)

theorem reserveHalfOpen_cases (rank networkKey siteKey transport) :
    reserveHalfOpen halfOpen rank networkKey siteKey transport = (halfOpen, false) ∨
      halfOpen.lookup (halfOpenKey rank.tag networkKey siteKey transport) = none ∧
        reserveHalfOpen halfOpen rank networkKey siteKey transport =
          (halfOpen.insert (halfOpenKey rank.tag networkKey siteKey transport) (), true) := by
  rw [reserveHalfOpen]
  split
  · exact .inl rfl
  dsimp only
  split
  · exact .inl rfl
  · exact .inr ⟨‹_›, rfl⟩

theorem collect_move (r event) : Move halfOpen r event (collect halfOpen r).1 (collect halfOpen r).2 := by
  rw [collect]
  split
  swap
  · exact .stay
  rename_i k seen hp
  split
  · exact .dial hp
  split
  · exact .dial hp
  rename_i rank hrank
  split
  · exact .skip hp
  split
  · exact .skip hp
  rcases reserveHalfOpen_cases halfOpen rank r.networkKey r.siteKey r.transport with h | ⟨hf, h⟩
  · rw [h]
    dsimp only
    split
    · exact .skip hp
    · exact .append hp rfl rfl
  · rw [h]
    dsimp only
    split
    · simp_all
    · exact .reserve ⟨k, r.attempts.length, rank.tag, true, 0⟩ hp rfl hf

theorem receive_move (event) (hp : r.progress = .looping) : Move halfOpen r event halfOpen (receive r) := by
  rw [receive]
  split
  · exact .stay
  split
  · exact .late hp ‹_›
  split
  · exact .won hp ‹_›
  · exact .lost hp ‹_›

theorem check_move (r i event) : Move halfOpen r event halfOpen (check r i) := by
  rw [check]
  split
  · rename_i dialed note hsl
    split
    · rename_i h
      obtain ⟨rfl, -⟩ := h
      exact .close hsl
    · rename_i h
      refine .pass hsl fun hconn => ?_
      simpa [hconn] using h
  · exact .stay

theorem requestStep_move (r event) :
    Move halfOpen r event (requestStep halfOpen r event).1 (requestStep halfOpen r event).2 := by
  cases event with
  | collect => exact collect_move halfOpen r _
  | cancelCaller => exact .callerDone
  | propagate =>
    rw [requestStep]
    split
    · exact .propagate
    · exact .stay
  | dialContext i dialed =>
    rw [requestStep, dialContext]
    split
    · exact .dialed dialed ‹_›
    · exact .stay
  | release i =>
    rw [requestStep, releaseAttempt]
    split
    · exact .release ‹_›
    · exact .stay
  | check i => exact check_move halfOpen r i _
  | send i =>
    rw [requestStep, send]
    split
    · split
      · exact .send ‹_›
      · exact .stay
    · exact .stay
  | fire =>
    rw [requestStep]
    split
    · rw [fire]
      split
      · exact .fire ‹_›
      · exact .stay
    · exact .stay
  | receive =>
    rw [requestStep]
    split
    · exact receive_move halfOpen _ ‹_›
    · exact .stay
  | contextDone =>
    rw [requestStep]
    split
    · rw [contextDone]
      split
      · exact .contextDone ‹_›
      · exact .stay
    · exact .stay
  | cancelAll =>
    rw [requestStep, cancelAll]
    split
    · exact .cancelAll ‹_›
    · exact .stay
  | cleanup =>
    rw [requestStep, cleanup]
    split
    · split
      · exact .cleanup ‹_› ‹_›
      · exact .finish ‹_› ‹_›
    · exact .stay

end

section

def released (progress : Progress) (i : Nat) : Stage Phase Dialed → Bool
  | .idle =>
    match progress with
    | .cleaning _ k => decide (i < k)
    | .returned _ => true
    | _ => false
  | .running .dialing => false
  | .running (.dialed _) => false
  | _ => true

/-- While a request collects it has no board, and later one place for each attempt. -/
def Sized (r : Request) : Prop :=
  match r.progress with
  | .collecting _ _ => r.board.slots = []
  | _ => r.board.slots.length = r.attempts.length

structure Tidy (r : Request) : Prop where
  sized : Sized r
  fair : Fair r.board
  pending : ∀ (i : Nat) attempt, r.attempts[i]? = some attempt → r.board.slots[i]? = none → attempt.releases = 0
  releases : ∀ (i : Nat) attempt e, r.attempts[i]? = some attempt → r.board.slots[i]? = some e →
    attempt.releases = if attempt.reserved && released r.progress i e.stage then 1 else 0
  cleaning : ∀ result k, r.progress = .cleaning result k → r.board.started ≤ k

theorem Sized.of_not_collecting (h : Sized r) (hp : ∀ k seen, r.progress ≠ .collecting k seen) :
    r.board.slots.length = r.attempts.length := by
  rw [Sized] at h
  split at h
  · exact absurd ‹_› (hp _ _)
  · exact h

variable {i k : Nat} {seen : List String} {e : Entry Phase Dialed Note} {attempts : List SmartDialAttempt}
  {board : Board Phase Dialed Note}

theorem Sized.of_collecting (h : Sized r) (hp : r.progress = .collecting k seen) : r.board.slots = [] := by
  rwa [Sized, hp] at h

theorem Sized.not_collecting (h : Sized r) (hi : r.board.slots[i]? = some e) (k seen) :
    r.progress ≠ .collecting k seen := by
  intro hp
  rw [h.of_collecting hp] at hi
  cases hi

theorem Sized.of_slot (h : Sized r) (hi : r.board.slots[i]? = some e) :
    r.board.slots.length = r.attempts.length :=
  h.of_not_collecting (h.not_collecting hi)

theorem sized_of_length (hlen : r.board.slots.length = r.attempts.length)
    (hp : ∀ k seen, r.progress ≠ .collecting k seen) : Sized r := by
  rw [Sized]
  split
  · exact absurd ‹_› (hp _ _)
  · exact hlen

theorem tidy_of_places (hlen : r.board.slots.length = r.attempts.length)
    (hp : ∀ k seen, r.progress ≠ .collecting k seen) (hf : Fair r.board)
    (hrel : ∀ (i : Nat) attempt e, r.attempts[i]? = some attempt → r.board.slots[i]? = some e →
      attempt.releases = if attempt.reserved && released r.progress i e.stage then 1 else 0)
    (hcln : ∀ result k, r.progress = .cleaning result k → r.board.started ≤ k) : Tidy r := by
  refine ⟨sized_of_length hlen hp, hf, fun j _ hj hno => ?_, hrel, hcln⟩
  exact absurd (lt_of_some hj) (not_lt.2 (hlen ▸ getElem?_eq_none_iff.1 hno))

theorem Tidy.of_same {r'} (ht : Tidy r) (hatt : r'.attempts = r.attempts) (hboard : r'.board = r.board)
    (hprog : r'.progress = r.progress) : Tidy r' := by
  obtain ⟨hsiz, hfair, hpend, hrel, hcln⟩ := ht
  rw [Sized] at hsiz
  rw [← hatt, ← hboard, ← hprog] at *
  exact ⟨hsiz, hfair, hpend, hrel, hcln⟩

-- One attempt goes on from a stage to another that stands the same to its reservation.
theorem Tidy.goOn {e'} (ht : Tidy r) (hsl : r.board.slots[i]? = some e)
    (hslots : board.slots = r.board.slots.set i e') (hf : Fair board) (hst : board.started = r.board.started)
    (hsame : released r.progress i e'.stage = released r.progress i e.stage) : Tidy { r with board := board } := by
  have hlen : board.slots.length = r.board.slots.length := by rw [hslots, length_set]
  refine tidy_of_places (hlen.trans (ht.sized.of_slot hsl)) (ht.sized.not_collecting hsl) hf ?_ ?_
  · intro j attempt f hj hf'
    rw [show ({ r with board := board } : Request).board.slots = _ from hslots] at hf'
    rcases of_set hf' with ⟨rfl, rfl⟩ | ⟨-, hf'⟩
    · rw [hsame]
      exact ht.releases j attempt e hj hsl
    · exact ht.releases j attempt f hj hf'
  · intro result k hp
    rw [hst]
    exact ht.cleaning result k hp

theorem Tidy.change {phase note} (ht : Tidy r) (hsl : r.board.slots[i]? = some ⟨.running phase, note⟩)
    (hact : e.stage.isActive = true) (hqueued : ∀ dialed, e.stage ≠ .queued dialed)
    (hsame : released r.progress i e.stage = released r.progress i (.running phase)) :
    Tidy { r with board := r.board.change i e } :=
  ht.goOn hsl rfl (ht.fair.change hsl rfl hact hqueued) rfl hsame

theorem released_of_not_idle {stage} (h : stage ≠ .idle) (progress progress' i) :
    released progress i stage = released progress' i stage := by
  cases stage with
  | idle => exact absurd rfl h
  | running phase => cases phase <;> rfl
  | _ => rfl

theorem release_places (halfOpen : HalfOpen) (r i) :
    ∃ attempts, (release halfOpen r i).2 = { r with attempts := attempts } ∧ attempts.length = r.attempts.length ∧
      ∀ (j : Nat) a, attempts[j]? = some a → ∃ own, r.attempts[j]? = some own ∧ a.reserved = own.reserved ∧
        a.releases = own.releases + if j = i && own.reserved then 1 else 0 := by
  rw [release]
  split
  · exact ⟨_, rfl, rfl, by grind⟩
  split
  · exact ⟨_, rfl, length_set, by grind⟩
  · exact ⟨_, rfl, rfl, by grind⟩

-- The request itself goes on. That can only matter to the attempts still idle.
section

variable (ht : Tidy r)
include ht

theorem Tidy.goOver (hp : ∀ k seen, r.progress ≠ .collecting k seen) (hp' : ∀ k seen, progress ≠ .collecting k seen)
    (hidle : ∀ i, r.board.started ≤ i → i < r.attempts.length →
      released progress i .idle = released r.progress i .idle)
    (hcln : ∀ result k, progress = .cleaning result k → r.board.started ≤ k) :
    Tidy { r with progress := progress } := by
  refine ⟨sized_of_length (ht.sized.of_not_collecting hp) hp', ht.fair, ht.pending, ?_, hcln⟩
  intro i attempt e hi he
  rw [ht.releases i attempt e hi he]
  by_cases hstage : e.stage = .idle
  · rw [hstage, hidle i ((ht.fair.idle_iff i e he).mp hstage) (lt_of_some hi)]
  · rw [released_of_not_idle hstage r.progress]

-- The request leaves its loop with the first attempt that is idle.
theorem Tidy.leave (hp : ∀ k seen, r.progress ≠ .collecting k seen) (hlive : ∀ i, released r.progress i .idle = false)
    (result) : Tidy (leave r result) := by
  apply ht.goOver hp (by simp)
  · intro i hi _
    rw [hlive i]
    simpa [released] using hi
  · intro result' k h
    cases h
    exact le_rfl

theorem Tidy.loop (hp : r.progress = .looping) : Tidy (loop r) := by
  rw [SmartDial.loop]
  split
  · exact ht
  · exact ht.leave (by simp [hp]) (by simp [hp, released]) _

theorem Tidy.start (hp : r.progress = .looping) : Tidy (startAttempt r) := by
  have hsize := ht.sized.of_not_collecting (by simp [hp])
  refine tidy_of_places ((length_start ..).trans hsize) (by simp [startAttempt, hp]) (ht.fair.start .dialing) ?_ ?_
  · intro j attempt f hj hf'
    have hfalse : ∀ e, r.board.slots[j]? = some e → released r.progress j f.stage = released r.progress j e.stage →
        attempt.releases = if attempt.reserved && released r.progress j f.stage then 1 else 0 := by
      intro e he hsame
      rw [hsame]
      exact ht.releases j attempt e hj he
    rw [startAttempt, Board.start] at hf'
    split at hf'
    · exact hfalse f hf' rfl
    rename_i e he
    rcases of_set hf' with ⟨rfl, rfl⟩ | ⟨-, hf'⟩
    · have hidle : e.stage = .idle := (ht.fair.idle_iff _ e he).mpr le_rfl
      exact hfalse e he (by rw [hidle, hp]; rfl)
    · exact hfalse f hf' rfl
  · intro result k h
    rw [show (startAttempt r).progress = r.progress from rfl, hp] at h
    cases h

theorem Tidy.resetHedge : Tidy (resetHedge r) := ht.of_same rfl rfl rfl

theorem Tidy.take {dialed} (htake : r.board.take = some (i, dialed, board)) : Tidy { r with board := board } := by
  have hf := ht.fair.take htake
  obtain ⟨rest, note, -, hsl, rfl⟩ := Fair.take_inv htake
  exact ht.goOn hsl rfl hf rfl rfl

theorem Tidy.closeTaken (i) : Tidy { r with board := closeTaken r.board i } := by
  rw [SmartDial.closeTaken]
  split
  · rename_i e hsl
    exact ht.goOn hsl rfl (ht.fair.renote hsl rfl) rfl rfl
  · exact ht

-- The reservation that an attempt gives back is counted once with the attempt's
-- new place; the other attempts stand as before.
theorem Tidy.release {e₀ e₁} (r₁) (hatt : r₁.attempts = r.attempts)
    (hsiz : r₁.board.slots.length = r₁.attempts.length) (hp : ∀ k seen, r₁.progress ≠ .collecting k seen)
    (hf : Fair r₁.board) (hcln : ∀ result k, r₁.progress = .cleaning result k → r₁.board.started ≤ k)
    (hoth : ∀ (j : Nat) e, j ≠
      i → r₁.board.slots[j]? = some e → ∃ e', r.board.slots[j]? = some e' ∧ released r₁.progress j e.stage =
      released r.progress j e'.stage) (h₀ : r.board.slots[i]? = some e₀)
    (hheld : released r.progress i e₀.stage = false) (h₁ : r₁.board.slots[i]? = some e₁)
    (hgone : released r₁.progress i e₁.stage = true) (halfOpen : HalfOpen) :
    Tidy (SmartDial.release halfOpen r₁ i).2 := by
  have hold : ∀ (j : Nat) attempt e, j ≠ i → r₁.attempts[j]? = some attempt → r₁.board.slots[j]? = some e →
      attempt.releases = if attempt.reserved && released r₁.progress j e.stage then 1 else 0 := by
    intro j attempt e hj ha he
    obtain ⟨e', he', hsame⟩ := hoth j e hj he
    rw [hsame]
    exact ht.releases j attempt e' (hatt ▸ ha) he'
  have hzero : ∀ attempt, r₁.attempts[i]? = some attempt → attempt.releases = 0 := by
    intro attempt ha
    have h := ht.releases i attempt e₀ (hatt ▸ ha) h₀
    rw [hheld] at h
    simpa using h
  obtain ⟨attempts, heq, hlen, hplac⟩ := release_places halfOpen r₁ i
  rw [heq]
  refine tidy_of_places (hsiz.trans hlen.symm) hp hf (fun j attempt e ha he => ?_) hcln
  obtain ⟨own, hown, hres, hrel⟩ := hplac j attempt ha
  rw [hres, hrel]
  by_cases hij : j = i
  · subst hij
    obtain rfl := mem_unique he h₁
    simp [hzero own hown, hgone]
  · simp [hij, hold j own e hij hown he]

theorem Tidy.collecting (hp : r.progress = .collecting k seen) (hp' : ∃ k seen, progress = .collecting k seen)
    (hzero : ∀ (i : Nat) attempt, attempts[i]? = some attempt → attempt.releases = 0) :
    Tidy { r with progress := progress, attempts := attempts } := by
  obtain ⟨k', seen', rfl⟩ := hp'
  have hsl := ht.sized.of_collecting hp
  refine ⟨hsl, ht.fair, fun i attempt ha _ => hzero i attempt ha, ?_, nofun⟩
  intro i attempt e _ he
  rw [show r.board.slots = [] from hsl] at he
  cases he

theorem Tidy.releases_eq_zero (hp : r.progress = .collecting k seen) (i : Nat) (attempt)
    (h : r.attempts[i]? = some attempt) : attempt.releases = 0 := by
  apply ht.pending i attempt h
  rw [ht.sized.of_collecting hp]
  rfl

end

theorem releases_append (h : ∀ (i : Nat) a, attempts[i]? = some a → a.releases = 0) (hrel : attempt.releases = 0)
    (i : Nat) (a) (hi : (attempts ++ [attempt])[i]? = some a) : a.releases = 0 := by
  rcases of_append hi with hi | ⟨-, rfl⟩
  · exact h i a hi
  · exact hrel

theorem Tidy.dial (ht : Tidy r) (hp : r.progress = .collecting k seen) : Tidy (dialContextAdaptive r) := by
  have hzero := ht.releases_eq_zero hp
  have hsl := ht.sized.of_collecting hp
  rw [dialContextAdaptive]
  split
  · rename_i hemp
    have hnil := isEmpty_iff.mp hemp
    refine ⟨?_, ht.fair, ht.pending, ?_, nofun⟩
    · rw [Sized]
      simp [hsl, hnil]
    · intro i attempt e ha
      rw [show r.attempts = [] from hnil] at ha
      cases ha
  · refine (Tidy.start ?_ rfl).resetHedge
    refine ⟨by simp [Sized, Board.new], .new .., fun i attempt ha _ => hzero i attempt ha, ?_, nofun⟩
    intro i attempt e ha he
    obtain ⟨-, rfl⟩ := mem_replicate.mp (mem_of_getElem? he)
    simp [hzero i attempt ha, released]

theorem Tidy.won (ht : Tidy r) (hp : r.progress = .looping) (i) : Tidy { r with progress := .won i } := by
  apply ht.goOver (by simp [hp]) (by simp) _ (by simp)
  simp [hp, released]

theorem Tidy.finish (ht : Tidy r) (hp : r.progress = .cleaning result k) (hk : ¬ k < r.attempts.length) :
    Tidy { r with cancelled := true, progress := .returned result } := by
  have hover : Tidy { r with progress := .returned result } := by
    apply ht.goOver (by simp [hp]) (by simp) _ (by simp)
    intro j _ hj
    simp [hp, released, show j < k by omega]
  exact hover.of_same rfl rfl rfl

theorem Tidy.cleanup (ht : Tidy r) (hp : r.progress = .cleaning result k) (hk : k < r.attempts.length)
    (halfOpen : HalfOpen) :
    Tidy (SmartDial.release halfOpen { r with progress := .cleaning result (k + 1) } k).2 := by
  have hsize := ht.sized.of_not_collecting (by simp [hp])
  have hst := ht.cleaning result k hp
  obtain ⟨e, he⟩ : ∃ e, r.board.slots[k]? = some e := ⟨_, getElem?_eq_getElem (hsize ▸ hk)⟩
  have hidle : e.stage = .idle := (ht.fair.idle_iff k e he).mpr hst
  refine ht.release { r with progress := .cleaning result (k + 1) } rfl hsize nofun ht.fair ?_ ?_ he ?_ he ?_
    halfOpen
  · intro result' k' h
    cases h
    exact Nat.le_succ_of_le hst
  · intro j f hj hf
    refine ⟨f, hf, ?_⟩
    by_cases hf' : f.stage = .idle
    · simp [hp, released, show j < k + 1 ↔ j < k by omega]
    · exact released_of_not_idle hf' _ _ j
  · simp [hidle, hp, released]
  · simp [hidle, released]

theorem Tidy.move (ht : Tidy r) (hm : Move halfOpen r event halfOpen' r') : Tidy r' := by
  cases hm with
  | stay => exact ht
  | callerDone | propagate => exact ht.of_same rfl rfl rfl
  | skip hp => exact ht.collecting hp ⟨_, _, rfl⟩ (ht.releases_eq_zero hp)
  | append hp hres hrel => exact ht.collecting hp ⟨_, _, rfl⟩ (releases_append (ht.releases_eq_zero hp) hrel)
  | reserve attempt hp hrel hfr =>
    exact ht.collecting hp ⟨_, _, rfl⟩ (releases_append (ht.releases_eq_zero hp) hrel)
  | dial hp => exact ht.dial hp
  | dialed dialed hsl | close hsl | pass hsl hlive => exact ht.change hsl rfl nofun rfl
  | @release _ i note dialed hsl =>
    have hf : Fair (r.board.change i ⟨.running (.released dialed), note⟩) :=
      ht.fair.change hsl rfl rfl nofun
    have hsize := ht.sized.of_slot hsl
    refine ht.release { r with board := r.board.change i ⟨.running (.released dialed), note⟩ } rfl
      ((length_change ..).trans hsize) (ht.sized.not_collecting hsl) hf ht.cleaning ?_ hsl rfl
      (set_self hsl) rfl halfOpen
    intro j e hj he
    rcases of_set he with ⟨h, -⟩ | ⟨-, he⟩
    · exact absurd h hj
    · exact ⟨e, he, rfl⟩
  | send hsl => exact ht.goOn hsl rfl (ht.fair.send hsl rfl) rfl rfl
  | fire hp => exact (ht.start hp).resetHedge.loop hp
  | late hp htake =>
    refine Tidy.leave ?_ (by simp [hp]) (by simp [hp, released]) _
    split
    · exact (ht.take htake).closeTaken _
    · exact ht.take htake
  | won hp htake => exact (ht.take htake).won hp _
  | @lost _ i text board errs hp htake =>
    have hnot : Tidy { r with board := board, attemptErrors := errs } := (ht.take htake).of_same rfl rfl rfl
    exact (hnot.start hp).resetHedge.loop hp
  | contextDone hp => exact ht.leave (by simp [hp]) (by simp [hp, released]) _
  | cancelAll hp =>
    have hcan : Tidy { r with cancelled := true } := ht.of_same rfl rfl rfl
    exact hcan.leave (by simp [hp]) (by simp [hp, released]) _
  | cleanup hp hk => exact ht.cleanup hp hk halfOpen
  | finish hp hk => exact ht.finish hp hk

end

section

def Holding (r : Request) (i : Nat) (key : String) : Prop :=
  ∃ attempt, r.attempts[i]? = some attempt ∧ attempt.reserved = true ∧ attempt.releases = 0 ∧
    halfOpenKey attempt.candidate r.networkKey r.siteKey r.transport = key

inductive Effect (halfOpen : HalfOpen) (r r' : Request) : HalfOpen → Prop
  | keep (h : ∀ i k, Holding r' i k ↔ Holding r i k) : Effect halfOpen r r' halfOpen
  | take (i : Nat) {key : String} (hfree : halfOpen.lookup key = none) (hnew : ∀ k, ¬ Holding r i k)
      (h : ∀ j k, Holding r' j k ↔ Holding r j k ∨ (j = i ∧ k = key)) : Effect halfOpen r r' (halfOpen.insert key ())
  | give {i : Nat} {key : String} (hold : Holding r i key) (h : ∀ j k, Holding r' j k ↔ Holding r j k ∧ j ≠ i) :
      Effect halfOpen r r' (halfOpen.erase key)

structure SameAttempts (r r' : Request) : Prop where
  attempts : r'.attempts = r.attempts
  networkKey : r'.networkKey = r.networkKey
  siteKey : r'.siteKey = r.siteKey
  transport : r'.transport = r.transport

theorem SameAttempts.keep (h : SameAttempts r r') (halfOpen : HalfOpen) : Effect halfOpen r r' halfOpen := by
  refine .keep fun i k => ?_
  rw [Holding, Holding, h.attempts, h.networkKey, h.siteKey, h.transport]

theorem SameAttempts.loop (h : SameAttempts r r') : SameAttempts r (loop r') := by
  rw [SmartDial.loop]
  split <;> exact { h with }

theorem dialContextAdaptive_same (r) : SameAttempts r (dialContextAdaptive r) := by
  rw [dialContextAdaptive]
  split <;> exact ⟨rfl, rfl, rfl, rfl⟩

theorem release_effect (r r₁) {i} (hsame : SameAttempts r r₁) (halfOpen : HalfOpen)
    (hzero : ∀ attempt, r.attempts[i]? = some attempt → attempt.reserved = true → attempt.releases = 0) :
    Effect halfOpen r (release halfOpen r₁ i).2 (release halfOpen r₁ i).1 := by
  obtain ⟨hatt, hnetw, hsite, htran⟩ := hsame
  rw [release, hatt]
  split
  · exact SameAttempts.keep ⟨hatt, hnetw, hsite, htran⟩ halfOpen
  rename_i own hown
  split
  · rename_i hres
    rw [hnetw, hsite, htran]
    refine .give ⟨own, hown, hres, hzero own hown hres, rfl⟩ fun j k => ?_
    simp only [Holding]
    by_cases hj : j = i
    · subst hj
      refine ⟨?_, fun h => absurd rfl h.2⟩
      rintro ⟨a, ha, -, hrel, -⟩
      rw [set_self hown] at ha
      obtain rfl := some.inj ha
      cases hrel
    · rw [getElem?_set_ne (Ne.symm hj)]
      exact ⟨fun h => ⟨h, hj⟩, fun h => h.1⟩
  · exact SameAttempts.keep ⟨hatt, hnetw, hsite, htran⟩ halfOpen

theorem holding_append (progress i k) :
    Holding { r with progress := progress, attempts := r.attempts ++ [attempt] } i k ↔
      Holding r i k ∨ (i = r.attempts.length ∧ attempt.reserved = true ∧ attempt.releases = 0 ∧
        halfOpenKey attempt.candidate r.networkKey r.siteKey r.transport = k) := by
  simp only [Holding]
  grind

theorem Move.effect (hm : Move halfOpen r event halfOpen' r') (ht : Tidy r) : Effect halfOpen r r' halfOpen' := by
  cases hm with
  | append hp hres hrel =>
    refine .keep fun i k => ?_
    rw [holding_append]
    simp [hres]
  | reserve attempt hp hrel hf =>
    refine .take r.attempts.length hf (fun k h => ?_) fun j k => ?_
    · obtain ⟨a, ha, -⟩ := h
      exact absurd (lt_of_some ha) (Nat.lt_irrefl _)
    · rw [holding_append]
      simp [hrel, eq_comm]
  | dial hp => exact (dialContextAdaptive_same r).keep halfOpen
  | @release _ i note dialed hsl =>
    refine release_effect r { r with board := r.board.change i ⟨.running (.released dialed), note⟩ }
      ⟨rfl, rfl, rfl, rfl⟩ halfOpen fun attempt ha _ => ?_
    simpa [released] using ht.releases i attempt _ ha hsl
  | fire hp | lost hp htake =>
    refine SameAttempts.keep (.loop ?_) halfOpen
    exact ⟨rfl, rfl, rfl, rfl⟩
  | @cleanup _ result k hp hk =>
    refine release_effect r { r with progress := .cleaning result (k + 1) } ⟨rfl, rfl, rfl, rfl⟩ halfOpen
      fun attempt ha _ => ?_
    have hsize := ht.sized.of_not_collecting (by simp [hp])
    obtain ⟨e, he⟩ : ∃ e, r.board.slots[k]? = some e := ⟨_, getElem?_eq_getElem (hsize ▸ hk)⟩
    have hidle : e.stage = .idle := (ht.fair.idle_iff k e he).mpr (ht.cleaning result k hp)
    simpa [hidle, hp, released] using ht.releases k attempt e ha he
  | _ =>
    refine SameAttempts.keep ?_ _
    exact ⟨rfl, rfl, rfl, rfl⟩

inductive Holder
  | attempt (q i : Nat)
  | listen (p : Nat)
  deriving DecidableEq

def Holds (s : Smart) : Holder → String → Prop
  | .attempt q i, key => ∃ r, s.requests[q]? = some r ∧ Holding r i key
  | .listen p, key => s.listens[p]? = some ⟨key, true⟩

structure Reserved (s : Smart) : Prop where
  tidy : ∀ (q : Nat) r, s.requests[q]? = some r → Tidy r
  owned : Owned s.halfOpen (Holds s)

variable {s : Smart}

theorem holds_set_iff (hq : s.requests[q]? = some r) (halfOpen : HalfOpen) {P : Holder → String → Prop → Prop}
    (hown : ∀ i k, Holding r' i k ↔ P (.attempt q i) k (Holding r i k))
    (hoth : ∀ x k a, (∀ i, x ≠ .attempt q i) → (P x k a ↔ a)) (x k) :
    Holds { s with halfOpen := halfOpen, requests := s.requests.set q r' } x k ↔ P x k (Holds s x k) := by
  cases x with
  | listen p =>
    rw [hoth _ _ _ (by simp)]
    exact .rfl
  | attempt q' i =>
    by_cases hqq : q' = q
    · subst hqq
      have hhere : Holds s (.attempt q' i) k ↔ Holding r i k := by
        constructor
        · rintro ⟨r₀, hr₀, hold⟩
          obtain rfl := mem_unique hq hr₀
          exact hold
        · exact fun hold => ⟨r, hq, hold⟩
      rw [hhere, ← hown]
      simp [Holds, lt_of_some hq]
    · rw [hoth _ _ _ (by simp [hqq])]
      simp [Holds, getElem?_set_ne (Ne.symm hqq)]

theorem Reserved.request {event : Event} (hs : Reserved s) (hq : s.requests[q]? = some r) : Reserved { s with
      halfOpen := (requestStep s.halfOpen r event).1
      requests := s.requests.set q (requestStep s.halfOpen r event).2 } := by
  have hmove := requestStep_move s.halfOpen r event
  have ht := hs.tidy q r hq
  have heff := hmove.effect ht
  have htidy := ht.move hmove
  generalize (requestStep s.halfOpen r event).1 = halfOpen' at *
  constructor
  · intro q' r₀ h
    rcases of_set h with ⟨-, rfl⟩ | ⟨-, h⟩
    · exact htidy
    · exact hs.tidy q' r₀ h
  · cases heff with
    | keep h =>
      apply hs.owned.congr
      exact holds_set_iff hq _ (P := fun _ _ a => a) h fun _ _ _ _ => .rfl
    | @take i key hf hnew h =>
      apply hs.owned.insert (x := .attempt q i) hf
      · intro k hk
        exact hnew k (by simpa [Holds, hq] using hk)
      · apply holds_set_iff hq _ (P := fun x k a => a ∨ (x = .attempt q i ∧ k = key))
        · simpa using h
        · exact fun x k a hx => by simp [hx i]
    | @give i key hold h =>
      apply hs.owned.erase (x := .attempt q i)
      · exact ⟨r, hq, hold⟩
      · apply holds_set_iff hq _ (P := fun x _ a => a ∧ x ≠ .attempt q i)
        · simpa using h
        · exact fun x k a hx => by simp [hx i]

theorem Reserved.newRequest (hs : Reserved s) (hr : r.attempts = [] ∧ r.board.slots = []) (htidy : Tidy r) :
    Reserved { s with requests := s.requests ++ [r] } := by
  refine ⟨?_, hs.owned.congr fun x k => ?_⟩
  · intro q r₀ h
    rcases of_append h with h | ⟨-, rfl⟩
    · exact hs.tidy q r₀ h
    · exact htidy
  · cases x with
    | listen p => exact .rfl
    | attempt q i =>
      constructor
      · rintro ⟨r₀, h, hold⟩
        rcases of_append h with h | ⟨-, rfl⟩
        · exact ⟨r₀, h, hold⟩
        obtain ⟨a, ha, -⟩ := hold
        rw [hr.1] at ha
        cases ha
      · rintro ⟨r₀, h, hold⟩
        exact ⟨r₀, append_of h, hold⟩

theorem Reserved.listen (hs : Reserved s) (rank networkKey siteKey transport) :
    Reserved (listen s rank networkKey siteKey transport) := by
  rw [SmartDial.listen]
  rcases reserveHalfOpen_cases s.halfOpen rank networkKey siteKey transport with h | ⟨hf, h⟩
  · rw [h]
    exact hs
  rw [h]
  refine ⟨hs.tidy, hs.owned.insert (x := .listen s.listens.length) hf (fun k hk => ?_) fun x k => ?_⟩
  · exact absurd (lt_of_some hk) (Nat.lt_irrefl _)
  · cases x with
    | attempt q i =>
      simp only [reduceCtorEq, false_and, or_false]
      exact Iff.rfl
    | listen p =>
      simp only [Holds]
      grind

theorem Reserved.listened (hs : Reserved s) (p) : Reserved (listened s p) := by
  rw [SmartDial.listened]
  split
  · rename_i key hp
    have hlt := lt_of_some hp
    have hold : Holds s (.listen p) key := hp
    refine ⟨hs.tidy, hs.owned.erase hold fun x k => ?_⟩
    cases x with
    | attempt q i =>
      simp only [ne_eq, reduceCtorEq, not_false_eq_true, and_true]
      exact Iff.rfl
    | listen p' =>
      simp only [Holds]
      grind
  · exact hs

theorem Reserved.step (hs : Reserved s) (op) : Reserved (step s op) := by
  cases op with
  | request ranks networkKey siteKey transport maxAttempts =>
    exact hs.newRequest ⟨rfl, rfl⟩ ⟨rfl, Fair.new 0 (η := Note) {}, nofun, nofun, nofun⟩
  | «at» q event =>
    rw [SmartDial.step]
    split
    · exact hs
    · exact hs.request ‹_›
  | listen rank networkKey siteKey transport => exact hs.listen rank networkKey siteKey transport
  | listened p => exact hs.listened p

theorem not_holds_new (x k) : ¬ Holds {} x k := by
  cases x with
  | attempt q i | listen p => simp [Holds]

theorem reserved_after (ops) : Reserved (after ops) := by
  refine run_invariant (fun _ op hs => hs.step op) ⟨nofun, ?_, ?_, ?_⟩ ops
  · exact fun k => ⟨nofun, fun ⟨x, hx⟩ => absurd hx (not_holds_new x k)⟩
  · exact fun x _ k hx => absurd hx (not_holds_new x k)
  · exact fun x k _ hx => absurd hx (not_holds_new x k)

end

end SingBox.SmartReservations
