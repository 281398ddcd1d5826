import SingBox.AttemptRunner

namespace SingBox.AttemptSettlement

open Arena Races Runs AttemptRunner

variable {plan : DecisionPlan} {s s' : Dial} {event : Event}

def attemptOf : Event → Option Nat
  | .acquire i _ => some i
  | .begin i _ => some i
  | .resolve i _ => some i
  | .dialContext i _ => some i
  | .check i _ => some i
  | .recheck i => some i
  | .complete i _ => some i
  | .send i => some i
  | _ => none

inductive Move (plan : DecisionPlan) (s : Dial) : Event → Dial → Prop
  | stay {event : Event} : Move plan s event s
  | callerDone {event : Event} : Move plan s event { s with callerDone := true }
  | propagate (h : s.callerDone = true) : Move plan s .propagate { s with cancelled := true }
  | work {event : Event} {i : Nat} {phase : Phase} {note : Note} {e : Entry Phase DialResult Note}
      (hat : attemptOf event = some i) (hslot : s.board.slots[i]? = some ⟨.running phase, note⟩)
      (h : advance s.cancelled phase note event = some e) : Move plan s event { s with board := s.board.change i e }
  | send {event : Event} {i : Nat} {result : DialResult} {note : Note}
      (hslot : s.board.slots[i]? = some ⟨.running (.sending result), note⟩) :
      Move plan s event { s with board := s.board.send i result note }
  | fire {event : Event} {timer : Bool} (hs : s.status = .looping) :
      Move plan s event (loop { s with board := s.board.start .starting, timer := timer })
  | won {event : Event} {i : Nat} {board : Board Phase DialResult Note} {candidate : Candidate}
      (hs : s.status = .looping) (htake : s.board.take = some (i, .connection, board))
      (hc : plan.candidates[i]? = some candidate) :
      Move plan s event { s with board := board, status := .leaving (.connection i candidate) }
  | lost {event : Event} {i : Nat} {err : DialError} {deferred : Bool} {board : Board Phase DialResult Note}
      {errs : List (DialError × String)} (hs : s.status = .looping)
      (htake : s.board.take = some (i, .failure err deferred, board)) :
      Move plan s event (loop { s with board := board.start .starting, attemptErrors := errs })
  | contextDone {event : Event} (hs : s.status = .looping) :
      Move plan s event { s with status := .leaving (.callerContext s.attemptErrors) }
  | finish {result : Returned} (hs : s.status = .leaving result) :
      Move plan s .finish { s with cancelled := true, status := .returned result }

theorem work_move (plan s) {i} (hat : attemptOf event = some i) : Move plan s event (work s i event) := by
  rw [work]
  split
  · split
    · exact .work hat ‹_› ‹_›
    · exact .stay
  · exact .stay

theorem send_move (plan s i event) : Move plan s event (send s i) := by
  rw [send]
  split
  · split
    · exact .send ‹_›
    · exact .stay
  · exact .stay

theorem receive_move (hs : s.status = .looping) (event) : Move plan s event (receive plan s) := by
  rw [receive]
  split
  · exact .stay
  split
  · exact .stay
  split
  · exact .won hs ‹_› ‹_›
  · exact .lost hs ‹_›

theorem step_move (plan s event) : Move plan s event (step plan s event) := by
  cases event with
  | cancelCaller => exact .callerDone
  | propagate =>
    rw [step]
    split
    · exact .propagate ‹_›
    · exact .stay
  | acquire i allowed | begin i err | resolve i resolved | dialContext i dialed => exact work_move plan s rfl
  | check i panics | recheck i | complete i panics => exact work_move plan s rfl
  | send i => exact send_move plan s i _
  | fire =>
    rw [step]
    split
    · rw [fire]
      split
      · exact .fire ‹_›
      · exact .stay
    · exact .stay
  | receive =>
    rw [step]
    split
    · exact receive_move ‹_› _
    · exact .stay
  | contextDone =>
    rw [step]
    split
    · rw [contextDone]
      split
      · exact .contextDone ‹_›
      · exact .stay
    · exact .stay
  | finish =>
    rw [step, finish]
    split
    · exact .finish ‹_›
    · exact .stay

section

def Settles (e : Entry Phase DialResult Note) : Prop :=
  match e.stage with
  | .idle => e.note.acquired = 0 ∧ e.note.settlements = []
  | .running .starting => e.note.acquired = 0 ∧ e.note.settlements = []
  | .running (.sending _) => e.note.acquired ≤ 1 ∧ e.note.settlements.length = e.note.acquired
  | .running _ => e.note.acquired = 1 ∧ e.note.settlements = []
  | _ => e.note.acquired ≤ 1 ∧ e.note.settlements.length = e.note.acquired

def Connects (e : Entry Phase DialResult Note) : Prop :=
  match e.stage with
  | .running .connected => e.note.connections = 1
  | .running .cleared => e.note.connections = 1
  | .running (.passed none) => e.note.connections = 1
  | .running (.sending .connection) => e.note.connections = 1
  | .running (.sending _) => e.note.connections ≤ 1
  | .running _ => e.note.connections = 0
  | .queued .connection => e.note.connections = 1
  | .taken .connection => e.note.connections = 1
  | .idle => e.note.connections = 0
  | _ => e.note.connections ≤ 1

variable {cancelled : Bool} {phase : Phase} {note : Note} {e : Entry Phase DialResult Note}

inductive Advance (cancelled : Bool) (note : Note) : Phase → Event → Entry Phase DialResult Note → Prop
  | acquire (i : Nat) (allowed : Bool) : Advance cancelled note .starting (.acquire i allowed) (acquire note allowed)
  | begin (i : Nat) (err : Option String) : Advance cancelled note .permitted (.begin i err) (begin note err)
  | resolve (i : Nat) (resolved : Resolved) :
      Advance cancelled note .begun (.resolve i resolved) (resolve note resolved)
  | dialContext (i : Nat) (dialed : Dialed) :
      Advance cancelled note .executing (.dialContext i dialed) (dialContext note dialed)
  | check (i : Nat) (panics : Option String) :
      Advance cancelled note .connected (.check i panics) (check cancelled note panics)
  | recheck (i : Nat) : Advance cancelled note .cleared (.recheck i) (recheck cancelled note none)
  | fail (i : Nat) (err : DialError) :
      Advance cancelled note (.failed err) (.recheck i) (recheck cancelled note (some err))
  | complete (i : Nat) (err : Option DialError) (panics : Option String) :
      Advance cancelled note (.passed err) (.complete i panics) (complete note err panics)

theorem advance_inv (h : advance cancelled phase note event = some e) : Advance cancelled note phase event e := by
  cases event with
  | acquire | begin | resolve | dialContext | check =>
    obtain ⟨rfl, ⟨⟩⟩ := Option.ite_none_right_eq_some.mp h
    constructor
  | recheck i =>
    cases phase with
    | cleared =>
      cases h
      exact .recheck i
    | failed err =>
      cases h
      exact .fail i err
    | _ => cases h
  | complete i panics =>
    cases phase with
    | passed err =>
      cases h
      exact .complete i err panics
    | _ => cases h
  | _ => cases h

attribute [local simp] acquire begin resolve dialContext complete recovered sending settle

-- Up to its call of complete or of the deferred recover, an attempt with a
-- permit has not settled it, and both end its work.
theorem Advance.books (h : Advance cancelled note phase event e) (hs : Settles ⟨.running phase, note⟩)
    (hc : Connects ⟨.running phase, note⟩) : Settles e ∧ Connects e := by
  cases h with
  | acquire i allowed => cases allowed <;> simp_all [Settles, Connects]
  | begin i err => cases err <;> simp_all [Settles, Connects]
  | resolve i resolved =>
    cases resolved <;> simp_all [Settles, Connects]
  | dialContext i dialed =>
    cases dialed <;> simp_all [Settles, Connects]
  | check i panics =>
    rw [AttemptRunner.check]
    split
    · cases panics <;> simp_all [Settles, Connects]
    · exact ⟨hs, hc⟩
  | recheck i | fail i err =>
    rw [AttemptRunner.recheck]
    split
    · simp_all [Settles, Connects]
    · exact ⟨hs, hc⟩
  | complete i err panics =>
    cases err <;> cases panics <;> simp_all [Settles, Connects]

def rank : Stage Phase DialResult → Nat
  | .running .starting => 8
  | .running .permitted => 7
  | .running .begun => 6
  | .running .executing => 5
  | .running .connected => 4
  | .running .cleared => 3
  | .running (.failed _) => 3
  | .running (.passed _) => 2
  | .running (.sending _) => 1
  | _ => 0

theorem Advance.goesOn (h : Advance cancelled note phase event e) :
    ((∃ p, e.stage = .running p) ∨ e.stage = .silent) ∧ rank e.stage < rank (.running phase) := by
  cases h with
  | acquire i allowed => cases allowed <;> simp [rank]
  | begin i err => cases err <;> simp [rank]
  | resolve i resolved => cases resolved <;> simp [rank]
  | dialContext i dialed => cases dialed <;> simp [rank]
  | check i panics => cases cancelled <;> cases panics <;> simp [AttemptRunner.check, rank]
  | recheck i | fail i err => cases cancelled <;> simp [AttemptRunner.recheck, rank]
  | complete i err panics =>
    cases err <;> cases panics <;> simp [rank]

theorem Advance.fair (h : Advance cancelled note phase event e) {b i} (hf : Fair b)
    (hsl : b.slots[i]? = some ⟨.running phase, note⟩) : Fair (b.change i e) := by
  rcases h.goesOn.1 with ⟨p, hp⟩ | hp <;> exact hf.change hsl rfl (by simp [hp]) (by simp [hp])

end

section

def Earned (plan : DecisionPlan) (board : Board Phase DialResult Note) : Returned → Prop
  | .connection i candidate =>
    plan.candidates[i]? = some candidate ∧ ∃ note, board.slots[i]? = some ⟨.taken .connection, note⟩
  | .callerContext _ => True
  | _ => board.started = plan.candidates.length ∧
      ∀ (i : Nat) e, board.slots[i]? = some e → ∃ err deferred, e.stage = .taken (.failure err deferred)

def NoneWon (board : Board Phase DialResult Note) : Prop := All (fun _ e => e.stage ≠ .taken .connection) board

structure Raced (plan : DecisionPlan) (s : Dial) : Prop where
  length : s.board.slots.length = plan.candidates.length
  fair : Fair s.board
  settles : All (fun _ e => Settles e) s.board
  connects : All (fun _ e => Connects e) s.board
  looping : s.status = .looping → NoneWon s.board
  outcome : ∀ result, s.status = .leaving result ∨ s.status = .returned result → Earned plan s.board result

-- A result once earned stays so while running attempts go on: the attempts it
-- speaks of run no longer.
theorem Earned.set {board board' i phase note e result} (h : Earned plan board result)
    (hsl : board.slots[i]? = some ⟨.running phase, note⟩) (hslots : board'.slots = board.slots.set i e) :
    Earned plan board' result := by
  cases result with
  | connection j candidate =>
    obtain ⟨hc, note', hj⟩ := h
    have hne : i ≠ j := by
      rintro rfl
      rw [hsl] at hj
      cases hj
    exact ⟨hc, note', by rw [hslots, List.getElem?_set_ne hne, hj]⟩
  | callerContext errs => trivial
  | noEligibleCandidates | attemptErrors errs =>
    obtain ⟨err, deferred, hstage⟩ := h.2 i _ hsl
    cases hstage

theorem Fair.all_failed {board} (hf : Fair board) (hwon : NoneWon board) (hact : board.active = 0)
    (hst : board.started = board.slots.length) :
    ∀ (i : Nat) e, board.slots[i]? = some e → ∃ err deferred, e.stage = .taken (.failure err deferred) := by
  intro i e hi
  obtain ⟨result, hstage⟩ := hf.of_active_eq_zero hact hi (hst ▸ lt_of_some hi)
  cases result with
  | connection => exact absurd hstage (hwon i e hi)
  | failure err deferred => exact ⟨err, deferred, hstage⟩

theorem eq_of_leaving {ρ : Type} {a result}
    (h : (.leaving a : Status ρ) = .leaving result ∨ (.leaving a : Status ρ) = .returned result) : a = result := by
  rcases h with h | h <;> cases h
  rfl

theorem raced_loop {s} (hlen : s.board.slots.length = plan.candidates.length) (hf : Fair s.board)
    (hset : All (fun _ e => Settles e) s.board) (hcon : All (fun _ e => Connects e) s.board)
    (hs : s.status = .looping) (hwon : NoneWon s.board)
    (hst : s.board.active = 0 → s.board.started = s.board.slots.length) : Raced plan (loop s) := by
  have hern : s.board.active = 0 → s.board.started = plan.candidates.length ∧
      ∀ (i : Nat) e, s.board.slots[i]? = some e → ∃ err deferred, e.stage = .taken (.failure err deferred) :=
    fun h => ⟨(hst h).trans hlen, Fair.all_failed hf hwon h (hst h)⟩
  rw [loop]
  split
  · refine ⟨hlen, hf, hset, hcon, fun _ => hwon, ?_⟩
    rintro result (h | h) <;> rw [hs] at h <;> cases h
  rename_i hact
  have h := hern (Nat.eq_zero_of_not_pos hact)
  split
  all_goals
    refine ⟨hlen, hf, hset, hcon, nofun, ?_⟩
    intro result hres
    obtain rfl := eq_of_leaving hres
    exact h

theorem settles_start (e) (h : e.stage = .idle) (hs : Settles e) :
    Settles { e with stage := .running .starting } := by
  rw [Settles, h] at hs
  exact hs

theorem connects_start (e) (h : e.stage = .idle) (hc : Connects e) :
    Connects { e with stage := .running .starting } := by
  rw [Connects, h] at hc
  exact hc

variable {board : Board Phase DialResult Note}

theorem NoneWon.start (h : NoneWon board) (hf : Fair board) : NoneWon (board.start .starting) :=
  All.start h hf fun _ _ _ _ => nofun

theorem Raced.step (hr : Raced plan s) (event) : Raced plan (step plan s event) := by
  have hmove := step_move plan s event
  generalize AttemptRunner.step plan s event = t at hmove
  cases hmove with
  | stay => exact hr
  | callerDone | propagate _ => exact { hr with }
  | @work _ i phase note e _ hsl h =>
    have hadv := advance_inv h
    have hbooks := hadv.books (hr.settles i _ hsl) (hr.connects i _ hsl)
    refine ⟨by simpa using hr.length, hadv.fair hr.fair hsl, hr.settles.change hbooks.1,
      hr.connects.change hbooks.2, fun hs => (hr.looping hs).change ?_,
      fun result hres => (hr.outcome result hres).set hsl rfl⟩
    rcases hadv.goesOn.1 with ⟨p, hp⟩ | hp <;> simp [hp]
  | @send _ i result note hsl =>
    have hset : Settles ⟨.queued result, note⟩ := by
      have h := hr.settles i _ hsl
      exact h
    have hcon : Connects ⟨.queued result, note⟩ := by
      have h := hr.connects i _ hsl
      cases result <;> exact h
    exact ⟨by simpa using hr.length, hr.fair.send hsl rfl, hr.settles.send hset, hr.connects.send hcon,
      fun hs => (hr.looping hs).send nofun, fun result hres => (hr.outcome result hres).set hsl rfl⟩
  | fire hs =>
    exact raced_loop (by simpa using hr.length) (hr.fair.start _) (hr.settles.start hr.fair fun _ => settles_start)
      (hr.connects.start hr.fair fun _ => connects_start) hs ((hr.looping hs).start hr.fair)
      (fun h => by simpa using hr.fair.started_of_start_active h)
  | @won _ i b candidate hs htake hc =>
    obtain ⟨rest, note, -, hsl, hb⟩ := Fair.take_inv htake
    refine ⟨(length_take htake).trans hr.length, hr.fair.take htake, hr.settles.take htake fun _ h => h,
      hr.connects.take htake fun _ h => h, nofun, ?_⟩
    intro result hres
    obtain rfl := eq_of_leaving hres
    exact ⟨hc, note, by simp [hb, lt_of_some hsl]⟩
  | @lost _ i err deferred b errs hs htake =>
    have hf := hr.fair.take htake
    have hwon : NoneWon b := All.take (hr.looping hs) htake fun _ _ => nofun
    exact raced_loop (by simpa using (length_take htake).trans hr.length) (hf.start _)
      ((hr.settles.take htake fun _ h => h).start hf fun _ => settles_start)
      ((hr.connects.take htake fun _ h => h).start hf fun _ => connects_start) hs (hwon.start hf)
      (fun h => by simpa using hf.started_of_start_active h)
  | contextDone hs =>
    refine { hr with looping := nofun, outcome := ?_ }
    intro result hres
    obtain rfl := eq_of_leaving hres
    trivial
  | finish hs =>
    refine { hr with looping := nofun, outcome := ?_ }
    rintro result (hres | hres) <;> cases hres
    exact hr.outcome _ (.inl hs)

theorem raced_dial (plan) : Raced plan (dial plan) := by
  have hset (n) : All (fun _ => Settles) (.new n {} : Board Phase DialResult Note) :=
    .new n fun _ => ⟨rfl, rfl⟩
  have hcon (n) : All (fun _ => Connects) (.new n {} : Board Phase DialResult Note) :=
    .new n fun _ => rfl
  have hwon (n) : NoneWon (.new n {}) := .new n fun _ => nofun
  have hfair : ∀ n, Fair (.new n {} : Board Phase DialResult Note) := fun n => .new n _
  rw [dial]
  split
  · rename_i hemp
    refine ⟨?_, hfair 0, hset 0, hcon 0, nofun, ?_⟩
    · rw [List.isEmpty_iff.mp hemp]
      rfl
    · rintro result (hres | hres) <;> cases hres
      exact ⟨by rw [List.isEmpty_iff.mp hemp]; rfl, nofun⟩
  · refine ⟨by simp [Board.new], (hfair _).start _, (hset _).start (hfair _) fun _ => settles_start,
      (hcon _).start (hfair _) fun _ => connects_start, fun _ => (hwon _).start (hfair _), ?_⟩
    rintro result (hres | hres) <;> cases hres

theorem raced_after (plan events) : Raced plan (after plan events) :=
  run_invariant (fun _ event hr => hr.step event) (raced_dial plan) events

end

section

variable {cancelled : Bool} {phase : Phase} {note : Note} {e : Entry Phase DialResult Note} {i : Nat}

/-- Each running attempt has a step of its own to take, and the result channel
has room for what it sends. -/
def GoesOn (plan : DecisionPlan) (s : Dial) : Prop :=
  ∀ (i : Nat) phase note, s.board.slots[i]? = some ⟨.running phase, note⟩ →
    ∃ event e, (step plan s event).board.slots[i]? = some e ∧ rank e.stage < rank (.running phase)

theorem work_slot (hsl : s.board.slots[i]? = some ⟨.running phase, note⟩)
    (h : advance s.cancelled phase note event = some e) : (work s i event).board.slots[i]? = some e := by
  rw [work, hsl]
  dsimp only
  rw [h]
  exact set_self hsl

theorem Raced.goesOn (hr : Raced plan s) : GoesOn plan s := by
  intro i phase note hsl
  have own : ∀ event e, AttemptRunner.step plan s event = work s i event →
      advance s.cancelled phase note event = some e →
      ∃ event e, (AttemptRunner.step plan s event).board.slots[i]? = some e ∧ rank e.stage < rank _ :=
    fun event e hst h => ⟨event, e, hst ▸ work_slot hsl h, (advance_inv h).goesOn.2⟩
  cases phase with
  | starting => exact own (.acquire i true) _ rfl rfl
  | permitted => exact own (.begin i none) _ rfl rfl
  | begun => exact own (.resolve i .loaded) _ rfl rfl
  | executing => exact own (.dialContext i .connection) _ rfl rfl
  | connected => exact own (.check i none) _ rfl rfl
  | cleared | failed err => exact own (.recheck i) _ rfl rfl
  | passed err => exact own (.complete i none) _ rfl rfl
  | sending result =>
    have hroom := hr.fair.room hsl rfl
    refine ⟨.send i, ⟨.queued result, note⟩, ?_, Nat.zero_lt_one⟩
    rw [AttemptRunner.step, send, hsl]
    dsimp only
    rw [if_pos hroom]
    exact set_self hsl

end

def Finished (e : Entry Phase DialResult Note) : Prop := e.stage ≠ .idle ∧ ∀ phase, e.stage ≠ .running phase

theorem Settles.le {e} (h : Settles e) : e.note.acquired ≤ 1 ∧ e.note.settlements.length ≤ e.note.acquired := by
  obtain ⟨stage, note⟩ := e
  cases stage with
  | running phase => cases phase <;> simp_all [Settles]
  | _ => simp_all [Settles]

theorem Settles.of_finished {e} (h : Settles e) (hf : Finished e) : e.note.settlements.length = e.note.acquired := by
  obtain ⟨stage, note⟩ := e
  cases stage with
  | idle => exact absurd rfl hf.1
  | running phase => exact absurd rfl (hf.2 phase)
  | _ => exact h.2

def isFailure : Returned → Bool
  | .noEligibleCandidates => true
  | .attemptErrors _ => true
  | _ => false

/-- In every run the candidates are started in plan order, each attempt settles its permit
once, and a failure is returned only after every candidate has failed. -/
theorem attempts_settle (plan : DecisionPlan) (events : List Event) :
    ((after plan events).board.starts = List.range (after plan events).board.started ∧
        (after plan events).board.started ≤ plan.candidates.length) ∧
      (∀ (i : Nat) e, (after plan events).board.slots[i]? = some e →
        e.note.acquired ≤ 1 ∧ e.note.settlements.length ≤ e.note.acquired ∧
          (Finished e → e.note.settlements.length = e.note.acquired)) ∧
      GoesOn plan (after plan events) ∧
      (∀ i candidate, (after plan events).status = .returned (.connection i candidate) →
        plan.candidates[i]? = some candidate ∧ ∃ note,
          (after plan events).board.slots[i]? = some ⟨.taken .connection, note⟩ ∧ note.connections = 1) ∧
      ∀ result, (after plan events).status = .returned result → isFailure result = true →
        (after plan events).board.starts = List.range plan.candidates.length ∧
          ∀ i < plan.candidates.length, ∃ err deferred note,
            (after plan events).board.slots[i]? = some ⟨.taken (.failure err deferred), note⟩ := by
  have hr := raced_after plan events
  refine ⟨⟨hr.fair.starts, hr.length ▸ hr.fair.started_le⟩, ?_, hr.goesOn, ?_, ?_⟩
  · intro i e hi
    have hs := hr.settles i e hi
    exact ⟨hs.le.1, hs.le.2, hs.of_finished⟩
  · intro i candidate hstat
    obtain ⟨hc, note, hi⟩ := hr.outcome _ (.inr hstat)
    exact ⟨hc, note, hi, hr.connects i _ hi⟩
  · intro result hstat hfail
    have hern : (after plan events).board.started = plan.candidates.length ∧
        ∀ (i : Nat) e, (after plan events).board.slots[i]? = some e →
          ∃ err deferred, e.stage = .taken (.failure err deferred) := by
      have h := hr.outcome result (.inr hstat)
      cases result with
      | noEligibleCandidates | attemptErrors errs => exact h
      | _ => cases hfail
    refine ⟨by rw [hr.fair.starts, hern.1], fun i hi => ?_⟩
    obtain ⟨⟨stage, note⟩, hsl⟩ : ∃ e, (after plan events).board.slots[i]? = some e :=
      ⟨_, List.getElem?_eq_getElem (hr.length ▸ hi)⟩
    obtain ⟨err, deferred, hstage⟩ := hern.2 i _ hsl
    obtain rfl : stage = .taken (.failure err deferred) := hstage
    exact ⟨err, deferred, note, hsl⟩

end SingBox.AttemptSettlement
