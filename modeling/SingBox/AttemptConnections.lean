import SingBox.AttemptSettlement

namespace SingBox.AttemptConnections

open List Arena Races Runs AttemptRunner AttemptSettlement

/-- The attempt looked at the parent context and goes on with its connection,
which `Dial` has not received. -/
def InTransit (e : Entry Phase DialResult Note) : Prop :=
  e.stage = .running .cleared ∨ e.stage = .running (.passed none) ∨ e.stage = .running (.sending .connection) ∨
    e.stage = .queued .connection

instance (e : Entry Phase DialResult Note) : Decidable (InTransit e) := inferInstanceAs (Decidable (_ ∨ _))

def leaves (s : Dial) : Bool :=
  match s.status with
  | .leaving _ => true
  | _ => false

/-- No connection is in transit when `Dial` returns, none is between its two looks
at the parent context when that is cancelled by the caller, and `RemoteAddr` does
not panic. -/
def Clean (s : Dial) : Event → Prop
  | .propagate => s.callerDone = true → ∀ e ∈ s.board.slots, e.stage ≠ .running .cleared
  | .finish => leaves s = true → ∀ e ∈ s.board.slots, ¬ InTransit e
  | .complete i panics => panics ≠ none → s.board.slots[i]?.map Entry.stage ≠ some (.running (.passed none))
  | _ => True

instance (s : Dial) (event : Event) : Decidable (Clean s event) := by
  cases event <;> dsimp only [Clean] <;> infer_instance

def Held (e : Entry Phase DialResult Note) : Prop :=
  match e.stage with
  | .running .connected => e.note.connections = 1 ∧ e.note.closed = 0
  | .running .cleared => e.note.connections = 1 ∧ e.note.closed = 0
  | .running (.passed none) => e.note.connections = 1 ∧ e.note.closed = 0
  | .running (.sending .connection) => e.note.connections = 1 ∧ e.note.closed = 0
  | .queued .connection => e.note.connections = 1 ∧ e.note.closed = 0
  | .taken .connection => e.note.connections = 1 ∧ e.note.closed = 0
  | .running (.sending (.failure _ _)) => e.note.connections ≤ 1 ∧ e.note.closed = e.note.connections
  | .queued (.failure _ _) => e.note.connections ≤ 1 ∧ e.note.closed = e.note.connections
  | .taken (.failure _ _) => e.note.connections ≤ 1 ∧ e.note.closed = e.note.connections
  | .silent => e.note.connections ≤ 1 ∧ e.note.closed = e.note.connections
  | _ => e.note.connections = 0 ∧ e.note.closed = 0

variable {plan : DecisionPlan} {s : Dial} {event : Event} {cancelled : Bool} {phase : Phase} {note : Note}
  {e : Entry Phase DialResult Note}

attribute [local simp] acquire begin resolve dialContext complete recovered sending settle

-- The two steps that would drop a connection are the second look at a cancelled
-- context and a panic in `RemoteAddr`.
theorem Advance.held (h : Advance cancelled note phase event e) (hh : Held ⟨.running phase, note⟩)
    (hclr : cancelled = true → phase ≠ .cleared)
    (hpan : ∀ i panics, event = .complete i panics → panics ≠ none → phase ≠ .passed none) : Held e := by
  cases h with
  | acquire i allowed => cases allowed <;> simp_all [Held]
  | begin i err => cases err <;> simp_all [Held]
  | resolve i resolved => cases resolved <;> simp_all [Held]
  | dialContext i dialed => cases dialed <;> simp_all [Held]
  | check i panics =>
    obtain ⟨hconn, hcl⟩ : note.connections = 1 ∧ note.closed = 0 := hh
    rw [check]
    split
    · cases panics <;> simp [Held, hconn, hcl]
    · exact ⟨hconn, hcl⟩
  | recheck i =>
    rw [recheck]
    split
    · exact absurd rfl (hclr ‹_›)
    · exact hh
  | fail i err =>
    obtain ⟨hconn, hcl⟩ : note.connections = 0 ∧ note.closed = 0 := hh
    rw [recheck]
    split <;> simp [Held, hconn, hcl]
  | complete i err panics =>
    cases err with
    | some err =>
      obtain ⟨hconn, hcl⟩ : note.connections = 0 ∧ note.closed = 0 := hh
      simp [Held, hconn, hcl]
    | none =>
      cases panics with
      | none => exact hh
      | some text => exact absurd rfl (hpan i _ rfl (by simp))

-- With the context cancelled, the first look closes the connection, so only an
-- attempt past both looks goes on with one.
theorem Advance.of_inTransit (h : Advance true note phase event e) (ht : InTransit e) :
    phase = .passed none ∧ e.stage = .running (.sending .connection) := by
  cases h with
  | acquire i allowed => cases allowed <;> simp [InTransit] at ht
  | begin i err => cases err <;> simp [InTransit] at ht
  | resolve i resolved => cases resolved <;> simp [InTransit] at ht
  | dialContext i dialed => cases dialed <;> simp [InTransit] at ht
  | check i panics => cases panics <;> simp [InTransit, check] at ht
  | recheck i | fail i err => simp [InTransit, recheck] at ht
  | complete i err panics =>
    cases err with
    | some err => simp [InTransit] at ht
    | none =>
      cases panics with
      | none => exact ⟨rfl, rfl⟩
      | some text => simp [InTransit] at ht

structure Accounted (s : Dial) : Prop where
  held : All (fun _ e => Held e) s.board
  cleared : s.cancelled = true → All (fun _ e => e.stage ≠ .running .cleared) s.board
  returned : ∀ result, s.status = .returned result →
    (s.board.slots ≠ [] → s.cancelled = true) ∧ All (fun _ e => ¬ InTransit e) s.board
  won : ∀ (i : Nat) note, s.board.slots[i]? = some ⟨.taken .connection, note⟩ →
    ∃ candidate, s.status = .leaving (.connection i candidate) ∨ s.status = .returned (.connection i candidate)

theorem held_start (e) (h : e.stage = .idle) (hh : Held e) : Held { e with stage := .running .starting } := by
  rw [Held, h] at hh
  exact hh

theorem held_take (result note) (h : Held ⟨.queued result, note⟩) : Held ⟨.taken result, note⟩ := by
  cases result <;> exact h

variable {board : Board Phase DialResult Note} {i : Nat}

theorem noneWon_won (h : NoneWon board) {P : Nat → Prop} (i note)
    (hi : board.slots[i]? = some ⟨.taken .connection, note⟩) : P i := absurd rfl (h i _ hi)

theorem loop_cases (s) : loop s = s ∨ ∃ result, loop s = { s with status := .leaving result } := by
  rw [loop]
  split
  · exact .inl rfl
  · split <;> exact .inr ⟨_, rfl⟩

theorem accounted_loop (hheld : All (fun _ e => Held e) s.board)
    (hclr : s.cancelled = true → All (fun _ e => e.stage ≠ .running .cleared) s.board)
    (hs : s.status = .looping) (hwon : NoneWon s.board) : Accounted (loop s) := by
  rcases loop_cases s with h | ⟨result, h⟩ <;> rw [h]
  · exact ⟨hheld, hclr, by simp [hs], noneWon_won hwon⟩
  · exact ⟨hheld, hclr, by simp, noneWon_won hwon⟩

theorem Accounted.work (ha : Accounted s) (hsl : s.board.slots[i]? = some ⟨.running phase, note⟩)
    (hadv : Advance s.cancelled note phase event e)
    (hpan : ∀ i panics, event = .complete i panics → panics ≠ none → phase ≠ .passed none) :
    Accounted { s with board := s.board.change i e } := by
  constructor
  · refine ha.held.change (Advance.held hadv (ha.held i _ hsl) (fun hc => ?_) hpan)
    rintro rfl
    exact ha.cleared hc i _ hsl rfl
  · intro hc
    refine (ha.cleared hc).change fun hstage => ?_
    rw [show s.cancelled = true from hc] at hadv
    have := (Advance.of_inTransit hadv (.inl hstage)).2
    rw [hstage] at this
    cases this
  · intro result hs
    obtain ⟨hc, htran⟩ := ha.returned result hs
    have hcan := hc (ne_nil_of_mem (mem_of_getElem? hsl))
    refine ⟨fun _ => hcan, htran.change fun ht => ?_⟩
    rw [hcan] at hadv
    obtain ⟨rfl, -⟩ := Advance.of_inTransit hadv ht
    exact htran i _ hsl (.inr (.inl rfl))
  · intro j note' hj
    rcases of_set hj with ⟨-, heq⟩ | ⟨-, hj⟩
    · rcases hadv.goesOn.1 with ⟨p, hp⟩ | hp <;> rw [← heq] at hp <;> cases hp
    · exact ha.won j note' hj

theorem Accounted.send {result} (ha : Accounted s)
    (hsl : s.board.slots[i]? = some ⟨.running (.sending result), note⟩) :
    Accounted { s with board := s.board.send i result note } := by
  have hheld : Held ⟨.queued result, note⟩ := by
    have h := ha.held i _ hsl
    cases result <;> exact h
  refine ⟨ha.held.send hheld, fun hc => (ha.cleared hc).send nofun, ?_, ?_⟩
  · intro r hs
    obtain ⟨hc, htran⟩ := ha.returned r hs
    have hcan := hc (ne_nil_of_mem (mem_of_getElem? hsl))
    refine ⟨fun _ => hcan, htran.send fun ht => htran i _ hsl ?_⟩
    rcases ht with ht | ht | ht | ht <;> cases ht
    exact .inr (.inr (.inl rfl))
  · intro j note' hj
    rcases of_set hj with ⟨-, heq⟩ | ⟨-, hj⟩
    · cases heq
    · exact ha.won j note' hj

theorem Accounted.step (ha : Accounted s) (hr : Raced plan s) (event : Event) (hclean : Clean s event) :
    Accounted (step plan s event) := by
  have hmove := step_move plan s event
  generalize AttemptRunner.step plan s event = t at hmove
  cases hmove with
  | stay => exact ha
  | callerDone => exact { ha with }
  | propagate h =>
    have hclr : All (fun _ e => e.stage ≠ .running .cleared) s.board :=
      fun i e hi => hclean h e (mem_of_getElem? hi)
    exact ⟨ha.held, fun _ => hclr, fun result hs => ⟨fun _ => rfl, (ha.returned result hs).2⟩, ha.won⟩
  | @work _ i phase note e hat hsl h =>
    refine ha.work hsl (advance_inv h) ?_
    rintro j panics rfl hpan rfl
    obtain rfl : j = i := Option.some.inj hat
    exact hclean hpan (by rw [hsl]; rfl)
  | @send _ i result note hsl => exact ha.send hsl
  | fire hs =>
    refine accounted_loop (ha.held.start hr.fair fun _ => held_start) (fun hc => ?_) hs
      ((hr.looping hs).start hr.fair)
    exact (ha.cleared hc).start hr.fair fun _ _ _ _ => nofun
  | @won _ i b candidate hs htake hc =>
    refine ⟨ha.held.take htake (held_take _), fun hc => (ha.cleared hc).take htake fun _ _ => nofun, nofun, ?_⟩
    intro j note hj
    obtain ⟨rest, note', -, hsl, rfl⟩ := Fair.take_inv htake
    rcases of_set hj with ⟨rfl, -⟩ | ⟨-, hj⟩
    · exact ⟨candidate, .inl rfl⟩
    · exact absurd rfl (hr.looping hs j _ hj)
  | @lost _ i err deferred b errs hs htake =>
    have hf := hr.fair.take htake
    have hwon : NoneWon b := All.take (hr.looping hs) htake fun _ _ => nofun
    refine accounted_loop ((ha.held.take htake (held_take _)).start hf fun _ => held_start) (fun hc => ?_) hs
      (hwon.start hf)
    exact ((ha.cleared hc).take htake fun _ _ => nofun).start hf fun _ _ _ _ => nofun
  | contextDone hs =>
    exact ⟨ha.held, ha.cleared, nofun, noneWon_won (hr.looping hs)⟩
  | @finish result hs =>
    have htran : All (fun _ e => ¬ InTransit e) s.board :=
      fun i e hi => hclean (by rw [leaves, hs]) e (mem_of_getElem? hi)
    refine ⟨ha.held, fun _ i e hi hstage => htran i e hi (.inl hstage), fun _ _ => ⟨fun _ => rfl, htran⟩, ?_⟩
    intro i note hi
    obtain ⟨candidate, hstat⟩ := ha.won i note hi
    refine ⟨candidate, .inr ?_⟩
    rcases hstat with hstat | hstat
    · rw [hs] at hstat
      cases hstat
      rfl
    · rw [hs] at hstat
      cases hstat

theorem accounted_dial (plan : DecisionPlan) : Accounted (dial plan) := by
  have hheld (n) : All (fun _ => Held) (.new n {} : Board Phase DialResult Note) :=
    .new n fun _ => ⟨rfl, rfl⟩
  have hwon := (raced_dial plan).looping
  rw [dial] at hwon ⊢
  split
  · refine ⟨hheld 0, by simp, fun _ _ => ⟨absurd rfl, ?_⟩, by simp [Board.new]⟩
    intro i e hi
    simp [Board.new] at hi
  · rename_i hne
    rw [if_neg hne] at hwon
    exact ⟨(hheld _).start (.new ..) fun _ => held_start, (by simp), (by simp),
      noneWon_won (hwon rfl)⟩

theorem accounted_after {events} (h : Meets (step plan) Clean (dial plan) events) :
    Accounted (after plan events) := by
  have hboth : Raced plan (after plan events) ∧ Accounted (after plan events) :=
    run_keeps (I := fun s => Raced plan s ∧ Accounted s)
      (fun s event _ hclean hs => ⟨hs.1.step event, hs.2.step hs.1 event hclean⟩)
      ⟨raced_dial plan, accounted_dial plan⟩ h
  exact hboth.2

/-- In every clean run a connection is returned or closed once its attempt has ended. -/
theorem connections_returned_or_closed (plan : DecisionPlan) (events : List Event)
    (h : Meets (step plan) Clean (dial plan) events) :
    (∀ (i : Nat) e, (after plan events).board.slots[i]? = some e → e.note.connections = 1 → Finished e →
      ∀ result, (after plan events).status = .returned result →
        e.note.closed = 1 ∨ ∃ candidate, result = .connection i candidate) ∧
      GoesOn plan (after plan events) := by
  have ha := accounted_after h
  refine ⟨?_, (raced_after plan events).goesOn⟩
  rintro i ⟨stage, note⟩ hi hconn hfin result hstat
  have hheld := ha.held i _ hi
  cases stage with
  | idle => exact absurd rfl hfin.1
  | running phase => exact absurd rfl (hfin.2 phase)
  | silent => exact .inl (hheld.2.trans hconn)
  | queued r =>
    cases r with
    | connection => exact absurd (.inr (.inr (.inr rfl))) ((ha.returned result hstat).2 i _ hi)
    | failure err deferred => exact .inl (hheld.2.trans hconn)
  | taken r =>
    cases r with
    | connection =>
      obtain ⟨candidate, hwon⟩ := ha.won i note hi
      rw [hstat] at hwon
      rcases hwon with hwon | hwon <;> cases hwon
      exact .inr ⟨candidate, rfl⟩
    | failure err deferred => exact .inl (hheld.2.trans hconn)

theorem late_connection_is_closed :
    let plan : DecisionPlan := ⟨[⟨1, "a"⟩, ⟨2, "b"⟩], .adaptive, false, false⟩
    let dialed (i : Nat) : List Event :=
      [.acquire i true, .begin i none, .resolve i .loaded, .dialContext i .connection, .check i none]
    let events := .fire :: dialed 0 ++ [.recheck 0, .complete 0 none, .send 0, .receive, .finish] ++ dialed 1
    Meets (step plan) Clean (dial plan) events ∧
      (after plan events).status = .returned (.connection 0 ⟨1, "a"⟩) ∧
      ∃ e, (after plan events).board.slots[1]? = some e ∧ e.note.connections = 1 ∧ e.note.closed = 1 := by
  intro plan dialed events
  have hmeets : Meets (step plan) Clean (dial plan) events := by decide +kernel
  have hstat : (after plan events).status = .returned (.connection 0 ⟨1, "a"⟩) := by decide +kernel
  obtain ⟨note, hsl, hconn⟩ : ∃ note, (after plan events).board.slots[1]? = some ⟨.silent, note⟩ ∧
      note.connections = 1 := ⟨⟨1, [.completed (some .context) true false], 1, 1⟩, by decide +kernel, rfl⟩
  refine ⟨hmeets, hstat, _, hsl, hconn, ?_⟩
  rcases (connections_returned_or_closed plan events hmeets).1 1 _ hsl hconn ⟨nofun, nofun⟩ _ hstat with
    hcl | ⟨candidate, hoth⟩
  · exact hcl
  · cases hoth

theorem second_connection_is_left :
    let plan : DecisionPlan := ⟨[⟨1, "a"⟩, ⟨2, "b"⟩], .adaptive, false, false⟩
    let sent (i : Nat) : List Event :=
      [.acquire i true, .begin i none, .resolve i .loaded, .dialContext i .connection, .check i none, .recheck i,
        .complete i none, .send i]
    let s := after plan (.fire :: sent 0 ++ sent 1 ++ [.receive, .finish])
    s.status = .returned (.connection 0 ⟨1, "a"⟩) ∧
      s.board.slots[1]?.map (fun e => (e.stage, e.note.connections, e.note.closed)) =
        some (.queued .connection, 1, 0) := by
  decide +kernel

-- Cancelled between its two looks, an attempt drops its connection as well.
example :
    let plan : DecisionPlan := ⟨[⟨1, "a"⟩], .adaptive, false, false⟩
    let s := after plan [.acquire 0 true, .begin 0 none, .resolve 0 .loaded, .dialContext 0 .connection,
      .check 0 none, .cancelCaller, .propagate, .recheck 0, .send 0, .contextDone, .finish]
    s.status = .returned (.callerContext []) ∧
      s.board.slots[0]?.map (fun e => (e.stage, e.note.connections, e.note.closed)) =
        some (.queued (.failure .context true), 1, 0) := by
  decide +kernel

end SingBox.AttemptConnections
