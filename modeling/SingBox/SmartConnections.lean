import SingBox.SmartReservations

namespace SingBox.SmartConnections

open List Arena Races Runs SmartDial SmartReservations

/-- The attempt looked at the parent context and goes on with its connection,
which the request has not received. -/
def InTransit (e : Entry Phase Dialed Note) : Prop :=
  e.stage = .running (.sending .connection) ∨ e.stage = .queued .connection

instance (e : Entry Phase Dialed Note) : Decidable (InTransit e) := inferInstanceAs (Decidable (_ ∨ _))

def returns (r : Request) : Bool :=
  match r.progress with
  | .cleaning _ index => !decide (index < r.attempts.length)
  | _ => false

def CleanReturn (r : Request) : Event → Prop
  | .cleanup => returns r = true → ∀ e ∈ r.board.slots, ¬ InTransit e
  | _ => True

def Clean (s : Smart) : Op → Prop
  | .at q event => ∀ r ∈ s.requests[q]?, CleanReturn r event
  | _ => True

instance (r : Request) (event : Event) : Decidable (CleanReturn r event) := by
  cases event <;> dsimp only [CleanReturn] <;> infer_instance

instance (s : Smart) (op : Op) : Decidable (Clean s op) := by
  cases op <;> dsimp only [Clean] <;> infer_instance

def Held (e : Entry Phase Dialed Note) : Prop :=
  match e.stage with
  | .running (.dialed .connection) => e.note.connections = 1 ∧ e.note.closed = 0
  | .running (.released .connection) => e.note.connections = 1 ∧ e.note.closed = 0
  | .running (.sending .connection) => e.note.connections = 1 ∧ e.note.closed = 0
  | .queued .connection => e.note.connections = 1 ∧ e.note.closed = 0
  | .taken .connection => e.note.connections = 1 ∧ e.note.closed ≤ 1
  | .silent => e.note.connections = 1 ∧ e.note.closed = 1
  | _ => e.note.connections = 0 ∧ e.note.closed = 0

def Wins (progress : Progress) (i : Nat) : Prop :=
  progress = .won i ∨ (∃ k, progress = .cleaning (.connection i) k) ∨ progress = .returned (.connection i)

structure Accounted (r : Request) : Prop where
  held : All (fun _ e => Held e) r.board
  returned : ∀ result, r.progress = .returned result →
    (r.board.slots ≠ [] → r.cancelled = true) ∧ All (fun _ e => ¬ InTransit e) r.board
  taken : ∀ (i : Nat) note, r.board.slots[i]? = some ⟨.taken .connection, note⟩ →
    note.closed = 1 ∨ Wins r.progress i

variable {halfOpen halfOpen' : HalfOpen} {r r' : Request} {event : Event} {i : Nat} {phase : Phase} {note : Note}
  {e : Entry Phase Dialed Note} {board : Board Phase Dialed Note} {result : Returned} {dialed : Dialed}

theorem not_wins_looping (hp : r.progress = .looping) (i) : ¬ Wins r.progress i := by
  rw [hp]
  rintro (h | ⟨k, h⟩ | h) <;> cases h

theorem Accounted.taken_of_wins (ha : Accounted r) {progress} (hwins : ∀ i, Wins r.progress i → Wins progress i)
    (i note) (hi : r.board.slots[i]? = some ⟨.taken .connection, note⟩) : note.closed = 1 ∨ Wins progress i :=
  (ha.taken i note hi).imp_right (hwins i)

theorem Accounted.change (ha : Accounted r) (hsl : r.board.slots[i]? = some ⟨.running phase, note⟩)
    (hslots : board.slots = r.board.slots.set i e) (hheld : Held e) (htk : ∀ dialed, e.stage ≠ .taken dialed)
    (htran : r.cancelled = true → InTransit e → InTransit ⟨.running phase, note⟩) :
    Accounted { r with board := board } := by
  constructor
  · intro j f hj
    rw [show ({ r with board := board } : Request).board.slots = _ from hslots] at hj
    exact All.set (fun j f _ => ha.held j f) hheld j f hj
  · intro result hp
    obtain ⟨hcan, hclear⟩ := ha.returned result hp
    have hc := hcan (ne_nil_of_mem (mem_of_getElem? hsl))
    refine ⟨fun _ => hc, fun j f hj => ?_⟩
    rw [show ({ r with board := board } : Request).board.slots = _ from hslots] at hj
    exact All.set (P := fun _ e => ¬ InTransit e) (fun j f _ => hclear j f)
      (fun ht => hclear i _ hsl (htran hc ht)) j f hj
  · intro j note' hj
    rw [show ({ r with board := board } : Request).board.slots = _ from hslots] at hj
    rcases of_set hj with ⟨-, heq⟩ | ⟨-, hj⟩
    · exact absurd (congrArg Entry.stage heq).symm (htk _)
    · exact ha.taken j note' hj

theorem held_start (e) (h : e.stage = .idle) (hh : Held e) : Held { e with stage := .running .dialing } := by
  rw [Held, h] at hh
  exact hh

theorem held_take (dialed note) (h : Held ⟨.queued dialed, note⟩) : Held ⟨.taken dialed, note⟩ := by
  cases dialed with
  | connection => exact ⟨h.1, by rw [h.2]; exact Nat.zero_le _⟩
  | failure text => exact h

def AllClosed (board : Board Phase Dialed Note) : Prop :=
  ∀ (i : Nat) note, board.slots[i]? = some ⟨.taken .connection, note⟩ → note.closed = 1

theorem Accounted.allClosed (ha : Accounted r) (hp : r.progress = .looping) : AllClosed r.board :=
  fun i note hi => (ha.taken i note hi).resolve_right (not_wins_looping hp i)

theorem AllClosed.start (h : AllClosed board) : AllClosed (board.start .dialing) := by
  intro i note hi
  rw [Board.start] at hi
  split at hi
  · exact h i note hi
  rcases of_set hi with ⟨-, heq⟩ | ⟨-, hi⟩
  · cases heq
  · exact h i note hi

theorem accounted_leave (hheld : All (fun _ e => Held e) r.board) (hcl : AllClosed r.board) :
    Accounted (leave r result) :=
  ⟨hheld, nofun, fun i note hi => .inl (hcl i note hi)⟩

theorem accounted_loop (hheld : All (fun _ e => Held e) r.board) (hcl : AllClosed r.board)
    (hp : r.progress = .looping) : Accounted (loop r) := by
  rw [loop]
  split
  · refine ⟨hheld, fun result h => ?_, fun i note hi => .inl (hcl i note hi)⟩
    rw [hp] at h
    cases h
  · exact accounted_leave hheld hcl

theorem release_board (halfOpen : HalfOpen) (r i) :
    (release halfOpen r i).2.board = r.board ∧ (release halfOpen r i).2.progress = r.progress ∧
      (release halfOpen r i).2.cancelled = r.cancelled := by
  rw [release]
  split
  · exact ⟨rfl, rfl, rfl⟩
  · split <;> exact ⟨rfl, rfl, rfl⟩

theorem Accounted.release (ha : Accounted r) (halfOpen : HalfOpen) (i) :
    Accounted (SmartDial.release halfOpen r i).2 := by
  obtain ⟨hboard, hprog, hcan⟩ := release_board halfOpen r i
  constructor
  · rw [hboard]; exact ha.held
  · rw [hboard, hprog, hcan]; exact ha.returned
  · rw [hboard, hprog]; exact ha.taken

theorem Accounted.take (ha : Accounted r) (hp : r.progress = .looping)
    (htake : r.board.take = some (i, dialed, board)) : All (fun _ e => Held e) board ∧
      ∀ (j : Nat) note, board.slots[j]? = some ⟨.taken .connection, note⟩ →
        note.closed = 1 ∨ (j = i ∧ dialed = .connection) := by
  refine ⟨ha.held.take htake (held_take dialed), fun j note hj => ?_⟩
  obtain ⟨rest, note', -, hsl, rfl⟩ := Fair.take_inv htake
  rcases of_set hj with ⟨rfl, heq⟩ | ⟨-, hj⟩
  · cases heq
    exact .inr ⟨rfl, rfl⟩
  · exact .inl (ha.allClosed hp j note hj)

theorem accounted_late (ha : Accounted r) (hp : r.progress = .looping)
    (htake : r.board.take = some (i, dialed, board)) (result) :
    Accounted (leave { r with board := if dialed = .connection then closeTaken board i else board } result) := by
  obtain ⟨hheld, htk⟩ := ha.take hp htake
  split
  swap
  · rename_i hdial
    exact accounted_leave hheld fun j note hj => (htk j note hj).resolve_right fun h => hdial h.2
  rename_i hdial
  subst hdial
  obtain ⟨rest, note, -, hsl, hboard⟩ := Fair.take_inv htake
  obtain ⟨hconn, hopen⟩ : note.connections = 1 ∧ note.closed = 0 := ha.held i _ hsl
  have hsl' : board.slots[i]? = some ⟨.taken .connection, note⟩ := by
    rw [hboard]
    exact set_self hsl
  rw [closeTaken, hsl']
  refine accounted_leave (hheld.change ⟨hconn, by simp [hopen]⟩) fun j note' hj => ?_
  rcases of_set hj with ⟨-, heq⟩ | ⟨hne, hj⟩
  · cases heq
    simp [hopen]
  · exact (htk j note' hj).resolve_right fun h => hne h.1

theorem accounted_dial {k seen} (ht : Tidy r) (hp : r.progress = .collecting k seen) :
    Accounted (dialContextAdaptive r) := by
  have hsl := ht.sized.of_collecting hp
  rw [dialContextAdaptive]
  split
  · refine ⟨?_, fun result _ => ⟨absurd hsl, ?_⟩, ?_⟩
    all_goals
      intro i e hi
      rw [hsl] at hi
      cases hi
  · have hheld : All (fun _ => Held) (.new r.attempts.length {} : Board Phase Dialed Note) :=
      .new _ fun _ => ⟨rfl, rfl⟩
    have hcl : AllClosed (.new r.attempts.length {}) := by
      intro i note hi
      cases (mem_replicate.mp (mem_of_getElem? hi)).2
    exact ⟨hheld.start (.new ..) fun _ => held_start, (fun _ h => by cases h),
      fun i note hi => .inl (hcl.start i note hi)⟩

theorem Accounted.move (ha : Accounted r) (ht : Tidy r) (hm : Move halfOpen r event halfOpen' r')
    (hclean : CleanReturn r event) : Accounted r' := by
  have hemp : ∀ {k seen k' seen'} {attempts : List SmartDialAttempt}, r.progress = .collecting k seen →
      Accounted { r with progress := .collecting k' seen', attempts := attempts } := by
    intro k seen k' seen' attempts hp
    refine ⟨ha.held, by simp, fun i note hi => ?_⟩
    rw [show r.board.slots = [] from ht.sized.of_collecting hp] at hi
    cases hi
  cases hm with
  | stay => exact ha
  | callerDone => exact { ha with }
  | propagate => exact ⟨ha.held, fun result hp => ⟨fun _ => rfl, (ha.returned result hp).2⟩, ha.taken⟩
  | skip hp | append hp hres hrel | reserve attempt hp hrel hf => exact hemp hp
  | dial hp => exact accounted_dial ht hp
  | @dialed _ i note dialed hsl =>
    obtain ⟨hconn, hcl⟩ : note.connections = 0 ∧ note.closed = 0 := ha.held i _ hsl
    refine ha.change hsl rfl ?_ (by simp) fun _ h => by rcases h with h | h <;> cases h
    cases dialed <;> simp [Held, hconn, hcl]
  | @release _ i note dialed hsl =>
    have hheld := ha.held i _ hsl
    have hchg : Accounted { r with board := r.board.change i ⟨.running (.released dialed), note⟩ } := by
      refine ha.change hsl rfl ?_ (by simp) fun _ h => by rcases h with h | h <;> cases h
      cases dialed <;> exact hheld
    exact hchg.release halfOpen i
  | @close _ i note hsl =>
    obtain ⟨hconn, hcl⟩ : note.connections = 1 ∧ note.closed = 0 := ha.held i _ hsl
    refine ha.change hsl rfl ?_ (by simp) fun _ h => by rcases h with h | h <;> cases h
    simp [Held, hconn, hcl]
  | @pass _ i note dialed hsl hlive =>
    have hheld := ha.held i _ hsl
    refine ha.change hsl rfl ?_ (by simp) fun hc h => ?_
    · cases dialed <;> exact hheld
    · rcases h with h | h <;> cases h
      rw [hlive rfl] at hc
      cases hc
  | @send _ i note dialed hsl =>
    have hheld := ha.held i _ hsl
    refine ha.change hsl rfl ?_ (by simp) fun _ h => ?_
    · cases dialed <;> exact hheld
    · rcases h with h | h <;> cases h
      exact .inl rfl
  | fire hp =>
    exact accounted_loop (ha.held.start ht.fair fun _ => held_start) (ha.allClosed hp).start hp
  | late hp htake => exact accounted_late ha hp htake _
  | @won _ i board hp htake =>
    obtain ⟨hheld, htk⟩ := ha.take hp htake
    refine ⟨hheld, by simp, fun j note hj => ?_⟩
    rcases htk j note hj with h | ⟨rfl, -⟩
    · exact .inl h
    · exact .inr (.inl rfl)
  | @lost _ i text board errs hp htake =>
    obtain ⟨hheld, htk⟩ := ha.take hp htake
    have hcl : AllClosed board := fun j note hj => (htk j note hj).resolve_right (by simp)
    exact accounted_loop (hheld.start (ht.fair.take htake) fun _ => held_start) hcl.start hp
  | contextDone hp => exact accounted_leave ha.held (ha.allClosed hp)
  | @cancelAll _ i hp =>
    refine ⟨ha.held, by simp [leave], ha.taken_of_wins fun j h => ?_⟩
    rw [hp] at h
    rcases h with h | ⟨k, h⟩ | h <;> cases h
    exact .inr (.inl ⟨_, rfl⟩)
  | @cleanup _ result k hp hk =>
    have hn : Accounted { r with progress := .cleaning result (k + 1) } := by
      refine ⟨ha.held, by simp, ha.taken_of_wins fun j h => ?_⟩
      rw [hp] at h
      rcases h with h | ⟨k, h⟩ | h <;> cases h
      exact .inr (.inl ⟨_, rfl⟩)
    exact hn.release halfOpen k
  | @finish result k hp hk =>
    have hret : returns r = true := by simp [returns, hp, hk]
    refine ⟨ha.held, fun _ _ => ⟨fun _ => rfl, fun i e hi => hclean hret e (mem_of_getElem? hi)⟩, ?_⟩
    apply ha.taken_of_wins
    intro j h
    rw [hp] at h
    rcases h with h | ⟨k, h⟩ | h <;> cases h
    exact .inr (.inr rfl)

def AllAccounted (s : Smart) : Prop := ∀ (q : Nat) r, s.requests[q]? = some r → Accounted r

theorem AllAccounted.step {s} (ha : AllAccounted s) (hs : Reserved s) (op) (hclean : Clean s op) :
    AllAccounted (step s op) := by
  cases op with
  | request ranks networkKey siteKey transport maxAttempts =>
    intro q r h
    rcases of_append h with h | ⟨-, rfl⟩
    · exact ha q r h
    · exact ⟨nofun, nofun, nofun⟩
  | «at» q event =>
    rw [SmartDial.step]
    split
    · exact ha
    rename_i r hq
    intro q' r' h
    rcases of_set h with ⟨-, rfl⟩ | ⟨-, h⟩
    · exact (ha q r hq).move (hs.tidy q r hq) (requestStep_move s.halfOpen r event) (hclean r hq)
    · exact ha q' r' h
  | listen rank networkKey siteKey transport =>
    have hreq : (listen s rank networkKey siteKey transport).requests = s.requests := by
      rw [SmartDial.listen]
      rcases reserveHalfOpen_cases s.halfOpen rank networkKey siteKey transport with h | ⟨-, h⟩ <;> rw [h] <;> rfl
    rw [SmartDial.step, AllAccounted, hreq]
    exact ha
  | listened p =>
    have hreq : (listened s p).requests = s.requests := by
      rw [SmartDial.listened]
      split <;> rfl
    rw [SmartDial.step, AllAccounted, hreq]
    exact ha

theorem accounted_after {ops} (h : Meets step Clean {} ops) : AllAccounted (after ops) := by
  have hboth : Reserved (after ops) ∧ AllAccounted (after ops) := by
    refine run_keeps (I := fun s => Reserved s ∧ AllAccounted s) (fun s op _ hclean hs => ?_) ?_ h
    · exact ⟨hs.1.step op, hs.2.step hs.1 op hclean⟩
    · exact ⟨reserved_after [], nofun⟩
  exact hboth.2

def rank : Stage Phase Dialed → Nat
  | .running .dialing => 4
  | .running (.dialed _) => 3
  | .running (.released _) => 2
  | .running (.sending _) => 1
  | _ => 0

/-- Each running attempt has a step of its own to take, and the result channel
has room for what it sends. -/
def GoesOn (r : Request) : Prop :=
  ∀ (i : Nat) phase note, r.board.slots[i]? = some ⟨.running phase, note⟩ →
    ∀ halfOpen, ∃ event e, (requestStep halfOpen r event).2.board.slots[i]? = some e ∧
      rank e.stage < rank (.running phase)

theorem goesOn_of_tidy (ht : Tidy r) : GoesOn r := by
  intro i phase note hsl halfOpen
  have hlt := lt_of_some hsl
  cases phase with
  | dialing =>
    refine ⟨.dialContext i .connection, ⟨.running (.dialed .connection), { note with
      connections := note.connections + 1 }⟩, ?_, Nat.lt_succ_self 3⟩
    rw [requestStep, dialContext, hsl]
    exact getElem?_set_self hlt
  | dialed dialed =>
    refine ⟨.release i, ⟨.running (.released dialed), note⟩, ?_, Nat.lt_succ_self 2⟩
    rw [requestStep, releaseAttempt, hsl]
    rw [(release_board halfOpen _ i).1]
    exact getElem?_set_self hlt
  | released dialed =>
    by_cases hclose : dialed = .connection ∧ r.cancelled = true
    · refine ⟨.check i, ⟨.silent, { note with closed := note.closed + 1 }⟩, ?_, Nat.zero_lt_two⟩
      rw [requestStep, check, hsl]
      dsimp only
      rw [if_pos hclose]
      exact getElem?_set_self hlt
    · refine ⟨.check i, ⟨.running (.sending dialed), note⟩, ?_, Nat.one_lt_two⟩
      rw [requestStep, check, hsl]
      dsimp only
      rw [if_neg hclose]
      exact getElem?_set_self hlt
  | sending dialed =>
    have hroom := ht.fair.room hsl rfl
    refine ⟨.send i, ⟨.queued dialed, note⟩, ?_, Nat.zero_lt_one⟩
    rw [requestStep, send, hsl]
    dsimp only
    rw [if_pos hroom]
    exact getElem?_set_self hlt

/-- The attempt's dial has returned and its goroutine came past its release, or
the attempt was never started. -/
def PastRelease (e : Entry Phase Dialed Note) : Prop :=
  e.stage ≠ .running .dialing ∧ ∀ dialed, e.stage ≠ .running (.dialed dialed)

theorem released_of_pastRelease (hp : r.progress = .returned result) (h : PastRelease e) (i) :
    released r.progress i e.stage = true := by
  obtain ⟨stage, note⟩ := e
  rw [hp]
  cases stage with
  | running phase =>
    cases phase with
    | dialing => exact absurd rfl h.1
    | dialed dialed => exact absurd rfl (h.2 dialed)
    | _ => rfl
  | _ => rfl

def Finished (e : Entry Phase Dialed Note) : Prop := e.stage ≠ .idle ∧ ∀ phase, e.stage ≠ .running phase

/-- In every run each reservation is released once and each key has one holder. In clean runs
a connection is returned or closed. -/
theorem reservations_and_connections_settle (ops : List Op) (h : Meets step Clean {} ops) :
    (∀ (q : Nat) r, (after ops).requests[q]? = some r →
      ∀ (i : Nat) attempt, r.attempts[i]? = some attempt → attempt.reserved = true →
        attempt.releases ≤ 1 ∧ ∀ result e, r.progress = .returned result → r.board.slots[i]? = some e →
          PastRelease e → attempt.releases = 1) ∧
      (∀ x y key, Holds (after ops) x key → Holds (after ops) y key → x = y) ∧
      (∀ (q : Nat) r, (after ops).requests[q]? = some r →
        ∀ (i : Nat) e, r.board.slots[i]? = some e → e.note.connections = 1 → Finished e →
          ∀ result, r.progress = .returned result → e.note.closed = 1 ∨ result = .connection i) ∧
      ∀ (q : Nat) r, (after ops).requests[q]? = some r → GoesOn r := by
  have hs := reserved_after ops
  refine ⟨?_, hs.owned.unique, ?_, fun q r hq => goesOn_of_tidy (hs.tidy q r hq)⟩
  · intro q r hq i attempt hi hres
    have ht := hs.tidy q r hq
    refine ⟨?_, fun result e hp he hpast => ?_⟩
    · cases he : r.board.slots[i]? with
      | none => rw [ht.pending i attempt hi he]; exact Nat.zero_le _
      | some e =>
        rw [ht.releases i attempt e hi he]
        split <;> omega
    · rw [ht.releases i attempt e hi he, hres, released_of_pastRelease hp hpast i]
      rfl
  · rintro q r hq i ⟨stage, note⟩ hi hconn hfin result hp
    have ha := accounted_after h q r hq
    have hheld := ha.held i _ hi
    cases stage with
    | idle => exact absurd rfl hfin.1
    | running phase => exact absurd rfl (hfin.2 phase)
    | silent => exact .inl hheld.2
    | queued dialed =>
      cases dialed with
      | connection => exact absurd (.inr rfl) ((ha.returned result hp).2 i _ hi)
      | failure text => exact absurd (hconn.symm.trans hheld.1) nofun
    | taken dialed =>
      cases dialed with
      | connection =>
        refine (ha.taken i note hi).imp_right fun hwins => ?_
        rw [hp] at hwins
        rcases hwins with h | ⟨k, h⟩ | h <;> cases h
        rfl
      | failure text => exact absurd (hconn.symm.trans hheld.1) nofun

/-- The first attempt of a request gives its half-open reservation back and its
connection is returned. The second one dials after the return and closes its own. -/
theorem late_dial_is_closed :
    let ops : List Op :=
      .request [⟨"a", "a", "", true, .halfOpen⟩, ⟨"b", "b", "", true, .healthy⟩] "n" "s" "tcp" 2 ::
        ([.collect, .collect, .collect, .fire, .dialContext 0 .connection, .release 0, .check 0, .send 0, .receive,
          .cancelAll, .cleanup, .dialContext 1 .connection, .release 1, .check 1] : List Event).map (.at 0)
    Meets step Clean {} ops ∧ ∃ r, (after ops).requests[0]? = some r ∧ r.progress = .returned (.connection 0) ∧
      (∃ attempt, r.attempts[0]? = some attempt ∧ attempt.reserved = true ∧ attempt.releases = 1) ∧
      ∃ e, r.board.slots[1]? = some e ∧ e.note.connections = 1 ∧ e.note.closed = 1 := by
  intro ops
  have hmeets : Meets step Clean {} ops := by decide +kernel
  obtain ⟨hrel, -, hcon, -⟩ := reservations_and_connections_settle ops hmeets
  let r := (after ops).requests[0]?.get (by decide +kernel)
  have hq : (after ops).requests[0]? = some r := (Option.some_get _).symm
  have hp : r.progress = .returned (.connection 0) := by decide +kernel
  have hown : r.attempts[0]? = some ⟨0, 0, "a", true, 1⟩ := by decide +kernel
  have hf : r.board.slots[0]? = some ⟨.taken .connection, ⟨1, 0⟩⟩ := by decide +kernel
  have hsec : r.board.slots[1]? = some ⟨.silent, ⟨1, 1⟩⟩ := by decide +kernel
  refine ⟨hmeets, r, hq, hp, ⟨_, hown, rfl, ?_⟩, _, hsec, rfl, ?_⟩
  · exact (hrel 0 r hq 0 _ hown rfl).2 _ _ hp hf ⟨nofun, nofun⟩
  · exact (hcon 0 r hq 1 _ hsec rfl ⟨nofun, nofun⟩ _ hp).resolve_right nofun

theorem second_dial_is_left :
    let s := after (.request [⟨"a", "a", "", true, .healthy⟩, ⟨"b", "b", "", true, .healthy⟩] "n" "s" "tcp" 2 ::
      ([.collect, .collect, .collect, .fire, .dialContext 0 .connection, .release 0, .check 0, .send 0,
        .dialContext 1 .connection, .release 1, .check 1, .send 1, .receive, .cancelAll, .cleanup] :
          List Event).map (.at 0))
    s.requests.map (fun r => r.progress) = [.returned (.connection 0)] ∧
      s.requests.map (fun r => r.board.slots[1]?) = [some ⟨.queued .connection, ⟨1, 0⟩⟩] := by
  decide +kernel

/-- A reservation is in the map exactly as long as somebody holds it, and none is left when all is done. -/
theorem half_open_never_leaks (ops : List Op) (key : String) :
    ((after ops).halfOpen.lookup key = some () ↔ ∃ x, Holds (after ops) x key) ∧
      ((∀ r ∈ (after ops).requests, (∃ result, r.progress = .returned result) ∧ ∀ e ∈ r.board.slots, PastRelease e) →
        (∀ l ∈ (after ops).listens, l.holding = false) → (after ops).halfOpen.lookup key = none) := by
  have hs := reserved_after ops
  refine ⟨hs.owned.taken_iff key, fun hdone hlist => ?_⟩
  by_contra htk
  obtain ⟨_, htk⟩ := Option.ne_none_iff_exists'.1 htk
  obtain ⟨x, hx⟩ := (hs.owned.taken_iff key).1 htk
  cases x with
  | listen p => cases hlist _ (mem_of_getElem? hx)
  | attempt q i =>
    obtain ⟨r, hq, attempt, hi, hres, hheld, -⟩ := hx
    obtain ⟨⟨result, hp⟩, hpast⟩ := hdone r (mem_of_getElem? hq)
    have ht := hs.tidy q r hq
    have hsize := ht.sized.of_not_collecting (by simp [hp])
    have he := getElem?_eq_getElem (hsize ▸ lt_of_some hi)
    have hrel := ht.releases i attempt _ hi he
    rw [hheld, hres, released_of_pastRelease hp (hpast _ (mem_of_getElem? he))] at hrel
    cases hrel

end SingBox.SmartConnections
