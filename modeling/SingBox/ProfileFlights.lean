import SingBox.Arena
import SingBox.ProfileProbes

namespace SingBox.ProfileFlights

open List Option Arena Maps Runs Values ProfileProbes

def holds : Phase → Option Nat
  | .admitted entry | .abandoned entry | .probing entry | .probed entry _ _ => some entry
  | _ => none

def finished : Phase → Bool
  | .settled .. | .returned _ => true
  | _ => false

def isProbing : Phase → Bool
  | .probing _ => true
  | _ => false

def InFlight (call : Call) : Prop := (holds call.phase).isSome = true

instance (call : Call) : Decidable (InFlight call) := inferInstanceAs (Decidable (_ = true))

def probesRunning (r : NodeProfileRegistry) : Nat := r.calls.countP fun call => isProbing call.phase

def Settled (r : NodeProfileRegistry) (entry : Nat) (maker : Nat) : Prop :=
  ∃ cell call answer, r.cells[entry]? = some cell ∧ cell.inflight = false ∧ r.calls[maker]? = some call ∧
    call.phase = .settled entry cell.result answer

/-- What the channel of a call stands for: while the call is in flight it is
open, and either the one of its entry or the one of its endpoint. A call that
has yet to get into the table has made none. -/
def Stands (r : NodeProfileRegistry) (c : Nat) (channel : Channel) (call : Call) : Prop :=
  match holds call.phase with
  | some entry =>
    channel.closes = 0 ∧
      (if channel.endpoint then call.endpointKey ≠ "" ∧ r.active.lookup call.endpointKey = some c
      else ∃ cell, r.cells[entry]? = some cell ∧ cell.done = some c)
  | none => channel.closes = 1 ∧ finished call.phase = true

structure Sound (r : NodeProfileRegistry) : Prop where
  held : ∀ i call entry, r.calls[i]? = some call → holds call.phase = some entry →
    ∃ cell c, r.cells[entry]? = some cell ∧ cell.inflight = true ∧ cell.done = some c ∧
      r.channels[c]? = some { maker := i, endpoint := false }
  tabled : ∀ (i : Nat) (call : Call) entry, r.calls[i]? = some call → holds call.phase = some entry →
    r.dropped ≤ entry → r.entries.lookup call.key = some entry
  owner : ∀ entry (cell : NodeProfileEntry), r.cells[entry]? = some cell → cell.inflight = true →
    ∃ (i : Nat) (call : Call), r.calls[i]? = some call ∧ holds call.phase = some entry
  claimed : ∀ (i : Nat) (call : Call), r.calls[i]? = some call → InFlight call → call.endpointKey ≠ "" →
    ∃ c, r.active.lookup call.endpointKey = some c ∧ r.channels[c]? = some { maker := i, endpoint := true }
  active : ∀ endpointKey c, r.active.lookup endpointKey = some c →
    ∃ (i : Nat) (call : Call), r.calls[i]? = some call ∧ InFlight call ∧ call.endpointKey = endpointKey ∧
      endpointKey ≠ "" ∧ r.channels[c]? = some { maker := i, endpoint := true }
  channel : ∀ c channel, r.channels[c]? = some channel →
    ∃ call, r.calls[channel.maker]? = some call ∧ Stands r c channel call
  waits : ∀ (i : Nat) (call : Call) entry c, r.calls[i]? = some call → call.phase = .joined entry c →
    ∃ channel, r.channels[c]? = some channel ∧
      ((∃ cell, r.cells[entry]? = some cell ∧ cell.inflight = true ∧ cell.done = some c) ∨
        Settled r entry channel.maker)
  reads : ∀ (i : Nat) (call : Call) entry, r.calls[i]? = some call → call.phase = .released entry →
    ∃ maker, Settled r entry maker
  running : r.slots = probesRunning r
  four : r.slots ≤ slotLimit
  calm : r.panicked = false
  alone : ∀ (i j : Nat) (a b : Call), r.calls[i]? = some a → r.calls[j]? = some b → InFlight a → InFlight b →
    a.key = b.key → i = j

theorem sound_new : Sound {} := by
  constructor <;> simp [probesRunning]

theorem inFlight_iff {call} : InFlight call ↔ ∃ entry, holds call.phase = some entry := isSome_iff_exists

variable {r : NodeProfileRegistry} {phase : Phase} {entry : Nat} {entries : GoMap String Nat}
  {r' : NodeProfileRegistry} {c : Nat} {channel : Channel} {key : String} {success : Bool}

def awaits : Phase → Option Nat
  | .joined entry _ | .released entry => some entry
  | _ => none

def Awaited (r : NodeProfileRegistry) (entry c : Nat) : Prop :=
  ∃ channel, r.channels[c]? = some channel ∧
    ((∃ cell, r.cells[entry]? = some cell ∧ cell.inflight = true ∧ cell.done = some c) ∨
      Settled r entry channel.maker)

theorem Stands.transfer {a} (h : Stands r c channel a)
    (hact : InFlight a → r'.active.lookup a.endpointKey = r.active.lookup a.endpointKey)
    (hcel : ∀ entry cell, holds a.phase = some entry → r.cells[entry]? = some cell →
      ∃ cell', r'.cells[entry]? = some cell' ∧ cell'.done = cell.done) : Stands r' c channel a := by
  rw [Stands] at h ⊢
  cases he : holds a.phase with
  | none =>
    rw [he] at h
    exact h
  | some entry =>
    rw [he] at h
    refine ⟨h.1, ?_⟩
    rw [hact (inFlight_iff.2 ⟨entry, he⟩)]
    split
    case isTrue hend => simpa [hend] using h.2
    case isFalse hend =>
    have hown := h.2
    rw [if_neg hend] at hown
    obtain ⟨cell, hc, hdone⟩ := hown
    obtain ⟨cell', hc', hdone'⟩ := hcel entry cell he hc
    exact ⟨cell', hc', hdone'.trans hdone⟩

/-- A step of one call: what the other calls hold or wait for stays, and what is new is its own. -/
structure Acts (r : NodeProfileRegistry) (i : Nat) (r' : NodeProfileRegistry) : Prop where
  going : ∀ call ∈ r.calls[i]?, finished call.phase = false
  others : ∀ j, i ≠ j → r'.calls[j]? = r.calls[j]?
  cells : ∀ (j : Nat) (call : Call) entry (cell : NodeProfileEntry), i ≠ j → r.calls[j]? = some call →
    r.cells[entry]? = some cell → holds call.phase = some entry ∨ awaits call.phase = some entry ∧
      cell.inflight = false →
      r'.cells[entry]? = some cell
  channels : ∀ (c : Nat) channel, r.channels[c]? = some channel → i ≠ channel.maker → r'.channels[c]? = some channel
  entries : ∀ (j : Nat) (call : Call) entry, i ≠ j → r.calls[j]? = some call → holds call.phase = some entry →
    r.entries.lookup call.key = some entry → r'.entries.lookup call.key = some entry
  claims : ∀ (j : Nat) (call : Call), i ≠ j → r.calls[j]? = some call → InFlight call →
    r'.active.lookup call.endpointKey = r.active.lookup call.endpointKey
  dropped : r'.dropped = r.dropped
  held : ∀ call entry, r'.calls[i]? = some call → holds call.phase = some entry →
    (∃ cell c, r'.cells[entry]? = some cell ∧ cell.inflight = true ∧ cell.done = some c ∧
      r'.channels[c]? = some { maker := i, endpoint := false }) ∧
    (r.dropped ≤ entry → r'.entries.lookup call.key = some entry) ∧
    (call.endpointKey ≠ "" → ∃ c, r'.active.lookup call.endpointKey = some c ∧
      r'.channels[c]? = some { maker := i, endpoint := true }) ∧
    ∀ (j : Nat) (b : Call), r.calls[j]? = some b → InFlight b → b.key = call.key → i = j
  owner : ∀ entry (cell : NodeProfileEntry), r'.cells[entry]? = some cell → cell.inflight = true →
    (∃ call, r'.calls[i]? = some call ∧ holds call.phase = some entry) ∨
      ∃ old, r.cells[entry]? = some old ∧ old.inflight = true ∧ ∀ call ∈ r.calls[i]?, holds call.phase ≠ some entry
  active : ∀ endpointKey c, r'.active.lookup endpointKey = some c →
    (∃ call, r'.calls[i]? = some call ∧ InFlight call ∧ call.endpointKey = endpointKey ∧ endpointKey ≠ "" ∧
      r'.channels[c]? = some { maker := i, endpoint := true }) ∨
    r.active.lookup endpointKey = some c ∧ ∀ call ∈ r.calls[i]?, InFlight call → call.endpointKey ≠ endpointKey
  channel : ∀ (c : Nat) channel, r'.channels[c]? = some channel → r.channels[c]? = some channel ∧ i ≠ channel.maker ∨
    ∃ call, r'.calls[channel.maker]? = some call ∧ Stands r' c channel call
  waits : ∀ call entry c, r'.calls[i]? = some call → call.phase = .joined entry c → Awaited r' entry c
  reads : ∀ call entry, r'.calls[i]? = some call → call.phase = .released entry → ∃ maker, Settled r' entry maker
  handed : ∀ call ∈ r.calls[i]?, ∀ entry cell c, holds call.phase = some entry → r.cells[entry]? = some cell →
    cell.done = some c → Awaited r' entry c
  running : r'.slots = probesRunning r'
  four : r'.slots ≤ slotLimit
  calm : r'.panicked = false

theorem Sound.acts {i} (h : Sound r) (hacts : Acts r i r') : Sound r' := by
  have hback {j} {a} (hj : r'.calls[j]? = some a) : j = i ∨ i ≠ j ∧ r.calls[j]? = some a := by
    by_cases hij : i = j
    · exact .inl hij.symm
    · exact .inr ⟨hij, hacts.others j hij ▸ hj⟩
  have hset {j entry maker} {a} (hij : i ≠ j) (hj : r.calls[j]? = some a)
      (hawaits : awaits a.phase = some entry) (hs : Settled r entry maker) : i ≠ maker ∧ Settled r' entry maker := by
    obtain ⟨cell, call, answer, hce, hdone, hca, hph⟩ := hs
    have hne : i ≠ maker := by
      rintro rfl
      have hgoing := hacts.going call hca
      rw [hph] at hgoing
      cases hgoing
    exact ⟨hne, cell, call, answer, hacts.cells j a entry cell hij hj hce (.inr ⟨hawaits, hdone⟩), hdone,
      (hacts.others maker hne).trans hca, hph⟩
  refine ⟨?_, ?_, ?_, ?_, ?_, ?_, ?_, ?_, hacts.running, hacts.four, hacts.calm, ?_⟩
  · intro j a entry hj he
    rcases hback hj with rfl | ⟨hij, hj⟩
    · exact (hacts.held a entry hj he).1
    · obtain ⟨cell, c, hce, hrun, hdone, hc⟩ := h.held j a entry hj he
      exact ⟨cell, c, hacts.cells j a entry cell hij hj hce (.inl he), hrun, hdone, hacts.channels c _ hc hij⟩
  · intro j a entry hj he hdrop
    rw [hacts.dropped] at hdrop
    rcases hback hj with rfl | ⟨hij, hj⟩
    · exact (hacts.held a entry hj he).2.1 hdrop
    · exact hacts.entries j a entry hij hj he (h.tabled j a entry hj he hdrop)
  · intro entry cell hce hrun
    rcases hacts.owner entry cell hce hrun with ⟨a, ha, he⟩ | ⟨old, hold, hrun, hnot⟩
    · exact ⟨i, a, ha, he⟩
    obtain ⟨j, a, ha, he⟩ := h.owner entry old hold hrun
    refine ⟨j, a, (hacts.others j ?_).trans ha, he⟩
    rintro rfl
    exact hnot a ha he
  · intro j a hj hfl hne
    rcases hback hj with rfl | ⟨hij, hj⟩
    · obtain ⟨entry, he⟩ := inFlight_iff.1 hfl
      exact (hacts.held a entry hj he).2.2.1 hne
    · obtain ⟨c, hlk, hc⟩ := h.claimed j a hj hfl hne
      exact ⟨c, (hacts.claims j a hij hj hfl).trans hlk, hacts.channels c _ hc hij⟩
  · intro endpointKey c hlk
    rcases hacts.active endpointKey c hlk with ⟨a, ha⟩ | ⟨hlk, hnot⟩
    · exact ⟨i, a, ha⟩
    obtain ⟨j, a, ha, hfl, hend, hne, hc⟩ := h.active endpointKey c hlk
    have hij : i ≠ j := by
      rintro rfl
      exact hnot a ha hfl hend
    exact ⟨j, a, (hacts.others j hij).trans ha, hfl, hend, hne, hacts.channels c _ hc hij⟩
  · intro c channel hc
    rcases hacts.channel c channel hc with ⟨hc, hij⟩ | hown
    · obtain ⟨a, ha, hst⟩ := h.channel c channel hc
      refine ⟨a, (hacts.others _ hij).trans ha, hst.transfer (hacts.claims _ a hij ha) ?_⟩
      exact fun entry cell he hce => ⟨cell, hacts.cells _ a entry cell hij ha hce (.inl he), rfl⟩
    · exact hown
  · intro j a entry c hj hph
    rcases hback hj with rfl | ⟨hij, hj⟩
    · exact hacts.waits a entry c hj hph
    obtain ⟨channel, hc, ⟨cell, hce, hrun, hdone⟩ | hs⟩ := h.waits j a entry c hj hph
    · obtain ⟨k, b, hk, he⟩ := h.owner entry cell hce hrun
      by_cases hik : i = k
      · exact hacts.handed b (hik ▸ hk) entry cell c he hce hdone
      obtain ⟨cell', d, hc', -, hd, hch⟩ := h.held k b entry hk he
      obtain rfl := mem_unique hce hc'
      obtain rfl := mem_unique hdone hd
      exact ⟨_, hacts.channels c _ hch hik,
        .inl ⟨cell, hacts.cells k b entry cell hik hk hce (.inl he), hrun, hdone⟩⟩
    · obtain ⟨hne, hs⟩ := hset hij hj (by rw [hph]; rfl) hs
      exact ⟨channel, hacts.channels c channel hc hne, .inr hs⟩
  · intro j a entry hj hph
    rcases hback hj with rfl | ⟨hij, hj⟩
    · exact hacts.reads a entry hj hph
    · obtain ⟨maker, hs⟩ := h.reads j a entry hj hph
      exact ⟨maker, (hset hij hj (by rw [hph]; rfl) hs).2⟩
  · intro j k a b hj hk ha hb hke
    rcases hback hj with rfl | ⟨hij, hj⟩
    · rcases hback hk with rfl | ⟨-, hk⟩
      · rfl
      · obtain ⟨entry, he⟩ := inFlight_iff.1 ha
        exact (hacts.held a entry hj he).2.2.2 k b hk hb hke.symm
    · rcases hback hk with rfl | ⟨-, hk⟩
      · obtain ⟨entry, he⟩ := inFlight_iff.1 hb
        exact absurd ((hacts.held b entry hk he).2.2.2 j a hj ha hke) hij
      · exact h.alone j k a b hj hk ha hb hke

/-- A call that had nothing to wait for and was not settled may be told to wait
or may go on, as long as it holds what it held. -/
structure Moves (r : NodeProfileRegistry) (old : Call) (phase : Phase) : Prop where
  holds : holds phase = holds old.phase
  going : finished old.phase = false
  waits : ∀ entry c, phase = .joined entry c → ∃ channel, r.channels[c]? = some channel ∧
    ((∃ cell, r.cells[entry]? = some cell ∧ cell.inflight = true ∧ cell.done = some c) ∨
      Settled r entry channel.maker)
  reads : ∀ entry, phase = .released entry → ∃ maker, Settled r entry maker

section

variable {i : Nat} {old : Call} (hold : r.calls[i]? = some old)

include hold

theorem Settled.setPhase {maker} (h : Settled r entry maker) (hgoing : finished old.phase = false) :
    Settled (setPhase r i phase) entry maker := by
  obtain ⟨cell, call, answer, hc, hdone, hca, hph⟩ := h
  refine ⟨cell, call, answer, hc, hdone, ?_, hph⟩
  refine (modify_ne ?_).trans hca
  rintro rfl
  obtain rfl := mem_unique hold hca
  rw [hph] at hgoing
  cases hgoing

theorem Sound.move (h : Sound r) (hmv : Moves r old phase) {slots}
    (hrun : slots = probesRunning (setPhase r i phase)) (hfour : slots ≤ slotLimit) :
    Sound { setPhase r i phase with slots := slots } := by
  have hself : (setPhase r i phase).calls[i]? = some { old with phase := phase } := modify_self hold
  refine h.acts (i := i) ⟨fun call hca => mem_unique hold hca ▸ hmv.going, fun j => modify_ne,
    fun _ _ _ _ _ _ hce _ => hce, fun _ _ hc _ => hc, fun _ _ _ _ _ _ hlk => hlk, fun _ _ _ _ _ => rfl, rfl,
    ?_, ?_, ?_, ?_, ?_, ?_, ?_, hrun, hfour, h.calm⟩
  · intro call entry hca he
    obtain rfl := mem_unique hself hca
    have he : holds old.phase = some entry := hmv.holds.symm.trans he
    have hfl : InFlight old := inFlight_iff.2 ⟨entry, he⟩
    exact ⟨h.held i old entry hold he, h.tabled i old entry hold he, h.claimed i old hold hfl,
      fun j b hj hb hk => h.alone i j old b hold hj hfl hb hk.symm⟩
  · intro entry cell hce hinf
    by_cases he : holds old.phase = some entry
    · exact .inl ⟨_, hself, hmv.holds.trans he⟩
    · exact .inr ⟨cell, hce, hinf, fun call hca => mem_unique hold hca ▸ he⟩
  · intro endpointKey c hlk
    by_cases hmine : InFlight old ∧ old.endpointKey = endpointKey
    · obtain ⟨hfl, rfl⟩ := hmine
      obtain ⟨-, -, -, -, -, hne, -⟩ := h.active _ c hlk
      obtain ⟨d, hlk', hd⟩ := h.claimed i old hold hfl hne
      obtain rfl := mem_unique hlk hlk'
      exact .inl ⟨_, hself, by rw [InFlight, hmv.holds]; exact hfl, rfl, hne, hd⟩
    · refine .inr ⟨hlk, fun call hca hfl hend => hmine ?_⟩
      obtain rfl := mem_unique hold hca
      exact ⟨hfl, hend⟩
  · intro c channel hc
    by_cases hij : i = channel.maker
    · obtain ⟨a, ha, hst⟩ := h.channel c channel hc
      rw [← hij] at ha ⊢
      obtain rfl := mem_unique hold ha
      refine .inr ⟨_, hself, ?_⟩
      rw [Stands] at hst ⊢
      rw [hmv.holds]
      cases he : holds old.phase with
      | some entry =>
        rw [he] at hst
        exact hst
      | none =>
        rw [he, hmv.going] at hst
        cases hst.2
    · exact .inl ⟨hc, hij⟩
  · intro call entry c hca hph
    obtain rfl := mem_unique hself hca
    obtain ⟨channel, hc, hstate⟩ := hmv.waits entry c hph
    exact ⟨channel, hc, hstate.imp id fun hs => hs.setPhase hold hmv.going⟩
  · intro call entry hca hph
    obtain rfl := mem_unique hself hca
    obtain ⟨maker, hs⟩ := hmv.reads entry hph
    exact ⟨maker, hs.setPhase hold hmv.going⟩
  · intro call hca entry cell c he hce hdone
    obtain ⟨cell', d, hc', hinf, hd, hc⟩ := h.held i call entry hca he
    obtain rfl := mem_unique hce hc'
    obtain rfl := mem_unique hdone hd
    exact ⟨_, hc, .inl ⟨cell, hce, hinf, hdone⟩⟩

theorem running_setPhase (phase) : probesRunning (setPhase r i phase) =
      probesRunning r - (if isProbing old.phase then 1 else 0) + if isProbing phase then 1 else 0 :=
  countP_modify _ hold

theorem Sound.goOn (h : Sound r) (hmv : Moves r old phase) (hidle : isProbing old.phase = false)
    (hidle' : isProbing phase = false) : Sound (setPhase r i phase) := by
  have hrun : r.slots = probesRunning (setPhase r i phase) := by
    rw [running_setPhase hold, hidle, hidle']
    simpa using h.running
  exact h.move hold hmv hrun h.four

theorem Sound.idles (h : Sound r) (hout : holds old.phase = none ∧ finished old.phase = false)
    (hidle : holds phase = none ∧ awaits phase = none) : Sound (setPhase r i phase) := by
  have hpb {phase} (hno : holds phase = none) : isProbing phase = false := by
    cases phase with
    | probing => cases hno
    | _ => rfl
  refine h.goOn hold ⟨hidle.1.trans hout.1.symm, hout.2, ?_, ?_⟩ (hpb hout.1) (hpb hidle.1)
  · rintro entry c rfl
    cases hidle.2
  · rintro entry rfl
    cases hidle.2

end

theorem Sound.maker_ne (h : Sound r) (hc : r.channels[c]? = some channel) : r.calls.length ≠ channel.maker := by
  obtain ⟨a, ha, -⟩ := h.channel c channel hc
  exact (lt_of_some ha).ne'

theorem Sound.call (h : Sound r) (new) (hstart : new.phase = .start) :
    Sound { r with calls := r.calls ++ [new] } := by
  refine h.acts (i := r.calls.length) ⟨by simp, fun j hij => by grind, fun _ _ _ _ _ _ hce _ => hce,
    fun _ _ hc _ => hc, fun _ _ _ _ _ _ hlk => hlk, fun _ _ _ _ _ => rfl, rfl, by grind [holds],
    fun _ cell hce hinf => .inr ⟨cell, hce, hinf, by simp⟩, fun _ _ hlk => .inr ⟨hlk, by simp⟩,
    fun c channel hc => .inl ⟨hc, h.maker_ne hc⟩, by grind, by grind, by simp, ?_, h.four, h.calm⟩
  rw [probesRunning, countP_append, countP_singleton, hstart]
  exact h.running

def Retains (r : NodeProfileRegistry) (entries : GoMap String Nat) : Prop :=
  ∀ key entry, r.entries.lookup key = some entry → inflight r entry = true → entries.lookup key = some entry

theorem inflight_of {cell} (h : r.cells[entry]? = some cell) : inflight r entry = cell.inflight := by
  rw [inflight, h]

theorem Sound.retabled (h : Sound r) (hret : Retains r entries) : Sound { r with entries := entries } := by
  refine { h with tabled := ?_ }
  intro i call entry hi he hdrop
  obtain ⟨cell, c, hc, hinf, -, -⟩ := h.held i call entry hi he
  apply hret call.key entry (h.tabled i call entry hi he hdrop)
  rw [inflight_of hc, hinf]

theorem Retains.erase (h : Retains r entries) (hlk : entries.lookup key = some entry)
    (hout : inflight r entry = false) : Retains r (entries.erase key) := by
  intro key' entry' hlk' hinf
  rw [lookup_del]
  split
  case isTrue heq =>
    have hsame := h key' entry' hlk' hinf
    rw [heq, hlk] at hsame
    obtain rfl := some.inj hsame
    rw [hout] at hinf
    cases hinf
  case isFalse => exact h key' entry' hlk' hinf

theorem Retains.pruneOld (h : Retains r entries) (now key) : Retains r (pruneOld r now entries key) := by
  rw [ProfileProbes.pruneOld]
  split
  case h_1 entry hlk =>
    split
    case isTrue hold =>
      rw [Bool.and_eq_true, Bool.not_eq_true'] at hold
      exact h.erase hlk hold.1
    case isFalse => exact h
  case h_2 => exact h

def Evictable (r : NodeProfileRegistry) (entries : GoMap String Nat) (key : String) : Prop :=
  key = "" ∨ ∃ entry, entries.lookup key = some entry ∧ inflight r entry = false

theorem Evictable.olderKey {oldest} (h : Evictable r entries oldest.1) (key) :
    Evictable r entries (olderKey r entries oldest key).1 := by
  rw [ProfileProbes.olderKey]
  cases hlk : entries.lookup key with
  | none => exact h
  | some entry =>
    dsimp only
    split
    · exact h
    case isFalse hout =>
    split
    · exact .inr ⟨entry, hlk, by simpa using hout⟩
    · exact h

theorem evictable_oldestKey (r entries order) : Evictable r entries (oldestKey r entries order) := by
  exact run_invariant (I := fun oldest : String × Time => Evictable r entries oldest.1) (fun _ key h => h.olderKey key) (.inl rfl) _

theorem Retains.evict (orders n) (h : Retains r entries) : Retains r (evict r orders n entries) := by
  induction n generalizing entries with
  | zero => exact h
  | succ n ih =>
    rw [ProfileProbes.evict]
    split
    · exact h
    split
    case isTrue => exact h
    case isFalse hk =>
      obtain ⟨entry, hlk, hout⟩ := (evictable_oldestKey r entries (orders n)).resolve_left hk
      exact ih (h.erase hlk hout)

theorem pruneLocked_spec (r now order orders) :
    ∃ entries, pruneLocked r now order orders = { r with entries := entries } ∧ Retains r entries := by
  refine ⟨_, rfl, .evict orders _ ?_⟩
  exact run_invariant (I := Retains r) (fun _ key h => h.pruneOld now key) (fun _ _ h _ => h) _

theorem Sound.grow (h : Sound r) : Sound { r with cells := r.cells ++ [({} : NodeProfileEntry)] } := by
  refine h.acts (i := r.calls.length) ⟨by simp, fun _ _ => rfl, fun _ _ _ _ _ _ hce _ => append_of hce,
    fun _ _ hc _ => hc, fun _ _ _ _ _ _ hlk => hlk, fun _ _ _ _ _ => rfl, rfl, by simp, ?_,
    fun _ _ hlk => .inr ⟨hlk, by simp⟩, fun c channel hc => .inl ⟨hc, h.maker_ne hc⟩, by simp, by simp, by simp,
    h.running, h.four, h.calm⟩
  intro entry cell hce hinf
  rcases of_append hce with hce | ⟨rfl, rfl⟩
  · exact .inr ⟨cell, hce, hinf, by simp⟩
  · cases hinf

def Unread (r : NodeProfileRegistry) (entry : Nat) : Prop := ∀ call ∈ r.calls, awaits call.phase ≠ some entry

instance (r : NodeProfileRegistry) (entry : Nat) : Decidable (Unread r entry) :=
  inferInstanceAs (Decidable (∀ call ∈ r.calls, awaits call.phase ≠ some entry))

theorem Sound.rewrite (h : Sound r) (hout : inflight r entry = false) (hunr : Unread r entry)
    (result : NodeProfileEntry → NodeProfileResult) :
    Sound { r with cells := r.cells.modify entry fun cell => { cell with result := result cell } } := by
  refine h.acts (i := r.calls.length) ⟨by simp, fun _ _ => rfl, ?_, fun _ _ hc _ => hc,
    fun _ _ _ _ _ _ hlk => hlk, fun _ _ _ _ _ => rfl, rfl, by simp, ?_,
    fun _ _ hlk => .inr ⟨hlk, by simp⟩, fun c channel hc => .inl ⟨hc, h.maker_ne hc⟩, by simp, by simp, by simp,
    h.running, h.four, h.calm⟩
  · intro j call e cell _ hj hce hst
    refine (modify_ne ?_).trans hce
    rintro rfl
    rcases hst with he | ⟨hawaits, -⟩
    · obtain ⟨cell', c, hc', hrun, -⟩ := h.held j call entry hj he
      rw [inflight_of hc', hrun] at hout
      cases hout
    · exact hunr call (mem_of_getElem? hj) hawaits
  · intro e cell hce hrun
    obtain ⟨old, hold, rfl⟩ := of_modify hce
    refine .inr ⟨old, hold, ?_, by simp⟩
    split at hrun <;> exact hrun

theorem Sound.unread_new (h : Sound r) : Unread r r.cells.length := by
  intro call hc hawaits
  obtain ⟨i, hi⟩ := getElem?_of_mem hc
  cases hph : call.phase with
  | joined entry c =>
    rw [hph] at hawaits
    obtain rfl := some.inj hawaits
    obtain ⟨channel, -, ⟨cell, hce, -⟩ | ⟨cell, -, -, hce, -⟩⟩ := h.waits i call _ c hi hph
    all_goals exact Nat.lt_irrefl _ (lt_of_some hce)
  | released entry =>
    rw [hph] at hawaits
    obtain rfl := some.inj hawaits
    obtain ⟨maker, cell, -, -, hce, -⟩ := h.reads i call _ hi hph
    exact Nat.lt_irrefl _ (lt_of_some hce)
  | _ =>
    rw [hph] at hawaits
    cases hawaits

/-- The result of a finished probe is not overwritten before its waiters have read it. -/
def LeavesResult (r : NodeProfileRegistry) (key : String) (success : Bool) : Prop :=
  success = false → ∀ entry ∈ r.entries.lookup key, inflight r entry = false → Unread r entry

instance (r : NodeProfileRegistry) (key : String) (success : Bool) : Decidable (LeavesResult r key success) :=
  inferInstanceAs (Decidable (success = false → ∀ entry ∈ r.entries.lookup key, inflight r entry = false →
    Unread r entry))

theorem Sound.passive (h : Sound r) (hlk : r.entries.lookup key = some entry)
    (hunr : success = false → inflight r entry = false → Unread r entry) (failureTTL : Duration) (now : Time)
    (order : RangeOrder String) (orders : Nat → RangeOrder String) : Sound (if inflight r entry then r
      else if success then { r with entries := r.entries.erase key }
      else pruneLocked
        { r with
          cells := r.cells.modify entry fun cell =>
            { cell with
              result :=
                { completedAt := now, nextProbeAt := now + failureTTL
                  failures := min (cell.result.failures + 1) 3 } } }
        now order orders) := by
  split
  case isTrue => exact h
  case isFalse hout =>
  rw [Bool.not_eq_true] at hout
  split
  case isTrue => exact h.retabled (.erase (fun _ _ h _ => h) hlk hout)
  case isFalse hfail =>
  rw [Bool.not_eq_true] at hfail
  obtain ⟨entries, heq, hret⟩ := pruneLocked_spec
    { r with
      cells := r.cells.modify entry fun cell =>
        { cell with
          result :=
            { completedAt := now, nextProbeAt := now + failureTTL
              failures := min _ 3 } } }
    now order orders
  rw [heq]
  exact (h.rewrite hout (hunr hfail hout) _).retabled hret

theorem Sound.recordPassive (h : Sound r) (hlv : LeavesResult r key success) (failureTTL now order orders) :
    Sound (recordPassive r key success failureTTL now order orders) := by
  rw [ProfileProbes.recordPassive]
  split
  case isTrue => exact h
  case isFalse =>
  cases hlk : r.entries.lookup key with
  | some entry =>
    exact h.passive hlk (fun hfail hout => hlv hfail entry hlk hout) _ now order orders
  | none =>
    have hgrown : Sound
        { r with
          entries := r.entries.insert key r.cells.length
          cells := r.cells ++ [({} : NodeProfileEntry)] } := by
      refine h.grow.retabled ?_
      intro key' entry' hlk' _
      rw [lookup_set]
      split
      case isTrue heq =>
        rw [heq] at hlk'
        exact absurd (hlk.symm.trans hlk') (by simp)
      case isFalse => exact hlk'
    refine hgrown.passive ?_ (fun _ _ => h.unread_new) _ now order orders
    rw [lookup_set, if_pos rfl]

end SingBox.ProfileFlights
