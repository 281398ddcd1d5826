import SingBox.ProfileFlights

namespace SingBox.ProfileFlights

open List Option Arena Maps Runs Values ProfileProbes

theorem holds_of_finished {phase} (h : finished phase = true) : holds phase = none := by
  cases phase with
  | settled | returned => rfl
  | _ => cases h

variable {r : NodeProfileRegistry} {i : Nat} {call : Call} {r' : NodeProfileRegistry} {entry c : Nat}
  {channel : Channel} {entries : GoMap String Nat}

theorem Sound.spent (h : Sound r) (hca : r.calls[i]? = some call) (hfin : finished call.phase = true) {active}
    (hact : ∀ key, active.lookup key = r.active.lookup key) : Sound
      { r with
        channels := r.channels ++ [{ maker := i, endpoint := true, closes := 1 }]
        active := active } := by
  refine h.acts (i := r.calls.length) ⟨by simp, fun _ _ => rfl, fun _ _ _ _ _ _ hce _ => hce,
    fun _ _ hc _ => append_of hc, fun _ _ _ _ _ _ hlk => hlk, fun _ _ _ _ _ => hact _, rfl, by simp,
    fun _ cell hce hrun => .inr ⟨cell, hce, hrun, by simp⟩,
    fun key _ hlk => .inr ⟨hact key ▸ hlk, by simp⟩, ?_, by simp, by simp, by simp, h.running, h.four, h.calm⟩
  intro c channel hc
  rcases of_append hc with hc | ⟨rfl, rfl⟩
  · exact .inl ⟨hc, h.maker_ne hc⟩
  · refine .inr ⟨call, hca, ?_⟩
    rw [Stands, holds_of_finished hfin]
    exact ⟨rfl, hfin⟩

structure Admits (r : NodeProfileRegistry) (i : Nat) (call : Call) (done : Nat) (r' : NodeProfileRegistry) : Prop where
  calls : r'.calls = (setPhase r i (.admitted r.cells.length)).calls
  cells : r'.cells = r.cells ++ [{ inflight := true, done := some done }]
  tabled : r'.entries.lookup call.key = some r.cells.length
  entries : ∀ key entry, key ≠ call.key → r.entries.lookup key = some entry → inflight r entry = true →
    r'.entries.lookup key = some entry
  channels : ∀ (c : Nat) channel, r.channels[c]? = some channel → r'.channels[c]? = some channel
  own : r'.channels[done]? = some { maker := i, endpoint := false }
  claims : call.endpointKey ≠ "" → ∃ c, r'.active.lookup call.endpointKey = some c ∧
    r'.channels[c]? = some { maker := i, endpoint := true }
  made : ∀ (c : Nat) channel, r'.channels[c]? = some channel → r.channels[c]? = some channel ∨
    (c = done ∧ channel = { maker := i, endpoint := false }) ∨
    (channel = { maker := i, endpoint := true } ∧ call.endpointKey ≠ "" ∧
      r'.active.lookup call.endpointKey = some c)
  active : ∀ key, (key = call.endpointKey → key = "") → r'.active.lookup key = r.active.lookup key
  slots : r'.slots = r.slots
  dropped : r'.dropped = r.dropped
  panicked : r'.panicked = r.panicked

theorem Sound.admits (h : Sound r) {done} (hca : r.calls[i]? = some call) (hchk : call.phase = .checked)
    (hidle : call.endpointKey ≠ "" → r.active.lookup call.endpointKey = none)
    (hf : ∀ (j : Nat) (b : Call), r.calls[j]? = some b → InFlight b → b.key ≠ call.key)
    (hadm : Admits r i call done r') : Sound r' := by
  have hself : r'.calls[i]? = some { call with phase := .admitted r.cells.length } := by
    rw [hadm.calls]
    exact modify_self hca
  have hnew : r'.cells[r.cells.length]? = some { inflight := true, done := some done } := by
    rw [hadm.cells, getElem?_concat_length]
  -- The call has held nothing before.
  have hbef : ∀ a ∈ r.calls[i]?, holds a.phase = none := by
    intro a ha
    rw [mem_unique ha hca, hchk]
    rfl
  refine h.acts (i := i) ⟨?_, fun j hij => ?_, fun _ _ _ _ _ _ hce _ => ?_, fun c channel hc _ => hadm.channels c channel hc,
    ?_, ?_, hadm.dropped, ?_, ?_, ?_, ?_, ?_, ?_, ?_, ?_, hadm.slots ▸ h.four, hadm.panicked ▸ h.calm⟩
  · intro a ha
    rw [mem_unique ha hca, hchk]
    rfl
  · rw [hadm.calls]
    exact modify_ne hij
  · rw [hadm.cells]
    exact append_of hce
  · intro j a e _ hj he hlk
    refine hadm.entries _ _ (hf j a hj (inFlight_iff.2 ⟨e, he⟩)) hlk ?_
    obtain ⟨cell, c, hce, hrun, -⟩ := h.held j a e hj he
    rw [inflight_of hce, hrun]
  · -- Nobody else in flight has this endpoint.
    intro j a _ hj hfl
    apply hadm.active
    intro heq
    by_contra hne
    obtain ⟨c, hlk, -⟩ := h.claimed j a hj hfl hne
    rw [heq] at hne hlk
    rw [hidle hne] at hlk
    cases hlk
  · intro a e ha he
    obtain rfl := mem_unique hself ha
    obtain rfl := some.inj he
    exact ⟨⟨_, done, hnew, rfl, rfl, hadm.own⟩, fun _ => hadm.tabled, hadm.claims,
      fun j b hj hb hk => absurd hk (hf j b hj hb)⟩
  · intro e cell hce hrun
    rw [hadm.cells] at hce
    rcases of_append hce with hce | ⟨rfl, rfl⟩
    · exact .inr ⟨cell, hce, hrun, fun a ha => by simp [hbef a ha]⟩
    · exact .inl ⟨_, hself, rfl⟩
  · intro endpointKey c hlk
    by_cases hmine : endpointKey = call.endpointKey ∧ endpointKey ≠ ""
    · obtain ⟨rfl, hne⟩ := hmine
      obtain ⟨c', hlk', hc'⟩ := hadm.claims hne
      obtain rfl := mem_unique hlk hlk'
      exact .inl ⟨_, hself, rfl, rfl, hne, hc'⟩
    · rw [hadm.active endpointKey fun heq => by_contra fun hne => hmine ⟨heq, hne⟩] at hlk
      exact .inr ⟨hlk, fun a ha hfl => by simp [InFlight, hbef a ha] at hfl⟩
  · intro c channel hc
    rcases hadm.made c channel hc with hc | ⟨rfl, rfl⟩ | ⟨rfl, hne, hlk⟩
    · refine .inl ⟨hc, ?_⟩
      rintro rfl
      -- This call has made no channel before.
      obtain ⟨a, ha, hst⟩ := h.channel c channel hc
      obtain rfl := mem_unique hca ha
      rw [Stands, hchk] at hst
      cases hst.2
    · exact .inr ⟨_, hself, rfl, _, hnew, rfl⟩
    · exact .inr ⟨_, hself, rfl, hne, hlk⟩
  · grind
  · grind
  · intro a ha e cell c he
    rw [hbef a ha] at he
    cases he
  · have hcnt := running_setPhase hca (.admitted r.cells.length)
    rw [hchk] at hcnt
    rw [hadm.slots, probesRunning, hadm.calls]
    exact h.running.trans hcnt.symm

structure Settles (r : NodeProfileRegistry) (i : Nat) (call : Call) (entry : Nat) (result : NodeProfileResult)
    (answer : Answer) (r' : NodeProfileRegistry) : Prop where
  calls : r'.calls = (setPhase r i (.settled entry result answer)).calls
  cells : ∃ cell, r.cells[entry]? = some cell ∧
    r'.cells = r.cells.set entry { cell with result := result, inflight := false, done := none }
  entries : r'.entries = r.entries
  mine : ∀ (c : Nat) channel, r.channels[c]? = some channel → channel.maker = i → channel.closes = 0 →
    r'.channels[c]? = some { channel with closes := 1 }
  others : ∀ (c : Nat) channel, r.channels[c]? = some channel → channel.maker ≠ i → r'.channels[c]? = some channel
  same : ∀ (c : Nat) channel, r'.channels[c]? = some channel → ∃ old, r.channels[c]? = some old
  active : ∀ key, (key = call.endpointKey → key = "") → r'.active.lookup key = r.active.lookup key
  dropsEndpoint : call.endpointKey ≠ "" → r'.active.lookup call.endpointKey = none
  slots : r'.slots = r.slots
  dropped : r'.dropped = r.dropped
  panicked : r'.panicked = r.panicked

theorem Sound.oneEndpoint (h : Sound r) {j a b} (hi : r.calls[i]? = some a) (hj : r.calls[j]? = some b)
    (ha : InFlight a) (hb : InFlight b) (heq : a.endpointKey = b.endpointKey) (hne : a.endpointKey ≠ "") : i = j := by
  obtain ⟨c, hlk, hc⟩ := h.claimed i a hi ha hne
  obtain ⟨d, hlk', hd⟩ := h.claimed j b hj hb (heq ▸ hne)
  rw [heq, hlk'] at hlk
  obtain rfl := some.inj hlk
  rw [hc] at hd
  injection hd with hd
  injection hd

theorem Sound.settles (h : Sound r) {result answer} (hca : r.calls[i]? = some call)
    (hh : holds call.phase = some entry) (hidle : isProbing call.phase = false)
    (hset : Settles r i call entry result answer r') : Sound r' := by
  obtain ⟨cell, hce, hcel⟩ := hset.cells
  obtain ⟨cell', c, hce', hrunn, hdone, hc⟩ := h.held i call entry hca hh
  obtain rfl := mem_unique hce hce'
  have hflig : InFlight call := inFlight_iff.2 ⟨entry, hh⟩
  have hself : r'.calls[i]? = some { call with phase := .settled entry result answer } := by
    rw [hset.calls]
    exact modify_self hca
  have hnew : r'.cells[entry]? = some { cell with result := result, inflight := false, done := none } := by
    rw [hcel, getElem?_set_self (lt_of_some hce)]
  -- The channels of this call are open.
  have hopen {d : Nat} {channel} (hd : r.channels[d]? = some channel) (hmak : channel.maker = i) :
      r'.channels[d]? = some { channel with closes := 1 } := by
    obtain ⟨a, ha, hst⟩ := h.channel d channel hd
    rw [hmak] at ha
    obtain rfl := mem_unique hca ha
    rw [Stands, hh] at hst
    exact hset.mine d channel hd hmak hst.1
  refine h.acts (i := i) ⟨?_, fun j hij => ?_, ?_, fun d channel hd hij => hset.others d channel hd hij.symm,
    fun _ _ _ _ _ _ hlk => hset.entries ▸ hlk, ?_, hset.dropped, ?_, ?_, ?_, ?_, ?_, ?_, ?_, ?_,
    hset.slots ▸ h.four, hset.panicked ▸ h.calm⟩
  · intro a ha
    cases hph : call.phase <;> simp_all [holds, finished]
  · rw [hset.calls]
    exact modify_ne hij
  · intro j a e b hij hj hb hstate
    rw [hcel, getElem?_set_ne]
    · exact hb
    rintro rfl
    obtain rfl := mem_unique hce hb
    rcases hstate with he | ⟨-, hout⟩
    · -- No other call holds this entry.
      obtain ⟨cell', c', hce', -, hdone', hc'⟩ := h.held j a entry hj he
      obtain rfl := mem_unique hce hce'
      obtain rfl := mem_unique hdone hdone'
      rw [hc] at hc'
      injection hc' with hc'
      injection hc' with hmak
      exact hij hmak
    · rw [hrunn] at hout
      cases hout
  · intro j a hij hj hfl
    apply hset.active
    intro heq
    by_contra hne
    exact hij (h.oneEndpoint hj hca hfl hflig heq hne).symm
  · grind [holds]
  · intro e b hb hrun
    by_cases hne : entry = e
    · subst hne
      obtain rfl := mem_unique hnew hb
      cases hrun
    · rw [hcel, getElem?_set_ne hne] at hb
      refine .inr ⟨b, hb, hrun, fun a ha he => hne ?_⟩
      obtain rfl := mem_unique hca ha
      exact mem_unique hh he
  · intro endpointKey d hlk
    by_cases hmine : endpointKey = call.endpointKey ∧ endpointKey ≠ ""
    · obtain ⟨rfl, hne⟩ := hmine
      rw [hset.dropsEndpoint hne] at hlk
      cases hlk
    · rw [hset.active endpointKey fun heq => by_contra fun hne => hmine ⟨heq, hne⟩] at hlk
      refine .inr ⟨hlk, fun a ha _ hend => hmine ?_⟩
      obtain rfl := mem_unique hca ha
      obtain ⟨-, -, -, -, -, hne, -⟩ := h.active endpointKey d hlk
      exact ⟨hend.symm, hne⟩
  · intro d channel hd
    obtain ⟨old, hold⟩ := hset.same d channel hd
    by_cases hij : i = old.maker
    · rw [hopen hold hij.symm] at hd
      obtain rfl := some.inj hd
      rw [← hij]
      exact .inr ⟨_, hself, rfl, rfl⟩
    · rw [hset.others d old hold fun hji => hij hji.symm] at hd
      obtain rfl := some.inj hd
      exact .inl ⟨hold, hij⟩
  · grind
  · grind
  · intro a ha e b d he hb hbdone
    obtain rfl := mem_unique hca ha
    obtain rfl := mem_unique hh he
    obtain rfl := mem_unique hce hb
    obtain rfl := mem_unique hdone hbdone
    exact ⟨_, hopen hc rfl, .inr ⟨_, _, answer, hnew, rfl, hself, rfl⟩⟩
  · have hcnt := running_setPhase hca (.settled entry result answer)
    rw [hidle] at hcnt
    rw [hset.slots, probesRunning, hset.calls]
    exact h.running.trans hcnt.symm

theorem joinedPhase_idle (call result) :
    joinedPhase call result = .start ∨ ∃ answer, joinedPhase call result = .returned answer := by
  rw [joinedPhase]
  split
  · exact .inr ⟨_, rfl⟩
  split
  · exact .inr ⟨_, rfl⟩
  split
  · exact .inl rfl
  · exact .inr ⟨_, rfl⟩

def closeOne (channel : Channel) : Channel := { channel with closes := channel.closes + 1 }

theorem channels_twice {channels : List Channel} {d e} (hc : channels[c]? = some { maker := i, endpoint := false })
    (hd : channels[d]? = some { maker := i, endpoint := true }) (he : channels[e]? = some channel) :
    ((channels.modify c closeOne).modify d closeOne)[e]? =
      some (if c = e ∨ d = e then closeOne channel else channel) := by
  have hne : c ≠ d := by
    rintro rfl
    rw [hc] at hd
    cases hd
  by_cases hce : c = e
  · subst hce
    rw [modify_ne fun hdc => hne hdc.symm, modify_self he, if_pos (.inl rfl)]
  have hmid : (channels.modify c closeOne)[e]? = some channel := (modify_ne hce).trans he
  by_cases hde : d = e
  · subst hde
    rw [modify_self hmid, if_pos (.inr rfl)]
  · rw [modify_ne hde, hmid, if_neg (by simp [hce, hde])]

section

variable (h : Sound r)

include h

theorem Sound.closeClear : Sound (closeClear r) := by
  rw [ProfileProbes.closeClear]
  split
  case isFalse => exact h
  case isTrue =>
  refine { h with tabled := ?_ }
  intro i call entry hi he hdrop
  obtain ⟨cell, c, hc, -⟩ := h.held i call entry hi he
  exact absurd (lt_of_some hc) (Nat.not_lt.2 hdrop)

theorem Sound.closeStart : Sound (closeStart r) := by
  rw [ProfileProbes.closeStart]
  split
  · exact h
  · exact { h with }

theorem Sound.check (i) : Sound (check r i) := by
  rw [ProfileProbes.check]
  split
  case h_1 key endpointKey force retry hc =>
    split <;> exact h.idles hc ⟨rfl, rfl⟩ ⟨rfl, rfl⟩
  case h_2 => exact h

theorem Sound.closes (hc : r.channels[c]? = some channel) :
    ∃ call, r.calls[channel.maker]? = some call ∧ channel.closes = if InFlight call then 0 else 1 := by
  obtain ⟨call, hca, hst⟩ := h.channel c channel hc
  refine ⟨call, hca, ?_⟩
  rw [Stands] at hst
  cases he : holds call.phase with
  | none =>
    rw [he] at hst
    rw [if_neg (by simp [InFlight, he])]
    exact hst.1
  | some entry =>
    rw [he] at hst
    rw [if_pos (inFlight_iff.2 ⟨entry, he⟩)]
    exact hst.1

theorem Sound.waiter (hca : r.calls[i]? = some call) (hph : call.phase = .joined entry c) :
    ∃ channel, r.channels[c]? = some channel ∧
      (channel.closes = 0 ∧ (∃ owner, r.calls[channel.maker]? = some owner ∧ holds owner.phase = some entry) ∨
        channel.closes = 1 ∧ Settled r entry channel.maker) := by
  obtain ⟨channel, hc, ⟨cell, hce, hrun, hdone⟩ | hs⟩ := h.waits i call entry c hca hph
  · obtain ⟨j, a, ha, he⟩ := h.owner entry cell hce hrun
    obtain ⟨cell', d, hc', -, hd, hch⟩ := h.held j a entry ha he
    obtain rfl := mem_unique hce hc'
    obtain rfl := mem_unique hdone hd
    exact ⟨_, hch, .inl ⟨rfl, a, ha, he⟩⟩
  · refine ⟨channel, hc, .inr ⟨?_, hs⟩⟩
    obtain ⟨owner, hown, hclos⟩ := h.closes hc
    obtain ⟨cell, a, answer, -, -, ha, hset⟩ := hs
    obtain rfl := mem_unique hown ha
    rw [hclos, if_neg (by simp [InFlight, hset, holds])]

theorem Sound.settled_of_closed (hca : r.calls[i]? = some call) (hph : call.phase = .joined entry c)
    (hcl : closed r c = true) : ∃ maker, Settled r entry maker := by
  obtain ⟨channel, hc, ⟨hopen, -⟩ | ⟨-, hs⟩⟩ := h.waiter hca hph
  · rw [closed, hc] at hcl
    simp [hopen] at hcl
  · exact ⟨_, hs⟩

theorem Sound.wake (i) : Sound (wake r i) := by
  rw [ProfileProbes.wake]
  split
  case h_1 key endpointKey force retry entry c hc =>
    split
    case isTrue hcl =>
      refine h.goOn hc ⟨rfl, rfl, by simp, ?_⟩ rfl rfl
      rintro e heq
      obtain rfl := Phase.released.inj heq
      exact h.settled_of_closed hc rfl hcl
    case isFalse => exact h
  case h_2 key endpointKey force retry c hc =>
    split
    · exact h.idles hc ⟨rfl, rfl⟩ ⟨rfl, rfl⟩
    · exact h
  case h_3 => exact h

theorem Sound.leave (i) : Sound (leave r i) := by
  rw [ProfileProbes.leave]
  split
  · exact h
  split
  case h_1 hc => exact h.idles hc ⟨rfl, rfl⟩ ⟨rfl, rfl⟩
  case h_2 hc => exact h.idles hc ⟨rfl, rfl⟩ ⟨rfl, rfl⟩
  case h_3 hc => exact h.goOn hc ⟨rfl, rfl, by simp, by simp⟩ rfl rfl
  case h_4 => exact h

theorem Sound.read (i) : Sound (read r i) := by
  rw [ProfileProbes.read]
  split
  case h_1 => exact h
  case h_2 call hc =>
  split
  case h_1 entry hph =>
    split
    case h_1 cell hce =>
      rcases joinedPhase_idle call cell.result with heq | ⟨answer, heq⟩
      all_goals
        rw [heq]
        exact h.idles hc (by rw [hph]; exact ⟨rfl, rfl⟩) ⟨rfl, rfl⟩
    case h_2 => exact h
  case h_2 => exact h

theorem Sound.takeSlot (i) : Sound (takeSlot r i) := by
  rw [ProfileProbes.takeSlot]
  split
  case h_1 key endpointKey force retry entry hc =>
    split
    case isTrue hf =>
      refine h.move hc (?_ : Moves r _ (.probing entry)) ?_ hf
      · exact ⟨rfl, rfl, by simp, by simp⟩
      · rw [running_setPhase hc, ← h.running]
        rfl
    case isFalse => exact h
  case h_2 => exact h

theorem Sound.probe (i delay ok) : Sound (probe r i delay ok) := by
  rw [ProfileProbes.probe]
  split
  case h_1 key endpointKey force retry entry hc =>
    refine h.move hc (?_ : Moves r _ (.probed entry delay ok)) ?_ (Nat.le_trans (Nat.sub_le ..) h.four)
    · exact ⟨rfl, rfl, by simp, by simp⟩
    · rw [running_setPhase hc, ← h.running]
      rfl
  case h_2 => exact h

theorem Sound.settles_settle (hca : r.calls[i]? = some call) (hh : holds call.phase = some entry)
    (result answer) : Settles r i call entry result answer (settle r i call.endpointKey entry result answer) := by
  obtain ⟨cell, c, hce, hrun, hdone, hc⟩ := h.held i call entry hca hh
  -- A channel of this call is that of the entry or that of the endpoint.
  have hmine (e) (channel : Channel) (he : r.channels[e]? = some channel) (hmak : channel.maker = i) :
      channel.closes = 0 ∧ (c = e ∨ call.endpointKey ≠ "" ∧ r.active.lookup call.endpointKey = some e) := by
    obtain ⟨a, ha, hst⟩ := h.channel e channel he
    rw [hmak, hca] at ha
    obtain rfl := some.inj ha
    rw [Stands, hh] at hst
    refine ⟨hst.1, ?_⟩
    have hk := hst.2
    split at hk
    case isTrue => exact .inr hk
    case isFalse =>
    obtain ⟨cell', hc', hdone'⟩ := hk
    obtain rfl := mem_unique hce hc'
    rw [hdone] at hdone'
    exact .inl (some.inj hdone')
  rw [settle, hce]
  dsimp only
  rw [hdone, closeChannel, dropEndpoint]
  by_cases hend : call.endpointKey = ""
  · rw [if_pos hend]
    refine ⟨rfl, ⟨cell, hce, rfl⟩, rfl, ?_, ?_, ?_, fun _ _ => rfl, absurd hend, rfl, rfl, rfl⟩
    · intro e channel he hmak hopen
      obtain ⟨-, rfl | ⟨hne, -⟩⟩ := hmine e channel he hmak
      · refine (modify_self he).trans ?_
        rw [hopen]
      · exact absurd hend hne
    · intro e channel he hmak
      refine (modify_ne ?_).trans he
      rintro rfl
      obtain rfl := mem_unique hc he
      exact hmak rfl
    · intro e channel he
      obtain ⟨old, hold, -⟩ := of_modify he
      exact ⟨old, hold⟩
  · rw [if_neg hend]
    obtain ⟨d, hlk, hd⟩ := h.claimed i call hca (inFlight_iff.2 ⟨entry, hh⟩) hend
    rw [hlk]
    refine ⟨rfl, ⟨cell, hce, rfl⟩, rfl, ?_, ?_, ?_, ?_, ?_, rfl, rfl, rfl⟩
    · intro e channel he hmak hopen
      refine (channels_twice hc hd he).trans ?_
      obtain ⟨-, rfl | ⟨-, hact⟩⟩ := hmine e channel he hmak
      · rw [if_pos (.inl rfl), closeOne, hopen]
      · rw [hlk] at hact
        rw [if_pos (.inr (some.inj hact)), closeOne, hopen]
    · intro e channel he hmak
      refine (channels_twice hc hd he).trans ?_
      rw [if_neg]
      rintro (rfl | rfl)
      · obtain rfl := mem_unique hc he
        exact hmak rfl
      · obtain rfl := mem_unique hd he
        exact hmak rfl
    · intro e channel he
      obtain ⟨mid, hmid, -⟩ := of_modify he
      obtain ⟨old, hold, -⟩ := of_modify hmid
      exact ⟨old, hold⟩
    · intro key hke
      refine (lookup_del ..).trans (if_neg ?_)
      rintro rfl
      exact hend (hke rfl)
    · exact fun _ => (lookup_del ..).trans (if_pos rfl)

theorem Sound.abandon (i completedAt nextProbeAt) : Sound (abandon r i completedAt nextProbeAt) := by
  rw [ProfileProbes.abandon]
  split
  case h_1 key endpointKey force retry entry hc =>
    exact h.settles hc rfl rfl (h.settles_settle hc rfl ..)
  case h_2 => exact h

theorem Sound.finish (i completedAt) : Sound (finish r i completedAt) := by
  rw [ProfileProbes.finish]
  split
  case h_1 key endpointKey force retry entry delay ok hc =>
    split <;> exact h.settles hc rfl rfl (h.settles_settle hc rfl ..)
  case h_2 => exact h

end

/-- No probe of the call's key is still in flight that `close` has taken out of the table. -/
def Reaches (r : NodeProfileRegistry) (i : Nat) : Prop :=
  ∀ call ∈ r.calls[i]?, ∀ b ∈ r.calls, ∀ entry ∈ holds b.phase, b.key = call.key → r.dropped ≤ entry

instance (r : NodeProfileRegistry) (i : Nat) : Decidable (Reaches r i) :=
  inferInstanceAs (Decidable (∀ call ∈ r.calls[i]?, ∀ b ∈ r.calls, ∀ entry ∈ holds b.phase, b.key = call.key →
    r.dropped ≤ entry))

theorem Sound.fresh (h : Sound r) (hc : r.calls[i]? = some call) (hrch : Reaches r i)
    (hout : ∀ entry, r.entries.lookup call.key = some entry → inflight r entry = false) (j : Nat) (b)
    (hb : r.calls[j]? = some b) (hfl : InFlight b) : b.key ≠ call.key := by
  intro hk
  obtain ⟨entry, he⟩ := inFlight_iff.1 hfl
  have hdrop := hrch call hc b (mem_of_getElem? hb) entry he hk
  have hlk := h.tabled j b entry hb he hdrop
  obtain ⟨cell, c, hce, hrun, -⟩ := h.held j b entry hb he
  have hidle := hout entry (hk ▸ hlk)
  rw [inflight_of hce, hrun] at hidle
  cases hidle

theorem admits_admit (i call) (hret : Retains r entries) :
    ∃ done, Admits r i call done (admitProbe { claimEndpoint r i call.endpointKey with entries := entries } i call.key) := by
  have htabl : (entries.insert call.key r.cells.length).lookup call.key = some r.cells.length := by
    rw [lookup_set, if_pos rfl]
  have hent (key) (entry) (hne : key ≠ call.key) (hlk : r.entries.lookup key = some entry)
      (hrun : inflight r entry = true) :
      (entries.insert call.key r.cells.length).lookup key = some entry := by
    rw [lookup_set, if_neg hne]
    exact hret key entry hlk hrun
  by_cases hend : call.endpointKey = ""
  · refine ⟨r.channels.length, ?_⟩
    rw [claimEndpoint, if_pos hend]
    refine ⟨rfl, rfl, htabl, hent, fun _ _ => append_of, getElem?_concat_length,
      absurd hend, ?_, fun _ _ => rfl, rfl, rfl, rfl⟩
    intro c channel hc
    rcases of_append hc with hc | hc
    · exact .inl hc
    · exact .inr (.inl hc)
  · refine ⟨r.channels.length + 1, ?_⟩
    rw [claimEndpoint, if_neg hend]
    have hact : (r.active.insert call.endpointKey r.channels.length).lookup call.endpointKey =
        some r.channels.length := by
      rw [lookup_set, if_pos rfl]
    have hlen : (r.channels ++ [({ maker := i, endpoint := true } : Channel)]).length = r.channels.length + 1 :=
      length_append
    refine ⟨rfl, ?_, htabl, hent, fun _ _ hc => append_of (append_of hc), ?_, ?_, ?_, ?_, rfl, rfl, rfl⟩
    · rw [← hlen]
      rfl
    · rw [← hlen]
      exact getElem?_concat_length
    · exact fun _ => ⟨_, hact, append_of getElem?_concat_length⟩
    · intro c channel hc
      rcases of_append hc with hc | ⟨rfl, rfl⟩
      · rcases of_append hc with hc | ⟨rfl, rfl⟩
        · exact .inl hc
        · exact .inr (.inr ⟨rfl, hend, hact⟩)
      · exact .inr (.inl ⟨hlen, rfl⟩)
    · intro key hk
      refine (lookup_set ..).trans (if_neg ?_)
      rintro rfl
      exact hend (hk rfl)

theorem Sound.refuse (h : Sound r) (hc : r.calls[i]? = some call) (hchk : call.phase = .checked)
    (hidle : call.endpointKey ≠ "" → r.active.lookup call.endpointKey = none) (hret : Retains r entries) :
    Sound (setPhase (dropEndpoint { claimEndpoint r i call.endpointKey with entries := entries } call.endpointKey) i
      (.returned deferredAnswer)) := by
  have hretu : Sound (setPhase { r with entries := entries } i (.returned deferredAnswer)) :=
    (h.retabled hret).idles hc (by rw [hchk]; exact ⟨rfl, rfl⟩) ⟨rfl, rfl⟩
  rw [claimEndpoint, dropEndpoint]
  by_cases hend : call.endpointKey = ""
  · rw [if_pos hend, if_pos hend]
    exact hretu
  rw [if_neg hend, if_neg hend]
  have hact : (r.active.insert call.endpointKey r.channels.length).lookup call.endpointKey =
      some r.channels.length := by
    rw [lookup_set, if_pos rfl]
  rw [hact, closeChannel]
  have hspent := hretu.spent (i := i) (modify_self hc) rfl
    (fun key => ((lookup_del _ call.endpointKey key).trans ?_ :
      ((r.active.insert call.endpointKey r.channels.length).erase call.endpointKey).lookup key = r.active.lookup key))
  · have hchan : (r.channels ++ [({ maker := i, endpoint := true } : Channel)]).modify r.channels.length
        (fun channel => { channel with closes := channel.closes + 1 }) =
        r.channels ++ [{ maker := i, endpoint := true, closes := 1 }] := modify_append_self ..
    rw [makeChannel]
    rw [hchan]
    exact hspent
  · split
    case isTrue heq => rw [heq, hidle hend]
    case isFalse hne => rw [lookup_set, if_neg hne]

theorem Sound.register (h : Sound r) (hc : r.calls[i]? = some call) (hchk : call.phase = .checked)
    (hf : ∀ (j : Nat) (b : Call), r.calls[j]? = some b → InFlight b → b.key ≠ call.key) (now order orders) :
    Sound (register r i call now order orders) := by
  rw [ProfileProbes.register]
  split
  case h_1 c _ =>
    exact h.idles hc (by rw [hchk]; exact ⟨rfl, rfl⟩) ⟨rfl, rfl⟩
  case h_2 hno =>
  have hidle (hne : call.endpointKey ≠ "") : r.active.lookup call.endpointKey = none := by
    rw [if_neg hne] at hno
    exact hno
  have hadmit {entries} (hret : Retains r entries) :
      Sound (admitProbe { claimEndpoint r i call.endpointKey with entries := entries } i call.key) := by
    obtain ⟨done, hadm⟩ := admits_admit i call hret
    exact h.admits hc hchk hidle hf hadm
  -- Claiming the endpoint changes neither the table nor the entries.
  have hclaim : (claimEndpoint r i call.endpointKey).entries = r.entries ∧
      (claimEndpoint r i call.endpointKey).cells = r.cells := by
    rw [claimEndpoint]
    split <;> exact ⟨rfl, rfl⟩
  have hretains_claim {entries}
      (hret : Retains (claimEndpoint r i call.endpointKey) entries) : Retains r entries := by
    intro key entry hlk hrun
    apply hret key entry
    · rw [hclaim.1]
      exact hlk
    · rw [inflight, hclaim.2]
      exact hrun
  dsimp only
  split
  case isTrue =>
    have hsame : Retains r (claimEndpoint r i call.endpointKey).entries :=
      hretains_claim fun _ _ hlk _ => hlk
    exact hadmit hsame
  case isFalse =>
  obtain ⟨entries, heq, hret⟩ := pruneLocked_spec (claimEndpoint r i call.endpointKey) now order orders
  rw [heq]
  split
  · exact hadmit (hretains_claim hret)
  · exact h.refuse hc hchk hidle (hretains_claim hret)

theorem Sound.enter (h : Sound r) (hrch : Reaches r i) (now : Time) (order) (orders : Nat → RangeOrder String) :
    Sound (enter r i now order orders) := by
  rw [ProfileProbes.enter]
  split
  case h_1 => exact h
  case h_2 call hc =>
  split
  case isTrue => exact h
  case isFalse hchk =>
  rw [not_not] at hchk
  have hidle : holds call.phase = none ∧ finished call.phase = false ∧ isProbing call.phase = false := by
    rw [hchk]
    exact ⟨rfl, rfl, rfl⟩
  split
  case h_1 hno =>
    refine h.register hc hchk (h.fresh hc hrch ?_) now order orders
    intro entry hlk
    rw [hlk, bind_some, map_eq_none_iff] at hno
    rw [inflight, hno]
  case h_2 entry cell hsome =>
    obtain ⟨e, hlk, hmap⟩ := bind_eq_some_iff.1 hsome
    obtain ⟨b, hce, hpair⟩ := map_eq_some_iff.1 hmap
    obtain ⟨rfl, rfl⟩ := Prod.mk.inj hpair
    split
    case isTrue hrun =>
      split
      case h_1 c hdone =>
        refine h.goOn hc ⟨hidle.1.symm, hidle.2.1, ?_, by simp⟩ hidle.2.2 rfl
        intro e' c' heq
        obtain ⟨rfl, rfl⟩ := Phase.joined.inj heq
        obtain ⟨j, a, ha, he⟩ := h.owner e b hce hrun
        obtain ⟨b', d, hc', -, hd, hch⟩ := h.held j a e ha he
        obtain rfl := mem_unique hce hc'
        obtain rfl := mem_unique hdone hd
        exact ⟨_, hch, .inl ⟨b, hce, hrun, hdone⟩⟩
      case h_2 => exact h
    case isFalse hout =>
      split
      · exact h.idles hc ⟨hidle.1, hidle.2.1⟩ ⟨rfl, rfl⟩
      refine h.register hc hchk (h.fresh hc hrch ?_) now order orders
      intro e' hlk'
      obtain rfl := mem_unique hlk hlk'
      rw [inflight_of hce]
      simpa using hout

/-- The condition on a run: a call gets to the table only while no probe of its
key is in flight that `close` has taken out of it, and a failure is recorded for
a finished entry only once the waiters of its probe have read the result. -/
def Orderly (r : NodeProfileRegistry) : Op → Prop
  | .enter i _ _ _ => Reaches r i
  | .recordPassive key success _ _ _ _ => LeavesResult r key success
  | _ => True

instance decidableOrderly (r : NodeProfileRegistry) : (op : Op) → Decidable (Orderly r op)
  | .enter i _ _ _ => inferInstanceAs (Decidable (Reaches r i))
  | .recordPassive key success _ _ _ _ => inferInstanceAs (Decidable (LeavesResult r key success))
  | .call .. | .cancel _ | .cancelParent | .check _ | .wake _ | .leave _ | .read _ | .takeSlot _ | .probe ..
  | .abandon .. | .finish .. | .closeStart | .closeClear => .isTrue trivial

theorem Sound.step (h : Sound r) {op} (hop : Orderly r op) : Sound (step r op) := by
  cases op with
  | call key endpointKey force retry => exact h.call _ rfl
  | cancel i | cancelParent => exact { h with }
  | check i => exact h.check i
  | enter i now order orders => exact h.enter hop now order orders
  | wake i => exact h.wake i
  | leave i => exact h.leave i
  | read i => exact h.read i
  | takeSlot i => exact h.takeSlot i
  | probe i delay ok => exact h.probe i delay ok
  | abandon i completedAt nextProbeAt => exact h.abandon i completedAt nextProbeAt
  | finish i completedAt => exact h.finish i completedAt
  | recordPassive key success failureTTL now order orders => exact h.recordPassive hop failureTTL now order orders
  | closeStart => exact h.closeStart
  | closeClear => exact h.closeClear

structure SingleFlight (r : NodeProfileRegistry) : Prop where
  oneKey : ∀ (i j : Nat) (a b : Call), r.calls[i]? = some a → r.calls[j]? = some b → InFlight a → InFlight b →
    a.key = b.key → i = j
  oneEndpoint : ∀ (i j : Nat) (a b : Call), r.calls[i]? = some a → r.calls[j]? = some b → InFlight a → InFlight b →
    a.endpointKey = b.endpointKey → a.endpointKey ≠ "" → i = j
  four : probesRunning r ≤ 4
  own : ∀ (i : Nat) (call : Call) entry, r.calls[i]? = some call → holds call.phase = some entry →
    (∃ cell c, r.cells[entry]? = some cell ∧ cell.inflight = true ∧ cell.done = some c ∧
      r.channels[c]? = some { maker := i, endpoint := false }) ∧
    (call.endpointKey ≠ "" → ∃ c, r.active.lookup call.endpointKey = some c ∧
      r.channels[c]? = some { maker := i, endpoint := true })
  closedOnce : ∀ (c : Nat) (channel : Channel), r.channels[c]? = some channel →
    ∃ call, r.calls[channel.maker]? = some call ∧ channel.closes = if InFlight call then 0 else 1
  calm : r.panicked = false
  tabled : ∀ (i : Nat) (call : Call) entry, r.calls[i]? = some call → holds call.phase = some entry →
    r.dropped ≤ entry → r.entries.lookup call.key = some entry
  waiters : ∀ (i : Nat) (call : Call) entry c, r.calls[i]? = some call → call.phase = .joined entry c →
    ∃ channel, r.channels[c]? = some channel ∧
      (channel.closes = 0 ∧ (∃ owner, r.calls[channel.maker]? = some owner ∧ holds owner.phase = some entry) ∨
        channel.closes = 1 ∧ Settled r entry channel.maker)
  readers : ∀ (i : Nat) (call : Call) entry, r.calls[i]? = some call → call.phase = .released entry →
    ∃ maker, Settled r entry maker

theorem Sound.singleFlight (h : Sound r) : SingleFlight r where
  oneKey := h.alone
  oneEndpoint _ _ _ _ hi hj ha hb heq hne := h.oneEndpoint hi hj ha hb heq hne
  four := h.running ▸ h.four
  own i call entry hca he :=
    ⟨h.held i call entry hca he, h.claimed i call hca (inFlight_iff.2 ⟨entry, he⟩)⟩
  closedOnce _ _ hc := h.closes hc
  calm := h.calm
  tabled := h.tabled
  waiters _ _ _ _ hca hph := h.waiter hca hph
  readers := h.reads

/-- In every orderly run one probe at most is in flight for a key or an endpoint, and four in all. -/
theorem single_flight (ops : List Op) (h : Meets step Orderly {} ops) : SingleFlight (after ops) := by
  have hso : Sound (after ops) := run_keeps (fun _ _ _ hop hs => hs.step hop) sound_new h
  exact hso.singleFlight

def anyOrder (_ : Nat) : RangeOrder String := .stored String

def sharedProbe : List Op :=
  [.call "tcp" "node" false false, .check 0, .enter 0 1 (.stored _) anyOrder, .takeSlot 0,
    .call "tcp" "node" false false, .check 1, .enter 1 2 (.stored _) anyOrder,
    .probe 0 20 true, .finish 0 5, .wake 1, .read 1, .recordPassive "tcp" false 0 6 (.stored _) anyOrder]

theorem single_flight_shared :
    SingleFlight (after sharedProbe) ∧
      (after sharedProbe).calls[1]?.map (·.phase) =
        some (.returned { delay := 20, error := none, fresh := true }) :=
  ⟨single_flight sharedProbe (by decide +kernel), by decide +kernel⟩

/-- The second call looks at the contexts before `close` and takes the lock
after it, while the probe of the first is running. -/
def closedBetween : List Op :=
  [.call "tcp" "" false false, .check 0, .enter 0 1 (.stored _) anyOrder, .takeSlot 0,
    .call "tcp" "" false false, .check 1, .closeStart, .closeClear, .enter 1 2 (.stored _) anyOrder, .takeSlot 1]

/-- A failure is recorded between the end of a probe and the read of its waiter. -/
def recordedBetween : List Op :=
  [.call "udp" "node" false false, .check 0, .enter 0 1 (.stored _) anyOrder, .takeSlot 0,
    .call "udp" "node" false false, .check 1, .enter 1 2 (.stored _) anyOrder,
    .probe 0 20 true, .finish 0 5, .wake 1, .recordPassive "udp" false 0 6 (.stored _) anyOrder, .read 1]

theorem not_single_flight :
    (after closedBetween).calls.map (fun call => (call.key, call.phase)) =
      [("tcp", .probing 0), ("tcp", .probing 1)] ∧
    (after recordedBetween).calls.map (fun call => (call.key, call.phase)) =
      [("udp", .settled 0 (probeResult {} 20 true 5) { delay := 20, error := none, fresh := true }),
        ("udp", .returned (failedAnswer true))] ∧
    ¬SingleFlight (after closedBetween) := by
  refine ⟨by decide +kernel, by decide +kernel, fun h => ?_⟩
  have hf : (after closedBetween).calls[0]? =
      some { key := "tcp", endpointKey := "", force := false, retryAfterInflight := false, phase := .probing 0 } := by
    decide +kernel
  have hsec : (after closedBetween).calls[1]? =
      some { key := "tcp", endpointKey := "", force := false, retryAfterInflight := false, phase := .probing 1 } := by
    decide +kernel
  exact absurd (h.oneKey 0 1 _ _ hf hsec rfl rfl rfl) (by decide)

end SingBox.ProfileFlights
