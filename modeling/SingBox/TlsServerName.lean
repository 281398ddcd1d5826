import Mathlib.Data.List.Basic

namespace SingBox.TlsServerName

open List

structure MyServerName where
  index : Nat
  length : Nat
  serverName : List UInt8
  extensionsListLengthIndex : Nat := 0

/-- What keeps a call from returning: an access out of range, or a loop that has not ended within the fuel. -/
inductive Fault
  | outOfRange
  | endless

abbrev Exec := Except Fault

def byte (xs : List UInt8) (i : Nat) : Exec Nat :=
  match xs[i]? with
  | some b => .ok b.toNat
  | none => .error .outOfRange

def uint16 (xs : List UInt8) (i : Nat) : Exec Nat := do return (← byte xs i) * 256 + (← byte xs (i + 1))

def slice (xs : List UInt8) (low high : Nat) : Exec (List UInt8) :=
  if low ≤ high ∧ high ≤ xs.length then .ok ((xs.drop low).take (high - low)) else .error .outOfRange

/-- The loop over the extensions, which advances by a sum of 16-bit numbers. -/
def indexExtensions : Nat → List UInt8 → Nat → Exec (Option MyServerName)
  | 0, _, _ => .error .endless
  | fuel + 1, exs, currentIndex => do
    if exs.length = 0 then return none
    if exs.length < 4 then return none
    let exType ← uint16 exs 0
    let exLen ← uint16 exs 2
    if exs.length < 4 + exLen then return none
    let sex ← slice exs 4 (4 + exLen)
    if exType = 0 then
      if sex.length < 5 then return none
      if (← byte sex 2) ≠ 0 then return none
      let sniLen ← uint16 sex 3
      return some { index := currentIndex + 4 + 5, length := sniLen, serverName := ← slice sex 5 sex.length }
    indexExtensions fuel (← slice exs ((4 + exLen) % 65536) exs.length) (currentIndex + (4 + exLen))

def indexTLSServerNameFromExtensions (fuel : Nat) (exs : List UInt8) : Exec (Option MyServerName) := do
  if exs.length = 0 then return none
  if exs.length < 2 then return none
  let exsLen ← uint16 exs 0
  let exs ← slice exs 2 exs.length
  if exs.length < exsLen then return none
  indexExtensions fuel exs 2

def indexTLSServerNameFromHandshake (fuel : Nat) (handshake : List UInt8) : Exec (Option MyServerName) := do
  if handshake.length < 6 + 32 + 1 then return none
  if (← byte handshake 0) ≠ 1 then return none
  let handshakeLen := (← byte handshake 1) * 65536 + (← uint16 handshake 2)
  if (← slice handshake 4 handshake.length).length ≠ handshakeLen then return none
  let tlsVersion ← uint16 handshake 4
  if tlsVersion &&& 0xFFFC ≠ 0x0300 ∧ tlsVersion ≠ 0x0304 then return none
  let currentIndex := 6 + 32 + 1 + (← byte handshake 38)
  if handshake.length < currentIndex then return none
  let cipherSuites ← slice handshake currentIndex handshake.length
  if cipherSuites.length < 2 then return none
  let csLen ← uint16 cipherSuites 0
  if cipherSuites.length < 2 + csLen + 1 then return none
  let currentIndex := currentIndex + (2 + csLen + 1 + (← byte cipherSuites (2 + csLen)))
  if handshake.length < currentIndex then return none
  let found ← indexTLSServerNameFromExtensions fuel (← slice handshake currentIndex handshake.length)
  return found.map fun name =>
    { name with index := name.index + currentIndex, extensionsListLengthIndex := currentIndex }

def indexTLSServerName (fuel : Nat) (payload : List UInt8) : Exec (Option MyServerName) := do
  if payload.length < 5 then return none
  if (← byte payload 0) ≠ 22 then return none
  let segmentLen ← uint16 payload 3
  if payload.length < 5 + segmentLen then return none
  let found ← indexTLSServerNameFromHandshake fuel (← slice payload 5 payload.length)
  return found.map fun name =>
    { name with
      index := name.index + 5
      extensionsListLengthIndex := name.extensionsListLengthIndex + 5 }

def octet (xs : List UInt8) (i : Nat) : Nat := (xs.getD i 0).toNat

def octets (xs : List UInt8) (i : Nat) : Nat := octet xs i * 256 + octet xs (i + 1)

/-- The payload is a record with one whole ClientHello in it, whose extensions start there. -/
structure Listed (payload : List UInt8) (start : Nat) : Prop where
  record : byte payload 0 = .ok 22 ∧ ∃ n, uint16 payload 3 = .ok n ∧ 5 + n ≤ payload.length
  handshake : byte payload 5 = .ok 1 ∧ ∃ high low, byte payload 6 = .ok high ∧ uint16 payload 7 = .ok low ∧
    payload.length - 9 = high * 65536 + low
  version : ∃ v, uint16 payload 9 = .ok v ∧ (v &&& 0xFFFC = 0x0300 ∨ v = 0x0304)
  lists : ∃ s c m n, byte payload 43 = .ok s ∧ uint16 payload (5 + (39 + s)) = .ok c ∧
    byte payload (5 + (39 + s) + (2 + c)) = .ok m ∧ start = 5 + (39 + s + (2 + c + 1 + m)) + 2 ∧
    uint16 payload (5 + (39 + s + (2 + c + 1 + m))) = .ok n ∧ start + n ≤ payload.length

/-- The body of the first extension of type 0 and where it starts, in records that follow one another. -/
inductive Met : List UInt8 → Nat → List UInt8 → Prop
  | here {exs} (htype : octets exs 0 = 0) (hroom : 4 + octets exs 2 ≤ exs.length) :
      Met exs 4 ((exs.drop 4).take (octets exs 2))
  | next {exs start body} (htype : octets exs 0 ≠ 0) (hroom : 4 + octets exs 2 ≤ exs.length)
      (hrest : Met (exs.drop (4 + octets exs 2)) start body) : Met exs (4 + octets exs 2 + start) body

/-- The name is what follows the five bytes of a name list's header in that extension. -/
def Found (exs : List UInt8) (index : Nat) (name : MyServerName) : Prop :=
  ∃ start body, Met exs start body ∧ name.serverName = body.drop 5 ∧ name.index = index + start + 5

/-- Records of other types lead from one place to another, and the 16-bit sum is right for each. -/
inductive Walk : List UInt8 → Nat → List UInt8 → Nat → Prop
  | nil {exs i} : Walk exs i exs i
  | cons {exs i rest j} (htype : octets exs 0 ≠ 0) (hroom : 4 + octets exs 2 ≤ exs.length)
      (hsmall : octets exs 2 < 65532) (hrest : Walk (exs.drop (4 + octets exs 2)) (i + (4 + octets exs 2)) rest j) :
      Walk exs i rest j

/-- A record of another type for which the sum wraps. -/
def Oversize (exs : List UInt8) : Prop :=
  octets exs 0 ≠ 0 ∧ 65532 ≤ octets exs 2 ∧ 4 + octets exs 2 ≤ exs.length

variable {xs exs payload rest : List UInt8} {i j start fuel : Nat} {r : Option MyServerName}

theorem octets_lt : octets xs i < 65536 := by
  have := (xs.getD i 0).toNat_lt
  have := (xs.getD (i + 1) 0).toNat_lt
  simp only [octets, octet]
  omega

theorem byte_eq (h : i < xs.length) : byte xs i = .ok (octet xs i) := by
  simp [byte, octet, h]

theorem uint16_eq (h : i + 1 < xs.length) : uint16 xs i = .ok (octets xs i) := by
  rw [uint16, byte_eq (Nat.lt_of_succ_lt h), byte_eq h]
  rfl

theorem byte_drop (k) : byte (xs.drop k) i = byte xs (k + i) := by
  rw [byte, byte, getElem?_drop]

theorem uint16_drop (k) : uint16 (xs.drop k) i = uint16 xs (k + i) := by
  rw [uint16, uint16, byte_drop, byte_drop, Nat.add_assoc]

theorem octet_drop (k) : octet (xs.drop k) i = octet xs (k + i) := by
  simp [octet, getD_eq_getElem?_getD]

theorem octets_drop (k) : octets (xs.drop k) i = octets xs (k + i) := by
  rw [octets, octets, octet_drop, octet_drop, Nat.add_assoc]

theorem slice_eq {low high} (h : low ≤ high ∧ high ≤ xs.length) :
    slice xs low high = .ok ((xs.drop low).take (high - low)) := if_pos h

theorem suffix_eq (h : i ≤ xs.length) : slice xs i xs.length = .ok (xs.drop i) :=
  (slice_eq ⟨h, Nat.le_refl _⟩).trans (congrArg _ (take_of_length_le (Nat.le_of_eq length_drop)))

theorem unless_none {c : Prop} [Decidable c] {x : Exec (Option MyServerName)} (h : ¬c → x = .ok none) :
    (if c then pure none else x) = .ok none := by
  split
  · rfl
  · exact h ‹_›

def Ends (exs : List UInt8) (i : Nat) (r : Option MyServerName) : Prop := ∃ fuel, indexExtensions fuel exs i = .ok r

theorem ends_next (htype : octets exs 0 ≠ 0) (hroom : 4 + octets exs 2 ≤ exs.length) :
    Ends exs i r ↔ Ends (exs.drop ((4 + octets exs 2) % 65536)) (i + (4 + octets exs 2)) r := by
  have hn (fuel) : indexExtensions (fuel + 1) exs i =
      indexExtensions fuel (exs.drop ((4 + octets exs 2) % 65536)) (i + (4 + octets exs 2)) := by
    rw [indexExtensions]
    simp (disch := omega) only [if_neg, uint16_eq, slice_eq, htype, if_false, bind, Except.bind]
    rw [take_of_length_le (Nat.le_of_eq length_drop)]
  constructor
  · rintro ⟨_ | fuel, hr⟩
    · cases hr
    · exact ⟨fuel, (hn fuel).symm.trans hr⟩
  · rintro ⟨fuel, hr⟩
    exact ⟨fuel + 1, (hn fuel).trans hr⟩

theorem ends_stop (hstop : exs.length < 4 + octets exs 2 ∨ octets exs 0 = 0) :
    ∃ r, Ends exs i r ∧ ∀ name ∈ r, Found exs i name := by
  by_cases hlong : exs.length < 4
  · refine ⟨none, ⟨1, ?_⟩, nofun⟩
    rw [indexExtensions, if_pos hlong]
    exact ite_self _
  by_cases hroom : exs.length < 4 + octets exs 2
  · refine ⟨none, ⟨1, ?_⟩, nofun⟩
    rw [indexExtensions]
    simp (disch := omega) only [if_neg, uint16_eq, if_pos, bind, Except.bind, pure, Except.pure]
  have htype := hstop.resolve_left hroom
  have hst : indexExtensions 1 exs i = (do
      let sex := (exs.drop 4).take (octets exs 2)
      if sex.length < 5 then return none
      if (← byte sex 2) ≠ 0 then return none
      let sniLen ← uint16 sex 3
      return some { index := i + 4 + 5, length := sniLen, serverName := ← slice sex 5 sex.length }) := by
    rw [indexExtensions]
    simp (disch := omega) only [if_neg, uint16_eq, slice_eq, if_pos htype, bind, Except.bind, Nat.add_sub_cancel_left]
  generalize hbody : (exs.drop 4).take (octets exs 2) = body at hst
  by_cases hhead : body.length < 5 ∨ octet body 2 ≠ 0
  · refine ⟨none, ⟨1, hst.trans (unless_none fun hfive => ?_)⟩, nofun⟩
    rw [byte_eq (by omega)]
    exact unless_none fun hzero => absurd hhead (not_or.2 ⟨hfive, hzero⟩)
  · refine ⟨some ⟨i + 4 + 5, octets body 3, body.drop 5, 0⟩, ⟨1, hst.trans ?_⟩, ?_⟩
    · simp (disch := omega) only [if_neg, byte_eq, uint16_eq, suffix_eq, bind, Except.bind, pure, Except.pure]
    · rintro _ ⟨⟩
      exact ⟨4, body, hbody ▸ .here htype (by omega), rfl, rfl⟩

theorem Walk.ends (h : Walk exs i rest j) : Ends exs i r ↔ Ends rest j r := by
  induction h with
  | nil => exact .rfl
  | cons htype hroom hsmall _ ih => rw [ends_next htype hroom, Nat.mod_eq_of_lt (by omega), ih]

theorem Oversize.ends (h : Oversize exs) :
    Ends exs i r ↔ Ends (exs.drop (octets exs 2 - 65532)) (i + (4 + octets exs 2)) r := by
  obtain ⟨htype, hwraps, hroom⟩ := h
  have hlt := @octets_lt exs 2
  rw [ends_next htype hroom, show (4 + octets exs 2) % 65536 = octets exs 2 - 65532 by omega]

theorem ends_found (hno : ∀ rest j, Walk exs i rest j → ¬Oversize rest) :
    ∃ r, Ends exs i r ∧ ∀ name ∈ r, Found exs i name := by
  induction hlen : exs.length using Nat.strongRecOn generalizing exs i with
  | ind length ih =>
    by_cases hstop : exs.length < 4 + octets exs 2 ∨ octets exs 0 = 0
    · exact ends_stop hstop
    obtain ⟨hroom, htype⟩ := not_or.1 hstop
    have hsmall : octets exs 2 < 65532 := by
      by_contra hbig
      exact hno exs i .nil ⟨htype, by omega, by omega⟩
    obtain ⟨r, hr, hnam⟩ := @ih _ (by rw [length_drop]; omega) (exs.drop (4 + octets exs 2)) (i + (4 + octets exs 2))
      (fun rest j hwalk => hno rest j (.cons htype (by omega) hsmall hwalk)) rfl
    refine ⟨r, ?_, fun name hname => ?_⟩
    · rwa [ends_next htype (by omega), Nat.mod_eq_of_lt (by omega)]
    · obtain ⟨start, body, hmet, hbody, hidx⟩ := hnam name hname
      exact ⟨_, body, .next htype (by omega) hmet, hbody, by omega⟩

def place (start : Nat) (name : MyServerName) : MyServerName :=
  { name with index := name.index + (start - 2), extensionsListLengthIndex := start - 2 }

theorem Listed.unique {start'} (h : Listed payload start) (h' : Listed payload start') : start = start' := by
  obtain ⟨s, c, m, n, hs, hc, hm, rfl, -⟩ := h.lists
  obtain ⟨s', c', m', n', hs', hc', hm', rfl, -⟩ := h'.lists
  cases hs.symm.trans hs'
  cases hc.symm.trans hc'
  cases hm.symm.trans hm'
  rfl

theorem Listed.index_eq (h : Listed payload start) (fuel) : indexTLSServerName fuel payload =
    (indexExtensions fuel (payload.drop start) 2).map (Option.map (place start)) := by
  obtain ⟨⟨hbyte, segment, hsegm, hroom⟩, ⟨htype, high, low, hhigh, hlow, hlen⟩, ⟨v, hv, hvers⟩,
    s, c, m, count, hs, hc, hm, rfl, hcnt, hlist⟩ := h
  have hdrop (k i) (h : k + i ≤ payload.length) :
      slice (payload.drop k) i (payload.length - k) = .ok (payload.drop (k + i)) := by
    rw [← length_drop, suffix_eq (by rw [length_drop]; omega), drop_drop]
  have hvers' : ¬(v &&& 0xFFFC ≠ 0x0300 ∧ v ≠ 0x0304) := by omega
  simp (disch := omega) only [indexTLSServerName, indexTLSServerNameFromHandshake, indexTLSServerNameFromExtensions,
    byte_drop, uint16_drop, suffix_eq, hdrop, hbyte, hsegm, htype, hhigh, hlow, hv, hs, hc, hm, hcnt, bind,
    Except.bind, pure, Except.pure, if_neg, hvers', if_false, Nat.add_zero, Nat.reduceAdd, length_drop]
  cases indexExtensions fuel (payload.drop _) 2 with
  | error e => rfl
  | ok r =>
    refine congrArg Except.ok ((Option.map_map ..).trans (Option.map_congr fun name _ => ?_))
    simp only [Function.comp, place, MyServerName.mk.injEq, true_and]
    omega

theorem map_none {x : Exec (Option MyServerName)} {f : MyServerName → MyServerName} (h : x = .ok none) :
    (do return (← x).map f) = (.ok none : Exec _) := by
  rw [h]
  rfl

theorem index_of_unlisted (h : ∀ start, ¬Listed payload start) (fuel) : indexTLSServerName fuel payload = .ok none := by
  refine unless_none fun hlong => ?_
  rw [byte_eq (by omega)]
  refine unless_none fun hbyte => ?_
  rw [uint16_eq (by omega)]
  refine unless_none fun hsegm => ?_
  rw [suffix_eq (by omega)]
  refine map_none (unless_none fun hlong => ?_)
  rw [byte_eq (by omega)]
  refine unless_none fun htype => ?_
  rw [byte_eq (by omega), uint16_eq (by omega), suffix_eq (by omega)]
  refine unless_none fun hlen => ?_
  rw [uint16_eq (by omega)]
  refine unless_none fun hvers => ?_
  rw [byte_eq (by omega)]
  refine unless_none fun _ => ?_
  rw [suffix_eq (by omega)]
  refine unless_none fun _ => ?_
  rw [uint16_eq (by omega)]
  refine unless_none fun _ => ?_
  rw [byte_eq (by omega)]
  refine unless_none fun _ => ?_
  rw [suffix_eq (by omega)]
  refine map_none (unless_none fun _ => unless_none fun _ => ?_)
  rw [uint16_eq (by omega), suffix_eq (by omega)]
  refine unless_none fun hlist => (?_ : ∃ start, Listed payload start).elim fun start hls => absurd hls (h start)
  simp only [octet_drop, octets_drop, drop_drop, length_drop, Nat.reduceAdd, Nat.add_zero] at *
  exact ⟨_, ⟨not_not.1 hbyte ▸ byte_eq (by omega), _, uint16_eq (by omega), by omega⟩,
    ⟨not_not.1 htype ▸ byte_eq (by omega), _, _, byte_eq (by omega), uint16_eq (by omega), not_not.1 hlen⟩,
    ⟨_, uint16_eq (by omega), by omega⟩,
    _, _, _, _, byte_eq (by omega), uint16_eq (by omega), byte_eq (by omega), rfl, uint16_eq (by omega), by omega⟩

theorem Met.slice {start body} (h : Met exs start body) : (exs.drop start).take body.length = body := by
  induction h with
  | here _ hroom => rw [length_take_of_le (by simp; omega)]
  | next _ _ _ ih => rwa [← drop_drop]

/-- The call returns, and a name it returns is where the index says, in the first extension of type 0. -/
def Indexed (payload : List UInt8) : Prop :=
  ∃ fuel r, indexTLSServerName fuel payload = .ok r ∧ ∀ name ∈ r,
    (payload.drop name.index).take name.serverName.length = name.serverName ∧
      ∃ start, Listed payload start ∧ Found (payload.drop start) start name

theorem found_place {name} (h : 2 ≤ start) : Found exs start (place start name) ↔ Found exs 2 name := by
  refine exists₂_congr fun from_ body => and_congr_right fun _ => and_congr_right fun _ => ?_
  simp only [place]
  omega

theorem Listed.indexed_iff (h : Listed payload start) : Indexed payload ↔
    ∃ r, Ends (payload.drop start) 2 r ∧ ∀ name ∈ r, Found (payload.drop start) 2 name := by
  have hle : 2 ≤ start := by
    obtain ⟨s, c, m, n, -, -, -, rfl, -⟩ := h.lists
    exact Nat.le_add_left ..
  simp only [Indexed, h.index_eq]
  constructor
  · rintro ⟨fuel, r, hr, hnam⟩
    cases hloop : indexExtensions fuel (payload.drop start) 2 with
    | error e =>
      rw [hloop] at hr
      cases hr
    | ok r' =>
      rw [hloop] at hr
      cases hr
      refine ⟨r', ⟨fuel, hloop⟩, fun name hname => ?_⟩
      obtain ⟨-, start', h', hf⟩ := hnam (place start name) (Option.mem_map_of_mem _ hname)
      exact (found_place hle).1 (h'.unique h ▸ hf)
  · rintro ⟨r, ⟨fuel, hr⟩, hnam⟩
    refine ⟨fuel, r.map (place start), by rw [hr]; rfl, fun _ hmap => ?_⟩
    obtain ⟨name, hname, rfl⟩ := Option.map_eq_some_iff.1 hmap
    have hf := (found_place hle).2 (hnam name hname)
    refine ⟨?_, start, h, hf⟩
    obtain ⟨from_, body, hmet, hbody, hidx⟩ := hf
    have hslice := congrArg (List.drop 5) hmet.slice
    rw [drop_take, drop_drop, drop_drop, ← Nat.add_assoc] at hslice
    rw [hidx, hbody, length_drop]
    exact hslice

/-- The loop goes wrong only at a record whose length wraps: it goes on at most
three bytes further on, and counts 65536 too many. -/
theorem server_name_found (payload : List UInt8) : Indexed payload ↔
    ∀ start rest j, Listed payload start → Walk (payload.drop start) 2 rest j → Oversize rest →
      ∃ r, Ends (rest.drop (octets rest 2 - 65532)) (j + (4 + octets rest 2)) r ∧
        ∀ name ∈ r, Found (payload.drop start) 2 name := by
  by_cases hls : ∃ start, Listed payload start
  case neg =>
    have hno := not_exists.1 hls
    exact iff_of_true ⟨0, none, index_of_unlisted hno 0, nofun⟩ fun start _ _ h => absurd h (hno start)
  obtain ⟨start, hls⟩ := hls
  rw [hls.indexed_iff]
  constructor
  · rintro ⟨r, hr, hnam⟩ start' rest j h' hwalk hover
    rw [h'.unique hls] at hwalk ⊢
    exact ⟨r, hover.ends.1 (hwalk.ends.1 hr), hnam⟩
  · intro hcond
    by_cases hover : ∃ rest j, Walk (payload.drop start) 2 rest j ∧ Oversize rest
    · obtain ⟨rest, j, hwalk, hover⟩ := hover
      obtain ⟨r, hends, hnam⟩ := hcond start rest j hls hwalk hover
      exact ⟨r, hwalk.ends.2 (hover.ends.2 hends), hnam⟩
    · exact ends_found fun rest j hwalk h => hover ⟨rest, j, hwalk, h⟩

def hello (length exs : List UInt8) : List UInt8 :=
  [22, 3, 1, 0, 0, 1] ++ length ++ [3, 3] ++ replicate 32 0 ++ [0, 0, 0, 0, 0, 0] ++ exs

theorem Walk.length_le (h : Walk exs i rest j) : rest.length ≤ exs.length := by
  induction h with
  | nil => exact Nat.le_refl _
  | cons _ _ _ _ ih => exact Nat.le_trans ih (by simp)

set_option maxRecDepth 4000 in
theorem short_hello_found : let payload := hello [0, 0, 50] [0, 0, 0, 6, 0, 4, 0, 0, 1, 97]
    indexTLSServerName 1 payload = .ok (some ⟨58, 1, [97], 47⟩) ∧ Indexed payload := by
  refine ⟨rfl, (server_name_found _).2 fun _ rest j _ hwalk hover => ?_⟩
  have hroom := Nat.le_trans hover.2.2 hwalk.length_le
  have hwraps := hover.2.1
  rw [length_drop] at hroom
  change _ ≤ 59 - _ at hroom
  omega

theorem endless_of_length {tail} (htail : tail.length = 65532) (fuel) :
    indexTLSServerName fuel (hello [1, 0, 40] ([0, 1, 255, 252] ++ tail)) = .error .endless := by
  have htake : take 65532 tail = tail := take_of_length_le (Nat.le_of_eq htail)
  have hloop : ∀ fuel i, indexExtensions fuel (0 :: 1 :: 255 :: 252 :: tail) i = .error .endless := by
    intro fuel
    induction fuel with
    | zero => exact fun _ => rfl
    | succ fuel ih =>
      intro i
      rw [indexExtensions]
      simp [uint16, byte, slice, htail, htake, ih, bind, Except.bind, pure, Except.pure]
  simp [indexTLSServerName, indexTLSServerNameFromHandshake, indexTLSServerNameFromExtensions, hello, uint16, byte,
    slice, htail, htake, hloop, bind, Except.bind, pure, Except.pure]

theorem long_extension_endless :
    ¬∃ fuel r, indexTLSServerName fuel (hello [1, 0, 40] ([0, 1, 255, 252] ++ replicate 65532 0)) = .ok r := by
  rintro ⟨fuel, r, hr⟩
  rw [endless_of_length length_replicate] at hr
  cases hr

end SingBox.TlsServerName
