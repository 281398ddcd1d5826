import Mathlib.Data.List.TakeWhile
import SingBox.DnsClient

namespace SingBox.DnsProvenance

open List Option Maps Values Runs Arena DnsMessages DnsClient
open DnsCacheFile (SaveCacheKey)

theorem append_inj_of_separator {α : Type} [DecidableEq α] {x} {xs xs' ys ys' : List α} (hxs : x ∉ xs)
    (hxs' : x ∉ xs') (hys : ∀ a ∈ ys.head?, a = x) (hys' : ∀ a ∈ ys'.head?, a = x) (h : xs ++ ys = xs' ++ ys') :
    xs = xs' ∧ ys = ys' := by
  have hcut : ∀ {zs ws : List α}, x ∉ zs → (∀ a ∈ ws.head?, a = x) → (zs ++ ws).takeWhile (· ≠ x) = zs := by
    intro zs ws hzs hws
    have hplain : ∀ a ∈ zs, decide (a ≠ x) = true := fun a ha => decide_eq_true fun heq => hzs (heq ▸ ha)
    rw [takeWhile_append_of_pos hplain]
    cases ws with
    | nil => simp
    | cons a ws => rw [takeWhile_cons_of_neg (by simp [hws a rfl]), append_nil]
  obtain rfl : xs = xs' := by rw [← hcut hxs hys, h, hcut hxs' hys']
  exact ⟨rfl, append_cancel_left h⟩

variable {stale : Bool}

section

variable {P : Type} [Prefixes P] [Wire]

structure KeyFor (c : Settings P) (call : Call P) (key : DnsCacheKey P) : Prop where
  transport : key.transportTag = call.transport
  question : call.message.question.head? = some key.question
  subnet : key.clientSubnet = effectiveSubnet c call.options call.message

/-- The exchange was made for the call, or by a refresh that the call started. -/
structure Made (c : Settings P) (call : Call P) (x : Exchange P) : Prop where
  transport : x.transport = call.transport
  question : call.message.question.head? = some x.question
  subnet : x.subnet = effectiveSubnet c call.options call.message
  checker : x.checker = call.checker
  accepted : rejects x.checker x.response = false
  kept : x.kept = (applyResponseOptions x.question x.response call.options).1

structure From (x : Exchange P) (key : DnsCacheKey P) : Prop where
  transport : x.transport = key.transportTag
  question : x.question = key.question
  subnet : x.subnet = key.clientSubnet

def Served (x : Exchange P) (m : Msg) : Prop :=
  ∃ response, (response = x.kept ∨ ∃ raw, Wire.pack x.kept = some raw ∧ Wire.unpack raw = some response) ∧
    (m = response ∨ ∃ timeToLive, m = normalizeTTL response timeToLive)

/-- The message was served from the cache under a key that the client cannot tell from one of the call. -/
def ServedFor (c : Settings P) (exchanges : List (Exchange P)) (call : Call P) (m : Msg) : Prop :=
  ∃ x ∈ exchanges, ∃ key key', KeyFor c call key ∧ From x key' ∧
    (key' = key ∨ c.persistent = true ∧ key'.saveKey = key.saveKey) ∧ Served x m

def AnsweredAtOnce (call : Call P) : Prop :=
  ∀ question ∈ call.message.question.head?, strategyRejects question call.options.strategy = true

def PhaseOk (c : Settings P) (exchanges : List (Exchange P)) (call : Call P) : Phase P → Prop
  | .asking | .beginning => True
  | .exchanging operation => operation.message = prepareExchangeMessage c call.message call.options ∧
      call.message.question.head? = some operation.question ∧ ∀ key, operation.cacheKey = some key → KeyFor c call key
  | .returned response err cached =>
    (∀ m, cached = some m → ServedFor c exchanges call m) ∧
    ∀ m, response = some m → err = none → AnsweredAtOnce call ∨
      (∃ m₀, cached = some m₀ ∧ (m = m₀ ∨ m = { m₀ with id := call.message.id })) ∨
      ∃ x ∈ exchanges, Made c call x ∧ ∃ request id, m = fitEdns0 request { x.kept with id := id }

structure RefreshFor (c : Settings P) (call : Call P) (refresh : Refresh P) : Prop where
  transport : refresh.transport = call.transport
  key : KeyFor c call refresh.key
  subnet : effectiveSubnet c refresh.options refresh.message = effectiveSubnet c call.options call.message
  options : refresh.options = call.options
  checker : refresh.checker = call.checker

/-- Everything that the client holds goes back to an exchange for one of its calls. -/
structure Sound [DecidableEq P] (c : Settings P) (fits : Call P → Prop) (s : State P) : Prop where
  processes : ∀ (i : Nat) p, s.processes[i]? = some p → fits p.call ∧ PhaseOk c s.exchanges p.call p.phase
  made : ∀ x ∈ s.exchanges, ∃ call, fits call ∧ Made c call x
  cache : ∀ key entry, s.cache.lookup key = some entry → ∃ x ∈ s.exchanges, From x key ∧ entry.1 = x.kept
  saves : ∀ (n : Nat) saveKey raw, s.saves[n]? = some (saveKey, raw) →
    ∃ x ∈ s.exchanges, ∃ key, From x key ∧ key.saveKey = saveKey ∧ Wire.pack x.kept = some raw
  refreshes : ∀ (j : Nat) refresh, s.refreshes[j]? = some refresh → ∃ call, fits call ∧ RefreshFor c call refresh

section

variable {c : Settings P} {call : Call P}

omit [Wire] in
theorem effectiveSubnet_prepare (c) (options : DNSQueryOptions P) (message : Msg) :
    effectiveSubnet c options (prepareExchangeMessage c message options) = effectiveSubnet c options message := by
  rw [effectiveSubnet, effectiveSubnet]
  split
  · rfl
  rename_i hkeep
  split
  · rfl
  rename_i hopt
  split
  · rfl
  · rename_i hclient
    rw [prepareExchangeMessage, if_neg hkeep, if_neg hopt, if_neg hclient]

omit [Wire] in
theorem prepare_id (c) (message : Msg) (options : DNSQueryOptions P) :
    (prepareExchangeMessage c message options).id = message.id := by
  have hset : ∀ subnet : P, (setClientSubnet message subnet).id = message.id := by
    intro subnet
    rw [setClientSubnet]
    split <;> rfl
  rw [prepareExchangeMessage]
  split
  · rfl
  split
  · exact hset _
  split
  · exact hset _
  · rfl

variable {exchanges : List (Exchange P)}

theorem ServedFor.mono {exchanges' m} (h : ServedFor c exchanges call m) (hsub : ∀ x ∈ exchanges, x ∈ exchanges') :
    ServedFor c exchanges' call m := by
  obtain ⟨x, hx, hr⟩ := h
  exact ⟨x, hsub x hx, hr⟩

theorem PhaseOk.mono {exchanges' phase} (h : PhaseOk c exchanges call phase) (hsub : ∀ x ∈ exchanges, x ∈ exchanges') :
    PhaseOk c exchanges' call phase := by
  cases phase with
  | asking | beginning => trivial
  | exchanging operation => exact h
  | returned response err cached =>
    refine ⟨fun m hm => (h.1 m hm).mono hsub, fun m hm herr => ?_⟩
    rcases h.2 m hm herr with honce | hcach | ⟨x, hx, hmade⟩
    · exact .inl honce
    · exact .inr (.inl hcach)
    · exact .inr (.inr ⟨x, hsub x hx, hmade⟩)

omit [Prefixes P] [Wire] in
theorem timely_served {response m now expireAt} (h : timely c response now expireAt = some (m, stale)) :
    m = response ∨ ∃ timeToLive, m = normalizeTTL response timeToLive := by
  rw [timely] at h
  split at h
  · exact .inl (Prod.mk.inj (some.inj h)).1.symm
  split at h
  · split at h
    · exact .inr ⟨1, (Prod.mk.inj (some.inj h)).1.symm⟩
    · cases h
  · exact .inr ⟨_, (Prod.mk.inj (some.inj h)).1.symm⟩

omit [Wire] in
theorem keyFor_new {question} (hq : call.message.question.head? = some question) {message}
    (hmsg : message = call.message ∨ message = prepareExchangeMessage c call.message call.options) (environment : Nat) :
    KeyFor c call (newCacheKey c call.transport question message call.options environment) := by
  refine ⟨rfl, hq, ?_⟩
  rcases hmsg with rfl | rfl
  · rfl
  · exact effectiveSubnet_prepare c call.options call.message

theorem phaseOk_failed {err response} : PhaseOk c exchanges call (.returned response (some err) none) :=
  ⟨fun m hm => (not_mem_none m hm).elim, fun m _ herr => by cases herr⟩

end

section

variable [DecidableEq P] {c : Settings P} {fits : Call P → Prop} {s : State P} {call : Call P} {i : Nat}

variable {p : Process P} {key : DnsCacheKey P}

theorem Sound.setPhase (h : Sound c fits s) (hp : s.processes[i]? = some p) {phase}
    (hph : PhaseOk c s.exchanges p.call phase) : Sound c fits (s.setPhase i phase) := by
  refine { h with processes := fun j q hq => ?_ }
  rcases modify_cases hp hq with ⟨rfl, rfl⟩ | ⟨-, hq⟩
  · exact ⟨(h.processes j p hp).1, hph⟩
  · exact h.processes j q hq

theorem Sound.refresh (h : Sound c fits s) (hfits : fits call) (hk : KeyFor c call key) :
    Sound c fits (backgroundRefreshDNS s (refreshOf c call key)) := by
  rw [backgroundRefreshDNS]
  split
  · exact h
  refine { h with refreshes := fun j refresh href => ?_ }
  rcases of_append href with href | ⟨-, rfl⟩
  · exact h.refreshes j refresh href
  · exact ⟨call, hfits, rfl, hk, effectiveSubnet_prepare c call.options call.message, rfl, rfl⟩

omit [Prefixes P] [Wire] in
theorem backgroundRefreshDNS_frame (s) (refresh : Refresh P) :
    (backgroundRefreshDNS s refresh).processes = s.processes ∧
    (backgroundRefreshDNS s refresh).exchanges = s.exchanges := by
  rw [backgroundRefreshDNS]
  split <;> exact ⟨rfl, rfl⟩

theorem Sound.loaded (h : Sound c fits s) (hk : KeyFor c call key) {r m}
    (hload : loadResponse c s key r = some (m, stale)) : ServedFor c s.exchanges call m := by
  rw [loadResponse] at hload
  split at hload
  · rename_i hper
    rw [loadPersistentResponse] at hload
    rcases hloaded : r.loaded with _ | ⟨n, expireAt⟩
    · rw [hloaded] at hload
      cases hload
    rw [hloaded] at hload
    dsimp only at hload
    rcases hsave : s.saves[n]? with _ | ⟨saveKey, raw⟩
    · rw [hsave] at hload
      cases hload
    rw [hsave] at hload
    dsimp only at hload
    split at hload
    · rename_i hsame
      obtain ⟨response, hrsp, htim⟩ := bind_eq_some_iff.1 hload
      obtain ⟨x, hx, key', hfrom, hk', hpack⟩ := h.saves n saveKey raw hsave
      exact ⟨x, hx, key, key', hk, hfrom, .inr ⟨hper, hk'.trans hsame⟩, response,
        .inr ⟨raw, hpack, hrsp⟩, timely_served htim⟩
    · cases hload
  · obtain ⟨entry, he, htim⟩ := bind_eq_some_iff.1 hload
    obtain ⟨x, hx, hfrom, hkept⟩ := h.cache key entry he
    exact ⟨x, hx, key, key, hk, hfrom, .inl rfl, entry.1, .inl hkept, timely_served htim⟩

theorem Sound.store (h : Sound c fits s) {x} (hx : x ∈ s.exchanges) (hfrom : From x key) (timeToLive now) :
    Sound c fits (storeCache c s key x.kept timeToLive now) := by
  rw [storeCache]
  split
  · exact h
  split
  · split
    · exact h
    rename_i packed hpack
    refine { h with saves := fun n saveKey raw hsave => ?_ }
    rcases of_append hsave with hsave | ⟨-, heq⟩
    · exact h.saves n saveKey raw hsave
    · obtain ⟨rfl, rfl⟩ := Prod.mk.inj heq
      exact ⟨x, hx, key, hfrom, rfl, hpack⟩
  · refine { h with cache := fun key' entry he => ?_ }
    rcases lookup_of_insert he with ⟨rfl, rfl⟩ | ⟨-, he⟩
    · exact ⟨x, hx, hfrom, rfl⟩
    · exact h.cache key' entry he

theorem storeCache_frame (s key message timeToLive now) :
    (storeCache c s key message timeToLive now).processes = s.processes ∧
      (storeCache c s key message timeToLive now).exchanges = s.exchanges := by
  rw [storeCache]
  split
  · exact ⟨rfl, rfl⟩
  split
  · split <;> exact ⟨rfl, rfl⟩
  · exact ⟨rfl, rfl⟩

theorem Sound.keep (h : Sound c fits s) (hfits : fits call) {key} (hke : ∀ k, key = some k → KeyFor c call k)
    {question response r}
    (hmade : Made c call ⟨call.transport, question, effectiveSubnet c call.options call.message, call.checker, response,
      (applyResponseOptions question response call.options).1⟩) :
    Sound c fits (keep c s key call.transport question (effectiveSubnet c call.options call.message) call.checker
      call.options response r) := by
  generalize hx : (⟨call.transport, question, effectiveSubnet c call.options call.message, call.checker, response,
      (applyResponseOptions question response call.options).1⟩ : Exchange P) = x at hmade
  have hsub : ∀ y ∈ s.exchanges, y ∈ s.exchanges ++ [x] := fun y hy => mem_append_left _ hy
  have hlog : Sound c fits { s with exchanges := s.exchanges ++ [x] } := by
    refine ⟨fun j p hp => ?_, fun y hy => ?_, fun key entry he => ?_, fun n saveKey raw hsave => ?_, h.refreshes⟩
    · obtain ⟨hc, hph⟩ := h.processes j p hp
      exact ⟨hc, hph.mono hsub⟩
    · rcases mem_append.1 hy with hy | hy
      · exact h.made y hy
      · rw [mem_singleton.1 hy]
        exact ⟨call, hfits, hmade⟩
    · obtain ⟨y, hy, hr⟩ := h.cache key entry he
      exact ⟨y, hsub y hy, hr⟩
    · obtain ⟨y, hy, hr⟩ := h.saves n saveKey raw hsave
      exact ⟨y, hsub y hy, hr⟩
  rw [DnsClient.keep, hx]
  split
  · split
    · exact hlog
    rename_i stored hsto
    obtain ⟨k, hk, hfin⟩ := bind_eq_some_iff.1 hsto
    have hkeyFor := hke k hk
    have hfrom : From x stored := by
      rw [finishCacheKey] at hfin
      split at hfin
      · obtain rfl := some.inj hfin
        refine ⟨hmade.transport.trans hkeyFor.transport.symm, ?_, hmade.subnet.trans hkeyFor.subnet.symm⟩
        exact mem_unique hmade.question hkeyFor.question
      · cases hfin
    have hkept : (applyResponseOptions question response call.options).1 = x.kept := by rw [← hx]
    rw [hkept]
    exact hlog.store (mem_append_right _ mem_cons_self) hfrom ..
  · exact hlog

theorem keep_frame (s key transport question subnet checker options response r) :
    (keep c s key transport question subnet checker options response r).processes = s.processes ∧
      (keep c s key transport question subnet checker options response r).exchanges = s.exchanges ++
        [⟨transport, question, subnet, checker, response, (applyResponseOptions question response options).1⟩] := by
  rw [keep]
  split
  · split
    · exact ⟨rfl, rfl⟩
    · exact storeCache_frame ..
  · exact ⟨rfl, rfl⟩

section

variable (h : Sound c fits s)
include h

section

variable (hp : s.processes[i]? = some p)
include hp

theorem Sound.refreshIf (hk : KeyFor c p.call key) {r m isStale} (hload : loadResponse c s key r = some (m, isStale)) :
    ∃ s', s' = (if isStale = true then backgroundRefreshDNS s (refreshOf c p.call key) else s) ∧ Sound c fits s' ∧
      s'.processes[i]? = some p ∧ ServedFor c s'.exchanges p.call m := by
  have hsrv := h.loaded hk hload
  refine ⟨_, rfl, ?_⟩
  split
  · obtain ⟨hprc, hex⟩ := backgroundRefreshDNS_frame s _
    exact ⟨h.refresh (h.processes i p hp).1 hk, hprc ▸ hp, hex ▸ hsrv⟩
  · exact ⟨h, hp, hsrv⟩

theorem Sound.ask (r) : Sound c fits (ask c s i p.call r) := by
  have hstay : Sound c fits (s.setPhase i .beginning) := h.setPhase hp trivial
  rw [DnsClient.ask]
  cases hq : p.call.message.question with
  | nil => exact hstay
  | cons question rest =>
    dsimp only
    have hk : KeyFor c p.call (newCacheKey c p.call.transport question p.call.message p.call.options r.environment) :=
      keyFor_new (by rw [hq]; rfl) (.inl rfl) _
    split
    · exact hstay
    split
    · exact hstay
    rename_i response isStale hload
    split
    · exact hstay
    obtain ⟨s', hs', hso, hp', hsrv⟩ := h.refreshIf hp hk hload
    rw [← hs']
    split
    · refine hso.setPhase hp' ⟨fun m hm => ?_, fun m hm => by cases hm⟩
      obtain rfl := some.inj hm
      exact hsrv
    · refine hso.setPhase hp' ⟨fun m hm => ?_, fun m hm _ => .inr (.inl ⟨m, hm, .inl rfl⟩)⟩
      obtain rfl := some.inj hm
      exact hsrv

theorem Sound.beginUpstream {operation} (hoper : PhaseOk c s.exchanges p.call (.exchanging operation)) (rejected) :
    Sound c fits (beginUpstream s i p.call operation rejected) := by
  rw [DnsClient.beginUpstream]
  split
  · exact h.setPhase hp phaseOk_failed
  split
  · exact h.setPhase hp phaseOk_failed
  · exact h.setPhase hp hoper

theorem Sound.begin (r) (rejected : Bool) : Sound c fits (beginExchange c s i p.call r rejected) := by
  have honce : ∀ {rcode}, AnsweredAtOnce p.call → PhaseOk c s.exchanges p.call
      (.returned (some (fixedResponseStatus p.call.message rcode)) none none) :=
    fun hat => ⟨fun m hm => (not_mem_none m hm).elim, fun _ _ _ => .inl hat⟩
  rw [beginExchange]
  cases hq : p.call.message.question with
  | nil =>
    refine h.setPhase hp (honce fun question hme => ?_)
    rw [hq] at hme
    exact (not_mem_none question hme).elim
  | cons question rest =>
    dsimp only
    have hhead : p.call.message.question.head? = some question := by rw [hq]; rfl
    split
    · rename_i hrej
      refine h.setPhase hp (honce fun question' hme => ?_)
      obtain rfl := mem_unique hhead hme
      exact hrej
    · split
      · exact h.beginUpstream hp ⟨rfl, hhead, fun key hk => (not_mem_none key hk).elim⟩ rejected
      have hk : KeyFor c p.call (newCacheKey c p.call.transport question
          (prepareExchangeMessage c p.call.message p.call.options) p.call.options r.environment) :=
        keyFor_new hhead (.inr rfl) _
      generalize newCacheKey c p.call.transport question
          (prepareExchangeMessage c p.call.message p.call.options) p.call.options r.environment = key at hk
      have hoper : PhaseOk c s.exchanges p.call
          (.exchanging ⟨prepareExchangeMessage c p.call.message p.call.options, question, some key⟩) := by
        refine ⟨rfl, hhead, fun key' hk' => ?_⟩
        obtain rfl := some.inj hk'
        exact hk
      split
      · exact h.beginUpstream hp hoper rejected
      rename_i response isStale hload
      split
      · exact h.beginUpstream hp hoper rejected
      obtain ⟨s', hs', hso, hp', hsrv⟩ := h.refreshIf hp hk hload
      rw [← hs']
      refine hso.setPhase hp' ⟨fun m hm => ?_, fun m hm _ => .inr (.inl ⟨response, rfl, .inr ?_⟩)⟩
      · obtain rfl := some.inj hm
        exact hsrv
      · rw [← some.inj hm, prepare_id]

theorem Sound.finish {operation} (hph : p.phase = .exchanging operation) (response) (r : Reading) :
    Sound c fits (finishExchange c s i p.call operation response r) := by
  obtain ⟨hfits, hoper⟩ := h.processes i p hp
  rw [hph] at hoper
  obtain ⟨hmsg, hq, hk⟩ := hoper
  rw [finishExchange]
  split
  · exact h.setPhase hp phaseOk_failed
  rename_i hacc
  dsimp only
  rw [hmsg, effectiveSubnet_prepare]
  have hmade : Made c p.call ⟨p.call.transport, operation.question, effectiveSubnet c p.call.options p.call.message,
      p.call.checker, response, (applyResponseOptions operation.question response p.call.options).1⟩ :=
    ⟨rfl, hq, rfl, rfl, Bool.eq_false_iff.2 hacc, rfl⟩
  have hkept := h.keep hfits hk hmade (r := r)
  obtain ⟨hprc, hex⟩ := keep_frame (c := c) s operation.cacheKey p.call.transport operation.question
    (effectiveSubnet c p.call.options p.call.message) p.call.checker p.call.options response r
  have hp' := hp
  rw [← hprc] at hp'
  split
  · exact hkept.setPhase hp' phaseOk_failed
  refine hkept.setPhase hp' ⟨fun m hm => (not_mem_none m hm).elim, fun m hm _ => .inr (.inr ⟨_, ?_, hmade, ?_⟩)⟩
  · rw [hex]
    exact mem_append_right _ mem_cons_self
  · exact ⟨_, _, (some.inj hm).symm⟩

end

theorem Sound.settle (j) :
    Sound c fits { s with refreshes := s.refreshes.modify j fun refresh => { refresh with running := false } } := by
  refine { h with refreshes := fun k refresh href => ?_ }
  obtain ⟨refresh₀, hrefresh₀, rfl⟩ := of_modify href
  obtain ⟨call, hfits, hfor⟩ := h.refreshes k refresh₀ hrefresh₀
  refine ⟨call, hfits, ?_⟩
  split
  · exact { hfor with }
  · exact hfor

theorem Sound.finishRefresh {j refresh} (href : s.refreshes[j]? = some refresh) (response r) :
    Sound c fits (finishRefresh c s j refresh response r) := by
  obtain ⟨call, hfits, hfor⟩ := h.refreshes j refresh href
  have hset := h.settle j
  rw [DnsClient.finishRefresh]
  split
  · exact hset
  rename_i hacc
  rw [Bool.or_eq_true, not_or] at hacc
  have hmade : Made c call ⟨call.transport, refresh.key.question, effectiveSubnet c call.options call.message,
      call.checker, response, (applyResponseOptions refresh.key.question response call.options).1⟩ := by
    refine ⟨rfl, hfor.key.question, rfl, rfl, ?_, rfl⟩
    rw [← hfor.checker]
    exact Bool.eq_false_iff.2 hacc.1
  rw [hfor.subnet, hfor.transport, hfor.checker, hfor.options]
  refine hset.keep hfits (fun k hk => ?_) hmade
  obtain rfl := some.inj hk
  exact hfor.key

theorem Sound.step {e} (hfits : ∀ call, e = .call call → fits call) : Sound c fits (step c s e) := by
  cases e with
  | call call =>
    refine ⟨fun i p hp => ?_, h.made, h.cache, h.saves, h.refreshes⟩
    rcases of_append hp with hp | ⟨-, rfl⟩
    · exact h.processes i p hp
    refine ⟨hfits call rfl, ?_⟩
    split <;> trivial
  | ask i r =>
    rw [DnsClient.step]
    split
    · rename_i call hp
      exact h.ask hp r
    · exact h
  | start i r rejected =>
    rw [DnsClient.step]
    split
    · rename_i call hp
      exact h.begin hp r rejected
    · exact h
  | cancel i =>
    rw [DnsClient.step]
    split
    · rename_i call hp
      exact h.setPhase hp phaseOk_failed
    · exact h
  | reply i r result =>
    rw [DnsClient.step]
    split
    · rename_i call operation hp
      cases result with
      | none => exact h.setPhase hp phaseOk_failed
      | some response => exact h.finish hp rfl (stripDNSPadding response) r
    · exact h
  | refreshed j r result =>
    rw [DnsClient.step]
    split
    · rename_i refresh href
      split
      · cases result with
        | none => exact h.settle j
        | some response => exact h.finishRefresh href (stripDNSPadding response) r
      · exact h
    · exact h
  | forget key =>
    refine ⟨h.processes, h.made, fun key' entry he => ?_, h.saves, h.refreshes⟩
    exact h.cache key' entry (erase_submap _ _ key' entry he)

end

theorem sound_run (c) {es} (hfits : ∀ call, .call call ∈ es → fits call) :
    Sound c fits (run (DnsClient.step c) {} es) := by
  refine run_keeps_mem (I := Sound c fits) (fun s e he hs => hs.step fun call heq => hfits call (heq ▸ he)) ?_
  exact ⟨fun i p hp => absurd hp (by simp), fun x hx => absurd hx (by simp), fun key entry hen => absurd hen (by simp),
    fun n saveKey raw hsave => absurd hsave (by simp), fun j refresh href => absurd href (by simp)⟩

end

def Proper (subnet : P) : Prop := Prefixes.isValid subnet = true ∨ subnet = Prefixes.invalid

def PlainTag (tag : String) : Prop := '\x00' ∉ tag.toList ∧ '\x01' ∉ tag.toList

/-- A call that a persistent store can tell from the others: its question's class goes by the name and the type, its
transport has a plain tag and its subnet is valid or missing. -/
def Plain (c : Settings P) (classOf : String → UInt16 → UInt16) (call : Call P) : Prop :=
  c.persistent = true → PlainTag call.transport ∧ Proper (effectiveSubnet c call.options call.message) ∧
    ∀ question ∈ call.message.question.head?, question.qclass = classOf question.name question.qtype

def PlainEvent (c : Settings P) (classOf : String → UInt16 → UInt16) : Event P → Prop
  | .call call => Plain c classOf call
  | _ => True

section

variable {k k' : DnsCacheKey P} {c : Settings P} {classOf : String → UInt16 → UInt16}

omit [Wire] in
theorem persistentName_inj (htag : PlainTag k.transportTag) (htag' : PlainTag k'.transportTag)
    (hpr : Proper k.clientSubnet) (hpr' : Proper k'.clientSubnet) (h : k.persistentName = k'.persistentName) :
    k.transportTag = k'.transportTag ∧ k.clientSubnet = k'.clientSubnet := by
  -- the subnet's part starts with one separator and has no trace of the other, which starts the environment's
  have hsub : ∀ subnet : P, (∀ a ∈ (if Prefixes.isValid subnet then "\x00" ++ Prefixes.name subnet else "").toList.head?,
      a = '\x00') ∧ '\x01' ∉ (if Prefixes.isValid subnet then "\x00" ++ Prefixes.name subnet else "").toList := by
    intro subnet
    split
    · rename_i hvalid
      have hplain := Prefixes.name_plain subnet hvalid
      simpa [String.toList_append] using hplain
    · simp
  have henv : ∀ environment,
      ∀ a ∈ (if environment ≠ 0 then "\x01" ++ formatUint36 environment else "").toList.head?, a = '\x01' := by
    intro environment
    split <;> simp [String.toList_append]
  have hchars := congrArg String.toList h
  rw [DnsCacheKey.persistentName, DnsCacheKey.persistentName, String.toList_append, String.toList_append,
    String.toList_append, String.toList_append] at hchars
  have hclean : ∀ {tag : String} {subnet : P}, PlainTag tag →
      '\x01' ∉ tag.toList ++ (if Prefixes.isValid subnet then "\x00" ++ Prefixes.name subnet else "").toList :=
    fun hplain hm => (mem_append.1 hm).elim hplain.2 (hsub _).2
  obtain ⟨hfront, -⟩ := append_inj_of_separator (hclean htag) (hclean htag') (henv _) (henv _) hchars
  obtain ⟨htags, hnam⟩ := append_inj_of_separator htag.1 htag'.1 (hsub _).1 (hsub _).1 hfront
  refine ⟨String.toList_injective htags, ?_⟩
  by_cases hvalid : Prefixes.isValid k.clientSubnet = true <;> by_cases hval' : Prefixes.isValid k'.clientSubnet = true
  · rw [if_pos hvalid, if_pos hval', String.toList_append, String.toList_append] at hnam
    exact Prefixes.name_inj _ _ hvalid hval' (String.toList_injective (append_cancel_left hnam))
  · simp [if_pos hvalid, if_neg hval', String.toList_append] at hnam
  · simp [if_neg hvalid, if_pos hval', String.toList_append] at hnam
  · rw [hpr.resolve_left hvalid, hpr'.resolve_left hval']

omit [Wire] in
theorem same_of_saveKey (hper : c.persistent = true) {call call'} (hplain : Plain c classOf call)
    (hplain' : Plain c classOf call') {key key'} (hk : KeyFor c call key) (hk' : KeyFor c call' key')
    (h : key'.saveKey = key.saveKey) :
    key'.transportTag = key.transportTag ∧ key'.question = key.question ∧ key'.clientSubnet = key.clientSubnet := by
  obtain ⟨htag, hpr, hclass⟩ := hplain hper
  obtain ⟨htag', hpr', hclass'⟩ := hplain' hper
  obtain ⟨hname, hq, htype⟩ := SaveCacheKey.mk.inj h
  rw [← hk.transport] at htag
  rw [← hk'.transport] at htag'
  rw [← hk.subnet] at hpr
  rw [← hk'.subnet] at hpr'
  obtain ⟨htags, hsub⟩ := persistentName_inj htag' htag hpr' hpr hname
  refine ⟨htags, ?_, hsub⟩
  have hclas : key'.question.qclass = key.question.qclass := by
    rw [hclass _ hk.question, hclass' _ hk'.question, hq, htype]
  cases hq' : key'.question
  simp_all

end

def Phase.cached : Phase P → Option Msg
  | .returned _ _ cached => cached
  | _ => none

section

variable [DecidableEq P]

instance decidablePlain (c : Settings P) (classOf : String → UInt16 → UInt16) (call : Call P) :
    Decidable (Plain c classOf call) :=
  have : DecidablePred PlainTag := fun _ => inferInstanceAs (Decidable (_ ∧ _))
  have : DecidablePred (Proper (P := P)) := fun _ => inferInstanceAs (Decidable (_ ∨ _))
  inferInstanceAs (Decidable (_ → _ ∧ _ ∧ ∀ question ∈ call.message.question.head?, _))

instance decidablePlainEvent (c : Settings P) (classOf : String → UInt16 → UInt16) :
    ∀ e : Event P, Decidable (PlainEvent c classOf e)
  | .call call => decidablePlain c classOf call
  | .ask _ _ | .start _ _ _ | .cancel _ | .reply _ _ _ | .refreshed _ _ _ | .forget _ => .isTrue trivial

variable {c : Settings P} {classOf : String → UInt16 → UInt16} {fits : Call P → Prop} {s : State P}

theorem Sound.cachedFrom (h : Sound c fits s) {i : Nat} {p} (hp : s.processes[i]? = some p)
    (hplain : ∀ call, fits call → Plain c classOf call) {m} (hsrv : ServedFor c s.exchanges p.call m) :
    ∃ x ∈ s.exchanges, x.transport = p.call.transport ∧ p.call.message.question.head? = some x.question ∧
      x.subnet = effectiveSubnet c p.call.options p.call.message ∧ Served x m := by
  obtain ⟨x, hx, key, key', hk, hfrom, hsame, hsrv⟩ := hsrv
  have hagr : key'.transportTag = key.transportTag ∧ key'.question = key.question ∧
      key'.clientSubnet = key.clientSubnet := by
    rcases hsame with rfl | ⟨hper, hsav⟩
    · exact ⟨rfl, rfl, rfl⟩
    obtain ⟨call', hfits', hmade⟩ := h.made x hx
    refine same_of_saveKey hper (hplain _ (h.processes i p hp).1) (hplain _ hfits') hk ⟨?_, ?_, ?_⟩ hsav
    · rw [← hfrom.transport, hmade.transport]
    · rw [← hfrom.question, hmade.question]
    · rw [← hfrom.subnet, hmade.subnet]
  refine ⟨x, hx, ?_, ?_, ?_, hsrv⟩
  · rw [hfrom.transport, hagr.1, hk.transport]
  · rw [hfrom.question, hagr.2.1, hk.question]
  · rw [hfrom.subnet, hagr.2.2, hk.subnet]

/-- A response that is served from the cache comes from an exchange over the same transport, for the same question and
with the same effective subnet. -/
theorem cached_from_exchange (c : Settings P) (classOf : String → UInt16 → UInt16) (es : List (Event P))
    (hplain : ∀ e ∈ es, PlainEvent c classOf e) :
    ∀ p ∈ (run (step c) {} es).processes, ∀ m, Phase.cached p.phase = some m →
      ∃ x ∈ (run (step c) {} es).exchanges, x.transport = p.call.transport ∧
        p.call.message.question.head? = some x.question ∧
        x.subnet = effectiveSubnet c p.call.options p.call.message ∧ Served x m := by
  have hso : Sound c (Plain c classOf) (run (step c) {} es) := sound_run c fun call => hplain _
  intro p hp m hm
  obtain ⟨i, hi⟩ := mem_iff_getElem?.1 hp
  have hph := (hso.processes i p hi).2
  cases hret : p.phase with
  | asking | beginning | exchanging operation =>
    rw [hret] at hm
    cases hm
  | returned response err cached =>
    rw [hret] at hm hph
    exact hso.cachedFrom hi (fun call h => h) (hph.1 m hm)

end

end

instance oneSubnet : Prefixes Bool where
  invalid := false
  isValid := id
  name := fun _ => "10.0.0.0/8"
  ofSlice := fun address bits => decide (address = [10, 0, 0, 0] ∧ bits = 8)
  address := fun _ => [10, 0, 0, 0]
  bits := fun _ => 8
  name_inj := by decide
  name_plain := by decide

def versionQuery (qclass : UInt16) : Msg := { id := 7, recursionDesired := true, question := [⟨"version.bind.", 16, qclass⟩] }

def versionAnswer : Msg :=
  { versionQuery classINET with response := true, answer := [⟨"version.bind.", 16, 1, 300, .other [57]⟩] }

instance oneAnswer : Wire where
  pack := fun m => if m = versionAnswer then some [1] else none
  unpack := fun raw => if raw = [1] then some versionAnswer else none
  isEdns0 := fun _ => none
  version := fun _ => 0
  dnssecOK := fun _ => false
  setEdns0 := fun m _ _ => m

def versionCall (transport : String) (qclass : UInt16) (subnet : Bool) : Call Bool :=
  { transport := transport, message := versionQuery qclass, options := { clientSubnet := subnet } }

def savedFor (first second : Call Bool) : List (Event Bool) :=
  [.call first, .start 0 ⟨0, 0, none⟩ false, .reply 0 ⟨0, 0, none⟩ (some versionAnswer),
   .call second, .start 1 ⟨0, 5 * Values.second, some (0, 300 * Values.second)⟩ false]

def savedRun (first second : Call Bool) : State Bool :=
  run (step { clientSubnet := false, persistent := true }) {} (savedFor first second)

theorem savedRun_traced :
    (savedRun (versionCall "dns" 1 true) (versionCall "dns" 1 true)).processes.map
        (fun p => Phase.cached p.phase) = [none, some (normalizeTTL versionAnswer 295)] ∧
      ∀ p ∈ (savedRun (versionCall "dns" 1 true) (versionCall "dns" 1 true)).processes, ∀ m,
        Phase.cached p.phase = some m →
        ∃ x ∈ (savedRun (versionCall "dns" 1 true) (versionCall "dns" 1 true)).exchanges,
          x.transport = p.call.transport ∧ p.call.message.question.head? = some x.question ∧
          x.subnet = effectiveSubnet { clientSubnet := false, persistent := true } p.call.options p.call.message ∧
          Served x m :=
  ⟨by decide +kernel, cached_from_exchange { clientSubnet := false, persistent := true } (fun _ _ => 1)
    (savedFor (versionCall "dns" 1 true) (versionCall "dns" 1 true)) (by decide +kernel)⟩

/-- A query of another class is served with the answer of this one, and so is a query over another transport whose tag
spells the subnet of this one. -/
theorem savedRun_mistaken :
    (∃ p ∈ (savedRun (versionCall "dns" 1 true) (versionCall "dns" 3 true)).processes,
      (Phase.cached p.phase).isSome = true ∧
        ∀ x ∈ (savedRun (versionCall "dns" 1 true) (versionCall "dns" 3 true)).exchanges,
          p.call.message.question.head? ≠ some x.question) ∧
    ∃ p ∈ (savedRun (versionCall "dns" 1 true) (versionCall "dns\x0010.0.0.0/8" 1 false)).processes,
      (Phase.cached p.phase).isSome = true ∧
        ∀ x ∈ (savedRun (versionCall "dns" 1 true) (versionCall "dns\x0010.0.0.0/8" 1 false)).exchanges,
          x.transport ≠ p.call.transport := by
  decide +kernel

end SingBox.DnsProvenance
