import Mathlib.Algebra.Group.Nat.Defs
import SingBox.Maps
import SingBox.Runs

namespace SingBox.FakeIP

open List Option Maps Runs

/-- `netip.Addr` as a number. The ranges have no zones. -/
inductive Addr
  | invalid
  | inet (isIPv6 : Bool) (n : Nat)
  deriving DecidableEq

def limit (isIPv6 : Bool) : Nat := if isIPv6 then 2 ^ 128 else 2 ^ 32

def Addr.next : Addr → Addr
  | .invalid => .invalid
  | .inet isIPv6 n => if n + 1 < limit isIPv6 then .inet isIPv6 (n + 1) else .invalid

def Addr.is4 : Addr → Bool
  | .invalid => false
  | .inet isIPv6 _ => !isIPv6

/-- A valid `netip.Prefix`, not necessarily masked, with the number of the bits after it. -/
structure Range where
  isIPv6 : Bool
  n : Nat
  hostBits : Nat
  deriving DecidableEq

def Range.addr (p : Range) : Addr := .inet p.isIPv6 p.n

def Range.contains (p : Range) : Addr → Bool
  | .invalid => false
  | .inet isIPv6 n => isIPv6 = p.isIPv6 && n / 2 ^ p.hostBits = p.n / 2 ^ p.hostBits

def Range.top (p : Range) : Nat := p.n / 2 ^ p.hostBits * 2 ^ p.hostBits + (2 ^ p.hostBits - 1)

def broadcastAddress (p : Range) : Addr := .inet p.isIPv6 p.top

/-- A store over `MemoryStorage`. What there is for each family is a function of `isIPv6`. `handed` are the addresses
handed out, the last one first. -/
structure Store where
  range : Bool → Option Range
  current : Bool → Addr
  addressCache : GoMap Addr String := ∅
  domainCache : Bool → GoMap String Addr := fun _ => ∅
  handed : List (Addr × String) := []

variable (range : Bool → Option Range)

def start : Store where
  range := range
  current isIPv6 := (range isIPv6).elim .invalid (·.addr.next)

def fakeIPStore (s : Store) (a : Addr) (domain : String) : Store :=
  let cache := s.domainCache (!a.is4)
  let cache := (s.addressCache.lookup a).elim cache cache.erase
  { s with
    addressCache := s.addressCache.insert a domain
    domainCache := Function.update s.domainCache (!a.is4) (cache.insert domain a)
    handed := (a, domain) :: s.handed }

def nextAddress (p : Range) (current : Addr) : Addr :=
  if current.next = broadcastAddress p ∨ p.contains current.next = false then p.addr.next.next else current.next

/-- Without a range the cursor of the family is invalid. -/
def create (s : Store) (domain : String) (isIPv6 : Bool) : Option Addr × Store :=
  match (s.domainCache isIPv6).lookup domain, s.range isIPv6 with
  | some a, _ => (some a, s)
  | none, none => (none, s)
  | none, some p =>
    if s.current isIPv6 = .invalid then (none, s)
    else
      let a := nextAddress p (s.current isIPv6)
      (some a, fakeIPStore { s with current := Function.update s.current isIPv6 a } a domain)

def lookup (s : Store) (a : Addr) : Option String := s.addressCache.lookup a

def step (s : Store) (call : String × Bool) : Store := (create s call.1 call.2).2

/-- The range is one of its family, with two more addresses after its own. -/
def Fits (isIPv6 : Bool) (p : Range) : Prop := p.isIPv6 = isIPv6 ∧ p.n + 2 < limit isIPv6

structure Usable (p : Range) (n : Nat) : Prop where
  exists_ : n < limit p.isIPv6
  contained : n / 2 ^ p.hostBits = p.n / 2 ^ p.hostBits
  after : p.n + 1 < n
  before : n ≠ p.top

variable {p : Range}

theorem nextAddress_spec {c} (hlow : p.n < c) (hroom : p.n + 2 < limit p.isIPv6) :
    ∃ x, nextAddress p (.inet p.isIPv6 c) = .inet p.isIPv6 x ∧ p.n < x ∧ (p.n + 2 < p.top → Usable p x) ∧
      (x = c + 1 ∨ x = p.n + 2 ∧ ∀ n, Usable p n → n ≤ c) := by
  unfold nextAddress
  split
  · next hwrap =>
    have htwo : p.addr.next.next = .inet p.isIPv6 (p.n + 2) := by
      simp [Range.addr, Addr.next, hroom, Nat.lt_of_succ_lt hroom]
    refine ⟨p.n + 2, htwo, by omega, fun hl => ⟨hroom, ?_, by omega, Nat.ne_of_lt hl⟩, .inr ⟨rfl, fun n hn => ?_⟩⟩
    · refine le_antisymm (Nat.le_of_lt_succ (Nat.div_lt_of_lt_mul ?_)) (Nat.div_le_div_right (by omega))
      rw [Nat.mul_succ, mul_comm]
      have := Nat.two_pow_pos p.hostBits
      unfold Range.top at hl
      omega
    by_contra! hlt
    -- the number after the cursor is in the range, and so it is the last one, but `n` is not before it
    have hne : (Addr.inet p.isIPv6 c).next = .inet p.isIPv6 (c + 1) := if_pos (by have := hn.exists_; omega)
    have hin : (c + 1) / 2 ^ p.hostBits = p.n / 2 ^ p.hostBits :=
      le_antisymm (hn.contained ▸ Nat.div_le_div_right hlt) (Nat.div_le_div_right (by omega))
    have hl : c + 1 = p.top := by simpa [hne, Range.contains, hin, broadcastAddress] using hwrap
    have hmod := Nat.div_add_mod' n (2 ^ p.hostBits)
    have htop := hn.before
    rw [hn.contained] at hmod
    unfold Range.top at hl htop
    omega
  · next hst =>
    obtain ⟨hl, hin⟩ := not_or.1 hst
    rw [Bool.not_eq_false, Addr.next] at hin
    rw [Addr.next] at hl ⊢
    split at hin
    · next hlt =>
      rw [if_pos hlt] at hl ⊢
      refine ⟨c + 1, rfl, by omega, fun _ => ⟨hlt, ?_, by omega, ?_⟩, .inl rfl⟩
      · simpa [Range.contains] using hin
      · simpa [broadcastAddress] using hl
    · cases hin

structure Kept (s : Store) : Prop where
  inverse : ∀ isIPv6 domain a, (s.domainCache isIPv6).lookup domain = some a ↔
    lookup s a = some domain ∧ a.is4 = !isIPv6
  latest : ∀ a, lookup s a = s.handed.lookup a
  recycled : ∀ isIPv6 x d d' newer older,
    s.handed = (.inet isIPv6 x, d) :: (newer ++ (.inet isIPv6 x, d') :: older) →
      ∀ p ∈ s.range isIPv6, ∀ n, Usable p n → n ≠ x → .inet isIPv6 n ∈ newer.map Prod.fst

/-- `n` comes after the cursor and not after `m`, in the order of the cycle. -/
def Ahead (cursor m n : Nat) : Prop := cursor < n ∧ n ≤ m ∨ m ≤ cursor ∧ (cursor < n ∨ n ≤ m)

structure Sound (s : Store) : Prop extends Kept s where
  fits : ∀ isIPv6, ∀ p ∈ s.range isIPv6, Fits isIPv6 p
  cursor : ∀ isIPv6, ∀ p ∈ s.range isIPv6, ∃ c, s.current isIPv6 = .inet isIPv6 c ∧ p.n < c ∧
    ∀ m d newer older, s.handed = newer ++ (.inet isIPv6 m, d) :: older →
      ∀ n, Usable p n → .inet isIPv6 n ∈ newer.map Prod.fst ∨ Ahead c m n

variable {s : Store} {a : Addr} {domain : String} {isIPv6 : Bool}

theorem Kept.inverse_hand (h : Kept s) {x} (hnew : (s.domainCache (!x.is4)).lookup domain = none) (d) :
    ((fakeIPStore s x domain).domainCache isIPv6).lookup d = some a ↔
      lookup (fakeIPStore s x domain) a = some d ∧ a.is4 = !isIPv6 := by
  have hd := h.inverse isIPv6 d
  simp only [fakeIPStore, lookup, lookup_set] at hd ⊢
  by_cases hsame : isIPv6 = !x.is4
  · subst hsame
    rw [Function.update_self, lookup_set]
    cases hold : s.addressCache.lookup x <;> grind [lookup_del, lookup]
  · grind

theorem Sound.hand (h : Sound s) (hnew : (s.domainCache isIPv6).lookup domain = none) (hp : s.range isIPv6 = some p) :
    Sound (fakeIPStore { s with current := Function.update s.current isIPv6 (nextAddress p (s.current isIPv6)) }
      (nextAddress p (s.current isIPv6)) domain) := by
  obtain ⟨rfl, hroom⟩ := h.fits isIPv6 p hp
  obtain ⟨c, hcur, hlow, hrot⟩ := h.cursor p.isIPv6 p hp
  obtain ⟨x, hx, hlow', -, hturn⟩ := nextAddress_spec hlow hroom
  rw [hcur, hx]
  have hahead (m n) (hn : Usable p n) (hne : n ≠ x) : ¬Ahead c x n ∧ (Ahead c m n → Ahead x m n) := by
    have hnext := hturn.imp id (And.imp id fun hle => hle n hn)
    have haft := hn.after
    unfold Ahead
    omega
  refine ⟨⟨fun _ d a => h.inverse_hand (by simpa [Addr.is4] using hnew) d, ?_, ?_⟩, h.fits, ?_⟩
  · intro a
    have hlat := h.latest a
    simp only [fakeIPStore, lookup, lookup_set, lookup_cons] at hlat ⊢
    grind
  · intro isIPv6 y d d' newer older hhd q hq n hn hne
    simp only [fakeIPStore, List.cons.injEq, Prod.mk.injEq, Addr.inet.injEq] at hhd
    obtain ⟨⟨⟨rfl, rfl⟩, -⟩, hold⟩ := hhd
    obtain rfl := mem_unique hp hq
    exact (hrot x d' newer older hold n hn).resolve_right (hahead x n hn hne).1
  · intro isIPv6 q hq
    by_cases hsame : isIPv6 = p.isIPv6
    · subst hsame
      obtain rfl := mem_unique hp hq
      refine ⟨x, Function.update_self .., hlow', fun m d newer older hhd n hn => ?_⟩
      rcases cons_eq_append_iff.1 hhd with ⟨rfl, heq⟩ | ⟨newer, rfl, hold⟩
      · simp only [List.cons.injEq, Prod.mk.injEq, Addr.inet.injEq] at heq
        unfold Ahead
        omega
      by_cases hne : n = x
      · simp [hne]
      · exact (hrot m d newer older hold n hn).imp (mem_cons_of_mem _) (hahead m n hn hne).2
    · obtain ⟨c', hcur', hlow', hrot'⟩ := h.cursor isIPv6 q hq
      refine ⟨c', (Function.update_of_ne hsame ..).trans hcur', hlow', fun m d newer older hhd n hn => ?_⟩
      rcases cons_eq_append_iff.1 hhd with ⟨rfl, heq⟩ | ⟨newer, rfl, hold⟩
      · simp only [List.cons.injEq, Prod.mk.injEq, Addr.inet.injEq] at heq
        exact absurd heq.1.1.1 hsame
      · exact (hrot' m d newer older hold n hn).imp (mem_cons_of_mem _) id

theorem create_cases (s domain isIPv6) :
    (∃ a, (s.domainCache isIPv6).lookup domain = some a ∧ create s domain isIPv6 = (some a, s)) ∨
      create s domain isIPv6 = (none, s) ∨
      ∃ p, (s.domainCache isIPv6).lookup domain = none ∧ s.range isIPv6 = some p ∧ s.current isIPv6 ≠ .invalid ∧
        create s domain isIPv6 = (some (nextAddress p (s.current isIPv6)),
          fakeIPStore { s with current := Function.update s.current isIPv6 (nextAddress p (s.current isIPv6)) }
            (nextAddress p (s.current isIPv6)) domain) := by
  unfold create
  grind

theorem Sound.step (h : Sound s) (call) : Sound (step s call) := by
  unfold FakeIP.step
  obtain ⟨a, -, hcr⟩ | hcr | ⟨p, hnew, hp, -, hcr⟩ := create_cases s call.1 call.2
  · rw [hcr]
    exact h
  · rw [hcr]
    exact h
  · rw [hcr]
    exact h.hand hnew hp

theorem sound_start {range} (h : ∀ isIPv6, ∀ p ∈ range isIPv6, Fits isIPv6 p) : Sound (start range) := by
  refine ⟨⟨by simp [start, lookup], by simp [start, lookup], by simp [start]⟩, h, fun isIPv6 p hp => ?_⟩
  obtain ⟨rfl, hroom⟩ := h isIPv6 p hp
  refine ⟨p.n + 1, ?_, Nat.lt_succ_self _, by simp [start]⟩
  have hrange : range p.isIPv6 = some p := hp
  simp [start, hrange, Range.addr, Addr.next, Nat.lt_of_succ_lt hroom]

theorem Sound.found (h : Sound s) (hret : (create s domain isIPv6).1 = some a) :
    lookup (create s domain isIPv6).2 a = some domain := by
  obtain ⟨x, hlive, hcr⟩ | hcr | ⟨p, -, -, -, hcr⟩ := create_cases s domain isIPv6
  all_goals rw [hcr] at hret ⊢
  · obtain rfl := some.inj hret
    exact ((h.inverse isIPv6 domain x).1 hlive).1
  · cases hret
  · obtain rfl := some.inj hret
    simp [fakeIPStore, lookup]

def after (calls : List (String × Bool)) : Store := run step (start range) calls

theorem handed_after (range calls more) :
    ∃ later, (after range (calls ++ more)).handed = later ++ (after range calls).handed := by
  rw [after, run_append]
  refine run_invariant (I := fun t : Store => ∃ later, t.handed = later ++ (after range calls).handed) ?_ ⟨[], rfl⟩ more
  rintro t call ⟨later, hlat⟩
  unfold step
  obtain ⟨a, -, hcr⟩ | hcr | ⟨p, -, -, -, hcr⟩ := create_cases t call.1 call.2
  all_goals rw [hcr]
  · exact ⟨later, hlat⟩
  · exact ⟨later, hlat⟩
  · exact ⟨_ :: later, congrArg (List.cons _) hlat⟩

/-- In every run over ranges that fit, an address goes to another domain only after all the others. -/
theorem addresses_kept (h : ∀ isIPv6, ∀ p ∈ range isIPv6, Fits isIPv6 p)
    (calls more : List (String × Bool)) (domain : String) (isIPv6 : Bool) :
    Kept (after range calls) ∧
      (∀ a, ((after range calls).domainCache isIPv6).lookup domain = some a →
        create (after range calls) domain isIPv6 = (some a, after range calls)) ∧
      ∀ a, (create (after range calls) domain isIPv6).1 = some a →
        ∃ later, (after range (calls ++ [(domain, isIPv6)] ++ more)).handed =
            later ++ (after range (calls ++ [(domain, isIPv6)])).handed ∧
          ((∀ d, (a, d) ∈ later → d = domain) →
            lookup (after range (calls ++ [(domain, isIPv6)] ++ more)) a = some domain) := by
  have hso (calls) : Sound (after range calls) := run_invariant (fun _ call hs => hs.step call) (sound_start h) calls
  refine ⟨(hso calls).toKept, fun a hlive => by rw [create, hlive], fun a hret => ?_⟩
  obtain ⟨later, hlat⟩ := handed_after range (calls ++ [(domain, isIPv6)]) more
  have hf : lookup (after range (calls ++ [(domain, isIPv6)])) a = some domain := by
    rw [after, run_append]
    exact (hso calls).found hret
  refine ⟨later, hlat, fun hoth => ?_⟩
  rw [(hso _).latest] at hf ⊢
  rw [hlat, lookup_append, hf]
  cases hlk : later.lookup a with
  | none => rfl
  | some d =>
    obtain ⟨newer, older, rfl, -⟩ := lookup_eq_some_iff.1 hlk
    rw [hoth d (by simp), some_or]

/-- `fd00::/64` for IPv6, and for IPv4 a range of two addresses. -/
def ranges (inet4 : Nat) (isIPv6 : Bool) : Option Range :=
  some (if isIPv6 then ⟨true, 0xfd00 * 2 ^ 112, 64⟩ else ⟨false, inet4, 1⟩)

theorem ranges_kept : Kept (after (ranges 0xc6120000) [("a", true), ("a", false), ("b", false)]) :=
  (addresses_kept (ranges 0xc6120000) (by unfold Fits; decide +kernel) _ [] "a" true).1

/-- After `255.255.255.254` there is one address only: the fake IPv4 address of `a` is invalid and replaces its IPv6
address. -/
theorem ranges_replaced :
    (create (after (ranges 0xfffffffe) [("a", true)]) "a" true).1 = some (.inet true (0xfd00 * 2 ^ 112 + 2)) ∧
      (create (after (ranges 0xfffffffe) [("a", true), ("a", false)]) "a" true).1 = some .invalid ∧
      lookup (after (ranges 0xfffffffe) [("a", true), ("a", false)]) (.inet true (0xfd00 * 2 ^ 112 + 2)) = some "a" := by
  decide +kernel

/-- `Store.Contains`. -/
def contains (s : Store) (a : Addr) : Bool := (s.range false).any (·.contains a) || (s.range true).any (·.contains a)

structure Metadata where
  range : Bool → Option Range
  current : Bool → Addr

/-- A store over a cache file, with the metadata in the file. -/
structure Device where
  store : Store
  saved : Option Metadata := none

inductive Event
  | create (domain : String) (isIPv6 : Bool)
  | save
  | restart (range : Bool → Option Range)

/-- `NewStore` and `Start`: the metadata is taken out of the file. The caches stay if it is of the same ranges. -/
def restart (d : Device) (range : Bool → Option Range) : Device where
  store :=
    match d.saved with
    | none => start range
    | some m =>
      if m.range false = range false ∧ m.range true = range true then { d.store with range := range, current := m.current }
      else start range

def Device.step (d : Device) : Event → Device
  | .create domain isIPv6 => { d with store := (create d.store domain isIPv6).2 }
  | .save => { d with saved := some ⟨d.store.range, d.store.current⟩ }
  | .restart range => restart d range

def Cursors (current : Bool → Addr) : Prop :=
  ∀ isIPv6, ∀ p ∈ range isIPv6, current isIPv6 ≠ .invalid →
    p.addr.next ≠ .invalid ∧ ∃ c, current isIPv6 = .inet isIPv6 c ∧ p.n < c

def Inside (isIPv6 : Bool) (a : Addr) : Prop :=
  ∃ p ∈ range isIPv6, ∃ n, a = .inet isIPv6 n ∧ Usable p n

/-- After the two addresses a range of the family begins with there is one more before its last one. A range that
begins with the last address there is gives no address at all. -/
def Roomy : Prop := ∀ isIPv6, ∀ p ∈ range isIPv6, p.addr.next ≠ .invalid → Fits isIPv6 p ∧ p.n + 2 < p.top

structure Placed (d : Device) : Prop where
  cursors : Roomy d.store.range → Cursors d.store.range d.store.current
  saved : ∀ m ∈ d.saved, m.range = d.store.range ∧ (Roomy m.range → Cursors m.range m.current)
  cached : Roomy d.store.range → ∀ isIPv6 domain a,
    (d.store.domainCache isIPv6).lookup domain = some a → Inside d.store.range isIPv6 a

variable {d : Device}

theorem addr_next (hne : p.addr.next ≠ .invalid) : p.addr.next = .inet p.isIPv6 (p.n + 1) := by
  rw [Range.addr, Addr.next] at hne ⊢
  split at hne
  · next hlt => exact if_pos hlt
  · exact absurd rfl hne

theorem placed_start : Placed { store := start range } where
  cursors hroom isIPv6 p (hp : range isIPv6 = some p) hcur := by
    have hst : (start range).current isIPv6 = p.addr.next := by simp [start, hp]
    rw [hst] at hcur ⊢
    obtain ⟨⟨rfl, -⟩, -⟩ := hroom isIPv6 p hp hcur
    exact ⟨hcur, _, addr_next hcur, Nat.lt_succ_self _⟩
  saved := by simp
  cached := by simp [start]

theorem Placed.create (h : Placed d) (domain isIPv6) :
    Placed { d with store := (create d.store domain isIPv6).2 } ∧
      (Roomy d.store.range → ∀ a ∈ (create d.store domain isIPv6).1, Inside d.store.range isIPv6 a) := by
  obtain ⟨x, hlive, hcr⟩ | hcr | ⟨p, -, hp, hcur, hcr⟩ := create_cases d.store domain isIPv6
  · rw [hcr, ← hlive]
    exact ⟨h, fun hroom => h.cached hroom isIPv6 domain⟩
  · rw [hcr]
    exact ⟨h, by simp⟩
  have hgiv (hroom : Roomy d.store.range) : p.addr.next ≠ .invalid ∧ ∃ x,
      nextAddress p (d.store.current isIPv6) = .inet isIPv6 x ∧ p.n < x ∧ Usable p x := by
    obtain ⟨hne, c, hc, hlow⟩ := h.cursors hroom isIPv6 p hp hcur
    obtain ⟨⟨rfl, hfits⟩, hl⟩ := hroom isIPv6 p hp hne
    obtain ⟨x, hx, hlow', husab, -⟩ := nextAddress_spec hlow hfits
    exact ⟨hne, x, hc ▸ hx, hlow', husab hl⟩
  rw [hcr]
  generalize nextAddress p (d.store.current isIPv6) = a at hgiv
  refine ⟨⟨fun hroom isIPv6' q (hq : q ∈ d.store.range isIPv6') => ?_, h.saved, fun hroom isIPv6' domain' a' ha => ?_⟩, ?_⟩
  · have := h.cursors hroom isIPv6' q hq
    have := hgiv hroom
    simp only [fakeIPStore, Function.update_apply]
    grind
  · obtain ⟨-, x, rfl, -, husab⟩ := hgiv hroom
    simp only [fakeIPStore, Addr.is4, Bool.not_not, Function.update_apply] at ha
    split at ha
    · next hsame =>
      subst hsame
      obtain ⟨-, rfl⟩ | ⟨-, hold⟩ := lookup_of_insert ha
      · exact ⟨p, hp, x, rfl, husab⟩
      cases hkn : d.store.addressCache.lookup (.inet isIPv6' x) with
      | none => exact h.cached hroom _ domain' a' (by rwa [hkn] at hold)
      | some old => exact h.cached hroom _ domain' a' (erase_submap _ old _ _ (by rwa [hkn] at hold))
    · exact h.cached hroom _ domain' a' ha
  · rintro hroom _ ⟨⟩
    obtain ⟨-, x, rfl, -, husab⟩ := hgiv hroom
    exact ⟨p, hp, x, rfl, husab⟩

theorem Placed.step (h : Placed d) (e) : Placed (d.step e) := by
  cases e with
  | create domain isIPv6 => exact (h.create domain isIPv6).1
  | save => exact { h with saved := by rintro _ ⟨⟩; exact ⟨rfl, h.cursors⟩ }
  | restart range =>
    simp only [Device.step, restart]
    cases hsav : d.saved with
    | none => exact placed_start range
    | some m =>
      dsimp only
      split
      · next hsame =>
        obtain ⟨hown, hcur⟩ := h.saved m hsav
        obtain rfl : m.range = range := funext (Bool.forall_bool.2 hsame)
        exact ⟨hcur, by simp, hown ▸ h.cached⟩
      · exact placed_start range

/-- In all runs with restarts, also with other ranges in between, the addresses are inside their ranges. -/
theorem created_inside (range : Bool → Option Range) :
    (∀ events : List Event, let s := (run Device.step { store := start range } events).store
      s.range = range → ∀ domain isIPv6, ∀ a ∈ (create s domain isIPv6).1,
        contains s a = true ∧ Inside range isIPv6 a) ↔ Roomy range := by
  constructor
  · intro hall isIPv6 p hp hne
    have hcr : (create (start range) "" isIPv6).1 = some p.addr.next.next := by
      simp [create, start, Option.mem_def.1 hp, hne, nextAddress]
    obtain ⟨-, q, hq, n, hn, husab⟩ := hall [] rfl "" isIPv6 _ hcr
    obtain rfl := Option.mem_unique hq hp
    rw [addr_next hne, Addr.next] at hn
    split at hn
    · next hlt =>
      cases hn
      refine ⟨⟨rfl, hlt⟩, lt_of_le_of_ne ?_ husab.before⟩
      have hmod := Nat.div_add_mod' (q.n + 2) (2 ^ q.hostBits)
      have := Nat.mod_lt (q.n + 2) (Nat.two_pow_pos q.hostBits)
      rw [show q.n + 2 = q.n + 1 + 1 from rfl, husab.contained] at hmod
      unfold Range.top
      omega
    · cases hn
  · intro hroom events s hs domain isIPv6 a ha
    have hplac := run_invariant (I := Placed) (fun _ e hd => hd.step e) (placed_start range) events
    obtain ⟨p, hp, n, rfl, hn⟩ := (hplac.create domain isIPv6).2 (hs.symm ▸ hroom) a ha
    rw [hs] at hp
    refine ⟨?_, p, hp, n, rfl, hn⟩
    have hne : p.addr.next ≠ .invalid := by simp [Range.addr, Addr.next, Nat.lt_trans hn.after hn.exists_]
    have hcon : p.contains (.inet isIPv6 n) = true := by
      simp [Range.contains, (hroom isIPv6 p hp hne).1.1, hn.contained]
    rw [contains, hs]
    cases isIPv6 with
    | false => rw [hp, any_some, hcon, Bool.true_or]
    | true => rw [hp, any_some, hcon, Bool.or_true]

/-- `fd00::/64` and no range for IPv4. -/
theorem created_inside_inet6 :
    Inside (fun b => if b then ranges 0 b else none) true (.inet true (0xfd00 * 2 ^ 112 + 3)) :=
  ((created_inside _).2 (by unfold Roomy Fits; decide +kernel) 
    [.create "a" true, .save, .restart fun b => if b then ranges 0 b else none] rfl "b" true _ (by decide +kernel)).2

/-- The third address of `198.18.0.0/31` is outside of it. -/
theorem created_outside :
    (create (start (ranges 0xc6120000)) "a" false).1 = some (.inet false 0xc6120002) ∧
      contains (start (ranges 0xc6120000)) (.inet false 0xc6120002) = false := by
  decide +kernel

end SingBox.FakeIP
