import SingBox.FamilyAccounting

namespace SingBox.PathSpellings

open Values Maps BreakerRecord HealthTransport HealthLedger AttemptPermits PermitMoves BreakerRuns FamilyLedgers
  FamilyAccounting

inductive PathClass
  | tcp
  | udpData
  | udpDNS

namespace PathClass

def spellings : PathClass → List String
  | .tcp => ["tcp", "tcp/any"]
  | .udpData => ["udp", "udp/any", "udp_data/any"]
  | .udpDNS => ["udp_dns/any"]

def any : PathClass → String
  | .tcp => "tcp/any"
  | .udpData => "udp_data/any"
  | .udpDNS => "udp_dns/any"

def families : PathClass → String × String
  | .tcp => ("tcp/ipv4", "tcp/ipv6")
  | .udpData => ("udp_data/ipv4", "udp_data/ipv6")
  | .udpDNS => ("udp_dns/ipv4", "udp_dns/ipv6")

end PathClass

def good (p : PathCapability) : Bool := p.known && p.available

def blocked (p : PathCapability) : Bool := p.known && !p.available

section

variable (s : HealthStore) (handle : NodeHandle) (now : Time) (c : PathClass)

def capability (path : String) : PathCapability := pathCapability s handle path now (.stored _)

def bothBlocked : Bool :=
  blocked (capability s handle now c.families.1) && blocked (capability s handle now c.families.2)

def someGood : Bool := good (capability s handle now c.families.1) || good (capability s handle now c.families.2)

def denied : Bool :=
  bothBlocked s handle now c || !someGood s handle now c && blocked (capability s handle now c.any)

/-- The ledgers that a path without one of its own is looked up in. -/
def scans (path : String) (k : HealthKey) : Bool :=
  if containsSlash path then k = transportKey handle path
  else belongsTo handle k && k.domain == .transport && k.service == "" && hasPrefix k.transport (path ++ "/")

/-- The record is one by which the path is judged: of those that are looked up, none outranks it. -/
structure Decides (path : String) (k : HealthKey) (r : HealthRecord) : Prop where
  stored : s.entries.lookup k = some r
  scanned : scans handle path k = true
  top : ∀ k' r', s.entries.lookup k' = some r' → scans handle path k' = true →
    outranks r'.status r.status = false

/-- The path is that of the class's own ledger, or the families decide, or whatever record the path is judged by
is bad exactly if the class's own ledger is. -/
def Clear (path : String) : Prop :=
  path = c.any ∨ bothBlocked s handle now c = true ∨ someGood s handle now c = true ∨
    (blocked (capability s handle now c.any) = true → ∃ k r, Decides s handle path k r) ∧
      ∀ k r, Decides s handle path k r →
        classifyPathCapability r.status now = !blocked (capability s handle now c.any)

end

variable {s : HealthStore} {handle : NodeHandle} {now : Time} {c : PathClass} {path : String}
  {order : RangeOrder HealthKey}

theorem blocked_path (hpath : path ≠ "") : blocked (pathCapability s handle path now order) =
    !classifyPathCapability (statusHandle s handle .transport path "" order) now := by
  rw [blocked, pathCapability, if_neg hpath]
  grind [classifyPathCapability]

/-- The order that begins with the key. -/
def startAt (k : HealthKey) : RangeOrder HealthKey where
  visit keys := if k ∈ keys then k :: keys.erase k else keys
  perm keys := by
    split
    · next h => exact (List.perm_cons_erase h).symm
    · exact .refl keys

theorem Decides.selected {k r} (h : Decides s handle path k r) :
    selectRestrictive s (scans handle path) (startAt k) = some (k, r) := by
  have hm : k ∈ s.entries.keys := mem_keys_iff.2 ⟨r, h.stored⟩
  simp only [selectRestrictive, startAt, if_pos hm, List.foldl_cons, h.stored, h.scanned, Bool.not_true,
    Bool.false_eq_true, if_false]
  refine List.foldlRecOn (motive := (· = some (k, r))) _ _ rfl ?_
  rintro _ rfl k' -
  split
  · rfl
  · next r' hr' => grind [h.top k' r' hr']

section

variable (hstored : AllPlain s)
include hstored

theorem capability_eq (hpath : path = c.any ∨ path = c.families.1 ∨ path = c.families.2) (order) :
    pathCapability s handle path now order = capability s handle now path := by
  have hsl : path ≠ "" ∧ containsSlash path = true ∧
      (legacyTransport path = some "tcp" ∨ legacyTransport path = some "udp") := by
    rcases hpath with rfl | rfl | rfl <;> cases c <;> decide
  rw [capability, pathCapability, pathCapability, if_neg hsl.1, if_neg hsl.1]
  rw [status_of_family hstored hsl.2.1 hsl.2.2, status_of_family hstored hsl.2.1 hsl.2.2]

/-- A bare name has no ledger of its own. -/
theorem status_of_bare (hpath : path = "tcp" ∨ path = "udp") (order) : statusHandle s handle .transport path "" order =
    ((selectRestrictive s (scans handle path) order).map (·.2.status)).getD
      { health := .unknown, breaker := .closed } := by
  have hsl : containsSlash path = false ∧ legacyTransport path = none := by rcases hpath with rfl | rfl <;> decide
  have hno : (recordForKeyLocked s (healthKey handle .transport path "")).1 = none := by
    obtain ⟨k, -, hk⟩ := recordForKey_some s (healthKey handle .transport path "")
    have hke := recordForKey_key s (healthKey handle .transport path "")
    rw [hk] at hke ⊢
    refine Option.eq_none_iff_forall_ne_some.2 fun r hr => ?_
    have := hstored k r hr
    grind [Plain, healthKey]
  have hscan : scans handle path = fun k => belongsTo handle k && k.domain == .transport && k.service == "" &&
      hasPrefix k.transport (path ++ "/") := by
    funext k
    rw [scans, hsl.1]
    rfl
  rw [statusHandle, hno, hscan]
  simp only [hsl.1, Bool.not_false, and_self, if_true]
  cases selectRestrictive s _ order <;> rfl

/-- What a path is judged by in one order of the scan, and that every record that decides is it in some order. -/
theorem status_decided (handle) (hpath : path ∈ c.spellings) :
    (∀ order, (∃ k r, Decides s handle path k r ∧ statusHandle s handle .transport path "" order = r.status) ∨
      (¬∃ k r, Decides s handle path k r) ∧
        statusHandle s handle .transport path "" order = { health := .unknown, breaker := .closed }) ∧
    ∀ k r, Decides s handle path k r → ∃ order, statusHandle s handle .transport path "" order = r.status := by
  have hspel : ∀ p ∈ c.spellings, containsSlash p = true ∧
      (legacyTransport p = some "tcp" ∨ legacyTransport p = some "udp") ∨
        containsSlash p = false ∧ (p = "tcp" ∨ p = "udp") := by cases c <;> decide
  rcases hspel path hpath with ⟨hsl, hleg⟩ | ⟨hsl, hbare⟩
  · have hdec : ∀ k r, Decides s handle path k r ↔
        k = transportKey handle path ∧ s.entries.lookup (transportKey handle path) = some r := by
      intro k r
      constructor
      · rintro ⟨hr, hk, -⟩
        rw [scans, if_pos hsl, decide_eq_true_eq] at hk
        exact ⟨hk, hk ▸ hr⟩
      · rintro ⟨rfl, hr⟩
        refine ⟨hr, by simp [scans, hsl], fun k' r' hr' hk' => ?_⟩
        rw [scans, if_pos hsl, decide_eq_true_eq] at hk'
        rw [hk', hr] at hr'
        cases hr'
        simp [outranks]
    simp only [status_of_family hstored hsl hleg, hdec]
    cases s.entries.lookup (transportKey handle path) with
    | none => simp
    | some r => simpa using ⟨RangeOrder.stored _⟩
  · simp only [status_of_bare hstored hbare]
    constructor
    · intro order
      obtain ⟨hsel, hbest⟩ := selectRestrictive_best s (scans handle path) order
      have hall : ∀ k r, s.entries.lookup k = some r → k ∈ order.visit s.entries.keys :=
        fun k r hr => order.mem_visit.2 (mem_keys_iff.2 ⟨r, hr⟩)
      cases hf : selectRestrictive s (scans handle path) order with
      | none =>
        refine .inr ⟨?_, rfl⟩
        rintro ⟨k, r, h⟩
        obtain ⟨found, hin, -⟩ := hbest k (hall k r h.stored) r h.stored h.scanned
        rw [hf] at hin
        cases hin
      | some found =>
        obtain ⟨hr, hscan⟩ := hsel found hf
        refine .inl ⟨found.1, found.2, ⟨hr, hscan, fun k' r' hr' hk' => ?_⟩, rfl⟩
        obtain ⟨found', hin, hnot⟩ := hbest k' (hall k' r' hr') r' hr' hk'
        rw [hf] at hin
        cases hin
        exact hnot
    · intro k r h
      exact ⟨startAt k, by rw [h.selected]; rfl⟩

/-- Every spelling of a class gives the answer of its ledgers, whatever the order of the scans, exactly if it is
clear. -/
theorem spelled_eligible (hpath : path ∈ c.spellings) :
    (∀ orders, transportPathEligible s handle path now orders = !denied s handle now c) ↔
      Clear s handle now c path := by
  have hfam : ∀ p ∈ c.spellings, p ≠ "" ∧ dualStackFamilyPaths p = some c.families := by cases c <;> decide
  obtain ⟨hne, hdual⟩ := hfam path hpath
  obtain ⟨hjd, hrch⟩ := status_decided hstored handle hpath
  have helig : ∀ orders, transportPathEligible s handle path now orders = !denied s handle now c ↔
      bothBlocked s handle now c = true ∨ someGood s handle now c = true ∨
        blocked (pathCapability s handle path now (orders 2)) = blocked (capability s handle now c.any) := by
    intro orders
    rw [transportPathEligible, hdual, denied]
    dsimp only
    rw [capability_eq hstored (.inr (.inl rfl)), capability_eq hstored (.inr (.inr rfl))]
    grind [good, blocked, bothBlocked, someGood]
  simp only [helig, blocked_path hne]
  constructor
  · intro hall
    by_cases hboth : bothBlocked s handle now c = true
    · exact .inr (.inl hboth)
    by_cases hgood : someGood s handle now c = true
    · exact .inr (.inr (.inl hgood))
    have hown : ∀ order, classifyPathCapability (statusHandle s handle .transport path "" order) now =
        !blocked (capability s handle now c.any) := fun order => by
      rw [← ((hall fun _ => order).resolve_left hboth).resolve_left hgood, Bool.not_not]
    refine .inr (.inr (.inr ⟨fun hbad => ?_, fun k r h => ?_⟩))
    · rcases hjd (.stored _) with ⟨k, r, h, -⟩ | ⟨-, hno⟩
      · exact ⟨k, r, h⟩
      · have := hown (.stored _)
        rw [hno, hbad] at this
        cases this
    · obtain ⟨order, hord⟩ := hrch k r h
      rw [← hord, hown]
  · rintro (rfl | hboth | hgood | ⟨hsome, hsame⟩) orders
    · rw [← blocked_path hne, capability_eq hstored (.inl rfl)]
      exact .inr (.inr rfl)
    · exact .inl hboth
    · exact .inr (.inl hgood)
    · refine .inr (.inr ?_)
      rcases hjd (orders 2) with ⟨k, r, h, heq⟩ | ⟨hno, heq⟩
      · rw [heq, hsame k r h, Bool.not_not]
      · rw [heq, Bool.eq_false_iff.2 (mt hsome hno)]
        rfl

end

def eligible (ops : List Op) (path : String) : Bool :=
  transportPathEligible (after 0 0 (plainBreaker 1) ops).store firstNode path 103 fun _ => .stored _

theorem goodFamily_eligible : eligible goodFamily "tcp" = true :=
  ((spelled_eligible (qualified_after (by simp [goodFamily, Genuine])).stored (c := .tcp) (by decide)).2
    (.inr (.inr (.inl (by decide +kernel)))) _).trans (by decide +kernel)

def failedOn (path : String) : List Op := [.observe (transportObservation path .failure) true 1 0]

/-- One family that is known to be bad blocks the bare name, and the ledger of both families does not block `udp`. -/
theorem spellings_differ :
    (eligible (failedOn "tcp/ipv4") "tcp" = false ∧ eligible (failedOn "tcp/ipv4") "tcp/any" = true) ∧
    eligible (failedOn "udp_data/any") "udp" = true ∧ eligible (failedOn "udp_data/any") "udp_data/any" = false := by
  decide +kernel

end SingBox.PathSpellings
