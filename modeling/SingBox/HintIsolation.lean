import SingBox.EbpfMemory
import SingBox.Runs

namespace SingBox.HintIsolation

open Maps Runs EbpfAbi EbpfMemory

/-- A call of `Observe`. The generation is the same in all of them. -/
structure Observation where
  key : Addr
  direct : Bool
  evidence : UInt8
  policyID : UInt32 := 0
  expiresNs : Nat
  nowNs : Nat
  order : RangeOrder Addr := .stored Addr

def step (generation : Nat) (t : DNSHintTable) (o : Observation) : DNSHintTable :=
  observe o.order t o.key o.direct o.evidence o.policyID generation o.expiresNs o.nowNs

/-- The row that makes room for a new one is not that of the key. -/
def Spares (key : Addr) (t : DNSHintTable) (o : Observation) : Prop :=
  let t := prunedFor t o.nowNs
  t.entries.lookup o.key = none → maxDNSHintEntries ≤ t.entries.keys.length →
    (evictOldest o.order t).entries.lookup key = t.entries.lookup key

def Guarded (generation : Nat) (key : Addr) (now : Nat) (t : DNSHintTable) : Prop :=
  ∃ v, t.entries.lookup key = some v ∧ v.generation = generation ∧ v.proxyRefs ≠ 0 ∧
    (v.expiresNs = 0 ∨ now < v.expiresNs)

variable {generation now : Nat} {key : Addr} {t : DNSHintTable} {o : Observation}

theorem lookup_step (hspar : Spares key t o) (hk : key ≠ o.key) :
    (step generation t o).entries.lookup key = (prunedFor t o.nowNs).entries.lookup key := by
  rw [step, observe]
  dsimp only
  rw [lookup_set, if_neg hk]
  split
  · next hfull =>
    rw [Bool.and_eq_true, Option.isNone_iff_eq_none, decide_eq_true_eq] at hfull
    exact hspar hfull.1 hfull.2
  · rfl

theorem guarded_step (hcnt : o.direct = false ∨
      (epochRow ((prunedFor t o.nowNs).entries.lookup o.key) o.evidence o.policyID generation o.nowNs).proxyRefs ≠ 0)
    (hlasts : o.expiresNs = 0 ∨ now < o.expiresNs) : Guarded generation o.key now (step generation t o) := by
  refine ⟨_, AList.lookup_insert _, rfl, ?_, hlasts⟩
  generalize epochRow _ _ _ _ _ = row at hcnt ⊢
  have hcoun : (countRefs o.direct row).proxyRefs ≠ 0 := by
    unfold countRefs bump
    grind
  unfold strengthen
  dsimp only
  split_ifs <;> exact hcoun

theorem Guarded.pruned (h : Guarded generation key now t) {nowNs} (hnow : nowNs ≤ now) :
    Guarded generation key now (prunedFor t nowNs) := by
  obtain ⟨v, hv, hguar⟩ := h
  refine ⟨v, ?_, hguar⟩
  unfold prunedFor pruneExpired dropIf
  split
  · have heras := lookup_foldl_erase id (t.entries.keys.filter fun k => (t.entries.lookup k).any (outdated nowNs)) t.entries key
    rw [if_neg] at heras
    · exact heras.trans hv
    · simp [hv, outdated]
      omega
  · exact hv

theorem Guarded.step (h : Guarded generation key now t) (hspar : Spares key t o) (hnow : o.nowNs ≤ now)
    (hlasts : o.key = key → o.expiresNs = 0 ∨ now < o.expiresNs) :
    Guarded generation key now (step generation t o) := by
  obtain ⟨v, hv, hgen, hproxy, hlive⟩ := h.pruned hnow
  by_cases hk : o.key = key
  · subst hk
    refine guarded_step (.inr ?_) (hlasts rfl)
    rw [hv, epochRow, if_neg]
    · exact hproxy
    · omega
  · exact ⟨v, (lookup_step hspar (Ne.symm hk)).trans hv, hgen, hproxy, hlive⟩

/-- Until a proxy observation expires the row of its key does not allow a direct connection, if no later observation of
the key expires before. -/
theorem proxy_isolated (t : DNSHintTable) (proxy : Observation) (hproxy : proxy.direct = false)
    (later : List Observation) (hnow : now < proxy.expiresNs) (htimes : ∀ o ∈ later, o.nowNs ≤ now)
    (hspares : Meets (step generation) (Spares proxy.key) (step generation t proxy) later)
    (hlasts : ∀ o ∈ later, o.key = proxy.key → o.expiresNs = 0 ∨ now < o.expiresNs) :
    ∀ v ∈ (run (step generation) (step generation t proxy) later).entries.lookup proxy.key,
      (dnsHintAllowsDirect v generation now).1 = false := by
  intro v hv
  obtain ⟨w, hw, -, hrefs, -⟩ := run_keeps (I := Guarded generation proxy.key now)
    (fun _ o ho hspares h => h.step hspares (htimes o ho) (hlasts o ho)) (guarded_step (.inl hproxy) (.inr hnow)) hspares
  obtain rfl := Option.mem_unique hv hw
  unfold dnsHintAllowsDirect
  split_ifs <;> rfl

def seen (direct : Bool) (expiresNs nowNs : Nat) : Observation :=
  { key := .v4 1, direct := direct, evidence := dnsEvidenceStrong, expiresNs := expiresNs, nowNs := nowNs }

theorem later_answer_isolated :
    ∃ v, (run (step 1) (step 1 {} (seen false 1000 1)) [seen true 2000 2]).entries.lookup (.v4 1) = some v ∧
      (dnsHintAllowsDirect v 1 3).1 = false :=
  ⟨_, rfl, proxy_isolated {} (seen false 1000 1) rfl [seen true 2000 2] (by decide) (by decide)
    ⟨fun h => absurd h (by decide), trivial⟩ (by decide) _ rfl⟩

/-- A direct answer that expires first ends the epoch of the row, and the next one allows the key. -/
theorem short_answer_allows :
    ((run (step 1) {} [seen false 1000 1, seen true 10 2, seen true 2000 20]).entries.lookup (.v4 1)).map
      (fun v => (dnsHintAllowsDirect v 1 20).1) = some true := by
  decide +kernel

end SingBox.HintIsolation
