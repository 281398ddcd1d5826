import SingBox.DnsProvenance

namespace SingBox.DnsChecks

open Runs DnsMessages DnsClient DnsProvenance

section

variable {P : Type} [Prefixes P] [Wire]

def accepted (p : Process P) : Bool :=
  match p.call.checker, p.phase with
  | some check, .returned (some m) none _ => check m
  | _, _ => true

structure Indifferent (check : Msg → Bool) : Prop where
  id : ∀ m n, check { m with id := n } = check m
  ttl : ∀ m timeToLive, check (normalizeTTL m timeToLive) = check m
  hints : ∀ question m strategy, check (filterHints question m strategy) = check m
  edns0 : ∀ request m, check (fitEdns0 request m) = check m
  wire : ∀ m raw m', Wire.pack m = some raw → Wire.unpack raw = some m' → check m' = check m

/-- The calls for one question over one transport and with one subnet have one checker. -/
def Agreed (c : Settings P) (agreed : String → Question → P → Option (Msg → Bool)) (call : Call P) : Prop :=
  ∀ question ∈ call.message.question.head?,
    call.checker = agreed call.transport question (effectiveSubnet c call.options call.message)

structure Checked (c : Settings P) (classOf : String → UInt16 → UInt16)
    (agreed : String → Question → P → Option (Msg → Bool)) (call : Call P) : Prop where
  plain : Plain c classOf call
  agreed : Agreed c agreed call
  sent : call.checker.isSome = true → ¬ AnsweredAtOnce call
  indifferent : ∀ check, call.checker = some check → Indifferent check

section

variable {c : Settings P} {call : Call P} {x : Exchange P} {check : Msg → Bool}

theorem check_kept (hcheck : Indifferent check) (hmade : Made c call x) (hchk : x.checker = some check) :
    check x.kept = true := by
  have hacc := hmade.accepted
  rw [hchk, rejects, Bool.or_eq_false_iff, Bool.not_eq_false', Bool.not_eq_false'] at hacc
  rw [hmade.kept, applyResponseOptions, hcheck.ttl, hcheck.hints]
  exact hacc.2

omit [Prefixes P] in
theorem check_served (hcheck : Indifferent check) (hkept : check x.kept = true) {m} (hsrv : Served x m) :
    check m = true := by
  obtain ⟨response, hrsp, hm⟩ := hsrv
  have hload : check response = true := by
    rcases hrsp with rfl | ⟨raw, hpack, hunp⟩
    · exact hkept
    · rw [hcheck.wire _ _ _ hpack hunp, hkept]
  rcases hm with rfl | ⟨timeToLive, rfl⟩
  · exact hload
  · rw [hcheck.ttl, hload]

end

variable [DecidableEq P]

theorem Sound.accepted {c} {classOf : String → UInt16 → UInt16} {agreed : String → Question → P → Option (Msg → Bool)}
    {s : State P} (h : Sound c (Checked c classOf agreed) s) {i : Nat} {p : Process P} (hp : s.processes[i]? = some p)
    {check : Msg → Bool} (hchk : p.call.checker = some check) {m : Msg} {cached : Option Msg}
    (hph : p.phase = .returned (some m) none cached) : check m = true := by
  obtain ⟨hfits, hok⟩ := h.processes i p hp
  have hcheck := hfits.indifferent check hchk
  rw [hph] at hok
  rcases hok.2 m rfl rfl with honce | ⟨m₀, hm₀, hm⟩ | ⟨x, hx, hmade, request, id, rfl⟩
  · exact absurd honce (hfits.sent (by rw [hchk]; rfl))
  · obtain ⟨x, hx, htran, hq, hsub, hsrv⟩ := h.cachedFrom hp (fun call h => h.plain) (hok.1 m₀ hm₀)
    obtain ⟨call', hfits', hmade⟩ := h.made x hx
    -- the exchange had the checker of this call, since both have the same key
    have hsame : x.checker = some check := by
      rw [hmade.checker, hfits'.agreed _ hmade.question, ← hmade.transport, ← hmade.subnet, htran, hsub,
        ← hfits.agreed _ hq, hchk]
    have hsrv := check_served hcheck (check_kept hcheck hmade hsame) hsrv
    rcases hm with rfl | rfl
    · exact hsrv
    · rw [hcheck.id, hsrv]
  · rw [hcheck.edns0, hcheck.id, check_kept hcheck hmade (hmade.checker.trans hchk)]

/-- A call with a checker returns without an error only what its checker accepts. -/
theorem returned_accepted (c : Settings P) (classOf : String → UInt16 → UInt16)
    (agreed : String → Question → P → Option (Msg → Bool)) (es : List (Event P))
    (hcalls : ∀ call, .call call ∈ es → Checked c classOf agreed call) :
    ∀ p ∈ (run (step c) {} es).processes, accepted p = true := by
  have hso : Sound c (Checked c classOf agreed) (run (step c) {} es) := sound_run c hcalls
  intro p hp
  obtain ⟨i, hi⟩ := List.mem_iff_getElem?.1 hp
  rw [accepted]
  split
  · rename_i check m cached hchk hph
    exact Sound.accepted hso hi hchk hph
  · rfl

end

def hasAnswer (m : Msg) : Bool := !m.answer.isEmpty

theorem hasAnswer_indifferent : Indifferent hasAnswer where
  id := fun _ _ => rfl
  ttl := fun m timeToLive => by simp [hasAnswer, normalizeTTL]
  hints := fun question m strategy => by
    cases strategy <;> simp only [filterHints] <;> split <;> simp [hasAnswer]
  edns0 := fun _ _ => rfl
  wire := fun m raw m' hpack hunp => by
    simp only [Wire.pack, Option.ite_none_right_eq_some] at hpack
    simp only [Wire.unpack, Option.ite_none_right_eq_some] at hunp
    rw [hpack.1, ← Option.some.inj hunp.2]

def askedTwice (first second : Option (Msg → Bool)) : List (Event Bool) :=
  [.call { versionCall "dns" 1 false with checker := first }, .start 0 ⟨0, 0, none⟩ false,
   .reply 0 ⟨0, 0, none⟩ (some versionAnswer),
   .call { versionCall "dns" 1 false with checker := second }, .start 1 ⟨0, 5 * Values.second, none⟩ false]

def answeredTwice (first second : Option (Msg → Bool)) : State Bool :=
  run (step { clientSubnet := false }) {} (askedTwice first second)

theorem answeredTwice_accepted :
    ((answeredTwice (some hasAnswer) (some hasAnswer)).processes.map fun p => Phase.cached p.phase) =
        [none, some (normalizeTTL versionAnswer 295)] ∧
      ∀ p ∈ (answeredTwice (some hasAnswer) (some hasAnswer)).processes, accepted p = true := by
  refine ⟨by decide +kernel, returned_accepted { clientSubnet := false } (fun _ _ => 1)
    (fun _ _ _ => some hasAnswer) (askedTwice (some hasAnswer) (some hasAnswer)) fun call hc => ?_⟩
  have hc' : call = { versionCall "dns" 1 false with checker := some hasAnswer } := by
    simpa [askedTwice] using hc
  rw [hc']
  refine ⟨by decide, fun question _ => rfl, fun _ honce => ?_, fun check hcheck => ?_⟩
  · exact absurd (honce _ rfl) (by decide)
  · rw [← Option.some.inj hcheck]
    exact hasAnswer_indifferent

theorem answeredTwice_unchecked :
    ∃ p ∈ (answeredTwice none (some fun m => !hasAnswer m)).processes, accepted p = false := by
  decide +kernel

end SingBox.DnsChecks
