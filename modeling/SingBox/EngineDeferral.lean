import SingBox.EngineSelection

namespace SingBox.EngineDeferral

open Machine Runs EngineScoring EngineMetrics EnginePolicy SmartEngine EngineDecisions EngineSelection

def InUse (e : Engine) (q : Request) : Prop :=
  ∃ current ∈ findIncumbent e.state q.candidates, current.eligible ≠ 0 ∧ current.state ≠ 4

instance (e : Engine) (q : Request) : Decidable (InUse e q) :=
  inferInstanceAs (Decidable (∃ current ∈ findIncumbent e.state q.candidates, _))

/-- The calls that leave the failed line deferred. A decision made while the
failed line is still the remembered one may be any: it can only defer it again. -/
def Calm (failed : UInt64) (e : Engine) : Op → Prop
  | .choose candidates now => e.state.selectedID ≠ failed → InUse e ⟨candidates, now, .interactive⟩
  | .chooseProfile candidates now profile =>
    e.state.selectedID ≠ failed → InUse e ⟨candidates, now, profileOf profile⟩
  | .setSelected id _ => id ≠ failed
  | .adoptSelected .. | .observe .. => True
  | .prune ids => e.state.selectedID ∈ ids
  | .reset => False

instance (failed : UInt64) (e : Engine) : ∀ op, Decidable (Calm failed e op)
  | .choose candidates now =>
    inferInstanceAs (Decidable (e.state.selectedID ≠ failed → InUse e ⟨candidates, now, .interactive⟩))
  | .chooseProfile candidates now profile =>
    inferInstanceAs (Decidable (e.state.selectedID ≠ failed → InUse e ⟨candidates, now, profileOf profile⟩))
  | .setSelected id _ => inferInstanceAs (Decidable (id ≠ failed))
  | .adoptSelected .. | .observe .. => .isTrue trivial
  | .prune ids => inferInstanceAs (Decidable (e.state.selectedID ∈ ids))
  | .reset => .isFalse not_false

structure Deferred (failed : UInt64) (s : State) : Prop where
  deferred : s.deferredID = failed
  failed : failed ≠ 0
  selected : s.selectedID ≠ 0

theorem deferRecovered_of_inUse {failed e} (h : Deferred failed e.state) (hoth : e.state.selectedID ≠ failed) {q}
    (hinUse : InUse e q) : deferRecovered e.state (listed e q) := by
  obtain ⟨current, hcur, helig, hopen⟩ := hinUse
  obtain ⟨hm, hid, hsel⟩ := mem_of_findIncumbent hcur
  have hline := enrich_sameLine e.observations current
  have husab : usable (enrich e.observations current) := by
    rw [usable_iff, hline.id, hline.eligible, hline.state]
    exact ⟨hid ▸ hsel, helig, hopen⟩
  have hls : enrich e.observations current ∈ listed e q := List.mem_map_of_mem hm
  have hname : (enrich e.observations current).id = e.state.selectedID := hline.id.trans hid
  simp only [deferRecovered, Bool.and_eq_true, bne_iff_ne, List.any_eq_true, beq_iff_eq]
  refine ⟨⟨⟨?_, hsel⟩, ⟨_, hls, husab, hname⟩⟩, ⟨_, hls, husab, ?_⟩⟩
  · rw [h.deferred]
    exact h.failed
  · rw [h.deferred, hname]
    exact hoth

section

variable [MathLibrary]

def FailsOver (e : Engine) (q : Request) : Prop :=
  (∃ current ∈ findIncumbent e.state q.candidates, current.state = 4) ∧ (decision e q).switched = 1

instance (e : Engine) (q : Request) : Decidable (FailsOver e q) := inferInstanceAs (Decidable (_ ∧ _))

variable {e : Engine} {q : Request} {failed : UInt64}

theorem ranking_incumbent {r} (h : ranking e q = some r) :
    r.incumbent = (findIncumbent e.state q.candidates).map (enrich e.observations) := by
  rw [(ranking_ranked h).incumbent, listed, findIncumbent_map_enrich]

theorem step_asked {op} (h : op.request = some q) : step e op = { e with state := (answer e q).1 } := by
  cases op with
  | choose | chooseProfile =>
    cases h
    rfl
  | _ => cases h

theorem answer_state (e q) : (answer e q).1.selectedID = e.state.selectedID ∧
      ((answer e q).1.deferredID = e.state.deferredID ∨
        (answer e q).1.deferredID = e.state.selectedID ∧ ¬InUse e q) := by
  cases hrank : ranking e q with
  | none =>
    rw [answer_eq, hrank]
    exact ⟨rfl, .inl rfl⟩
  | some r =>
    have hinc := ranking_incumbent hrank
    have hr := ranking_ranked hrank
    have hout := answer_outcome hrank
    generalize answer e q = out at hout
    generalize verdict e.state e.config r q.now q.profile = v at hout
    cases hout with
    | failover hls hopen =>
      refine ⟨rfl, .inr ⟨(hr.mem_incumbent hls).2, ?_⟩⟩
      rintro ⟨raw, hraw, -, hup⟩
      rw [hls, hraw, Option.map_some, Option.some.injEq] at hinc
      rw [hinc, (enrich_sameLine _ raw).state] at hopen
      exact hup hopen
    | _ => exact ⟨rfl, .inl rfl⟩

theorem deferred_of_failsOver (h : FailsOver e q) : Deferred e.state.selectedID (answer e q).1 := by
  obtain ⟨⟨raw, hraw, hdown⟩, hsw⟩ := h
  obtain ⟨r, hrank, -, hswit⟩ := decision_switches hsw
  have hr := ranking_ranked hrank
  have hsel := hswit.selectedID_ne_zero hr
  have hls : r.incumbent = some (enrich e.observations raw) := by
    rw [ranking_incumbent hrank, Option.mem_def.1 hraw, Option.map_some]
  have hopen : (enrich e.observations raw).state = 4 := (enrich_sameLine _ raw).state.trans hdown
  rw [decision] at hsw
  have hout := answer_outcome hrank
  generalize answer e q = out at hout hsw ⊢
  generalize verdict e.state e.config r q.now q.profile = v at hout
  cases hout with
  | failover hls => exact ⟨(hr.mem_incumbent hls).2, hsel, hsel⟩
  | adopted _ hgone => simp [hls] at hgone
  | confirmed hb =>
    obtain rfl := Option.mem_unique hls hb.listed
    exact absurd hopen hb.notOpen
  | held | best | retained | opened | counted => simp at hsw

theorem Deferred.answer (h : Deferred failed e.state) (hcalm : e.state.selectedID ≠ failed → InUse e q) :
    Deferred failed (answer e q).1 := by
  obtain ⟨hsel, hsame | ⟨hagain, hdown⟩⟩ := answer_state e q
  · exact ⟨hsame.trans h.deferred, h.failed, hsel ▸ h.selected⟩
  · have hfail : e.state.selectedID = failed := by
      by_contra hoth
      exact hdown (hcalm hoth)
    exact ⟨hagain.trans hfail, h.failed, hsel ▸ h.selected⟩

theorem Deferred.step (h : Deferred failed e.state) {op} (hcalm : Calm failed e op) :
    Deferred failed (step e op).state ∧
      (e.state.selectedID ≠ failed → (SmartEngine.step e op).state.selectedID ≠ failed) := by
  cases op with
  | choose | chooseProfile => exact ⟨h.answer hcalm, fun hoth => (answer_state e _).1 ▸ hoth⟩
  | setSelected id now =>
    simp only [SmartEngine.step, setSelected]
    split
    · exact ⟨h, fun hoth => hoth⟩
    case isFalse hid =>
    refine ⟨⟨?_, h.failed, hid⟩, fun _ => hcalm⟩
    have hne : e.state.deferredID ≠ id := by
      rw [h.deferred]
      exact Ne.symm hcalm
    simp only [install, if_neg hne]
    exact h.deferred
  | adoptSelected id now =>
    simp only [SmartEngine.step, adoptSelected, if_pos (Or.inr h.selected)]
    exact ⟨h, fun hoth => hoth⟩
  | observe => exact ⟨h, id⟩
  | prune ids =>
    have hkept : ¬(e.state.selectedID ≠ 0 ∧ e.state.selectedID ∉ ids) := fun hgone => hgone.2 hcalm
    simp only [SmartEngine.step, SmartEngine.prune, if_neg hkept]
    exact ⟨h, id⟩
  | reset => exact hcalm.elim

theorem Deferred.not_named (h : Deferred failed e.state) (hoth : e.state.selectedID ≠ failed) (hinUse : InUse e q) :
    (decision e q).selectedID ≠ failed := by
  rw [decision]
  cases hrank : ranking e q with
  | none =>
    rw [answer_eq, hrank]
    exact Ne.symm h.failed
  | some r =>
    have hr := ranking_ranked hrank
    have hsel : r.selected.id ≠ failed := by
      rw [← h.deferred]
      apply (ranking_putForward hrank).1.ne_deferred (deferRecovered_of_inUse h hoth hinUse)
      rwa [h.deferred]
    have hout := answer_outcome hrank
    generalize SmartEngine.answer e q = out at hout
    generalize verdict e.state e.config r q.now q.profile = v at hout
    cases hout with
    | held hls | retained hls => exact (hr.mem_incumbent hls).2 ▸ hoth
    | opened | counted => exact hoth
    | best | failover | adopted | confirmed => exact hsel

/-- A line that failed in use is not named again while its replacement stays usable. -/
theorem failed_line_stays_out (config : Config) (ops : List Op) (op : Op) (q : Request)
    (hop : op.request = some q) (hfails : FailsOver (after config ops) q) (trace : List Op)
    (id now : UInt64) (hid : id ≠ 0) (hset : Op.setSelected id now ∈ trace)
    (hcalm : Meets step (Calm (after config ops).state.selectedID) (after config (ops ++ [op])) trace)
    (q' : Request) (hinUse : InUse (after config (ops ++ op :: trace)) q') :
    (decision (after config (ops ++ op :: trace)) q').selectedID ≠ (after config ops).state.selectedID := by
  obtain ⟨waiting, later, rfl⟩ := List.append_of_mem hset
  simp only [after, run_append, run_cons, run_nil] at *
  generalize run step (init config) ops = e at *
  generalize hfail : e.state.selectedID = failed at *
  have hstart : Deferred failed (step e op).state := by
    rw [step_asked hop, ← hfail]
    exact deferred_of_failsOver hfails
  generalize step e op = e at *
  obtain ⟨hwt, hoth, hlat⟩ := (meets_append ..).1 hcalm
  have hwait : Deferred failed (run step e waiting).state :=
    run_keeps (I := fun e => Deferred failed e.state) (fun _ _ _ hok h => (h.step hok).1) hstart hwt
  have hset : Deferred failed (step (run step e waiting) (.setSelected id now)).state := (hwait.step hoth).1
  -- From here on another line is remembered, and both facts are kept together.
  obtain ⟨hdef, hleft⟩ := run_keeps
    (I := fun e => Deferred failed e.state ∧ e.state.selectedID ≠ failed)
    (fun _ _ _ hok h => ⟨(h.1.step hok).1, (h.1.step hok).2 h.2⟩)
    ⟨hset, by simpa [step, setSelected, hid, install, Calm] using hoth⟩ hlat
  exact hdef.not_named hleft hinUse

end

def replaced : List Op := [.setSelected 63 3, .choose [line 57 1.0 1 1, line 63 0.0 1 1] 4]

theorem recovered_line_stays_out :
    (decision (after twoConfirm ([.setSelected 57 1] ++ .choose [line 57 1.0 4 1, line 63 1.0 1 1] 2 :: replaced))
      (between (line 57 1.0 1 1) (line 63 0.0 1 1) 5)).selectedID ≠
        (after twoConfirm [.setSelected 57 1]).state.selectedID :=
  failed_line_stays_out twoConfirm [.setSelected 57 1] (.choose [line 57 1.0 4 1, line 63 1.0 1 1] 2) _ rfl
    (by decide +kernel) replaced 63 3 (by decide) List.mem_cons_self (by decide +kernel)
    (between (line 57 1.0 1 1) (line 63 0.0 1 1) 5) (by decide +kernel)

end SingBox.EngineDeferral
