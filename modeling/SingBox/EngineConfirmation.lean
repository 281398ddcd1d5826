import SingBox.EngineSelection

namespace SingBox.EngineConfirmation

open Machine Runs EngineScoring EngineMetrics EnginePolicy SmartEngine EngineDecisions EngineSelection

structure Call where
  engine : Engine
  request : Request

structure Watch where
  engine : Engine
  calls : List Call := []

variable {w : Watch} {q : Request} {op : Op}

section

variable [MathLibrary]

/-- The call's choice beats the incumbent by the margin, and by all else a
switch asks for. -/
def Call.Backs (c : Call) (incumbent challenger : UInt64) : Prop :=
  c.engine.state.selectedID = incumbent ∧
    ∃ r current, ranking c.engine c.request = some r ∧ r.selected.id = challenger ∧
      Beats c.engine.state c.engine.config c.request.now r c.request.profile current

def note (w : Watch) : Op → List Call
  | .choose candidates now => w.calls ++ [⟨w.engine, ⟨candidates, now, .interactive⟩⟩]
  | .chooseProfile candidates now profile => w.calls ++ [⟨w.engine, ⟨candidates, now, profileOf profile⟩⟩]
  | .setSelected id _ => if id = 0 then w.calls else []
  | .adoptSelected id _ => if id = 0 ∨ w.engine.state.selectedID ≠ 0 then w.calls else []
  | .observe .. => w.calls
  | .prune ids => if w.engine.state.selectedID ≠ 0 ∧ w.engine.state.selectedID ∉ ids then [] else w.calls
  | .reset => []

def watch (w : Watch) (op : Op) : Watch := ⟨step w.engine op, note w op⟩

def watched (config : Config) (ops : List Op) : Watch := run watch { engine := init config } ops

theorem watched_engine (config ops) : (watched config ops).engine = after config ops := by
  have hrun (w) : (run watch w ops).engine = run step w.engine ops := by
    induction ops generalizing w with
    | nil => rfl
    | cons op ops ih => exact ih (watch w op)
  exact hrun _

/-- What leaves an open challenge as it is: no candidate can be ranked, the
incumbent is kept by stickiness or is the choice itself, or the choice does not
better it by the margin and the minimum, or comes within the cooldown. -/
def Call.Interrupts (c : Call) : Prop :=
  let e := c.engine
  let q := c.request
  ranking e q = none ∨ ∃ r ∈ ranking e q, (sticky e.state e.config r q.now q.profile).isSome = true ∨
    (e.state.selectedID = 0 ∨ e.state.selectedID = r.selected.id) ∨
    ∃ current ∈ r.incumbent, improvement e.config r q.profile current < switchMargin e.config ∨
      absoluteImprovement r.selected current e.config.switchMinImprovementMs = false ∨ q.now < e.state.cooldownUntil

instance (c : Call) : Decidable c.Interrupts := inferInstanceAs (Decidable (_ ∨ _))

/-- What an open challenge stands for: it is backed by as many decisions as it
has counted, from the time it was opened on. -/
def Backed (w : Watch) : Prop :=
  w.engine.state.challengeSince ≠ 0 → ∃ n first,
    Streak (fun c => c.Backs w.engine.state.selectedID w.engine.state.challengeID) Call.Interrupts w.calls n first ∧
      w.engine.state.challengeCount.toNat ≤ n ∧ first.request.now = w.engine.state.challengeSince

theorem backed_of_closed (h : w.engine.state.challengeSince = 0) : Backed w :=
  absurd h

theorem Backed.pass (hb : Backed w) {c : Call} (h : c.Interrupts) : Backed ⟨w.engine, w.calls ++ [c]⟩ := by
  intro hsince
  obtain ⟨n, first, hstr, hr⟩ := hb hsince
  exact ⟨n, first, hstr.pass h, hr⟩

theorem Backed.request (hb : Backed w) :
    Backed ⟨{ w.engine with state := (answer w.engine q).1 }, w.calls ++ [⟨w.engine, q⟩]⟩ := by
  cases hrank : ranking w.engine q with
  | none =>
    rw [answer_eq, hrank]
    exact hb.pass (.inl hrank)
  | some r =>
    have hout := answer_outcome hrank
    generalize verdict w.engine.state w.engine.config r q.now q.profile = v at hout
    generalize answer w.engine q = out at hout
    have hbacks {current}
        (hbt : Beats w.engine.state w.engine.config q.now r q.profile current) :
        Call.Backs ⟨w.engine, q⟩ w.engine.state.selectedID r.selected.id :=
      ⟨rfl, r, current, hrank, rfl, hbt⟩
    cases hout with
    | held _ _ _ hstic => exact hb.pass (.inr ⟨r, hrank, .inl (by rw [hstic]; rfl)⟩)
    | best hbest => exact hb.pass (.inr ⟨r, hrank, .inr (.inl hbest)⟩)
    | retained hls _ hkept => exact hb.pass (.inr ⟨r, hrank, .inr (.inr ⟨_, hls, hkept⟩)⟩)
    | failover | adopted | confirmed => exact backed_of_closed rfl
    | opened hbt => exact fun _ => ⟨1, _, .start (hbacks hbt), le_rfl, rfl⟩
    | counted hbt hid hsince =>
      obtain ⟨n, first, hstr, hcnt, htime⟩ := hb hsince
      refine fun _ => ⟨n + 1, first, .extend hstr ?_, ?_, htime⟩
      · rw [hid]
        exact hbacks hbt
      · exact (toNat_satSucc_le _).trans (by omega)

theorem watch_unasked (w) (hop : op.request = none) :
    (watch w op).engine.state = w.engine.state ∧ (watch w op).calls = w.calls ∨
      (watch w op).engine.state.challengeSince = 0 := by
  unfold watch step note
  cases op with
  | choose | chooseProfile => cases hop
  | setSelected id now =>
    by_cases hid : id = 0
    · exact .inl ⟨by simp [setSelected, hid], if_pos hid⟩
    · exact .inr (by simp [setSelected, hid, install, clearChallenge])
  | adoptSelected id now =>
    by_cases hid : id = 0 ∨ w.engine.state.selectedID ≠ 0
    · exact .inl ⟨by simp only [adoptSelected, if_pos hid], if_pos hid⟩
    · exact .inr (by simp only [adoptSelected, if_neg hid, install, clearChallenge])
  | observe => exact .inl ⟨rfl, rfl⟩
  | prune ids =>
    by_cases hgone : w.engine.state.selectedID ≠ 0 ∧ w.engine.state.selectedID ∉ ids
    · exact .inr (by simp only [SmartEngine.prune, if_pos hgone])
    · exact .inl ⟨if_neg hgone, if_neg hgone⟩
  | reset => exact .inr rfl

theorem watch_asked (w) (hop : op.request = some q) :
    watch w op = ⟨{ w.engine with state := (answer w.engine q).1 }, w.calls ++ [⟨w.engine, q⟩]⟩ := by
  cases op with
  | choose | chooseProfile =>
    cases hop
    rfl
  | _ => cases hop

theorem Backed.step (hb : Backed w) (op) : Backed (watch w op) := by
  cases hop : op.request with
  | some q =>
    rw [watch_asked w hop]
    exact hb.request
  | none =>
    rcases watch_unasked w hop with ⟨hst, hcs⟩ | hcl
    · rw [Backed, hst, hcs]
      exact hb
    · exact backed_of_closed hcl

theorem backed_after (config ops) : Backed (watched config ops) :=
  run_invariant (fun _ op hb => hb.step op) (backed_of_closed rfl) ops

theorem step_config (e op) : (SmartEngine.step e op).config = e.config := by
  -- The engine is taken apart, so that no side is compared by its observations.
  obtain ⟨config, observations, state⟩ := e
  cases op with
  | setSelected id now =>
    simp only [step, setSelected]
    split <;> rfl
  | adoptSelected id now =>
    simp only [step, adoptSelected]
    split <;> rfl
  | _ => rfl

theorem after_config (config ops) : (after config ops).config = (init config).config :=
  run_invariant (I := fun e => e.config = (init config).config)
    (fun e op => (step_config e op).trans) rfl ops

/-- A switch away from a usable incumbent was backed by enough of the decisions since the challenge was opened, and,
where none of them leaves it as it is, by all of them in a row. -/
theorem switch_confirmed_in_a_row (config : Config) (ops : List Op) (q : Request)
    (husable : ∃ current ∈ findIncumbent (after config ops).state q.candidates,
      current.eligible ≠ 0 ∧ current.state ≠ 4)
    (hswitched : (decision (after config ops) q).switched = 1) :
    ∃ earlier first rest,
      (watched config ops).calls ++ [⟨after config ops, q⟩] = earlier ++ first :: rest ∧
        let Backs (c : Call) := c.Backs (after config ops).state.selectedID (decision (after config ops) q).selectedID
        let samples := (init config).config.switchConfirmSamples.toNat
        first.request.now = (after config ops).state.challengeSince ∧
        (∀ c ∈ first :: rest, Backs c ∨ c.Interrupts) ∧
        (∃ kept : List Call, kept.Sublist (first :: rest) ∧ samples ≤ kept.length ∧ ∀ c ∈ kept, Backs c) ∧
        config.switchConfirmMs.toNat ≤ q.now.toNat - first.request.now.toNat ∧
        (after config ops).state.cooldownUntil ≤ q.now ∧
        ((∀ c ∈ first :: rest, ¬c.Interrupts) → samples ≤ (first :: rest).length ∧ ∀ c ∈ first :: rest, Backs c) := by
  obtain ⟨current, hcur, -, hopen⟩ := husable
  have hconf := after_config config ops
  have hb := backed_after config ops
  rw [Backed, watched_engine] at hb
  generalize after config ops = e at *
  obtain ⟨r, hrank, hto, hsw⟩ := decision_switches hswitched
  have hls : r.incumbent = some (enrich e.observations current) := by
    rw [(ranking_ranked hrank).incumbent, listed, findIncumbent_map_enrich]
    exact congrArg (Option.map _) hcur
  rw [hto]
  cases hsw with
  | adopted _ hgone => simp [hls] at hgone
  | failover hoth hdown =>
    obtain rfl := Option.mem_unique hls hoth
    exact absurd hdown ((enrich_sameLine e.observations current).state ▸ hopen)
  | confirmed hbt hid hsince hcnt hspan =>
    obtain ⟨n, first, hstr, hn, htime⟩ := hb hsince
    rw [hid] at hstr
    have hthis : Call.Backs ⟨e, q⟩ e.state.selectedID r.selected.id := ⟨rfl, r, _, hrank, rfl, hbt⟩
    obtain ⟨earlier, rest, hcs, hall, kept, hkept, hlen, hbacks⟩ := (hstr.extend hthis).split
    have hsamp : (init config).config.switchConfirmSamples.toNat ≤ kept.length := by
      have hle := UInt32.le_iff_toNat_le.1 hcnt
      have hsucc := toNat_satSucc_le e.state.challengeCount
      rw [hconf] at hle
      omega
    refine ⟨earlier, first, rest, hcs, htime, hall, ⟨kept, hkept, hsamp, hbacks⟩, ?_, hbt.cooled, ?_⟩
    · have hle := UInt64.le_iff_toNat_le.1 hspan
      rwa [toNat_satSub, ← htime, hconf] at hle
    · intro hno
      exact ⟨hsamp.trans hkept.length_le, fun c hc => (hall c hc).resolve_right (hno c hc)⟩

end

theorem second_decision_confirms :
    ∃ earlier first rest,
      (watched twoConfirm challengedOnce).calls ++
          [⟨after twoConfirm challengedOnce, between (line 57 0.0 1 1) (line 63 1.0 1 1) 3⟩] =
        earlier ++ first :: rest ∧
        2 ≤ (first :: rest).length ∧ ∀ c ∈ first :: rest, c.Backs (after twoConfirm challengedOnce).state.selectedID
          (decision (after twoConfirm challengedOnce) (between (line 57 0.0 1 1) (line 63 1.0 1 1) 3)).selectedID := by
  obtain ⟨earlier, first, rest, hcs, -, -, -, -, -, hrow⟩ := switch_confirmed_in_a_row twoConfirm challengedOnce
    (between (line 57 0.0 1 1) (line 63 1.0 1 1) 3) (by decide +kernel) (by decide +kernel)
  have hno : ∀ c ∈ (watched twoConfirm challengedOnce).calls ++
      [⟨after twoConfirm challengedOnce, between (line 57 0.0 1 1) (line 63 1.0 1 1) 3⟩], ¬c.Interrupts := by
    decide +kernel
  exact ⟨earlier, first, rest, hcs, hrow fun c hc => hno c (hcs ▸ List.mem_append_right _ hc)⟩

def interrupted : List Op := challengedOnce ++ [.choose [line 57 1.0 1 1, line 63 1.0 1 1] 3]

/-- The incumbent wins the last decision before the switch, and still two
decisions are taken for two in a row. -/
theorem interrupted_challenge_is_confirmed :
    (init twoConfirm).config.switchConfirmSamples = 2 ∧
      (decision (after twoConfirm challengedOnce) (between (line 57 1.0 1 1) (line 63 1.0 1 1) 3)).selectedID = 57 ∧
      (decision (after twoConfirm interrupted) (between (line 57 0.0 1 1) (line 63 1.0 1 1) 4)).selectedID = 63 ∧
      (decision (after twoConfirm interrupted) (between (line 57 0.0 1 1) (line 63 1.0 1 1) 4)).switched = 1 := by
  decide +kernel

end SingBox.EngineConfirmation
