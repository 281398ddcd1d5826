import SingBox.EnginePolicy

namespace SingBox.SmartEngine

open Machine Runs EngineScoring EngineMetrics EnginePolicy

abbrev maxCandidates : Nat := 8192

structure Engine where
  config : Config
  observations : Store := {}
  state : State := {}

def normalizeMargin (margin : Float) : Float :=
  let margin := if !(margin ≥ 0.0) || !isFinite margin then 0.0 else margin
  if margin > 0.95 then 0.95 else margin

def init (config : Config) : Engine :=
  { config :=
      { config with
        exploration :=
          if !(config.exploration ≥ 0.0) || !isFinite config.exploration then 0.0 else config.exploration
        switchMargin := normalizeMargin config.switchMargin
        switchConfirmSamples := if config.switchConfirmSamples = 0 then 1 else config.switchConfirmSamples
        selectionMode := if config.selectionMode > 1 then 0 else config.selectionMode
        minSamples := if config.minSamples = 0 then 3 else config.minSamples } }

def reset (e : Engine) : Engine := { e with observations := {}, state := {} }

def observe (e : Engine) (id : UInt64) (success : Bool) (elapsedMs : Float) (now : UInt64) : Engine :=
  { e with observations := EngineMetrics.observe e.observations id success elapsedMs now }

/-- The host's word that it is connected through `id`. -/
def install (e : Engine) (id now : UInt64) : Engine :=
  { e with
    state :=
      { clearChallenge e.state with
        selectedID := id
        deferredID := if e.state.deferredID = id then 0 else e.state.deferredID
        stickyUntil := if e.config.siteStickinessMs > 0 then satAdd now e.config.siteStickinessMs else 0 } }

def setSelected (e : Engine) (id now : UInt64) : Engine := if id = 0 then e else install e id now

def adoptSelected (e : Engine) (id now : UInt64) : Engine :=
  if id = 0 ∨ e.state.selectedID ≠ 0 then e else install e id now

def prune (e : Engine) (ids : List UInt64) : Engine :=
  { e with
    observations := EngineMetrics.prune e.observations ids
    state := if e.state.selectedID ≠ 0 ∧ e.state.selectedID ∉ ids then {} else e.state }

def profileOf : UInt8 → TrafficProfile
  | 1 => .bulk
  | 2 => .udp
  | _ => .interactive

structure Request where
  candidates : List Candidate
  now : UInt64
  profile : TrafficProfile

inductive Op
  | choose (candidates : List Candidate) (now : UInt64)
  | chooseProfile (candidates : List Candidate) (now : UInt64) (profile : UInt8)
  | setSelected (id now : UInt64)
  | adoptSelected (id now : UInt64)
  | observe (id : UInt64) (success : Bool) (elapsedMs : Float) (now : UInt64)
  | prune (ids : List UInt64)
  | reset

def Op.request : Op → Option Request
  | .choose candidates now => some ⟨candidates, now, .interactive⟩
  | .chooseProfile candidates now profile => some ⟨candidates, now, profileOf profile⟩
  | _ => none

variable [MathLibrary]

/-- A list longer than the engine takes is answered without looking at it. -/
def answer (e : Engine) (q : Request) : State × Decision :=
  if q.candidates.length > maxCandidates then (e.state, noCandidate)
  else chooseProfile e.state e.config e.observations q.candidates q.now q.profile

def decision (e : Engine) (q : Request) : Decision := (answer e q).2

def step (e : Engine) : Op → Engine
  | .choose candidates now => { e with state := (answer e ⟨candidates, now, .interactive⟩).1 }
  | .chooseProfile candidates now profile => { e with state := (answer e ⟨candidates, now, profileOf profile⟩).1 }
  | .setSelected id now => setSelected e id now
  | .adoptSelected id now => adoptSelected e id now
  | .observe id success elapsedMs now => observe e id success elapsedMs now
  | .prune ids => prune e ids
  | .reset => reset e

def after (config : Config) (ops : List Op) : Engine := run step (init config) ops

end SingBox.SmartEngine
