import SingBox.ProbeTally
import SingBox.Runs

namespace SingBox.ProbeRuns

open List Option Values Maps ProbeVerdicts ProbeTally

structure ProbeAggregatorConfig where
  maxPendingRuns : Int
  maxCommittedRuns : Int
  maxSamplesPerRun : Int
  retention : Duration

structure CommittedProbeRun where
  result : ProbeRunResult
  expiresAt : Time

structure ProbeDeadline where
  runID : Nat
  time : Time
  id : Nat
  deriving DecidableEq

/-- `order` lists the committed runs from the front, and `deadlines` is what the heap holds. -/
structure ProbeAggregator where
  config : ProbeAggregatorConfig
  pending : GoMap Nat AggregateProbeRun
  committed : GoMap Nat CommittedProbeRun
  order : List CommittedProbeRun
  deadlines : List ProbeDeadline
  nextID : Nat

def newProbeAggregator (config : ProbeAggregatorConfig) : ProbeAggregator :=
  { config :=
      { maxPendingRuns := if config.maxPendingRuns ≤ 0 then 128 else config.maxPendingRuns
        maxCommittedRuns := if config.maxCommittedRuns ≤ 0 then 256 else config.maxCommittedRuns
        maxSamplesPerRun := if config.maxSamplesPerRun ≤ 0 then 4096 else config.maxSamplesPerRun
        retention := if config.retention ≤ 0 then 600 * second else config.retention }
    pending := ∅
    committed := ∅
    order := []
    deadlines := []
    nextID := 0 }

inductive ProbeAggregateDisposition
  | accepted
  | duplicate
  | late
  | stale
  | backpressure
  deriving DecidableEq

def errProbeTargetExpired : String := "adaptive probe target snapshot is expired"
def errProbeRunBackpressure : String := "adaptive probe aggregator pending capacity is full"
def errProbeRunTooLarge : String := "adaptive probe run exceeds sample capacity"
def errProbeRunUnknown : String := "adaptive probe run is unknown"
def errProbeSampleIdentity : String := "adaptive probe sample identity mismatch"
def errProbeSampleTargetUnknown : String := "adaptive probe sample target is unknown"

def minimumProbeTargetValidity : Duration := 30 * second

/-- The loop over the nodes of a spec; `none` is `nil`. -/
def validateNodes (seen : List NodeHandle) : List NodeHandle → Option String
  | [] => none
  | node :: nodes =>
    if node.nodeID = 0 ∨ node.slot = 0 ∨ node.version = 0 then some errProbeSampleIdentity
    else if node ∈ seen then some "adaptive probe run contains duplicate node"
    else validateNodes (node :: seen) nodes

def validateTargets (spec : ProbeRunSpec) (now : Time) (seen : List ProbeTargetID) :
    List ProbeTargetDescriptor → Option String
  | [] => none
  | target :: targets =>
    if target.generation ≠ spec.targetGeneration ∨ target.id = 0 then some errProbeSampleTargetUnknown
    else if now < target.issuedAt ∨ sub target.expiresAt spec.deadline < minimumProbeTargetValidity then
      some errProbeTargetExpired
    else if (spec.suite = .endpointRecovery ∧ target.capability ≠ .endpoint) ∨
        (spec.suite = .serviceCapability ∧ target.capability = .endpoint) then
      some "adaptive probe target capability is incompatible with suite"
    else if target.id ∈ seen then some "adaptive probe run contains duplicate target"
    else validateTargets spec now (target.id :: seen) targets

def validateProbeRunSpec (spec : ProbeRunSpec) (maxSamples : Int) (now : Time) : Option String :=
  if spec.runID = 0 ∨ spec.runtimeEpochID = 0 ∨ spec.catalogRevision = 0 ∨ spec.sourceGeneration = 0 ∨
      spec.targetGeneration = 0 ∨ isZero spec.deadline ∨ spec.nodes = [] ∨ spec.targets = [] then
    some "adaptive probe run identity is incomplete"
  else if spec.suite ≠ .endpointRecovery ∧ spec.suite ≠ .serviceCapability then
    some "adaptive probe suite class is invalid"
  else if (spec.suite = .serviceCapability ∧ spec.serviceID = "") ∨
      (spec.suite = .endpointRecovery ∧ spec.serviceID ≠ "") then
    some "adaptive probe suite service scope is invalid"
  else if spec.suite = .endpointRecovery ∧ spec.source ≠ .probe then
    some "adaptive endpoint suite requires probe source"
  else if spec.suite = .serviceCapability ∧ spec.source ≠ .http ∧ spec.source ≠ .tls then
    some "adaptive service suite requires HTTP or TLS source"
  else if spec.quorum ≤ 0 ∨ spec.quorum > spec.targets.length then some "adaptive probe quorum is invalid"
  else if spec.deadline ≤ now then some "adaptive probe run deadline has passed"
  else if (spec.nodes.length : Int) > maxSamples ∨
      (spec.targets.length : Int) > Int.tdiv maxSamples spec.nodes.length then
    some errProbeRunTooLarge
  else (validateNodes [] spec.nodes).or (validateTargets spec now [] spec.targets)

def newRun (spec : ProbeRunSpec) (now : Time) (deadlineID : Nat) : AggregateProbeRun :=
  { spec := spec
    startedAt := now
    nodes := spec.nodes.foldl (fun nodes node => nodes.insert node ()) ∅
    targets := spec.targets.foldl (fun targets target => targets.insert target.id target) ∅
    samples := ∅
    deadlineID := deadlineID }

def deadlineOf (run : AggregateProbeRun) : ProbeDeadline := ⟨run.spec.runID, run.spec.deadline, run.deadlineID⟩

variable (a : ProbeAggregator) (w : Surroundings)

def removeBack (oldest : CommittedProbeRun) : ProbeAggregator :=
  { a with committed := a.committed.erase oldest.result.runID, order := a.order.dropLast }

/-- `for len(a.committed) > a.config.MaxCommittedRuns`, at most as often as the list has elements. -/
def evictCommitted : Nat → ProbeAggregator → ProbeAggregator
  | 0, a => a
  | n + 1, a =>
    if (a.committed.keys.length : Int) > a.config.maxCommittedRuns then
      match a.order.getLast? with
      | none => a
      | some oldest => evictCommitted n (removeBack a oldest)
    else a

def commitLocked (run : AggregateProbeRun) (now : Time) (orders : RangeOrders) :
    ProbeAggregator × ProbeRunResult :=
  let result := aggregateProbeVerdicts run orders now
  let record : CommittedProbeRun := ⟨result, now + a.config.retention⟩
  let a := { a with
    pending := a.pending.erase run.spec.runID
    deadlines := a.deadlines.erase (deadlineOf run)
    order := record :: a.order
    committed := a.committed.insert result.runID record }
  (evictCommitted a.order.length a, result)

/-- The loop over the committed runs read from the back. -/
def dropExpired (now : Time) : List CommittedProbeRun → ProbeAggregator → ProbeAggregator
  | [], a => a
  | record :: records, a => if now < record.expiresAt then a else dropExpired now records (removeBack a record)

/-- What a call reads besides its arguments: the clock, the order of equal
deadlines in the heap, and the orders of the loops for each run it commits. -/
structure Surroundings where
  now : Time
  pops : RangeOrder ProbeDeadline
  orders : Nat → RangeOrders

def expireRun (a : ProbeAggregator) (item : ProbeDeadline) : ProbeAggregator :=
  match a.pending.lookup item.runID with
  | some run => if run.deadlineID = item.id then (commitLocked a run w.now (w.orders item.runID)).1 else a
  | none => a

/-- The heap gives the deadlines that have passed in their order. A run that is
committed here has no deadline in the heap any more. -/
def expireLocked : ProbeAggregator :=
  let due := ((w.pops.visit a.deadlines).filter fun item => decide (item.time ≤ w.now)).insertionSort
    fun x y => x.time ≤ y.time
  let a := { a with deadlines := a.deadlines.filter fun item => decide (w.now < item.time) }
  let a := due.foldl (expireRun w) a
  dropExpired w.now a.order.reverse a

def begin_ (spec : ProbeRunSpec) :
    ProbeAggregator × Option ProbeAggregateDisposition × Option String :=
  match validateProbeRunSpec spec a.config.maxSamplesPerRun w.now with
  | some message => (a, none, some message)
  | none =>
    let a := expireLocked a w
    if (a.pending.lookup spec.runID).isSome ∨ (a.committed.lookup spec.runID).isSome then (a, some .duplicate, none)
    else if (a.pending.keys.length : Int) ≥ a.config.maxPendingRuns then
      (a, some .backpressure, some errProbeRunBackpressure)
    else
      let run := newRun spec w.now (succ64 a.nextID)
      ({ a with
        nextID := succ64 a.nextID
        pending := a.pending.insert spec.runID run
        deadlines := deadlineOf run :: a.deadlines }, some .accepted, none)

def sampleIdentityMatches (run : AggregateProbeRun) (sample : ProbeSample) : Bool :=
  if sample.suite ≠ run.spec.suite ∨ sample.serviceID ≠ run.spec.serviceID ∨
      sample.runtimeEpochID ≠ run.spec.runtimeEpochID ∨ sample.catalogRevision ≠ run.spec.catalogRevision ∨
      sample.sourceGeneration ≠ run.spec.sourceGeneration ∨ sample.targetGeneration ≠ run.spec.targetGeneration ∨
      isZero sample.time ∨ sample.time < run.startedAt ∨ sample.time > run.spec.deadline then false
  else if (run.nodes.lookup sample.handle).isNone then false
  else
    match run.targets.lookup sample.targetID with
    | none => false
    | some target =>
      if sample.capability ≠ target.capability then false
      else if run.spec.suite = .endpointRecovery ∧
          (sample.sampleClass = .blocked ∨ sample.failure = .tls ∨ sample.failure = .httpBlock) then false
      else
        match sample.sampleClass with
        | .success => sample.failure == .none
        | .blocked => sample.failure == .httpBlock
        | .nodeFailure | .targetFault => sample.failure != .none && sample.failure != .canceled
        | .deferred => sample.failure == .none || sample.failure == .canceled
        | .other => false

/-- `guarded` is the answer of the guard, or that there is none. -/
def ingest (sample : ProbeSample) (guarded : Bool) :
    ProbeAggregator × ProbeAggregateDisposition × Option String :=
  let a := expireLocked a w
  match a.pending.lookup sample.runID with
  | none =>
    if (a.committed.lookup sample.runID).isSome then (a, .late, none) else (a, .stale, some errProbeRunUnknown)
  | some run =>
    if !sampleIdentityMatches run sample || !guarded then (a, .stale, some errProbeSampleIdentity)
    else if (run.samples.lookup sample.key).isSome then (a, .duplicate, none)
    else if (run.samples.keys.length : Int) ≥ a.config.maxSamplesPerRun then
      (a, .backpressure, some errProbeRunBackpressure)
    else
      ({ a with
        pending := a.pending.insert sample.runID { run with samples := run.samples.insert sample.key sample } },
        .accepted, none)

def complete (runID : Nat) : ProbeAggregator × Except String ProbeRunResult :=
  let a := expireLocked a w
  match a.committed.lookup runID with
  | some record => (a, .ok record.result)
  | none =>
    match a.pending.lookup runID with
    | none => (a, .error errProbeRunUnknown)
    | some run =>
      let (a, result) := commitLocked a run w.now (w.orders runID)
      (a, .ok result)

def abort (runID : Nat) : ProbeAggregator :=
  match a.pending.lookup runID with
  | none => a
  | some run => { a with pending := a.pending.erase runID, deadlines := a.deadlines.erase (deadlineOf run) }

def result (runID : Nat) : ProbeAggregator × Option ProbeRunResult :=
  let a := expireLocked a w
  (a, (a.committed.lookup runID).map (·.result))

inductive Op
  | begin_ (spec : ProbeRunSpec)
  | ingest (sample : ProbeSample) (guarded : Bool)
  | complete (runID : Nat)
  | abort (runID : Nat)
  | result (runID : Nat)
  | stats

structure Call where
  surroundings : Surroundings
  op : Op

def step (c : Call) : ProbeAggregator :=
  match c.op with
  | .begin_ spec => (begin_ a c.surroundings spec).1
  | .ingest sample guarded => (ingest a c.surroundings sample guarded).1
  | .complete runID => (complete a c.surroundings runID).1
  | .abort runID => abort a runID
  | .result runID => (result a c.surroundings runID).1
  | .stats => expireLocked a c.surroundings

def Keyed : Prop := ∀ id run, a.pending.lookup id = some run → run.spec.runID = id

structure Settles (id : Nat) (now : Time) (a a' : ProbeAggregator) : Prop where
  config : a'.config = a.config
  keyed : Keyed a → Keyed a'
  moved : (a'.pending.lookup id = a.pending.lookup id ∧
      (a'.committed.lookup id = a.committed.lookup id ∨ a'.committed.lookup id = none)) ∨
    ∃ run orders, a.pending.lookup id = some run ∧ a'.pending.lookup id = none ∧
      ∀ record, a'.committed.lookup id = some record → record.result = aggregateProbeVerdicts run orders now

variable {run : AggregateProbeRun} {s : ProbeSample}

namespace Settles

variable {id : Nat} {now : Time} {a b c : ProbeAggregator}

theorem refl (a) : Settles id now a a := ⟨rfl, fun h => h, .inl ⟨rfl, .inl rfl⟩⟩

theorem trans (hab : Settles id now a b) (hbc : Settles id now b c) : Settles id now a c := by
  refine ⟨hbc.config.trans hab.config, fun h => hbc.keyed (hab.keyed h), ?_⟩
  rcases hab.moved with ⟨hp, hc⟩ | ⟨run, orders, hrun, hp, hres⟩
  · rcases hbc.moved with ⟨hp', hc'⟩ | ⟨run, orders, hrun, hp', hres⟩
    · refine .inl ⟨hp'.trans hp, ?_⟩
      rcases hc' with hc' | hc'
      · rcases hc with hc | hc
        · exact .inl (hc'.trans hc)
        · exact .inr (hc'.trans hc)
      · exact .inr hc'
    · exact .inr ⟨run, orders, hp ▸ hrun, hp', hres⟩
  · rcases hbc.moved with ⟨hp', hc'⟩ | ⟨run', orders', hrun', -, -⟩
    · refine .inr ⟨run, orders, hrun, hp'.trans hp, fun record hrec => hres record ?_⟩
      rcases hc' with hc' | hc'
      · exact hc' ▸ hrec
      · rw [hc'] at hrec
        cases hrec
    · rw [hp] at hrun'
      cases hrun'

theorem removeBack (a oldest) : Settles id now a (removeBack a oldest) := by
  refine ⟨rfl, fun h => h, .inl ⟨rfl, ?_⟩⟩
  rw [ProbeRuns.removeBack, lookup_del]
  split
  · exact .inr rfl
  · exact .inl rfl

theorem evictCommitted (n a) : Settles id now a (evictCommitted n a) := by
  induction n generalizing a with
  | zero => exact refl a
  | succ n ih =>
    rw [ProbeRuns.evictCommitted]
    split
    · split
      · exact refl a
      · exact (removeBack a _).trans (ih _)
    · exact refl a

theorem commitLocked {orders} (hrun : a.pending.lookup run.spec.runID = some run) :
    Settles id now a (commitLocked a run now orders).1 := by
  rw [ProbeRuns.commitLocked]
  refine Settles.trans ?_ (evictCommitted ..)
  refine ⟨rfl, ?_, ?_⟩
  · exact fun h id' run' hrun' => h id' run' (erase_submap _ _ _ _ hrun')
  · rw [lookup_del, lookup_set]
    by_cases hid : id = run.spec.runID
    · refine .inr ⟨run, orders, hid ▸ hrun, if_pos hid, fun record hrec => ?_⟩
      have hown : id = (aggregateProbeVerdicts run orders now).runID := hid
      rw [if_pos hown] at hrec
      rw [← some.inj hrec]
    · have hoth : id ≠ (aggregateProbeVerdicts run orders now).runID := hid
      rw [if_neg hid, if_neg hoth]
      exact .inl ⟨rfl, .inl rfl⟩

theorem expireRun {w} (h : Keyed a) (item) : Settles id w.now a (expireRun w a item) := by
  rw [ProbeRuns.expireRun]
  split
  · rename_i run hrun
    split
    · exact commitLocked ((h _ _ hrun).symm ▸ hrun)
    · exact refl a
  · exact refl a

theorem dropExpired (now' records a) : Settles id now a (dropExpired now' records a) := by
  induction records generalizing a with
  | nil => exact refl a
  | cons record records ih =>
    rw [ProbeRuns.dropExpired]
    split
    · exact refl a
    · exact (removeBack a record).trans (ih _)

theorem expireLocked (h : Keyed a) (w) : Settles id w.now a (expireLocked a w) := by
  rw [ProbeRuns.expireLocked]
  refine .trans (foldlRecOn (motive := fun b => Keyed b ∧ Settles id w.now a b) _ _ ?_ ?_).2 (dropExpired ..)
  · exact ⟨h, rfl, fun h => h, .inl ⟨rfl, .inl rfl⟩⟩
  · intro b hb item _
    have hone : Settles id w.now b (ProbeRuns.expireRun w b item) := expireRun hb.1 item
    exact ⟨hone.keyed hb.1, hb.2.trans hone⟩

end Settles

section

variable {a a' : ProbeAggregator}

theorem ingest_cases (a w s guarded) :
    ((ingest a w s guarded).2.1 ≠ .accepted ∧ (ingest a w s guarded).1 = expireLocked a w) ∨
      ∃ run, (expireLocked a w).pending.lookup s.runID = some run ∧ sampleIdentityMatches run s = true ∧
        run.samples.lookup s.key = none ∧ (ingest a w s guarded).2.1 = .accepted ∧
        (ingest a w s guarded).1 = { expireLocked a w with
          pending := (expireLocked a w).pending.insert s.runID
            { run with samples := run.samples.insert s.key s } } := by
  rw [ingest]
  split
  · split
    · exact .inl ⟨nofun, rfl⟩
    · exact .inl ⟨nofun, rfl⟩
  · rename_i run hrun
    split
    · exact .inl ⟨nofun, rfl⟩
    rename_i hvalid
    split
    · exact .inl ⟨nofun, rfl⟩
    rename_i hf
    split
    · exact .inl ⟨nofun, rfl⟩
    refine .inr ⟨run, hrun, ?_, not_isSome_iff_eq_none.1 hf, rfl, rfl⟩
    simp only [Bool.or_eq_true, Bool.not_eq_true', not_or, Bool.not_eq_false] at hvalid
    exact hvalid.1

theorem keyed_insert (h : Keyed a) {id} (hp : a'.pending = a.pending.insert id run) (hid : run.spec.runID = id) :
    Keyed a' := by
  intro id' run' hrun'
  rw [hp] at hrun'
  rcases lookup_of_insert hrun' with ⟨rfl, rfl⟩ | ⟨-, hrun'⟩
  · exact hid
  · exact h id' run' hrun'

def takenBy (id : Nat) (a : ProbeAggregator) (c : Call) : List ProbeSample :=
  match c.op with
  | .ingest s guarded => if s.runID = id ∧ (ingest a c.surroundings s guarded).2.1 = .accepted then [s] else []
  | _ => []

def Alone (id : Nat) (a : ProbeAggregator) (c : Call) : Prop :=
  match c.op with
  | .begin_ spec => spec.runID = id → (begin_ a c.surroundings spec).2.1 ≠ some .accepted
  | .abort runID => runID ≠ id
  | _ => True

theorem begin_cases (a w spec) : (begin_ a w spec).1 = a ∨ (begin_ a w spec).1 = expireLocked a w ∨
      ((begin_ a w spec).2.1 = some .accepted ∧ (begin_ a w spec).1 = { expireLocked a w with
          nextID := succ64 (expireLocked a w).nextID
          pending := (expireLocked a w).pending.insert spec.runID (newRun spec w.now (succ64 (expireLocked a w).nextID))
          deadlines := deadlineOf (newRun spec w.now (succ64 (expireLocked a w).nextID)) ::
            (expireLocked a w).deadlines }) := by
  rw [begin_]
  split
  · exact .inl rfl
  dsimp only
  split
  · exact .inr (.inl rfl)
  split
  · exact .inr (.inl rfl)
  · exact .inr (.inr ⟨rfl, rfl⟩)

theorem step_settles {id} (hk : Keyed a) {c} (halone : Alone id a c) (hno : takenBy id a c = []) :
    Settles id c.surroundings.now a (step a c) := by
  obtain ⟨w, op⟩ := c
  have hexp : Settles id w.now a (expireLocked a w) := .expireLocked hk w
  have hk' := hexp.keyed hk
  rw [step]
  cases op with
  | begin_ spec =>
    dsimp only
    rcases begin_cases a w spec with hst | hst | ⟨hacc, hst⟩ <;> rw [hst]
    · exact .refl a
    · exact hexp
    refine hexp.trans ⟨rfl, fun h => keyed_insert h rfl rfl, .inl ⟨?_, .inl rfl⟩⟩
    rw [lookup_set, if_neg fun heq => halone heq.symm hacc]
  | ingest s guarded =>
    dsimp only
    rcases ingest_cases a w s guarded with ⟨-, hst⟩ | ⟨run, hrun, -, -, hans, hst⟩ <;> rw [hst]
    · exact hexp
    have hown : run.spec.runID = s.runID := hk' _ _ hrun
    refine hexp.trans ⟨rfl, fun h => keyed_insert h rfl hown, .inl ⟨?_, .inl rfl⟩⟩
    rw [lookup_set, if_neg]
    rintro rfl
    cases (if_pos ⟨rfl, hans⟩).symm.trans hno
  | complete runID =>
    dsimp only
    rw [complete]
    split
    · exact hexp
    split
    · exact hexp
    · rename_i run hrun
      exact hexp.trans (.commitLocked ((hk' _ _ hrun).symm ▸ hrun))
  | abort runID =>
    dsimp only
    rw [abort]
    split
    · exact .refl a
    refine ⟨rfl, fun h id' run' hrun' => h id' run' (erase_submap _ _ _ _ hrun'), .inl ⟨?_, .inl rfl⟩⟩
    rw [lookup_del, if_neg fun heq => halone heq.symm]
  | result | stats => exact hexp

theorem keyed_step (h : Keyed a) (c) : Keyed (step a c) := by
  -- there are runs that the call is not about
  have hoth : ∃ id, Alone id a c ∧ takenBy id a c = [] := by
    obtain ⟨w, op⟩ := c
    cases op with
    | begin_ spec => exact ⟨spec.runID + 1, fun heq => absurd heq (Nat.succ_ne_self _).symm, rfl⟩
    | ingest s guarded => exact ⟨s.runID + 1, trivial, if_neg fun hboth => absurd hboth.1 (Nat.succ_ne_self _).symm⟩
    | abort runID => exact ⟨runID + 1, (Nat.succ_ne_self _).symm, rfl⟩
    | complete | result | stats => exact ⟨0, trivial, rfl⟩
  obtain ⟨id, halone, hno⟩ := hoth
  exact (step_settles h halone hno).keyed h

end

def Held (spec : ProbeRunSpec) (first : AggregateProbeRun) (samples : List ProbeSample)
    (m : GoMap SampleKey ProbeSample) : Prop :=
  Holding spec samples { first with samples := m } ∧
    ∀ s ∈ samples, sampleIdentityMatches first s = true

def Reached (spec : ProbeRunSpec) (first : AggregateProbeRun) (samples : List ProbeSample) (r : ProbeRunResult) :
    Prop :=
  ∃ m orders now, Held spec first samples m ∧ r = aggregateProbeVerdicts { first with samples := m } orders now

def Stands (spec : ProbeRunSpec) (first : AggregateProbeRun) (samples : List ProbeSample) (a : ProbeAggregator) :
    Prop :=
  (∃ m, a.pending.lookup spec.runID = some { first with samples := m } ∧ Held spec first samples m ∧
      a.committed.lookup spec.runID = none) ∨
    (a.pending.lookup spec.runID = none ∧
      ∀ record, a.committed.lookup spec.runID = some record → Reached spec first samples record.result)

structure Tracked (spec : ProbeRunSpec) (first : AggregateProbeRun) (samples : List ProbeSample)
    (a : ProbeAggregator) : Prop where
  keyed : Keyed a
  room : ((spec.nodes.length * spec.targets.length : Nat) : Int) ≤ a.config.maxSamplesPerRun
  kept : ∃ m, Held spec first samples m
  stands : Stands spec first samples a

section

variable {spec : ProbeRunSpec} {first : AggregateProbeRun} {samples : List ProbeSample} {a a' : ProbeAggregator}

theorem Tracked.settles (h : Tracked spec first samples a) {now} (hs : Settles spec.runID now a a') :
    Tracked spec first samples a' := by
  refine ⟨hs.keyed h.keyed, hs.config ▸ h.room, h.kept, ?_⟩
  rcases h.stands with ⟨m, hp, hheld, hc⟩ | ⟨hp, hres⟩
  · rcases hs.moved with ⟨hp', hc'⟩ | ⟨run, orders, hrun, hp', hres⟩
    · refine .inl ⟨m, hp'.trans hp, hheld, ?_⟩
      rcases hc' with hc' | hc'
      · exact hc'.trans hc
      · exact hc'
    · obtain rfl := mem_unique hp hrun
      exact .inr ⟨hp', fun record hrec => ⟨m, orders, now, hheld, hres record hrec⟩⟩
  · rcases hs.moved with ⟨hp', hc'⟩ | ⟨run, orders, hrun, -, -⟩
    · refine .inr ⟨hp'.trans hp, fun record hrec => hres record ?_⟩
      rcases hc' with hc' | hc'
      · exact hc' ▸ hrec
      · rw [hc'] at hrec
        cases hrec
    · rw [hp] at hrun
      cases hrun

theorem held_snoc {m} (h : Held spec first samples m) (hvalid : sampleIdentityMatches first s = true)
    (hf : m.lookup s.key = none) (hkn : s.handle ∈ spec.nodes ∧ s.targetID ∈ spec.targets.map (·.id))
    (hclass : s.sampleClass ≠ .other) : Held spec first (samples ++ [s]) (m.insert s.key s) := by
  obtain ⟨hold, hval⟩ := h
  have hnew : ∀ s' ∈ samples, s'.key ≠ s.key := by
    intro s' hs' hke
    have hfil := (hold.filed s.key s').2 ⟨hs', hke⟩
    rw [hf] at hfil
    cases hfil
  refine ⟨⟨hold.spec_eq, hold.nodes, hold.targets, ?_, ?_, ?_, ?_⟩, ?_⟩
  · rw [map_append, nodup_append]
    refine ⟨hold.distinct, nodup_singleton _, ?_⟩
    intro k hk k' hk'
    obtain ⟨s', hs', rfl⟩ := mem_map.1 hk
    rw [mem_singleton.1 hk']
    exact hnew s' hs'
  · intro k s'
    have hfil := hold.filed k s'
    rw [lookup_set, mem_append, mem_singleton]
    split
    · rename_i hk
      constructor
      · intro heq
        obtain rfl := some.inj heq
        exact ⟨.inr rfl, hk.symm⟩
      · rintro ⟨hs' | rfl, hke⟩
        · exact absurd (hke.trans hk) (hnew s' hs')
        · rfl
    · rename_i hk
      rw [hfil]
      constructor
      · exact fun hs' => ⟨.inl hs'.1, hs'.2⟩
      · rintro ⟨hs' | rfl, hke⟩
        · exact ⟨hs', hke⟩
        · exact absurd hke.symm hk
  · intro s' hs'
    rcases mem_append.1 hs' with hs' | hs'
    · exact hold.known s' hs'
    · rw [mem_singleton.1 hs']
      exact hkn
  · intro s' hs'
    rcases mem_append.1 hs' with hs' | hs'
    · exact hold.classed s' hs'
    · rw [mem_singleton.1 hs']
      exact hclass
  · intro s' hs'
    rcases mem_append.1 hs' with hs' | hs'
    · exact hval s' hs'
    · rw [mem_singleton.1 hs']
      exact hvalid

theorem known_of_matches (h : sampleIdentityMatches run s = true) :
    s.handle ∈ run.nodes.keys ∧ s.targetID ∈ run.targets.keys ∧ s.sampleClass ≠ .other := by
  rw [sampleIdentityMatches] at h
  split at h
  · cases h
  split at h
  · cases h
  rename_i hn
  rw [isNone_iff_eq_none, ← ne_eq, ne_none_iff_exists'] at hn
  split at h
  · cases h
  rename_i target htgt
  refine ⟨mem_keys_iff.2 hn, mem_keys_iff.2 ⟨target, htgt⟩, fun hoth => ?_⟩
  rw [hoth] at h
  split at h
  · cases h
  · split at h <;> cases h

theorem matches_samples (first m s) :
    sampleIdentityMatches { first with samples := m } s = sampleIdentityMatches first s := rfl

theorem Tracked.step (h : Tracked spec first samples a) {c} (halone : Alone spec.runID a c) :
    Tracked spec first (samples ++ takenBy spec.runID a c) (step a c) := by
  by_cases hnone : takenBy spec.runID a c = []
  · rw [hnone, append_nil]
    exact h.settles (step_settles h.keyed halone hnone)
  have hk := keyed_step h.keyed c
  obtain ⟨w, op⟩ := c
  cases op with
  | ingest s guarded =>
    have hexp := h.settles (Settles.expireLocked h.keyed w)
    have htk : s.runID = spec.runID ∧ (ingest a w s guarded).2.1 = .accepted := by
      by_contra hno
      exact hnone (if_neg hno)
    obtain ⟨hid, hans⟩ := htk
    rcases ingest_cases a w s guarded with ⟨hno, -⟩ | ⟨run, hrun, hvalid, hf, -, hst⟩
    · exact absurd hans hno
    rw [hid] at hrun
    rcases hexp.stands with ⟨m, hp, hheld, hc⟩ | ⟨hp, -⟩
    · obtain rfl := mem_unique hp hrun
      obtain ⟨hn, htgt, hclass⟩ := known_of_matches hvalid
      have hheld' : Held spec first (samples ++ [s]) (m.insert s.key s) :=
        held_snoc hheld hvalid hf
          ⟨hheld.1.nodes.mem_iff.1 hn, hheld.1.targets.mem_iff.1 htgt⟩ hclass
      rw [takenBy]
      dsimp only
      rw [if_pos ⟨hid, hans⟩]
      rw [ProbeRuns.step] at hk ⊢
      dsimp only at hk ⊢
      rw [hst] at hk ⊢
      refine ⟨hk, hexp.room, ⟨_, hheld'⟩, .inl ⟨m.insert s.key s, ?_, hheld', hc⟩⟩
      rw [lookup_set, if_pos hid.symm]
    · rw [hp] at hrun
      cases hrun
  | begin_ | complete | abort | result | stats => exact absurd rfl hnone

end

end SingBox.ProbeRuns
