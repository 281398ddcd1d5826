import SingBox.Maps
import SingBox.Runs

namespace SingBox.OutboundManager

open List Option Maps Runs

/-- `id` tells the instances apart, as their addresses do. -/
structure Outbound (O : Type) where
  id : Nat
  tag : String
  kind : String
  options : O
  dependencies : List String
  deriving DecidableEq

/-- `closed` are the instances whose `Close` was called, `created` counts the instances made. -/
structure Manager (O : Type) where
  defaultTag : String
  started : Bool
  endpoint : String → Option (Outbound O)
  outbounds : List (Outbound O) := []
  outboundByTag : GoMap String (Outbound O) := ∅
  dependByTag : GoMap String (List String) := ∅
  defaultOutbound : Option (Outbound O) := none
  closed : List Nat := []
  created : Nat := 0

inductive Fault
  | invalid
  | construct
  | start
  | close
  | indexMissing
  | defaultMissing
  | depended (by_ : List String)
  deriving DecidableEq

/-- What a constructor makes of the options, and which of the calls that can fail succeed. -/
structure Making where
  dependencies : List String := []
  constructs : Bool := true
  starts : Bool := true
  closes : Bool := true

def dependents (index : GoMap String (List String)) (d : String) : List String := (index.lookup d).getD []

def addDependent (tag : String) (index : GoMap String (List String)) (d : String) : GoMap String (List String) :=
  index.insert d (dependents index d ++ [tag])

def dropDependent (tag : String) (index : GoMap String (List String)) (d : String) : GoMap String (List String) :=
  if (dependents index d).length = 1 then index.erase d
  else index.insert d ((dependents index d).filter (· ≠ tag))

variable {O : Type}

def outbound (m : Manager O) (tag : String) : Option (Outbound O) := (m.outboundByTag.lookup tag).or (m.endpoint tag)

def register (m : Manager O) (o : Outbound O) : Manager O :=
  { m with
    outbounds := m.outbounds ++ [o]
    outboundByTag := m.outboundByTag.insert o.tag o
    dependByTag := o.dependencies.foldl (addDependent o.tag) m.dependByTag
    defaultOutbound :=
      if o.tag = m.defaultTag ∨ m.defaultTag = "" ∧ m.defaultOutbound.isNone then some o else m.defaultOutbound }

def newManager (defaultTag : String) (started : Bool) (endpoint : String → Option (Outbound O)) : Manager O :=
  { defaultTag := defaultTag, started := started, endpoint := endpoint }

variable [DecidableEq O]

def create (m : Manager O) (tag kind : String) (options : O) (w : Making) : Manager O × Option Fault :=
  if tag = "" then (m, some .invalid)
  else if !w.constructs then (m, some .construct)
  else
    let o : Outbound O := ⟨m.created, tag, kind, options, w.dependencies⟩
    let m := { m with created := m.created + 1 }
    if m.started && !w.starts then (m, some .start)
    else
      match m.outboundByTag.lookup tag with
      | none => (register m o, none)
      | some old =>
        let m := { m with closed := if m.started then old.id :: m.closed else m.closed }
        if m.started && !w.closes then (m, some .close)
        else if old ∉ m.outbounds then (m, some .indexMissing)
        else (register { m with outbounds := m.outbounds.erase old } o, none)

def remove (m : Manager O) (tag : String) (closes : Bool) : Manager O × Option Fault :=
  match m.outboundByTag.lookup tag with
  | none => (m, some .invalid)
  | some o =>
    if o ∉ m.outbounds then (m, some .indexMissing)
    else
      let m := { m with
        outboundByTag := m.outboundByTag.erase tag
        outbounds := m.outbounds.erase o
        defaultOutbound :=
          if m.defaultOutbound = some o then (m.outbounds.erase o).head? else m.defaultOutbound }
      if dependents m.dependByTag tag ≠ [] then (m, some (.depended (dependents m.dependByTag tag)))
      else
        ({ m with
            dependByTag := o.dependencies.foldl (dropDependent tag) m.dependByTag
            closed := if m.started then o.id :: m.closed else m.closed },
          if m.started && !closes then some .close else none)

/-- The stage of `Start` that chooses a default has the outbound that the fallback makes, if it makes one. That the
outbounds then start does not change the registry. -/
def start (m : Manager O) (choose : Bool) (fallback : Option (String × String × O)) : Manager O × Option Fault :=
  let m := { m with started := true }
  if !choose || m.defaultOutbound.isSome then (m, none)
  else if m.defaultTag ≠ "" then
    match m.endpoint m.defaultTag with
    | none => (m, some .defaultMissing)
    | some endpoint => ({ m with defaultOutbound := some endpoint }, none)
  else
    match fallback with
    | none => (m, some .construct)
    -- the fallback depends on nothing, and it becomes the default
    | some (tag, kind, options) =>
      (register { m with created := m.created + 1 } ⟨m.created, tag, kind, options, []⟩, none)

inductive Op (O : Type)
  | create (tag kind : String) (options : O) (w : Making)
  | remove (tag : String) (closes : Bool)
  | start (choose : Bool) (fallback : Option (String × String × O))

def apply (m : Manager O) : Op O → Manager O × Option Fault
  | .create tag kind options w => create m tag kind options w
  | .remove tag closes => remove m tag closes
  | .start choose fallback => start m choose fallback

def step (m : Manager O) (op : Op O) : Manager O := (apply m op).1

structure Registered (m : Manager O) : Prop where
  same : ∀ tag o, m.outboundByTag.lookup tag = some o ↔ o ∈ m.outbounds ∧ o.tag = tag
  nodup : m.outbounds.Nodup
  depended : ∀ d tag, tag ∈ dependents m.dependByTag d ↔ ∃ o ∈ m.outbounds, o.tag = tag ∧ d ∈ o.dependencies
  distinct : ∀ o ∈ m.outbounds, o.dependencies.Nodup
  defaulted : m.defaultTag = "" → m.defaultOutbound = none → m.outbounds = []

/-- A replaced outbound closes, and its dependencies are among those of the new one. A removed outbound closes, and
nothing depends on it. -/
def Safe (m : Manager O) : Op O → Prop
  | .create tag _ _ w => w.dependencies.Nodup ∧ ∀ old ∈ m.outboundByTag.lookup tag,
      (m.started → w.closes) ∧ ∀ d ∈ old.dependencies, d ∈ w.dependencies
  | .remove tag closes => dependents m.dependByTag tag = [] ∧ (m.started → closes)
  | .start .. => True

structure Unchanged (m m' : Manager O) : Prop where
  outbounds : m'.outbounds = m.outbounds
  outboundByTag : m'.outboundByTag = m.outboundByTag
  dependByTag : m'.dependByTag = m.dependByTag
  defaultOutbound : m'.defaultOutbound = m.defaultOutbound
  closed : m'.closed = m.closed

structure Consistent (m : Manager O) (out : Manager O × Option Fault) : Prop where
  registered : Registered out.1
  unchanged : out.2 ≠ none → Unchanged m out.1

section

variable {index : GoMap String (List String)} {tag d t : String} {ds : List String}

theorem mem_addDependents :
    t ∈ dependents (ds.foldl (addDependent tag) index) d ↔ t ∈ dependents index d ∨ t = tag ∧ d ∈ ds := by
  induction ds generalizing index with
  | nil => simp
  | cons d' ds ih =>
    rw [foldl_cons, ih, addDependent, dependents, lookup_set]
    by_cases hd : d = d'
    · simp [hd]
      tauto
    · simp [hd, dependents]

theorem dependents_dropDependent (h : tag ∈ dependents index d) :
    dependents (dropDependent tag index d) d = (dependents index d).filter (· ≠ tag) := by
  unfold dropDependent
  split
  case isTrue hone =>
    obtain ⟨t, ht⟩ := length_eq_one_iff.1 hone
    have hself : tag = t := by simpa [ht] using h
    rw [ht, dependents, ← hself]
    simp
  case isFalse => simp [dependents]

theorem dependents_dropDependent_ne (hd : t ≠ d) : dependents (dropDependent tag index d) t = dependents index t := by
  unfold dropDependent
  split <;> simp [dependents, hd]

theorem mem_dropDependents (hds : ds.Nodup) (h : ∀ d ∈ ds, tag ∈ dependents index d) :
    t ∈ dependents (ds.foldl (dropDependent tag) index) d ↔ t ∈ dependents index d ∧ ¬(t = tag ∧ d ∈ ds) := by
  induction ds generalizing index with
  | nil => simp
  | cons d' ds ih =>
    obtain ⟨hnew, hds⟩ := nodup_cons.1 hds
    have hr : ∀ e ∈ ds, tag ∈ dependents (dropDependent tag index d') e := by
      intro e he
      rw [dependents_dropDependent_ne (ne_of_mem_of_not_mem he hnew)]
      exact h e (mem_cons_of_mem _ he)
    rw [foldl_cons, ih hds hr]
    by_cases hd : d = d'
    · subst hd
      rw [dependents_dropDependent (h d mem_cons_self)]
      simp [hnew]
    · rw [dependents_dropDependent_ne hd]
      simp [hd]

end

variable {m : Manager O} {o : Outbound O} {rest : List (Outbound O)} {tag : String}

omit [DecidableEq O] in
theorem Registered.register (h : Registered m) (hr : ∀ x, x ∈ rest ↔ x ∈ m.outbounds ∧ x.tag ≠ o.tag)
    (hnd : rest.Nodup) (hdeps : o.dependencies.Nodup)
    (hmore : ∀ old ∈ m.outboundByTag.lookup o.tag, ∀ d ∈ old.dependencies, d ∈ o.dependencies) (created closed) :
    Registered (register { m with outbounds := rest, created := created, closed := closed } o) where
  same t x := by
    simp only [OutboundManager.register, lookup_set, mem_append, mem_singleton, hr]
    split
    · grind
    · rw [h.same]
      grind
  nodup := by
    simp only [OutboundManager.register, nodup_append, nodup_singleton, mem_singleton]
    grind
  depended d t := by
    simp only [OutboundManager.register, mem_addDependents, h.depended, mem_append, mem_singleton, hr]
    constructor
    · rintro (⟨x, hx, rfl, hd⟩ | ⟨rfl, hd⟩)
      · by_cases ht : x.tag = o.tag
        · exact ⟨o, .inr rfl, ht.symm, hmore x ((h.same _ x).2 ⟨hx, ht⟩) d hd⟩
        · exact ⟨x, .inl ⟨hx, ht⟩, rfl, hd⟩
      · exact ⟨o, .inr rfl, rfl, hd⟩
    · rintro ⟨x, ⟨hx, -⟩ | rfl, rfl, hd⟩
      · exact .inl ⟨x, hx, rfl, hd⟩
      · exact .inr ⟨rfl, hd⟩
  distinct x hx := by
    simp only [OutboundManager.register, mem_append, mem_singleton, hr] at hx
    rcases hx with ⟨hx, -⟩ | rfl
    · exact h.distinct x hx
    · exact hdeps
  defaulted htag hno := by
    simp only [OutboundManager.register] at htag hno
    grind

theorem Registered.mem_erase (h : Registered m) (ho : m.outboundByTag.lookup tag = some o) (x) :
    x ∈ m.outbounds.erase o ↔ x ∈ m.outbounds ∧ x.tag ≠ tag := by
  rw [h.nodup.mem_erase_iff]
  obtain ⟨hm, rfl⟩ := (h.same _ o).1 ho
  constructor
  · rintro ⟨hne, hx⟩
    refine ⟨hx, fun ht => hne ?_⟩
    exact some.inj (((h.same _ x).2 ⟨hx, ht⟩).symm.trans ho)
  · rintro ⟨hx, hne⟩
    exact ⟨fun heq => hne (heq ▸ rfl), hx⟩

theorem Registered.create (h : Registered m) {kind options w} (hsafe : Safe m (.create tag kind options w)) :
    Consistent m (create m tag kind options w) := by
  obtain ⟨hdeps, hold⟩ := hsafe
  unfold OutboundManager.create
  split
  · exact ⟨h, fun _ => ⟨rfl, rfl, rfl, rfl, rfl⟩⟩
  split
  · exact ⟨h, fun _ => ⟨rfl, rfl, rfl, rfl, rfl⟩⟩
  dsimp only
  split
  · exact ⟨{ h with }, fun _ => ⟨rfl, rfl, rfl, rfl, rfl⟩⟩
  split
  case h_1 hno =>
    refine ⟨h.register (fun x => ⟨fun hx => ⟨hx, fun ht => ?_⟩, And.left⟩) h.nodup hdeps (by simp [hno]) ..,
      fun hne => absurd rfl hne⟩
    exact absurd (((h.same _ x).2 ⟨hx, ht⟩).symm.trans hno) (by simp)
  case h_2 old hsome =>
  obtain ⟨hclos, hmore⟩ := hold old hsome
  have hm := ((h.same _ old).1 hsome).1
  have hmore' : ∀ x ∈ m.outboundByTag.lookup tag, ∀ d ∈ x.dependencies, d ∈ w.dependencies := by
    intro x hx
    obtain rfl := mem_unique hsome hx
    exact hmore
  rw [if_neg (by simpa using hclos), if_neg (not_not.2 hm)]
  exact ⟨h.register (o := ⟨_, tag, _, _, _⟩) (h.mem_erase hsome) (h.nodup.erase old) hdeps hmore' ..,
    fun hne => absurd rfl hne⟩

theorem Registered.remove (h : Registered m) {closes} (hsafe : Safe m (.remove tag closes)) :
    Consistent m (remove m tag closes) := by
  obtain ⟨hf, hclos⟩ := hsafe
  unfold OutboundManager.remove
  split
  · exact ⟨h, fun _ => ⟨rfl, rfl, rfl, rfl, rfl⟩⟩
  rename_i o ho
  obtain ⟨hm, rfl⟩ := (h.same _ o).1 ho
  have hin : ∀ d ∈ o.dependencies, o.tag ∈ dependents m.dependByTag d :=
    fun d hd => (h.depended d o.tag).2 ⟨o, hm, rfl, hd⟩
  have hleft (closed) (default : Option (Outbound O))
      (hdef : m.defaultTag = "" → default = none → m.outbounds.erase o = []) : Registered { m with
      outboundByTag := m.outboundByTag.erase o.tag, outbounds := m.outbounds.erase o, closed := closed
      defaultOutbound := default, dependByTag := o.dependencies.foldl (dropDependent o.tag) m.dependByTag } := by
    refine ⟨fun t x => ?_, h.nodup.erase o, fun d t => ?_, fun x hx => h.distinct x (mem_of_mem_erase hx), hdef⟩
    · simp only [lookup_del, h.mem_erase ho]
      split
      · grind
      · rw [h.same]
        grind
    · simp only [mem_dropDependents (h.distinct o hm) hin, h.depended, h.mem_erase ho]
      constructor
      · rintro ⟨⟨x, hx, rfl, hd⟩, hnot⟩
        refine ⟨x, ⟨hx, fun ht => hnot ⟨ht, ?_⟩⟩, rfl, hd⟩
        rw [← mem_unique ((h.same _ x).2 ⟨hx, ht⟩) ho]
        exact hd
      · rintro ⟨x, ⟨hx, ht⟩, rfl, hd⟩
        exact ⟨⟨x, hx, rfl, hd⟩, fun hboth => ht hboth.1⟩
  rw [if_neg (not_not.2 hm)]
  rw [if_neg (not_not.2 hf)]
  have hcl : ¬(m.started && !closes) = true := by simpa using hclos
  refine ⟨hleft _ _ fun htag hno => ?_, fun hne => absurd (if_neg hcl) hne⟩
  split at hno
  · exact head?_eq_none_iff.1 hno
  · rw [h.defaulted htag hno, erase_nil]

omit [DecidableEq O] in
theorem Registered.start (h : Registered m) (choose fallback) : Consistent m (start m choose fallback) := by
  unfold OutboundManager.start
  dsimp only
  split
  · exact ⟨{ h with }, fun hne => absurd rfl hne⟩
  rename_i hdef
  split
  · split
    · exact ⟨{ h with }, fun _ => ⟨rfl, rfl, rfl, rfl, rfl⟩⟩
    · exact ⟨{ h with defaulted := by simp }, fun hne => absurd rfl hne⟩
  split
  · exact ⟨{ h with }, fun _ => ⟨rfl, rfl, rfl, rfl, rfl⟩⟩
  · rename_i htag _ tag kind options
    have hnil := h.defaulted (not_not.1 htag) (by simp_all)
    have hno : m.outboundByTag.lookup tag = none := by
      rw [eq_none_iff_forall_ne_some]
      exact fun o ho => by simpa [hnil] using ((h.same tag o).1 ho).1
    have hst : Registered { m with started := true } := { h with }
    exact ⟨hst.register (fun x => by simp [hnil]) h.nodup nodup_nil (by simp [hno]) .., fun hne => absurd rfl hne⟩

theorem Registered.step (h : Registered m) {op} (hsafe : Safe m op) : Consistent m (apply m op) := by
  cases op with
  | create tag kind options w => exact h.create hsafe
  | remove tag closes => exact h.remove hsafe
  | start choose fallback => exact h.start choose fallback

/-- In every run of calls that are safe, the list and the two indexes agree after each call, and a call that fails
leaves them alone. -/
theorem registry_consistent (defaultTag : String) (started : Bool) (endpoint : String → Option (Outbound O))
    (ops : List (Op O)) (op : Op O) (h : Meets step Safe (newManager defaultTag started endpoint) (ops ++ [op])) :
    Consistent (run step (newManager defaultTag started endpoint) ops)
      (apply (run step (newManager defaultTag started endpoint) ops) op) := by
  obtain ⟨hmeets, hsafe, -⟩ := (meets_append ..).1 h
  have hreg : Registered (run step (newManager defaultTag started endpoint) ops) :=
    run_keeps (fun _ _ _ hs hr => (hr.step hs).registered) (by constructor <;> simp [newManager, dependents]) hmeets
  exact hreg.step hsafe

def chained : List (Op Unit) := [.create "exit" "direct" () {}, .create "entry" "vless" () { dependencies := ["exit"] }]

theorem chained_consistent :
    Consistent (run step (newManager "" true fun _ => none) chained)
      (apply (run step (newManager "" true fun _ => none) chained) (.remove "entry" true)) := by
  refine registry_consistent "" true _ chained _ ⟨⟨?_, ?_⟩, ⟨?_, ?_⟩, ⟨?_, fun _ => rfl⟩, trivial⟩
  all_goals decide +kernel

/-- The removal fails, and the outbound is gone. -/
theorem chained_removed :
    (apply (run step (newManager "" true fun _ => none) chained) (.remove "exit" true)).2 = some (.depended ["entry"]) ∧
      ((run step (newManager "" true fun _ => none) chained).outboundByTag.lookup "exit").isSome ∧
      (apply (run step (newManager "" true fun _ => none) chained) (.remove "exit" true)).1.outboundByTag.lookup "exit" =
        none := by
  decide +kernel

end SingBox.OutboundManager
