import SingBox.Runs
import Mathlib.Data.Option.Basic

namespace SingBox.RemoteFetch

open Runs

/-- The content `F` of a cached subscription, the line of the subscription info `I` and the options `O`, and its hash
`H`: what was encoded is decoded, and the hashes of different contents differ. -/
class Codec (F : Type) (H O I : outParam Type) where
  encode : Option I → O → F
  infoOf : F → Option I
  optionsOf : F → O
  hashOf : F → H
  optionsOf_encode : ∀ info options, optionsOf (encode info options) = options
  hashOf_inj : ∀ f f', hashOf f = hashOf f' → f = f'

structure SavedBinary (F H : Type) where
  lastEtag : String
  hash : Option H
  content : Option F

/-- `options` are `lastOutOpts` and `lastEPOpts`. The file and the saved entry outlive the process. `delivered` are the
bodies of status 200 with their validators. -/
structure ProviderRemote (B O F H : Type) where
  options : O
  lastEtag : String := ""
  hash : Option H := none
  file : Option F := none
  saved : Option (SavedBinary F H) := none
  delivered : List (B × String) := []

/-- `parse` is `ParseSubscription` with the filter after it, `initial` the options of a new process. -/
structure Config (B O : Type) where
  path : Bool
  cacheFile : Bool
  initial : O
  parse : B → Option O

inductive Response (B I : Type)
  | failed
  | status
  | notModified (info : Option I)
  | ok (body : B) (etag : String) (info : Option I)

structure Saving (F : Type) where
  written : Bool := true
  saves : Bool := true
  left : Option F := none

inductive Op (B I F : Type)
  | start (reads parses : Bool) (initialPath : Option B)
  | load (reads parses : Bool)
  | fetch (response : Response B I) (w : Saving F)

open Codec

variable {B O I F H : Type} [Codec F H O I]

def saveCacheFile (s : ProviderRemote B O F H) (info : Option I) : ProviderRemote B O F H :=
  { s with file := some (encode info s.options), hash := some (hashOf (encode info s.options : F)) }

/-- A response of status 200. The validator is kept before the body is parsed. -/
def accept (c : Config B O) (s : ProviderRemote B O F H) (body : B) (etag : String) (info : Option I) (w : Saving F) :
    ProviderRemote B O F H :=
  let s := { s with
    delivered := (body, etag) :: s.delivered
    lastEtag := if etag ≠ "" then etag else s.lastEtag }
  match c.parse body with
  | none => s
  | some options =>
    let s := { s with options := options }
    if c.path && !w.written then { s with file := w.left }
    else
      let s := if c.path then saveCacheFile s info else s
      if c.cacheFile && w.saves then
        let content := encode info options
        { s with saved := some ⟨s.lastEtag, if c.path then s.hash else none, if c.path then none else some content⟩ }
      else s

def reinfo (info : Option I) (content : F) : F :=
  if (infoOf content).isSome && info.isSome then encode info (optionsOf content) else content

def confirm (c : Config B O) (s : ProviderRemote B O F H) (info : Option I) (w : Saving F) : ProviderRemote B O F H :=
  let renewed := s.saved.map fun b =>
    if c.path then { b with hash := s.hash } else { b with content := b.content.map (reinfo info) }
  let s := if w.saves then { s with saved := renewed } else s
  if !c.path then s
  else if !w.written then { s with file := w.left }
  else saveCacheFile s info

variable [DecidableEq H]

/-- The file is taken with the saved validator if it is still the one that was saved. -/
def loadCacheFile (c : Config B O) (s : ProviderRemote B O F H) (reads parses : Bool) : ProviderRemote B O F H × Bool :=
  let s := { s with hash := s.saved.elim s.hash (·.hash) }
  match if c.path then (if reads then s.file else none) else s.saved.bind (·.content) with
  | none => (s, false)
  | some content =>
    let trusted := !c.path || (s.saved.isSome && s.hash = some (hashOf content))
    let s := { s with hash := if trusted then s.hash else none }
    if !parses then (s, false)
    else
      ({ s with
          options := optionsOf content
          lastEtag := if trusted then s.saved.elim "" (·.lastEtag) else "" }, true)

def startContext (c : Config B O) (s : ProviderRemote B O F H) (reads parses : Bool) (initialPath : Option B) :
    ProviderRemote B O F H :=
  match loadCacheFile c { s with options := c.initial, lastEtag := "", hash := none } reads parses with
  | (s, true) => s
  | (s, false) => { s with options := (initialPath.bind c.parse).getD s.options }

def step (c : Config B O) (s : ProviderRemote B O F H) : Op B I F → ProviderRemote B O F H
  | .start reads parses initialPath => startContext c s reads parses initialPath
  | .load reads parses => (loadCacheFile c s reads parses).1
  | .fetch (.ok body etag info) w => accept c s body etag info w
  | .fetch (.notModified info) w => confirm c s info w
  | .fetch .failed _ | .fetch .status _ => s

def Delivered (c : Config B O) (delivered : List (B × String)) (etag : String) (options : O) : Prop :=
  ∃ body, (body, etag) ∈ delivered ∧ c.parse body = some options

/-- A body of status 200 comes with a validator, parses and is saved. Status 304 answers a request with a validator. A
second load follows a first fetch that failed. -/
def Regular (c : Config B O) (s : ProviderRemote B O F H) : Op B I F → Prop
  | .fetch (.ok body etag _) w =>
      etag ≠ "" ∧ (c.parse body).isSome ∧ (c.path → w.written) ∧ (c.cacheFile → w.saves)
  | .fetch (.notModified _) _ => s.lastEtag ≠ ""
  | .load _ _ => s.lastEtag = ""
  | _ => True

structure Sound (c : Config B O) (s : ProviderRemote B O F H) : Prop where
  current : s.lastEtag ≠ "" → Delivered c s.delivered s.lastEtag s.options
  hash : s.lastEtag ≠ "" → c.path → ∀ x : F, s.hash = some (hashOf x) → optionsOf x = s.options
  same : s.lastEtag ≠ "" → ∀ b ∈ s.saved, b.lastEtag = s.lastEtag
  saved : ∀ b ∈ s.saved, b.lastEtag ≠ "" →
    ∀ x : F, (if c.path then b.hash = some (hashOf x) else b.content = some x) →
      Delivered c s.delivered b.lastEtag (optionsOf x)
  cached : c.cacheFile = false → s.saved = none

variable {c : Config B O} {s : ProviderRemote B O F H} {info : Option I} {w : Saving F}

section

omit [DecidableEq H]

theorem optionsOf_of_hash {x : F} {options : O} (h : hashOf (encode info options : F) = hashOf x) :
    optionsOf x = options := by
  rw [← hashOf_inj _ x h, optionsOf_encode]

theorem Sound.accept (h : Sound c s) {body etag}
    (hreg : Regular c s (.fetch (.ok body etag info) w)) : Sound c (accept c s body etag info w) := by
  obtain ⟨hetag, hparse, hwr, hsav⟩ := hreg
  obtain ⟨options, hopt⟩ := Option.isSome_iff_exists.1 hparse
  have hcach := h.cached
  have hnew : Delivered c ((body, etag) :: s.delivered) etag options := ⟨body, List.mem_cons_self, hopt⟩
  unfold RemoteFetch.accept
  simp only [hopt, hetag, ne_eq, not_false_eq_true, if_true]
  constructor <;> cases hpath : c.path <;> cases hcache : c.cacheFile <;>
    simp_all [saveCacheFile, optionsOf_encode]
  · exact fun x => optionsOf_of_hash
  · exact fun x => optionsOf_of_hash
  · intro x hx
    rwa [optionsOf_of_hash hx]

theorem Sound.confirm (h : Sound c s)
    (hreg : Regular c s (.fetch (.notModified info) w)) : Sound c (confirm c s info w) := by
  have hcur := h.current hreg
  have hhash := h.hash hreg
  have hsame := h.same hreg
  have hold := h.saved
  have hcach := h.cached
  have hrein (x : F) : optionsOf (reinfo info x) = optionsOf x := by
    unfold reinfo
    split
    · exact optionsOf_encode ..
    · rfl
  unfold RemoteFetch.confirm
  cases hpath : c.path <;> cases hsav : s.saved <;> cases hsaves : w.saves <;>
    cases hwr : w.written <;> simp only [hpath, hsav] at hhash hsame hold hcach <;> constructor <;> simp_all [saveCacheFile]
  all_goals exact fun _ x => optionsOf_of_hash

end

theorem Sound.loadCacheFile (h : Sound c s) (hemp : s.lastEtag = "") (reads parses) :
    Sound c (loadCacheFile c s reads parses).1 := by
  have hold := h.saved
  have hcach := h.cached
  unfold RemoteFetch.loadCacheFile
  have hinj (x y : F) := hashOf_inj x y
  cases hpath : c.path <;> cases hsav : s.saved <;> simp only [hpath, hsav] at hold hcach <;> constructor <;> grind

theorem lastEtag_loadCacheFile {reads parses} (h : (loadCacheFile c s reads parses).2 = false) :
    (loadCacheFile c s reads parses).1.lastEtag = s.lastEtag := by
  unfold loadCacheFile at h ⊢
  grind

theorem Sound.startContext (h : Sound c s) (reads parses initialPath) :
    Sound c (startContext c s reads parses initialPath) := by
  have hnew : Sound c { s with options := c.initial, lastEtag := "", hash := none } :=
    ⟨by simp, by simp, by simp, h.saved, h.cached⟩
  have hload := hnew.loadCacheFile rfl reads parses
  unfold RemoteFetch.startContext
  split
  · next heq =>
    rw [heq] at hload
    exact hload
  · next heq =>
    have hemp := lastEtag_loadCacheFile (congrArg Prod.snd heq)
    rw [heq] at hload hemp
    exact ⟨fun hne => absurd hemp hne, fun hne => absurd hemp hne, hload.same, hload.saved, hload.cached⟩

theorem Sound.step (h : Sound c s) {op} (hreg : Regular c s op) : Sound c (step c s op) := by
  cases op with
  | start reads parses initialPath => exact h.startContext reads parses initialPath
  | load reads parses => exact h.loadCacheFile hreg reads parses
  | fetch response w =>
    cases response with
    | ok body etag info => exact h.accept hreg
    | notModified info => exact h.confirm hreg
    | failed | status => exact h

/-- In every run of regular starts and fetches, the options in use came with the validator that the next request
carries. -/
theorem validator_matches_options (c : Config B O) (file : Option F) (ops : List (Op B I F))
    (h : Meets (step c) (Regular c) { options := c.initial, file := file } ops)
    (hetag : (run (step c) { options := c.initial, file := file } ops).lastEtag ≠ "") :
    Delivered c (run (step c) { options := c.initial, file := file } ops).delivered
      (run (step c) { options := c.initial, file := file } ops).lastEtag
      (run (step c) { options := c.initial, file := file } ops).options := by
  have hso : Sound c (run (step c) { options := c.initial, file := file } ops) :=
    run_keeps (fun _ _ _ hreg hs => hs.step hreg) (by constructor <;> simp) h
  exact hso.current hetag

local instance plainCodec : Codec (Option Unit × Nat) (Option Unit × Nat) Nat Unit :=
  ⟨Prod.mk, Prod.fst, Prod.snd, id, fun _ _ => rfl, fun _ _ => id⟩

def listing : Config (Option Nat) Nat := ⟨true, true, 0, id⟩

def twoFetches (second : Option Nat) : List (Op (Option Nat) Unit (Option Unit × Nat)) :=
  [.start true true none, .fetch (.ok (some 1) "a" none) {}, .fetch (.ok second "b" none) {}, .start true true none]

theorem twoFetches_match :
    Delivered listing (run (step listing) { options := 0 } (twoFetches (some 2))).delivered "b" 2 := by
  refine validator_matches_options listing none (twoFetches (some 2)) ⟨trivial, ?_, ?_, trivial, trivial⟩ (by decide +kernel)
  all_goals exact ⟨by decide, rfl, fun _ => rfl, fun _ => rfl⟩

theorem twoFetches_differ :
    (run (step listing) { options := 0 } ((twoFetches none).take 3)).lastEtag = "b" ∧
      ¬Delivered listing (run (step listing) { options := 0 } ((twoFetches none).take 3)).delivered "b"
        (run (step listing) { options := 0 } ((twoFetches none).take 3)).options := by
  refine ⟨by decide +kernel, ?_⟩
  rintro ⟨body, hbody, hparse⟩
  simp [twoFetches, step, startContext, loadCacheFile, accept, listing, saveCacheFile] at hbody hparse
  grind

end SingBox.RemoteFetch
