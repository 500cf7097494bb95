import Mathlib.Data.List.Sort
import Mathlib.Data.List.Destutter
import Mathlib.Data.List.TakeWhile
import Mathlib.Data.String.Basic
import Shaula.Library.Quoting
import Shaula.Template.Result
import Shaula.Template.Runtime

/-! # Raw state files

The worker reads the raw state of the engine, format version 4, into the identity of the state and
the addresses of its managed instances.  All resources stand at the top level, each with the path of
its module.
-/

namespace Shaula

open Library Library.Outcome

namespace Template

namespace EngineState

open Quoting (debugText asciiTables)

variable (T : Quoting.Tables)

/-! ## Module paths -/

/-- Consumes one instance suffix whose opening bracket is gone: what belongs to it, and what remains
after the closing bracket.  Inside of quotes everything is data. -/
def consumeInstanceSuffix : Bool → Bool → List Char → Option (List Char × List Char)
  | _, _, [] => none
  | inQuote, true, c :: rest =>
    (consumeInstanceSuffix inQuote false rest).map fun (taken, remainder) => (c :: taken, remainder)
  | inQuote, false, c :: rest =>
    if c = '\\' ∧ inQuote = true then
      (consumeInstanceSuffix inQuote true rest).map fun (taken, remainder) =>
        (c :: taken, remainder)
    else if c = '"' then
      (consumeInstanceSuffix (!inQuote) false rest).map fun (taken, remainder) =>
        (c :: taken, remainder)
    else if c = ']' ∧ inQuote = false then some ([c], rest)
    else
      (consumeInstanceSuffix inQuote false rest).map fun (taken, remainder) =>
        (c :: taken, remainder)

/-- Whether a character belongs to a bare name. -/
def isBare (c : Char) : Bool := c != '.' && c != '['

def stripModule : List Char → Option (List Char)
  | 'm' :: 'o' :: 'd' :: 'u' :: 'l' :: 'e' :: '.' :: after => some after
  | _ => none

def malformedPath (path : List Char) : CoreError :=
  executionFailed ("state module path " ++ debugText T (String.ofList path) ++ " is malformed")

/-- One element of a module path with its optional instance suffix, and what remains. -/
def moduleElement (path rest : List Char) : CoreResult (List Char × List Char) := do
  let after ← okOr (stripModule rest) (malformedPath T path)
  let name := after.takeWhile isBare
  ensure (name ≠ []) (executionFailed ("state module path " ++
    debugText T (String.ofList path) ++ " has an empty module name"))
  let element := "module.".toList ++ name
  match after.dropWhile isBare with
  | '[' :: suffix =>
    let (taken, remainder) ← okOr (consumeInstanceSuffix false false suffix)
      (executionFailed "state module path has an unterminated instance suffix")
    return (element ++ '[' :: taken, remainder)
  | remainder => return (element, remainder)

variable {T}

theorem stripModule_eq_some {rest after : List Char} :
    stripModule rest = some after ↔ rest = "module.".toList ++ after := by
  constructor
  · intro h
    unfold stripModule at h
    split at h
    · cases h
      rfl
    · cases h
  · rintro rfl
    rfl

/-- A suffix is consumed up to its own end, whatever follows. -/
theorem consumeInstanceSuffix_eq_some {inQuote escaped : Bool} {s taken remainder : List Char}
    (h : consumeInstanceSuffix inQuote escaped s = some (taken, remainder)) :
    s = taken ++ remainder ∧ ∀ tail,
      consumeInstanceSuffix inQuote escaped (taken ++ tail) = some (taken, tail) := by
  fun_induction consumeInstanceSuffix inQuote escaped s generalizing taken with
  | case1 => cases h
  | case2 inQuote c rest ih =>
    simp only [Option.map_eq_some_iff, Prod.mk.injEq] at h
    obtain ⟨⟨more, rem⟩, hmore, rfl, rfl⟩ := h
    obtain ⟨rfl, htail⟩ := ih hmore
    exact ⟨rfl, fun tail => by simp [consumeInstanceSuffix, htail]⟩
  | case3 inQuote c rest hescape ih =>
    simp only [Option.map_eq_some_iff, Prod.mk.injEq] at h
    obtain ⟨⟨more, rem⟩, hmore, rfl, rfl⟩ := h
    obtain ⟨rfl, htail⟩ := ih hmore
    exact ⟨rfl, fun tail => by
      rw [List.cons_append, consumeInstanceSuffix, if_pos hescape, htail]
      rfl⟩
  | case4 inQuote rest hescape ih =>
    simp only [Option.map_eq_some_iff, Prod.mk.injEq] at h
    obtain ⟨⟨more, rem⟩, hmore, rfl, rfl⟩ := h
    obtain ⟨rfl, htail⟩ := ih hmore
    exact ⟨rfl, fun tail => by
      rw [List.cons_append, consumeInstanceSuffix, if_neg hescape, if_pos rfl, htail]
      rfl⟩
  | case5 inQuote c rest hescape hquote hclose =>
    cases h
    exact ⟨rfl, fun tail => by
      rw [List.singleton_append, consumeInstanceSuffix, if_neg hescape, if_neg hquote,
        if_pos hclose]⟩
  | case6 inQuote c rest hescape hquote hclose ih =>
    simp only [Option.map_eq_some_iff, Prod.mk.injEq] at h
    obtain ⟨⟨more, rem⟩, hmore, rfl, rfl⟩ := h
    obtain ⟨rfl, htail⟩ := ih hmore
    exact ⟨rfl, fun tail => by
      rw [List.cons_append, consumeInstanceSuffix, if_neg hescape, if_neg hquote, if_neg hclose,
        htail]
      rfl⟩

/-- A suffix in brackets that ends itself, or none at all. -/
def IsSuffix (suffix : List Char) : Prop :=
  suffix = [] ∨ ∃ body, suffix = '[' :: body ∧ ∀ tail,
    consumeInstanceSuffix false false (body ++ tail) = some (body, tail)

/-- A name without dots and brackets. -/
def Bare (name : List Char) : Prop := ∀ c ∈ name, isBare c = true

instance (name : List Char) : Decidable (Bare name) := List.decidableBAll _ _

theorem moduleElement_eq_ok {path rest element remainder : List Char}
    (h : moduleElement T path rest = .ok (element, remainder)) :
    rest = element ++ remainder ∧ ∃ name suffix, Bare name ∧ IsSuffix suffix ∧
      element = "module.".toList ++ (name ++ suffix) := by
  simp only [moduleElement, bind_eq_ok, ensure_eq_ok, okOr_eq_ok, stripModule_eq_some] at h
  obtain ⟨after, rfl, ⟨⟩, -, h⟩ := h
  have hafter := List.takeWhile_append_dropWhile (p := isBare) (l := after)
  have hbare : Bare (after.takeWhile isBare) := fun c hc => List.mem_takeWhile_imp hc
  split at h
  · next suffix hsuffix =>
    simp only [bind_eq_ok, okOr_eq_ok, pure_eq_ok] at h
    obtain ⟨⟨taken, rem⟩, htaken, heq⟩ := h
    cases heq
    obtain ⟨rfl, htail⟩ := consumeInstanceSuffix_eq_some htaken
    rw [hsuffix] at hafter
    refine ⟨?_, _, '[' :: taken, hbare, .inr ⟨taken, rfl, htail⟩, by simp⟩
    conv_lhs => rw [← hafter]
    simp
  · next remainder hremainder =>
    simp only [pure_eq_ok] at h
    cases h
    refine ⟨?_, _, [], hbare, .inl rfl, by simp⟩
    conv_lhs => rw [← hafter]
    simp

/-- An element takes something off the path. -/
theorem moduleElement_length {path rest element remainder : List Char}
    (h : moduleElement T path rest = .ok (element, remainder)) :
    remainder.length < rest.length := by
  obtain ⟨rfl, name, suffix, -, -, rfl⟩ := moduleElement_eq_ok h
  have hmodule : "module.".toList.length = 7 := rfl
  simp only [List.length_append, hmodule]
  omega

variable (T)

/-- The elements of a module path, one after another. -/
def modulePrefixFrom (path rest : List Char) : CoreResult (List Char) :=
  match _h : moduleElement T path rest with
  | .error e => .error e
  | .ok (element, []) => .ok (element ++ ['.'])
  | .ok (element, '.' :: next) => do
    let more ← modulePrefixFrom path next
    return element ++ '.' :: more
  | .ok _ => .error (malformedPath T path)
termination_by rest.length
decreasing_by
  have hlength := moduleElement_length _h
  simp only [List.length_cons] at hlength
  omega

/-- The address prefix of a module path, with a trailing dot; empty for the root. -/
def validatedModulePrefix (path : Option String) : CoreResult (List Char) :=
  match path with
  | none => .ok []
  | some path => do
    ensure (path ≠ "") (executionFailed "state module path is empty")
    modulePrefixFrom T path.toList path.toList

/-! ## Instances -/

/-- `Display` of a JSON number. -/
def numberText : Number → String
  | .integer n => toString n
  | .float text => text

/-- The address of one instance of the resource `base`. -/
def instanceAddress (base : String) (item : Json) : CoreResult String :=
  match item.get "index_key" with
  | none => .ok base
  | some (.number n) => .ok (base ++ "[" ++ numberText n ++ "]")
  | some (.string key) => .ok (base ++ "[" ++ debugText T key ++ "]")
  | some _ => .error (executionFailed ("state instance index_key malformed at " ++ base))

/-- The name an instance was recorded with. -/
def recordedName (item : Json) : Option String := do
  let attributes ← item.get "attributes"
  (attributes.strAt "name").filter (· ≠ "")

/-- The address of a managed instance, and its recorded name. -/
def collectInstance (base : String) (item : Json) : CoreResult (String × Option String) := do
  ensure (item.isObject = true) (executionFailed ("state instance malformed at " ++ base))
  let address ← instanceAddress T base item
  return (address, recordedName item)

/-- What one resource contributes: nothing unless it is managed. -/
def collectResource (resource : Json) : CoreResult (List (String × Option String)) := do
  ensure (resource.isObject = true) (executionFailed "state resource malformed")
  let mode ← okOr (resource.strAt "mode") (executionFailed "state resource mode missing")
  ensure (mode = "managed" ∨ mode = "data")
    (executionFailed ("unknown state resource mode " ++ debugText T mode))
  let resourceType := (resource.strAt "type").getD ""
  let name := (resource.strAt "name").getD ""
  ensure (resourceType ≠ "" ∧ name ≠ "") (executionFailed "state resource type/name missing")
  let modulePrefix ← validatedModulePrefix T (resource.strAt "module")
  let base := String.ofList modulePrefix ++ resourceType ++ "." ++ name
  -- A missing field is corrupt state, not an empty one.
  let instances ← okOr ((resource.get "instances").bind Json.asArray)
    (executionFailed ("state instances malformed at " ++ base))
  if mode = "managed" then instances.mapM (collectInstance T base) else return []

def collectResourceArray (resources : Json) : CoreResult (List (String × Option String)) := do
  let items ← okOr resources.asArray (executionFailed "state resources malformed")
  let collected ← items.mapM (collectResource T)
  return collected.flatten

/-- The `resources` of a state, if it has any. -/
def collectResources (state : Json) : CoreResult (List (String × Option String)) :=
  match state.get "resources" with
  | some resources => collectResourceArray T resources
  | none => .ok []

/-- Parses the raw state, format version 4, into the trusted state identity. -/
def parseRawStateV4 (state : Json) : CoreResult StateSnapshot := do
  ensure (state.isObject = true) (executionFailed "state is not an object")
  let version ← okOr ((state.get "version").bind Json.asU64)
    (executionFailed "state format version missing")
  ensure (version = 4)
    (executionFailed ("unsupported state format version " ++ toString version))
  let serial ← okOr ((state.get "serial").bind Json.asU64) (executionFailed "state serial missing")
  let lineage ← okOr ((state.strAt "lineage").filter (· ≠ ""))
    (executionFailed "state lineage missing or empty; identity cannot be proven")
  let entries ← collectResources T state
  return {
    managed := ((entries.map (·.1)).insertionSort (· ≤ ·)).destutter (· ≠ ·)
    names := entries.filterMap fun entry => entry.2.map (entry.1, ·)
    serial := serial.toNat
    lineage }

/-! ## The addresses the engine prints -/

/-- The key that an instance of a counted or keyed resource has. -/
inductive InstanceKey where
  | none
  | count (n : Int)
  | each (key : String)
  | other (text : String)
  deriving DecidableEq

def InstanceKey.read : Option Json → InstanceKey
  | .none => .none
  | some (.number (.integer n)) => .count n
  | some (.number (.float text)) => .other text
  | some (.string key) => .each key
  | some _ => .other ""

/-- A managed instance, by what identifies it. -/
structure ManagedInstance where
  path : Option String
  resourceType : String
  name : String
  key : InstanceKey
  deriving DecidableEq

/-- The managed instances of one resource, one for each of its objects. -/
def instancesOf (resource : Json) : List ManagedInstance :=
  if resource.strAt "mode" = some "managed" then
    (resource.itemsAt "instances").map fun item =>
      { path := resource.strAt "module"
        resourceType := (resource.strAt "type").getD ""
        name := (resource.strAt "name").getD ""
        key := .read (item.get "index_key") }
  else []

/-- The managed instances of a state, one for each instance object. -/
def managedInstances (state : Json) : List ManagedInstance :=
  (state.itemsAt "resources").flatMap instancesOf

/-- The module chain, with a trailing dot. -/
def modulePart : Option String → List Char
  | none => []
  | some path => path.toList ++ ['.']

/-- The suffix that `parse_raw_state_v4` gives a key. -/
def keySuffix : InstanceKey → List Char
  | .none => []
  | .count n => '[' :: ((toString n).toList ++ [']'])
  | .each key => '[' :: (Quoting.debug T key.toList ++ [']'])
  | .other text => '[' :: (text.toList ++ [']'])

/-- The suffix that the engine prints for a key. -/
def printedSuffix : InstanceKey → List Char
  | .count n => '[' :: ((toString n).toList ++ [']'])
  | .each key => '[' :: (Quoting.template T key.toList ++ [']'])
  | .none | .other _ => []

def ManagedInstance.base (i : ManagedInstance) : List Char :=
  modulePart i.path ++ (i.resourceType.toList ++ '.' :: i.name.toList)

/-- The address that `parse_raw_state_v4` gives an instance. -/
def ManagedInstance.address (i : ManagedInstance) : String :=
  String.ofList (i.base ++ keySuffix T i.key)

/-- The address that the engine prints for an instance in plan JSON. -/
def ManagedInstance.printed (i : ManagedInstance) : String :=
  String.ofList (i.base ++ printedSuffix T i.key)

/-- Whether an index key is missing, an integer or a text. -/
def ExpectedKey : Option Json → Prop
  | none | some (.number (.integer _)) | some (.string _) => True
  | _ => False

/-- Whether the fields of a state have the shapes of format version 4. -/
structure Expected (state : Json) : Prop where
  resources : ∃ items, state.get "resources" = some (.array items)
  modules : ∀ resource ∈ state.itemsAt "resources",
    resource.get "module" = none ∨ ∃ path, resource.get "module" = some (.string path)
  instances : ∀ resource ∈ state.itemsAt "resources",
    ∃ items, resource.get "instances" = some (.array items)
  objects : ∀ resource ∈ state.itemsAt "resources", ∀ item ∈ resource.itemsAt "instances",
    item.isObject = true
  keys : ∀ resource ∈ state.itemsAt "resources", ∀ item ∈ resource.itemsAt "instances",
    ExpectedKey (item.get "index_key")

/-- What reading a state promises: the fields have their shapes, each managed instance object is
listed at the address the engine prints for it, nothing else is listed, and instances that differ
are listed apart. -/
structure Faithful (state : Json) (snapshot : StateSnapshot) : Prop where
  expected : Expected state
  printed : ∀ i ∈ managedInstances state, i.address T = i.printed T
  listed : ∀ i ∈ managedInstances state, i.address T ∈ snapshot.managed
  nothingElse : ∀ a ∈ snapshot.managed, ∃ i ∈ managedInstances state, a = i.address T
  apart : ∀ i ∈ managedInstances state, ∀ j ∈ managedInstances state, i ≠ j →
    i.address T ≠ j.address T

/-- Whether both quotings of every key agree. -/
def KeysAlike (state : Json) : Prop :=
  ∀ i ∈ managedInstances state, ∀ key, i.key = .each key → Quoting.Alike T key.toList

/-- Whether the engine's own addresses tell the managed instances apart. -/
def PrintedApart (state : Json) : Prop :=
  ∀ i ∈ managedInstances state, ∀ j ∈ managedInstances state, i ≠ j → i.printed T ≠ j.printed T

/-- Whether the types and names of managed resources have neither dots nor brackets. -/
def BareNames (state : Json) : Prop :=
  ∀ i ∈ managedInstances state, Bare i.resourceType.toList ∧ Bare i.name.toList

/-! ## What is collected -/

section

variable {T} {base address : String} {item resource state : Json}

theorem instanceAddress_eq_ok (h : instanceAddress T base item = .ok address) :
    address = base ++ String.ofList (keySuffix T (.read (item.get "index_key"))) := by
  apply String.toList_inj.mp
  unfold instanceAddress at h
  split at h
  · next hkey =>
    cases h
    simp [hkey, InstanceKey.read, keySuffix]
  · next n hkey =>
    cases h
    cases n <;> simp [hkey, InstanceKey.read, keySuffix, numberText]
  · next key hkey =>
    cases h
    simp [hkey, InstanceKey.read, keySuffix, debugText]
  · cases h

theorem modulePrefixFrom_eq_ok {path rest modulePrefix : List Char}
    (h : modulePrefixFrom T path rest = .ok modulePrefix) : modulePrefix = rest ++ ['.'] := by
  fun_induction modulePrefixFrom T path rest generalizing modulePrefix with
  | case1 => cases h
  | case2 rest element helement =>
    cases h
    obtain ⟨rfl, -⟩ := moduleElement_eq_ok helement
    simp
  | case3 rest element next helement ih =>
    simp only [bind_eq_ok, pure_eq_ok] at h
    obtain ⟨more, hmore, rfl⟩ := h
    obtain ⟨rfl, -⟩ := moduleElement_eq_ok helement
    simp [ih hmore]
  | case4 => cases h

theorem validatedModulePrefix_eq_ok {path : Option String} {modulePrefix : List Char}
    (h : validatedModulePrefix T path = .ok modulePrefix) : modulePrefix = modulePart path := by
  cases path with
  | none =>
    cases h
    rfl
  | some path =>
    simp only [validatedModulePrefix, bind_eq_ok, ensure_eq_ok] at h
    obtain ⟨⟨⟩, -, h⟩ := h
    exact modulePrefixFrom_eq_ok h

theorem collectResource_addresses {entries : List (String × Option String)}
    (h : collectResource T resource = .ok entries) :
    entries.map (·.1) = (instancesOf resource).map (·.address T) := by
  simp only [collectResource, bind_eq_ok, ensure_eq_ok, okOr_eq_ok, Option.bind_eq_some_iff,
    Json.asArray_eq_some] at h
  obtain ⟨⟨⟩, -, mode, hmode, ⟨⟩, -, ⟨⟩, -, modulePrefix, hprefixed, items, ⟨_, hitems, rfl⟩, h⟩ := h
  cases validatedModulePrefix_eq_ok hprefixed
  split at h
  · next hmanaged =>
    subst hmanaged
    rw [instancesOf, if_pos hmode, Json.itemsAt_eq hitems, List.map_map]
    apply map_eq_of_mapM_eq_ok h
    intro item _ entry hentry
    simp only [collectInstance, bind_eq_ok, ensure_eq_ok, pure_eq_ok] at hentry
    obtain ⟨⟨⟩, -, address, haddress, rfl⟩ := hentry
    rw [instanceAddress_eq_ok haddress]
    apply String.toList_inj.mp
    simp [ManagedInstance.address, ManagedInstance.base]
  · next hmanaged =>
    rw [pure_eq_ok] at h
    subst h
    rw [instancesOf, if_neg (by rw [hmode]; simpa using hmanaged)]
    rfl

theorem collectResourceArray_addresses {entries : List (String × Option String)}
    (h : collectResourceArray T resource = .ok entries) :
    ∃ items, resource = .array items ∧
      entries.map (·.1) = (items.flatMap instancesOf).map (·.address T) := by
  simp only [collectResourceArray, bind_eq_ok, okOr_eq_ok, Json.asArray_eq_some, pure_eq_ok] at h
  obtain ⟨items, rfl, collected, hcollected, rfl⟩ := h
  refine ⟨items, rfl, ?_⟩
  have heach : collected.map (List.map (·.1)) =
      items.map fun item => (instancesOf item).map (·.address T) :=
    map_eq_of_mapM_eq_ok hcollected fun item _ entries hitem => collectResource_addresses hitem
  rw [List.map_flatten, heach, List.flatMap, List.map_flatten, List.map_map]
  rfl

theorem mem_sorted_distinct {addresses : List String} {a : String} :
    a ∈ (addresses.insertionSort (· ≤ ·)).destutter (· ≠ ·) ↔ a ∈ addresses := by
  have hsorted := List.pairwise_insertionSort (· ≤ ·) addresses
  rw [hsorted.destutter_eq_dedup, List.mem_dedup, List.mem_insertionSort]

/-- What an accepted state lists is the addresses of its managed instances, each once. -/
theorem mem_managed_iff {snapshot : StateSnapshot} (h : parseRawStateV4 T state = .ok snapshot)
    {a : String} : a ∈ snapshot.managed ↔ ∃ i ∈ managedInstances state, a = i.address T := by
  simp only [parseRawStateV4, bind_eq_ok, ensure_eq_ok, okOr_eq_ok, pure_eq_ok] at h
  obtain ⟨⟨⟩, -, version, -, ⟨⟩, -, serial, -, lineage, -, entries, hentries, rfl⟩ := h
  rw [mem_sorted_distinct, managedInstances]
  cases hresources : state.get "resources" with
  | none =>
    simp only [collectResources, hresources] at hentries
    cases hentries
    simp [Json.itemsAt, hresources]
  | some resources =>
    simp only [collectResources, hresources] at hentries
    obtain ⟨items, rfl, haddresses⟩ := collectResourceArray_addresses hentries
    rw [haddresses, Json.itemsAt_eq hresources, List.mem_map]
    simp only [eq_comm]

end

/-! ## Addresses and their parts -/

/-- A part of an address: two words with a dot between them, and the suffix of an instance. -/
structure Segment where
  word : List Char
  name : List Char
  suffix : List Char

namespace Segment

structure Valid (s : Segment) : Prop where
  word : Bare s.word
  name : Bare s.name
  suffix : IsSuffix s.suffix

def text (s : Segment) : List Char := s.word ++ '.' :: (s.name ++ s.suffix)

end Segment

/-- The segments of an address, each behind a dot. -/
def dotted (segments : List Segment) : List Char := segments.flatMap fun s => '.' :: s.text

/-- Whether a text is at its end, or goes on behind a dot. -/
def AtDot (s : List Char) : Prop := s = [] ∨ ∃ rest, s = '.' :: rest

theorem atDot_dotted (segments : List Segment) : AtDot (dotted segments) := by
  cases segments with
  | nil => exact .inl rfl
  | cons s rest => exact .inr ⟨_, rfl⟩

/-- A bare name ends where a dot, a bracket or nothing follows. -/
theorem bare_append_inj {a b x y : List Char} (ha : Bare a) (hb : Bare b)
    (hx : ∀ c ∈ x.head?, isBare c = false) (hy : ∀ c ∈ y.head?, isBare c = false)
    (h : a ++ x = b ++ y) : a = b ∧ x = y := by
  have htake {a x : List Char} (ha : Bare a) (hx : ∀ c ∈ x.head?, isBare c = false) :
      (a ++ x).takeWhile isBare = a := by
    rw [List.takeWhile_append_of_pos ha]
    cases x with
    | nil => simp
    | cons c x => simp [hx c rfl]
  have hname : a = b := by rw [← htake ha hx, h, htake hb hy]
  subst hname
  exact ⟨rfl, List.append_cancel_left h⟩

theorem isSuffix_append_inj {a b x y : List Char} (ha : IsSuffix a) (hb : IsSuffix b)
    (hx : AtDot x) (hy : AtDot y) (h : a ++ x = b ++ y) : a = b ∧ x = y := by
  rcases ha with rfl | ⟨body, rfl, hbody⟩ <;> rcases hb with rfl | ⟨body', rfl, hbody'⟩
  · exact ⟨rfl, h⟩
  · rcases hx with rfl | ⟨rest, rfl⟩ <;> simp at h
  · rcases hy with rfl | ⟨rest, rfl⟩ <;> simp at h
  · simp only [List.cons_append, List.cons.injEq, true_and] at h
    have hconsumed := hbody x
    rw [h, hbody' y] at hconsumed
    cases hconsumed
    exact ⟨rfl, rfl⟩

theorem not_isBare_head_suffix {a x : List Char} (ha : IsSuffix a) (hx : AtDot x) :
    ∀ c ∈ (a ++ x).head?, isBare c = false := by
  rcases ha with rfl | ⟨body, rfl, -⟩
  · rcases hx with rfl | ⟨rest, rfl⟩
    · simp
    · rintro c ⟨⟩
      rfl
  · rintro c ⟨⟩
    rfl

/-- An address tells its segments. -/
theorem dotted_injOn {segments segments' : List Segment} (h : ∀ s ∈ segments, s.Valid)
    (h' : ∀ s ∈ segments', s.Valid) (heq : dotted segments = dotted segments') :
    segments = segments' := by
  induction segments generalizing segments' with
  | nil =>
    cases segments' with
    | nil => rfl
    | cons s' rest' => simp [dotted] at heq
  | cons s rest ih =>
    cases segments' with
    | nil => simp [dotted] at heq
    | cons s' rest' =>
      obtain ⟨hs, hrest⟩ := List.forall_mem_cons.mp h
      obtain ⟨hs', hrest'⟩ := List.forall_mem_cons.mp h'
      have htext : s.word ++ '.' :: (s.name ++ (s.suffix ++ dotted rest)) =
          s'.word ++ '.' :: (s'.name ++ (s'.suffix ++ dotted rest')) := by
        simpa [dotted, Segment.text] using heq
      have hdot (x : List Char) : ∀ c ∈ ('.' :: x).head?, isBare c = false := by
        rintro c ⟨⟩
        rfl
      obtain ⟨hword, htext⟩ := bare_append_inj hs.word hs'.word (hdot _) (hdot _) htext
      obtain ⟨hname, htext⟩ := bare_append_inj hs.name hs'.name
        (not_isBare_head_suffix hs.suffix (atDot_dotted rest))
        (not_isBare_head_suffix hs'.suffix (atDot_dotted rest')) (List.cons.inj htext).2
      obtain ⟨hsuffix, htext⟩ := isSuffix_append_inj hs.suffix hs'.suffix (atDot_dotted rest)
        (atDot_dotted rest') htext
      have hsegment : s = s' := by
        cases s
        cases s'
        simp_all
      rw [hsegment, ih hrest hrest' htext]

/-! ## Addresses apart -/

/-- The characters of an integer: digits, and a minus sign. -/
theorem mem_toString_int {n : Int} {c : Char} (h : c ∈ (toString n).toList) :
    c.isDigit = true ∨ c = '-' := by
  have hdigits {m : Nat} (hc : c ∈ m.repr.toList) : c.isDigit = true := by
    rw [← Nat.toString_eq_repr, Nat.toString_eq_ofList_toDigits, String.toList_ofList] at hc
    exact Nat.isDigit_of_mem_toDigits (by decide) (by decide) hc
  change c ∈ n.repr.toList at h
  rw [Int.repr_eq_if] at h
  split at h
  · exact .inl (hdigits h)
  · rw [String.toList_append, List.mem_append] at h
    rcases h with hsign | hrest
    · exact .inr (by simpa using hsign)
    · exact .inl (hdigits hrest)

theorem toString_nat_injective {m n : Nat} (h : m.repr = n.repr) : m = n := by
  rw [← Nat.toString_eq_repr, ← Nat.toString_eq_repr, Nat.toString_eq_ofList_toDigits,
    Nat.toString_eq_ofList_toDigits, String.ofList_inj] at h
  rw [← Nat.ofDigitChars_ten_toDigits (n := m), h, Nat.ofDigitChars_ten_toDigits]

theorem toString_int_injective {m n : Int} (h : toString m = toString n) : m = n := by
  have hdigit {k : Nat} {c : Char} (hc : c ∈ k.repr.toList) : c ≠ '-' := by
    rintro rfl
    rw [← Nat.toString_eq_repr, Nat.toString_eq_ofList_toDigits, String.toList_ofList] at hc
    exact absurd (Nat.isDigit_of_mem_toDigits (by decide) (by decide) hc) (by decide)
  have hsign {a b : Nat} : a.repr ≠ "-" ++ b.repr := by
    intro heq
    have hmem : '-' ∈ a.repr.toList := by
      rw [heq, String.toList_append]
      exact List.mem_append_left _ (by decide)
    exact hdigit hmem rfl
  change m.repr = n.repr at h
  rw [Int.repr_eq_if, Int.repr_eq_if] at h
  split_ifs at h with hm hn hn
  · have habs := toString_nat_injective h
    omega
  · exact absurd h hsign
  · exact absurd h.symm hsign
  · have habs := toString_nat_injective (String.append_right_inj "-" |>.mp h)
    omega

/-- A text without quotes and brackets is consumed up to the bracket behind it. -/
theorem consumeInstanceSuffix_plain {body tail : List Char}
    (h : ∀ c ∈ body, c ≠ '"' ∧ c ≠ ']') :
    consumeInstanceSuffix false false (body ++ ']' :: tail) = some (body ++ [']'], tail) := by
  induction body with
  | nil => rfl
  | cons c body ih =>
    obtain ⟨⟨hquote, hclose⟩, hbody⟩ := List.forall_mem_cons.mp h
    simp [consumeInstanceSuffix, hquote, hclose, ih hbody]

/-- A quoted text is consumed up to its closing quote. -/
theorem consumeInstanceSuffix_quoted {key tail : List Char} (h : Quoting.Alike T key) :
    consumeInstanceSuffix true false (Quoting.debugChars T key ++ '"' :: ']' :: tail) =
      some (Quoting.debugChars T key ++ ['"', ']'], tail) := by
  induction key with
  | nil => rfl
  | cons c key ih =>
    rcases Quoting.debugChar_of_alikeAt h.1 with ⟨e, he, hc⟩ | ⟨hnone, hc⟩
    · simp [hc, consumeInstanceSuffix, ih h.2]
    · obtain ⟨-, -, -, hbackslash, hquote⟩ := Quoting.shortEscape_eq_none_iff.mp hnone
      simp [hc, consumeInstanceSuffix, hbackslash, hquote, ih h.2]

/-- A key that both write in one way. -/
def InstanceKey.Plain : InstanceKey → Prop
  | .none | .count _ => True
  | .each key => Quoting.Alike T key.toList
  | .other _ => False

section

variable {T}

theorem isSuffix_keySuffix {key : InstanceKey} (h : key.Plain T) : IsSuffix (keySuffix T key) := by
  cases key with
  | none => exact .inl rfl
  | count n =>
    refine .inr ⟨_, rfl, fun tail => ?_⟩
    rw [List.append_assoc]
    apply consumeInstanceSuffix_plain
    intro c hc
    rcases mem_toString_int hc with hdigit | rfl
    · constructor <;> rintro rfl <;> exact absurd hdigit (by decide)
    · decide
  | each key =>
    refine .inr ⟨_, rfl, fun tail => ?_⟩
    simp [Quoting.debug, consumeInstanceSuffix, consumeInstanceSuffix_quoted T h]
  | other text => exact h.elim

theorem keySuffix_injOn {key key' : InstanceKey} (h : key.Plain T) (h' : key'.Plain T)
    (heq : keySuffix T key = keySuffix T key') : key = key' := by
  have hcount {n : Int} {rest : List Char} : (toString n).toList ++ [']'] ≠ '"' :: rest := by
    intro hquote
    have hmem : '"' ∈ (toString n).toList ++ [']'] := by rw [hquote]; exact List.mem_cons_self
    rcases List.mem_append.mp hmem with hmem | hmem
    · rcases mem_toString_int hmem with hdigit | hminus
      · exact absurd hdigit (by decide)
      · exact absurd hminus (by decide)
    · exact absurd (List.mem_singleton.mp hmem) (by decide)
  cases key with
  | none => cases key' <;> first | rfl | (simp [keySuffix] at heq)
  | count n =>
    cases key' with
    | none => simp [keySuffix] at heq
    | count m =>
      simp only [keySuffix, List.cons.injEq, true_and] at heq
      have htext := List.append_cancel_right heq
      rw [toString_int_injective (String.toList_inj.mp htext)]
    | each key' =>
      simp only [keySuffix, Quoting.debug, List.cons.injEq, true_and, List.cons_append] at heq
      exact absurd heq hcount
    | other text => exact h'.elim
  | each key =>
    cases key' with
    | none => simp [keySuffix] at heq
    | count m =>
      simp only [keySuffix, Quoting.debug, List.cons.injEq, true_and, List.cons_append] at heq
      exact absurd heq.symm hcount
    | each key' =>
      simp only [keySuffix, Quoting.debug, List.cons.injEq, true_and, List.cons_append,
        List.append_assoc] at heq
      obtain ⟨hkey, -⟩ := Quoting.debugChars_quote_inj h h' heq
      rw [String.toList_inj.mp hkey]
    | other text => exact h'.elim
  | other text => exact h.elim

/-- An accepted module path is a list of segments. -/
theorem exists_segments_of_prefix {path rest modulePrefix : List Char}
    (h : modulePrefixFrom T path rest = .ok modulePrefix) :
    ∃ segments : List Segment, (∀ s ∈ segments, s.Valid) ∧ dotted segments = '.' :: rest := by
  have hword : Bare "module".toList := by decide
  fun_induction modulePrefixFrom T path rest generalizing modulePrefix with
  | case1 => cases h
  | case2 rest element helement =>
    obtain ⟨rfl, name, suffix, hname, hsuffix, rfl⟩ := moduleElement_eq_ok helement
    refine ⟨[⟨"module".toList, name, suffix⟩], ?_, ?_⟩
    · simpa using ⟨hword, hname, hsuffix⟩
    · simp [dotted, Segment.text]
  | case3 rest element next helement ih =>
    simp only [bind_eq_ok] at h
    obtain ⟨more, hmore, -⟩ := h
    obtain ⟨segments, hvalid, hdotted⟩ := ih hmore
    obtain ⟨rfl, name, suffix, hname, hsuffix, rfl⟩ := moduleElement_eq_ok helement
    refine ⟨⟨"module".toList, name, suffix⟩ :: segments, ?_, ?_⟩
    · exact List.forall_mem_cons.mpr ⟨⟨hword, hname, hsuffix⟩, hvalid⟩
    · rw [dotted, List.flatMap_cons, ← dotted, hdotted]
      simp [Segment.text]
  | case4 => cases h

/-- A managed instance whose address can be taken apart. -/
structure ManagedInstance.WellFormed (i : ManagedInstance) : Prop where
  path : ∃ modulePrefix, validatedModulePrefix T i.path = .ok modulePrefix
  resourceType : Bare i.resourceType.toList
  name : Bare i.name.toList
  key : i.key.Plain T

theorem exists_segments (i : ManagedInstance) (h : i.WellFormed (T := T)) :
    ∃ modules : List Segment, (∀ s ∈ modules, s.Valid) ∧
      dotted modules = (match i.path with
        | none => []
        | some path => '.' :: path.toList) ∧
      dotted (modules ++ [⟨i.resourceType.toList, i.name.toList, keySuffix T i.key⟩]) =
        '.' :: (i.address T).toList := by
  obtain ⟨modulePrefix, hprefixed⟩ := h.path
  cases hpath : i.path with
  | none =>
    refine ⟨[], by simp, rfl, ?_⟩
    simp [dotted, Segment.text, ManagedInstance.address, ManagedInstance.base, modulePart, hpath]
  | some path =>
    simp only [hpath, validatedModulePrefix, bind_eq_ok, ensure_eq_ok] at hprefixed
    obtain ⟨⟨⟩, -, hprefixed⟩ := hprefixed
    obtain ⟨modules, hvalid, hdotted⟩ := exists_segments_of_prefix hprefixed
    refine ⟨modules, hvalid, hdotted, ?_⟩
    rw [dotted, List.flatMap_append, ← dotted, hdotted]
    simp [Segment.text, ManagedInstance.address, ManagedInstance.base, modulePart, hpath]

/-- Well-formed instances at one address are one instance. -/
theorem address_injOn {i j : ManagedInstance} (hi : i.WellFormed (T := T))
    (hj : j.WellFormed (T := T)) (h : i.address T = j.address T) : i = j := by
  obtain ⟨modules, hmodules, hpath, haddress⟩ := exists_segments i hi
  obtain ⟨modules', hmodules', hpath', haddress'⟩ := exists_segments j hj
  rw [← h, ← haddress] at haddress'
  have hvalid {modules : List Segment} (hm : ∀ s ∈ modules, s.Valid) {k : ManagedInstance}
      (hk : k.WellFormed (T := T)) :
      ∀ s ∈ modules ++ [⟨k.resourceType.toList, k.name.toList, keySuffix T k.key⟩], s.Valid := by
    intro s hs
    rcases List.mem_append.mp hs with hs | hs
    · exact hm s hs
    · rw [List.mem_singleton.mp hs]
      exact ⟨hk.resourceType, hk.name, isSuffix_keySuffix hk.key⟩
  have hsegments := dotted_injOn (hvalid hmodules' hj) (hvalid hmodules hi) haddress'
  obtain ⟨hinit, hlast⟩ := List.append_inj' hsegments rfl
  simp only [List.cons.injEq, Segment.mk.injEq, and_true] at hlast
  obtain ⟨htype, hname, hkey⟩ := hlast
  rw [← hinit, hpath'] at hpath
  have hsame : j.path = i.path := by
    cases hi' : i.path <;> cases hj' : j.path <;> simp_all [String.toList_inj]
  cases i
  cases j
  simp only [ManagedInstance.mk.injEq]
  exact ⟨hsame.symm, (String.toList_inj.mp htype).symm, (String.toList_inj.mp hname).symm,
    keySuffix_injOn hi.key hj.key hkey.symm⟩

/-! ## What reading a state promises -/

variable {state : Json} {snapshot : StateSnapshot}

theorem mem_managedInstances {i : ManagedInstance} :
    i ∈ managedInstances state ↔
      ∃ resource ∈ state.itemsAt "resources", i ∈ instancesOf resource := by
  simp [managedInstances]

theorem mem_instancesOf {resource : Json} {i : ManagedInstance} (h : i ∈ instancesOf resource) :
    i.path = resource.strAt "module" ∧ ∃ item ∈ resource.itemsAt "instances",
      i.key = .read (item.get "index_key") := by
  unfold instancesOf at h
  split at h
  · obtain ⟨item, hitem, rfl⟩ := List.mem_map.mp h
    exact ⟨rfl, item, hitem, rfl⟩
  · exact absurd h List.not_mem_nil

/-- The module path of an accepted managed instance was validated. -/
theorem exists_validated (h : parseRawStateV4 T state = .ok snapshot) {i : ManagedInstance}
    (hi : i ∈ managedInstances state) :
    ∃ modulePrefix, validatedModulePrefix T i.path = .ok modulePrefix := by
  obtain ⟨resource, hresource, hi⟩ := mem_managedInstances.mp hi
  obtain ⟨items, hitems, hmem⟩ := Json.mem_itemsAt.mp hresource
  simp only [parseRawStateV4, bind_eq_ok, collectResources, hitems, collectResourceArray,
    okOr_eq_ok, Json.asArray_eq_some] at h
  obtain ⟨-, -, -, -, -, -, -, -, -, -, entries, ⟨_, heq, collected, hcollected, -⟩, -⟩ := h
  cases heq
  obtain ⟨entry, hentry⟩ := exists_ok_of_mapM hcollected hmem
  simp only [collectResource, bind_eq_ok] at hentry
  obtain ⟨-, -, -, -, -, -, -, -, modulePrefix, hprefixed, -⟩ := hentry
  rw [(mem_instancesOf hi).1]
  exact ⟨modulePrefix, hprefixed⟩

/-- With fields of the expected shapes, every key is one the engine prints. -/
theorem Expected.key_ne_other (h : Expected state) {i : ManagedInstance}
    (hi : i ∈ managedInstances state) (text : String) : i.key ≠ .other text := by
  obtain ⟨resource, hresource, hi⟩ := mem_managedInstances.mp hi
  obtain ⟨-, item, hitem, hkey⟩ := mem_instancesOf hi
  have hexpected := h.keys resource hresource item hitem
  rw [hkey]
  unfold ExpectedKey at hexpected
  unfold InstanceKey.read
  split <;> simp_all

/-- The two quotings of the keys agree, so the two addresses do. -/
theorem address_eq_printed (hexpected : Expected state) (halike : KeysAlike T state)
    {i : ManagedInstance} (hi : i ∈ managedInstances state) : i.address T = i.printed T := by
  rw [ManagedInstance.address, ManagedInstance.printed]
  cases hkey : i.key with
  | none | count n => rfl
  | each key =>
    have hquoted := Quoting.debug_eq_template_iff.mpr (halike i hi key hkey)
    simp only [keySuffix, printedSuffix, hquoted]
  | other text => exact absurd hkey (hexpected.key_ne_other hi text)

theorem alike_of_address_eq_printed {i : ManagedInstance} (h : i.address T = i.printed T)
    {key : String} (hkey : i.key = .each key) : Quoting.Alike T key.toList := by
  rw [ManagedInstance.address, ManagedInstance.printed, String.ofList_inj,
    List.append_cancel_left_eq, hkey] at h
  simp only [keySuffix, printedSuffix, List.cons.injEq, true_and] at h
  exact Quoting.debug_eq_template_iff.mp (List.append_cancel_right h)

/-- Bare names keep the instances of an accepted state apart. -/
theorem printedApart_of_bareNames (h : parseRawStateV4 T state = .ok snapshot)
    (hexpected : Expected state) (halike : KeysAlike T state) (hbare : BareNames state) :
    PrintedApart T state := by
  have hwell {i : ManagedInstance} (hi : i ∈ managedInstances state) :
      i.WellFormed (T := T) := by
    refine ⟨exists_validated h hi, (hbare i hi).1, (hbare i hi).2, ?_⟩
    cases hkey : i.key with
    | none | count n => trivial
    | each key => exact halike i hi key hkey
    | other text => exact absurd hkey (hexpected.key_ne_other hi text)
  intro i hi j hj hne heq
  rw [← address_eq_printed hexpected halike hi, ← address_eq_printed hexpected halike hj] at heq
  exact hne (address_injOn (hwell hi) (hwell hj) heq)

/-- **Addresses of a state.**  Reading an accepted state keeps its promises exactly if the fields
have their shapes, both quotings of each key agree, and the engine itself tells the instances
apart; the last is so wherever types and names are bare. -/
theorem faithful_iff (h : parseRawStateV4 T state = .ok snapshot) :
    (Faithful T state snapshot ↔ Expected state ∧ KeysAlike T state ∧ PrintedApart T state) ∧
      (Expected state → KeysAlike T state → BareNames state → PrintedApart T state) := by
  refine ⟨⟨fun hfaithful => ?_, ?_⟩, printedApart_of_bareNames h⟩
  · refine ⟨hfaithful.expected, fun i hi key hkey => ?_, fun i hi j hj hne => ?_⟩
    · exact alike_of_address_eq_printed (hfaithful.printed i hi) hkey
    · rw [← hfaithful.printed i hi, ← hfaithful.printed j hj]
      exact hfaithful.apart i hi j hj hne
  · rintro ⟨hexpected, halike, hapart⟩
    refine ⟨hexpected, fun i hi => address_eq_printed hexpected halike hi,
      fun i hi => (mem_managed_iff h).mpr ⟨i, hi, rfl⟩, fun a ha => (mem_managed_iff h).mp ha,
      fun i hi j hj hne => ?_⟩
    rw [address_eq_printed hexpected halike hi, address_eq_printed hexpected halike hj]
    exact hapart i hi j hj hne

end

/-! ## Samples -/

/-- A state with these resources. -/
def stateWith (resources : List (String × Json)) : Json :=
  .object ([("lineage", .string "line"), ("serial", .number (.integer 1)),
    ("version", .number (.integer 4))] ++ resources)

/-- One managed resource with one keyed instance. -/
def keyedInstance (key : String) : List (String × Json) :=
  [("resources", .array [.object [("mode", .string "managed"), ("name", .string "n"),
    ("type", .string "t"), ("instances", .array [.object [("index_key", .string key)]])]])]

/-- A key with a quote is printed with the same escape. -/
theorem faithful_iff_sample :
    Faithful asciiTables (stateWith (keyedInstance "a\"b"))
      ⟨["t.n[\"a\\\"b\"]"], [], 1, "line"⟩ := by
  have hinstances : managedInstances (stateWith (keyedInstance "a\"b")) =
      [⟨none, "t", "n", .each "a\"b"⟩] := rfl
  refine (faithful_iff (by decide +kernel)).1.mpr ⟨⟨⟨_, rfl⟩, ?_, ?_, ?_, ?_⟩, ?_, ?_⟩
  · simp [stateWith, keyedInstance, Json.itemsAt, Json.asArray]
  · simp [stateWith, keyedInstance, Json.itemsAt, Json.asArray]
  · simp [stateWith, keyedInstance, Json.itemsAt, Json.asArray, Json.isObject]
  · simp [stateWith, keyedInstance, Json.itemsAt, Json.asArray, ExpectedKey]
  · rw [KeysAlike, hinstances]
    simp only [List.mem_singleton, forall_eq, InstanceKey.each.injEq, forall_eq']
    decide +kernel
  · rw [PrintedApart, hinstances]
    simp

/-- A state whose list of resources is missing is read as an empty one. -/
theorem missing_resources_accepted :
    ¬ ∀ (T : Quoting.Tables) (state : Json) (snapshot : StateSnapshot),
      parseRawStateV4 T state = .ok snapshot → Faithful T state snapshot := by
  intro h
  have hfaithful := h asciiTables (stateWith []) ⟨[], [], 1, "line"⟩ (by decide +kernel)
  obtain ⟨items, hitems⟩ := hfaithful.expected.resources
  cases hitems

end EngineState

end Template

end Shaula
