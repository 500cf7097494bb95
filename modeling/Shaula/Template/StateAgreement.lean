import Mathlib.Data.List.Dedup
import Shaula.Core.StateBackend
import Shaula.Template.EngineState

/-! # One state, two readers

The backend decodes the bytes of a state into a typed header, the worker reads the same document as
a JSON value and walks it.  Both start from the syntax of the bytes, in which an object may still
name a member twice.
-/

namespace Shaula

open Library Library.Outcome

namespace Template

namespace StateReading

/-! ## The value of a document -/

mutual

/-- The value of a document: of members with one name the last one stays. -/
def value : Json → Json
  | .array items => .array (valueItems items)
  | .object members => .object (valueMembers members)
  | scalar => scalar

def valueItems : List Json → List Json
  | [] => []
  | item :: rest => value item :: valueItems rest

def valueMembers : List (String × Json) → List (String × Json)
  | [] => []
  | (key, member) :: rest =>
    if rest.any (·.1 = key) then valueMembers rest else (key, value member) :: valueMembers rest

end

mutual

/-- Whether every number of a document can be read. -/
def numbersRead (inRange : String → Bool) : Json → Bool
  | .number (.float text) => inRange text
  | .array items => numbersReadItems inRange items
  | .object members => numbersReadMembers inRange members
  | _ => true

def numbersReadItems (inRange : String → Bool) : List Json → Bool
  | [] => true
  | item :: rest => numbersRead inRange item && numbersReadItems inRange rest

def numbersReadMembers (inRange : String → Bool) : List (String × Json) → Bool
  | [] => true
  | (_, member) :: rest => numbersRead inRange member && numbersReadMembers inRange rest

end

variable (inRange : String → Bool)

/-- Whether a part of a document is read as a value, that many levels deep. -/
def reads (levels : Nat) (part : Json) : Bool :=
  decide (part.depth ≤ levels) && numbersRead inRange part

/-- The value the worker reads. -/
def readValue (document : Json) : Option Json :=
  if reads inRange 127 document = true then some (value document) else none

/-! ## The header of a document -/

/-- The members of a structure with these fields, which may also be written as an array. -/
def structure_ (fields : List String) : Json → Option (List (String × Json))
  | .object members => some members
  | .array items => if items.length = fields.length then some (fields.zip items) else none
  | _ => none

/-- A field that has to be there once. -/
def field (members : List (String × Json)) (key : String) : Option Json :=
  match members.filter (·.1 = key) with
  | [(_, member)] => some member
  | _ => none

def kindOf : Json → Core.JsonKind
  | .null => .null
  | .bool _ => .bool
  | .number _ => .number
  | .string _ => .string
  | .array _ => .array
  | .object _ => .object

/-- A map of values, that many levels deep. -/
def readMap (levels : Nat) (part : Json) : Option (List (String × Json)) :=
  if reads inRange levels part = true then (value part).asObject else none

def readResource (resource : Json) : Option Core.Resource := do
  let members ← structure_ ["mode", "type", "name", "provider", "instances"] resource
  let mode ← (field members "mode").bind Json.asStr
  let resourceType ← (field members "type").bind Json.asStr
  let name ← (field members "name").bind Json.asStr
  let provider ← (field members "provider").bind Json.asStr
  let instances ← (field members "instances").bind Json.asArray
  let maps ← instances.mapM (readMap inRange 123)
  return { mode, resourceType, name, provider, instances := maps.length }

def readHeader (document : Json) : Option Core.Header := do
  let members ← structure_ ["version", "lineage", "serial", "resources", "outputs"] document
  let version ← (field members "version").bind Json.asU32
  let lineage ← (field members "lineage").bind Json.asStr
  let serial ← (field members "serial").bind Json.asI64
  let items ← (field members "resources").bind Json.asArray
  let resources ← items.mapM (readResource inRange)
  let outputs ← (field members "outputs").bind (readMap inRange 126)
  return { version, lineage, serial := serial.toInt, resources, outputs := outputs.map fun o => (o.1, kindOf o.2) }

/-! ## What a value holds of its document -/

section

variable {inRange} {document part : Json} {members : List (String × Json)} {key : String}

theorem valueItems_eq_map (items : List Json) : valueItems items = items.map value := by
  induction items with
  | nil => rfl
  | cons item rest ih => rw [valueItems, ih, List.map_cons]

theorem value_array (items : List Json) : value (.array items) = .array (items.map value) := by
  rw [value, valueItems_eq_map]

theorem value_string (text : String) : value (.string text) = .string text := by
  simp [value]

theorem value_number (n : Number) : value (.number n) = .number n := by
  simp [value]

theorem isObject_value : (value part).isObject = part.isObject := by
  cases part <;> simp [value, Json.isObject]

/-- A member that is there once is there in the value. -/
theorem lookup_valueMembers {name : String} {member : Json}
    (h : members.filter (·.1 = key) = [(name, member)]) :
    Json.lookup (valueMembers members) key = some (value member) := by
  induction members with
  | nil => simp at h
  | cons first rest ih =>
    obtain ⟨name', member'⟩ := first
    rw [List.filter_cons] at h
    by_cases hname : name' = key
    · subst hname
      simp only [decide_true, if_true, List.cons.injEq, Prod.mk.injEq] at h
      obtain ⟨⟨-, rfl⟩, hrest⟩ := h
      have hlast : ¬ rest.any (·.1 = name') = true := by
        intro hany
        obtain ⟨later, hlater, hname⟩ := List.any_eq_true.mp hany
        exact List.filter_eq_nil_iff.mp hrest later hlater hname
      simp [valueMembers, hlast]
    · simp only [hname, decide_false, Bool.false_eq_true, if_false] at h
      rw [valueMembers]
      split
      · exact ih h
      · rw [Json.lookup_cons, if_neg hname, ih h]

theorem get_value (h : field members key = some part) :
    (value (.object members)).get key = some (value part) := by
  unfold field at h
  split at h
  · next name member hfilter =>
    cases h
    rw [value, Json.get_object, lookup_valueMembers hfilter]
  · cases h

theorem strAt_value {text : String} (h : (field members key).bind Json.asStr = some text) :
    (value (.object members)).strAt key = some text := by
  obtain ⟨member, hmember, htext⟩ := Option.bind_eq_some_iff.mp h
  rw [Json.asStr_eq_some] at htext
  subst htext
  rw [Json.strAt_eq_some, get_value hmember, value_string]

theorem arrayAt_value {items : List Json} (h : (field members key).bind Json.asArray = some items) :
    (value (.object members)).get key = some (.array (items.map value)) := by
  obtain ⟨member, hmember, hitems⟩ := Option.bind_eq_some_iff.mp h
  rw [Json.asArray_eq_some] at hitems
  subst hitems
  rw [get_value hmember, value_array]

theorem numberAt_value {n : Int} {α : Type} {read : Json → Option α} {a : α}
    (h : (field members key).bind read = some a)
    (hread : ∀ member, read member = some a → member = .number (.integer n)) :
    (value (.object members)).get key = some (.number (.integer n)) := by
  obtain ⟨member, hmember, ha⟩ := Option.bind_eq_some_iff.mp h
  have hnumber := hread member ha
  subst hnumber
  rw [get_value hmember, value_number]

theorem asI64_eq_some {n : Int64} (h : part.asI64 = some n) :
    part = .number (.integer n.toInt) := by
  unfold Json.asI64 at h
  split at h
  · split_ifs at h with hrange
    cases h
    rw [Int64.toInt_ofInt_of_le hrange.1 hrange.2]
  · cases h

theorem asU32_eq_some {n : Nat} (h : part.asU32 = some n) : part = .number (.integer n) := by
  unfold Json.asU32 at h
  split at h
  · split_ifs at h with hrange
    cases h
    rw [Int.toNat_of_nonneg hrange.1]
  · cases h

/-- Reading each item gives as many results. -/
theorem mapM_eq_some_forall₂ {α β : Type} {f : α → Option β} {l : List α} {r : List β}
    (h : l.mapM f = some r) : List.Forall₂ (fun a b => f a = some b) l r := by
  induction l generalizing r with
  | nil =>
    cases h
    exact .nil
  | cons a rest ih =>
    rw [List.mapM_cons] at h
    simp only [Option.bind_eq_bind, Option.bind_eq_some_iff, Option.pure_def,
      Option.some.injEq] at h
    obtain ⟨b, hb, results, hresults, rfl⟩ := h
    exact .cons hb (ih hresults)

end

variable {inRange}

/-- A resource of the header describes one of the value. -/
structure Describes (r : Core.Resource) (resource : Json) : Prop where
  isObject : resource.isObject = true
  mode : resource.strAt "mode" = some r.mode
  resourceType : resource.strAt "type" = some r.resourceType
  name : resource.strAt "name" = some r.name
  instances : ∃ items, resource.get "instances" = some (.array items) ∧
    items.length = r.instances ∧ ∀ item ∈ items, item.isObject = true

/-- A header describes the value of its document. -/
structure HeaderDescribes (header : Core.Header) (state : Json) : Prop where
  isObject : state.isObject = true
  version : state.get "version" = some (.number (.integer header.version))
  lineage : state.strAt "lineage" = some header.lineage
  serial : state.get "serial" = some (.number (.integer header.serial)) ∧ header.serial < 2 ^ 63
  resources : ∃ items, state.get "resources" = some (.array items) ∧
    List.Forall₂ Describes header.resources items

theorem readResource_describes {resource : Json} {r : Core.Resource}
    (hobject : resource.isObject = true) (h : readResource inRange resource = some r) :
    Describes r (value resource) := by
  cases resource with
  | object members =>
    simp only [readResource, structure_, Option.bind_eq_bind, Option.bind_eq_some_iff,
      Option.some.injEq, Option.pure_def] at h
    obtain ⟨_, rfl, mode, hmode, resourceType, htype, name, hname, provider, -, instances,
      hinstances, maps, hmaps, rfl⟩ := h
    have heach := mapM_eq_some_forall₂ hmaps
    refine ⟨isObject_value.trans hobject, strAt_value (Option.bind_eq_some_iff.mpr hmode),
      strAt_value (Option.bind_eq_some_iff.mpr htype),
      strAt_value (Option.bind_eq_some_iff.mpr hname), instances.map value,
      arrayAt_value (Option.bind_eq_some_iff.mpr hinstances), ?_, ?_⟩
    · rw [List.length_map, heach.length_eq]
    · intro item hitem
      obtain ⟨raw, hraw, rfl⟩ := List.mem_map.mp hitem
      obtain ⟨i, hi, rfl⟩ := List.mem_iff_getElem.mp hraw
      have hmap := heach.get (i := i) hi (heach.length_eq ▸ hi)
      simp only [List.get_eq_getElem, readMap] at hmap
      split_ifs at hmap
      cases hvalue : value instances[i] with
      | object members => rfl
      | _ => simp [hvalue, Json.asObject] at hmap
  | _ => cases hobject

theorem readHeader_describes {document : Json} {header : Core.Header}
    (hobject : (value document).isObject = true)
    (hobjects : ∀ resource ∈ (value document).itemsAt "resources", resource.isObject = true)
    (h : readHeader inRange document = some header) : HeaderDescribes header (value document) := by
  cases document with
  | object members =>
    simp only [readHeader, structure_, Option.bind_eq_bind, Option.bind_eq_some_iff,
      Option.some.injEq, Option.pure_def] at h
    obtain ⟨_, rfl, version, hversion, lineage, hlineage, serial, hserial, items, hitems,
      resources, hresources, outputs, -, rfl⟩ := h
    have hlist := arrayAt_value (Option.bind_eq_some_iff.mpr hitems)
    rw [Json.itemsAt_eq hlist, List.forall_mem_map] at hobjects
    refine ⟨hobject, numberAt_value (Option.bind_eq_some_iff.mpr hversion) fun _ => asU32_eq_some,
      strAt_value (Option.bind_eq_some_iff.mpr hlineage),
      ⟨numberAt_value (Option.bind_eq_some_iff.mpr hserial) fun _ => asI64_eq_some,
        serial.toInt_lt⟩,
      _, hlist, ?_⟩
    rw [List.forall₂_map_right_iff]
    refine List.Forall₂.flip ?_
    have heach := mapM_eq_some_forall₂ hresources
    refine List.forall₂_iff_get.mpr ⟨heach.length_eq, fun i hi hi' => ?_⟩
    have hresource := hobjects _ (List.get_mem items ⟨i, hi⟩)
    rw [isObject_value] at hresource
    exact readResource_describes hresource (heach.get hi hi')
  | _ => cases hobject

end StateReading

/-- The platform whose state files are read from the syntax of their bytes. -/
def readingStates (P : Core.Platform) (inRange : String → Bool)
    (syntaxOf : Core.Bytes → Option Json) : Core.Platform :=
  { P with readHeader := fun bytes => (syntaxOf bytes).bind (StateReading.readHeader inRange) }

namespace EngineState

/-! ## Well-formed states -/

/-- What stands between two quotes: a quote or a backslash only behind a backslash. -/
inductive Quoted : List Char → Prop
  | nil : Quoted []
  | plain {c : Char} {rest : List Char} (hquote : c ≠ '"') (hbackslash : c ≠ '\\')
    (h : Quoted rest) : Quoted (c :: rest)
  | escaped {c : Char} {rest : List Char} (h : Quoted rest) : Quoted ('\\' :: c :: rest)

/-- What follows the name of a module: nothing, a number or a quoted key. -/
inductive PathKey : List Char → Prop
  | none : PathKey []
  | count {digits : List Char} (h : ∀ c ∈ digits, c.isDigit = true) :
    PathKey ('[' :: (digits ++ [']']))
  | each {key : List Char} (h : Quoted key) : PathKey ('[' :: '"' :: (key ++ ['"', ']']))

/-- A chain of modules, each with its name and key. -/
inductive ModulePath : List Char → Prop
  | last {name key : List Char} (hbare : Bare name) (hname : name ≠ []) (hkey : PathKey key) :
    ModulePath ("module.".toList ++ (name ++ key))
  | within {name key rest : List Char} (hbare : Bare name) (hname : name ≠ [])
    (hkey : PathKey key) (h : ModulePath rest) :
    ModulePath ("module.".toList ++ (name ++ (key ++ '.' :: rest)))

/-- Whether an index key is missing, a number or a text. -/
def IndexKey : Option Json → Prop
  | none | some (.number _) | some (.string _) => True
  | _ => False

/-- Whether the module paths and the index keys of a state are well formed. -/
structure WellFormed (state : Json) : Prop where
  paths : ∀ resource ∈ state.itemsAt "resources", ∀ path, resource.strAt "module" = some path →
    ModulePath path.toList
  keys : ∀ resource ∈ state.itemsAt "resources", ∀ item ∈ resource.itemsAt "instances",
    IndexKey (item.get "index_key")

/-- Whether a state and its resources are written by the names of their fields. -/
structure Named (state : Json) : Prop where
  isObject : state.isObject = true
  resources : ∀ resource ∈ state.itemsAt "resources", resource.isObject = true

/-- The addresses of the managed instances of one type, one for each instance object. -/
def addressesOf (T : Quoting.Tables) (state : Json) (resourceType : String) : List String :=
  ((managedInstances state).filter (·.resourceType = resourceType)).map (·.address T)

/-- The entries of one type in the managed list of the worker. -/
def entriesOf (T : Quoting.Tables) (state : Json) (snapshot : StateSnapshot)
    (resourceType : String) : List String :=
  snapshot.managed.filter fun a =>
    ∃ i ∈ managedInstances state, i.resourceType = resourceType ∧ i.address T = a

/-! ## Acceptance -/

section

variable {T : Quoting.Tables}

theorem consumeInstanceSuffix_of_quoted {key tail : List Char} (h : Quoted key) :
    consumeInstanceSuffix true false (key ++ '"' :: ']' :: tail) =
      some (key ++ ['"', ']'], tail) := by
  induction h with
  | nil => rfl
  | plain hquote hbackslash _ ih => simp [consumeInstanceSuffix, hquote, hbackslash, ih]
  | escaped _ ih => simp [consumeInstanceSuffix, ih]

theorem PathKey.isSuffix {key : List Char} (h : PathKey key) : IsSuffix key := by
  cases h with
  | none => exact .inl rfl
  | count hdigits =>
    refine .inr ⟨_, rfl, fun tail => ?_⟩
    rw [List.append_assoc]
    apply consumeInstanceSuffix_plain
    intro c hc
    constructor <;> rintro rfl <;> exact absurd (hdigits _ hc) (by decide)
  | each hkey =>
    refine .inr ⟨_, rfl, fun tail => ?_⟩
    simp [consumeInstanceSuffix, consumeInstanceSuffix_of_quoted hkey]

/-- A name with its key is one element of a path. -/
theorem moduleElement_accepts {path name key tail : List Char} (hbare : Bare name)
    (hname : name ≠ []) (hkey : PathKey key) (htail : AtDot tail) :
    moduleElement T path ("module.".toList ++ (name ++ (key ++ tail))) =
      .ok ("module.".toList ++ name ++ key, tail) := by
  have hstop := not_isBare_head_suffix hkey.isSuffix htail
  have htake : (name ++ (key ++ tail)).takeWhile isBare = name := by
    rw [List.takeWhile_append_of_pos hbare]
    cases hrest : key ++ tail with
    | nil => simp
    | cons c rest =>
      rw [hrest] at hstop
      simp [hstop c rfl]
  have hdrop : (name ++ (key ++ tail)).dropWhile isBare = key ++ tail := by
    have hall := List.takeWhile_append_dropWhile (p := isBare) (l := name ++ (key ++ tail))
    rw [htake] at hall
    exact List.append_cancel_left hall
  have hstrip := stripModule_eq_some.mpr (rfl : "module.".toList ++ (name ++ (key ++ tail)) = _)
  simp only [moduleElement, bind_eq_ok, okOr_eq_ok, ensure_eq_ok]
  refine ⟨_, hstrip, ⟨⟩, ?_, ?_⟩
  · rw [htake]
    exact hname
  · rw [htake, hdrop]
    rcases hkey.isSuffix with rfl | ⟨body, rfl, hbody⟩
    · rcases htail with rfl | ⟨rest, rfl⟩ <;> simp
    · simp [hbody]

theorem modulePrefixFrom_last {path rest element : List Char}
    (h : moduleElement T path rest = .ok (element, [])) :
    modulePrefixFrom T path rest = .ok (element ++ ['.']) := by
  rw [modulePrefixFrom]
  split
  · next e he => rw [h] at he; cases he
  · next element' he => rw [h] at he; cases he; rfl
  · next element' next he => rw [h] at he; cases he
  · next taken hnil hdot he =>
    rw [h, Except.ok.injEq] at he
    exact absurd he.symm (hnil element)

theorem modulePrefixFrom_within {path rest element tail more : List Char}
    (h : moduleElement T path rest = .ok (element, '.' :: tail))
    (hmore : modulePrefixFrom T path tail = .ok more) :
    modulePrefixFrom T path rest = .ok (element ++ '.' :: more) := by
  rw [modulePrefixFrom]
  split
  · next e he => rw [h] at he; cases he
  · next element' he => rw [h] at he; cases he
  · next element' next he =>
    rw [h] at he
    cases he
    rw [hmore]
    rfl
  · next taken hnil hdot he =>
    rw [h, Except.ok.injEq] at he
    exact absurd he.symm (hdot element tail)

theorem ModulePath.accepted {path rest : List Char} (h : ModulePath rest) :
    ∃ modulePrefix, modulePrefixFrom T path rest = .ok modulePrefix := by
  induction h with
  | @last name key hbare hname hkey =>
    have helement := @moduleElement_accepts T path name key [] hbare hname hkey (.inl rfl)
    rw [List.append_nil] at helement
    exact ⟨_, modulePrefixFrom_last helement⟩
  | @within name key rest hbare hname hkey _ ih =>
    obtain ⟨more, hmore⟩ := ih
    have helement := @moduleElement_accepts T path name key ('.' :: rest) hbare hname hkey
      (.inr ⟨rest, rfl⟩)
    exact ⟨_, modulePrefixFrom_within helement hmore⟩

theorem exists_modulePrefix {path : Option String}
    (h : ∀ text, path = some text → ModulePath text.toList) :
    ∃ modulePrefix, validatedModulePrefix T path = .ok modulePrefix := by
  cases path with
  | none => exact ⟨[], rfl⟩
  | some text =>
    have hpath := h text rfl
    obtain ⟨modulePrefix, hprefixed⟩ := @ModulePath.accepted T text.toList text.toList hpath
    refine ⟨modulePrefix, ?_⟩
    have hne : text ≠ "" := by
      rintro rfl
      cases hpath
    simp [validatedModulePrefix, hne, hprefixed, ensure]

open StateReading

/-- A resource that the backend accepts is collected by the worker. -/
theorem collectResource_accepts {r : Core.Resource} {resource : Json} (hd : Describes r resource)
    (hvalid : r.Valid)
    (hpath : ∀ path, resource.strAt "module" = some path → ModulePath path.toList)
    (hkeys : ∀ item ∈ resource.itemsAt "instances", IndexKey (item.get "index_key")) :
    ∃ entries, collectResource T resource = .ok entries := by
  obtain ⟨items, hitems, -, hobjects⟩ := hd.instances
  obtain ⟨modulePrefix, hprefixed⟩ := exists_modulePrefix (T := T) hpath
  rw [Json.itemsAt_eq hitems] at hkeys
  have hinstance (base : String) : ∀ item ∈ items,
      ∃ entry, collectInstance T base item = .ok entry := by
    intro item hitem
    have haddress : ∃ address, instanceAddress T base item = .ok address := by
      have hkey := hkeys item hitem
      unfold instanceAddress
      split
      · exact ⟨_, rfl⟩
      · exact ⟨_, rfl⟩
      · exact ⟨_, rfl⟩
      · next other hnumber hstring hother =>
        rw [hother] at hkey
        cases other with
        | number n => exact absurd rfl (hnumber n)
        | string key => exact absurd rfl (hstring key)
        | _ => exact hkey.elim
    obtain ⟨address, haddress⟩ := haddress
    simp only [collectInstance, bind_eq_ok, ensure_eq_ok, pure_eq_ok]
    exact ⟨_, ⟨⟩, hobjects item hitem, address, haddress, rfl⟩
  obtain ⟨hmode, htype, hname, -⟩ := hvalid
  by_cases hmanaged : r.mode = "managed"
  · obtain ⟨entries, hentries⟩ := exists_mapM_eq_ok (hinstance
      (String.ofList modulePrefix ++ r.resourceType ++ "." ++ r.name))
    refine ⟨entries, ?_⟩
    simp only [collectResource, bind_eq_ok, ensure_eq_ok, okOr_eq_ok, hd.isObject, hd.mode,
      hd.resourceType, hd.name, hitems, hprefixed, Option.getD_some, Option.bind_some, Json.asArray,
      Option.some.injEq, Except.ok.injEq, exists_eq_left', hmanaged, if_true]
    exact ⟨⟨⟩, trivial, ⟨⟩, .inl trivial, ⟨⟩, ⟨htype, hname⟩, hentries⟩
  · refine ⟨[], ?_⟩
    simp only [collectResource, bind_eq_ok, ensure_eq_ok, okOr_eq_ok, hd.isObject, hd.mode,
      hd.resourceType, hd.name, hitems, hprefixed, Option.getD_some, Option.bind_some, Json.asArray,
      Option.some.injEq, Except.ok.injEq, exists_eq_left', hmanaged, if_false, pure_eq_ok]
    exact ⟨⟨⟩, trivial, ⟨⟩, hmode.imp_left fun h => absurd h hmanaged, ⟨⟩, ⟨htype, hname⟩, trivial⟩

theorem asU64_four : (Json.number (.integer (4 : Nat))).asU64 = some 4 := by
  simp [Json.asU64]

/-- A serial that the backend reads is one that the worker reads. -/
theorem exists_asU64 {n : Int} (h : 0 ≤ n) (hbound : n < 2 ^ 63) :
    ∃ serial : UInt64, (Json.number (.integer n)).asU64 = some serial ∧
      (serial.toNat : Int) = n := by
  refine ⟨.ofNat n.toNat, ?_, ?_⟩
  · rw [Json.asU64, if_pos ⟨h, by omega⟩]
  · rw [UInt64.toNat_ofNat', Nat.mod_eq_of_lt (by omega)]
    exact Int.toNat_of_nonneg h

/-- A state that the backend accepts is accepted by the worker. -/
theorem parseRawStateV4_accepts {header : Core.Header} {state : Json}
    (hd : HeaderDescribes header state) (hvalid : header.Valid) (hformed : WellFormed state) :
    ∃ snapshot, parseRawStateV4 T state = .ok snapshot ∧ snapshot.lineage = header.lineage ∧
      (snapshot.serial : Int) = header.serial := by
  obtain ⟨hversion, hserial, hlineage, hresources, -⟩ := hvalid
  obtain ⟨items, hitems, heach⟩ := hd.resources
  have hcollect : ∀ resource ∈ items, ∃ entries, collectResource T resource = .ok entries := by
    intro resource hresource
    obtain ⟨i, hi, rfl⟩ := List.mem_iff_getElem.mp hresource
    have hlength : i < header.resources.length := heach.length_eq ▸ hi
    have hmem : items[i] ∈ state.itemsAt "resources" := by
      rw [Json.itemsAt_eq hitems]
      exact hresource
    exact collectResource_accepts (heach.get hlength hi)
      (hresources _ (List.getElem_mem hlength)) (hformed.paths _ hmem) (hformed.keys _ hmem)
  obtain ⟨collected, hcollected⟩ := exists_mapM_eq_ok hcollect
  have hentries : collectResources T state = .ok collected.flatten := by
    simp [collectResources, hitems, collectResourceArray, Json.asArray, okOr, hcollected]
  have hnonempty : header.lineage ≠ "" := hlineage.1
  obtain ⟨hserialAt, hbound⟩ := hd.serial
  have hversionRead : (Json.number (.integer header.version)).asU64 = some 4 := by
    rw [hversion]
    exact asU64_four
  obtain ⟨serial, hserialRead, hserialNat⟩ := exists_asU64 hserial hbound
  have hlineageRead : (some header.lineage).filter (· ≠ "") = some header.lineage := by
    simp [hnonempty]
  have haccepted : ∃ snapshot, parseRawStateV4 T state = .ok snapshot ∧
      snapshot.lineage = header.lineage ∧ snapshot.serial = serial.toNat := by
    simp only [parseRawStateV4, bind_eq_ok, ensure_eq_ok, okOr_eq_ok, pure_eq_ok]
    refine ⟨_, ⟨⟨⟩, hd.isObject, 4, ?_, ⟨⟩, rfl, serial, ?_, header.lineage, ?_, _, hentries, rfl⟩,
      rfl, rfl⟩
    · rw [hd.version, Option.bind_some, hversionRead]
    · rw [hserialAt, Option.bind_some, hserialRead]
    · rw [hd.lineage, hlineageRead]
  obtain ⟨snapshot, hsnapshot, hlineageText, hserialText⟩ := haccepted
  exact ⟨snapshot, hsnapshot, hlineageText, by rw [hserialText, hserialNat]⟩

/-! ## What each reader counts -/

theorem find_tally (entries : List (String × Nat)) (key : String) :
    ((Core.StateDocument.tally entries).find key).getD 0 =
      ((entries.filter (·.1 = key)).map (·.2)).sum := by
  have hfold : ∀ t : Table String Nat,
      ((entries.foldl (fun t e => t.put e.1 ((t.find e.1).getD 0 + e.2)) t).find key).getD 0 =
        (t.find key).getD 0 + ((entries.filter (·.1 = key)).map (·.2)).sum := by
    induction entries with
    | nil => simp
    | cons e rest ih =>
      intro t
      rw [List.foldl_cons, ih, Table.find_put]
      by_cases hkey : e.1 = key
      · simp [hkey, Nat.add_assoc]
      · simp [hkey, Ne.symm hkey]
  have hempty := hfold ∅
  rw [Table.find_empty, Option.getD_none, Nat.zero_add] at hempty
  exact hempty

theorem length_instancesOf {r : Core.Resource} {resource : Json}
    (hd : Describes r resource) (resourceType : String) :
    ((instancesOf resource).filter (·.resourceType = resourceType)).length =
      if r.mode = "managed" ∧ r.resourceType = resourceType then r.instances else 0 := by
  obtain ⟨items, hitems, hlength, -⟩ := hd.instances
  rw [instancesOf, hd.mode, Json.itemsAt_eq hitems, hd.resourceType, Option.getD_some]
  by_cases hmode : r.mode = "managed"
  · by_cases htype : r.resourceType = resourceType
    · rw [if_pos (congrArg some hmode), if_pos ⟨hmode, htype⟩, List.filter_eq_self.mpr,
        List.length_map, hlength]
      intro i hi
      obtain ⟨item, -, rfl⟩ := List.mem_map.mp hi
      simpa using htype
    · rw [if_pos (congrArg some hmode), if_neg fun h => htype h.2, List.filter_eq_nil_iff.mpr]
      · rfl
      · intro i hi
        obtain ⟨item, -, rfl⟩ := List.mem_map.mp hi
        simpa using htype
  · rw [if_neg fun h => hmode (Option.some.inj h), if_neg fun h => hmode h.1]
    rfl

section

variable {P : Core.Platform} {document : Core.StateDocument P} {state : Json}
  {snapshot : StateSnapshot}

/-- The backend counts instance objects. -/
theorem managedCounts_eq (hd : HeaderDescribes document.header state) (resourceType : String) :
    (document.managedCounts.find resourceType).getD 0 =
      (addressesOf T state resourceType).length := by
  obtain ⟨items, hitems, heach⟩ := hd.resources
  rw [Core.StateDocument.managedCounts, find_tally, addressesOf, managedInstances,
    Json.itemsAt_eq hitems, List.length_map]
  clear hd hitems
  generalize document.header.resources = resources at heach ⊢
  induction heach with
  | nil => rfl
  | @cons r resource resources items hfirst hrest ih =>
    rw [List.flatMap_cons, List.filter_append, List.length_append, ← ih,
      length_instancesOf hfirst]
    by_cases hmode : r.mode = "managed"
    · by_cases htype : r.resourceType = resourceType <;> simp [hmode, htype]
    · simp [hmode]

theorem managedEmpty_iff (hd : HeaderDescribes document.header state) :
    document.managedEmpty = true ↔ managedInstances state = [] := by
  obtain ⟨items, hitems, heach⟩ := hd.resources
  rw [Core.StateDocument.managedEmpty, managedInstances, Json.itemsAt_eq hitems]
  clear hd hitems
  generalize document.header.resources = resources at heach ⊢
  induction heach with
  | nil => simp
  | @cons r resource resources items hfirst hrest ih =>
    obtain ⟨objects, hobjects, hlength, -⟩ := hfirst.instances
    have hone : instancesOf resource = [] ↔ (r.mode != "managed" || r.instances == 0) = true := by
      rw [instancesOf, hfirst.mode, Json.itemsAt_eq hobjects, ← hlength]
      by_cases hmode : r.mode = "managed" <;> simp [hmode]
    rw [List.flatMap_cons, List.append_eq_nil_iff, ← ih, hone, List.all_cons, Bool.and_eq_true]

theorem nodup_managed (h : parseRawStateV4 T state = .ok snapshot) : snapshot.managed.Nodup := by
  simp only [parseRawStateV4, bind_eq_ok, ensure_eq_ok, okOr_eq_ok, pure_eq_ok] at h
  obtain ⟨⟨⟩, -, version, -, ⟨⟩, -, serial, -, lineage, -, entries, -, rfl⟩ := h
  have hsorted := List.pairwise_insertionSort (· ≤ ·) (entries.map (·.1))
  rw [hsorted.destutter_eq_dedup]
  exact List.nodup_dedup _

/-- The worker lists each address once. -/
theorem length_entriesOf (h : parseRawStateV4 T state = .ok snapshot) (resourceType : String) :
    (entriesOf T state snapshot resourceType).length =
      (addressesOf T state resourceType).dedup.length := by
  apply List.Perm.length_eq
  apply (List.perm_ext_iff_of_nodup ((nodup_managed h).filter _) (List.nodup_dedup _)).mpr
  intro a
  simp only [List.mem_filter, mem_managed_iff h, decide_eq_true_eq, List.mem_dedup,
    addressesOf, List.mem_map]
  constructor
  · rintro ⟨-, i, hi, htype, ha⟩
    exact ⟨i, ⟨hi, htype⟩, ha⟩
  · rintro ⟨i, ⟨hi, htype⟩, ha⟩
    exact ⟨⟨i, hi, ha.symm⟩, i, hi, htype, ha⟩

theorem managed_eq_nil_iff (h : parseRawStateV4 T state = .ok snapshot) :
    snapshot.managed = [] ↔ managedInstances state = [] := by
  simp only [List.eq_nil_iff_forall_not_mem]
  constructor
  · intro hnone i hi
    exact hnone _ ((mem_managed_iff h).mpr ⟨i, hi, rfl⟩)
  · intro hnone a ha
    obtain ⟨i, hi, -⟩ := (mem_managed_iff h).mp ha
    exact hnone i hi

end

/-! ## The agreement -/

/-- Of a state that the backend accepts, both readers give one identity and agree on whether it is
empty.  The backend counts instance objects and the worker lists addresses, so that the entries of a
type are as many as the backend counts exactly when no two of its objects have one address. -/
theorem readers_agree (T : Quoting.Tables) (P : Core.Platform) (inRange : String → Bool)
    (syntaxOf : Core.Bytes → Option Json) (bytes : Core.Bytes)
    (document : Core.StateDocument (readingStates P inRange syntaxOf)) (raw state : Json)
    (hparse : Core.StateDocument.parse (readingStates P inRange syntaxOf) bytes = .ok document)
    (hraw : syntaxOf bytes = some raw) (hread : readValue inRange raw = some state)
    (hnamed : Named state) (hformed : WellFormed state) :
    ∃ snapshot, parseRawStateV4 T state = .ok snapshot ∧
      document.lineage = snapshot.lineage ∧ document.serial = snapshot.serial ∧
      (document.managedEmpty = true ↔ snapshot.managed = []) ∧
      ∀ resourceType,
        (document.managedCounts.find resourceType).getD 0 =
          ((managedInstances state).filter (·.resourceType = resourceType)).length ∧
        (entriesOf T state snapshot resourceType).length ≤
          (document.managedCounts.find resourceType).getD 0 ∧
        ((document.managedCounts.find resourceType).getD 0 =
            (entriesOf T state snapshot resourceType).length ↔
          (addressesOf T state resourceType).Nodup) := by
  have hbytes := Core.StateDocument.parse_eq_ok.mp hparse
  have hvalue : value raw = state := by
    unfold readValue at hread
    split_ifs at hread
    exact Option.some.inj hread
  have hheader : (syntaxOf bytes).bind (readHeader inRange) = some document.header :=
    hbytes ▸ document.reads
  rw [hraw, Option.bind_some] at hheader
  subst hvalue
  have hd := readHeader_describes hnamed.isObject hnamed.resources hheader
  obtain ⟨snapshot, hsnapshot, hlineage, hserial⟩ :=
    parseRawStateV4_accepts (T := T) hd document.valid hformed
  refine ⟨snapshot, hsnapshot, hlineage.symm, hserial.symm, ?_, fun resourceType => ?_⟩
  · rw [managedEmpty_iff hd, managed_eq_nil_iff hsnapshot]
  · have hcount := managedCounts_eq (T := T) hd resourceType
    rw [hcount, length_entriesOf hsnapshot]
    refine ⟨List.length_map _, (List.dedup_sublist _).length_le, ?_⟩
    constructor
    · intro hlength
      exact List.dedup_eq_self.mp ((List.dedup_sublist _).eq_of_length hlength.symm)
    · intro hnodup
      rw [List.dedup_eq_self.mpr hnodup]

end

/-! ## Samples -/

open StateReading

/-- One managed resource with these instance objects. -/
def resourceWith (instances : List Json) : Json :=
  .object [("mode", .string "managed"), ("type", .string "t"), ("name", .string "n"),
    ("provider", .string "p"), ("instances", .array instances)]

/-- The syntax of a state with one resource. -/
def documentWith (instances : List Json) : Json :=
  .object [("version", .number (.integer 4)), ("lineage", .string "l"),
    ("serial", .number (.integer 1)), ("resources", .array [resourceWith instances]),
    ("outputs", .object [])]

/-- The text of a state with one resource. -/
def textWith (instances : String) : Core.Bytes :=
  Core.utf8 ("\x7b\"version\":4,\"lineage\":\"l\",\"serial\":1,\"resources\":[" ++
    "\x7b\"mode\":\"managed\",\"type\":\"t\",\"name\":\"n\",\"provider\":\"p\"," ++
    "\"instances\":[" ++ instances ++ "]\x7d],\"outputs\":\x7b\x7d\x7d")

/-- The current object and a deposed one of one instance. -/
def currentAndDeposed : List Json := [.object [], .object [("deposed", .string "0a")]]

/-- A reader of two state files. -/
def sampleSyntax (bytes : Core.Bytes) : Option Json :=
  if bytes = textWith "\x7b\x7d" then some (documentWith [.object []])
  else if bytes = textWith "\x7b\x7d,\x7b\"deposed\":\"0a\"\x7d" then
    some (documentWith currentAndDeposed)
  else none

/-- A platform that reads nothing but these two state files. -/
def samplePlatform : Core.Platform :=
  readingStates
    { sha256 := id
      readHeader := fun _ => none
      readWireLock := fun _ => none
      writeWireLock := fun _ => []
      readIdentity := fun _ => none
      readManifest := fun _ => none
      legacyJson := fun _ => []
      contentJson := fun _ _ _ => [] }
    (fun _ => true) sampleSyntax

theorem readValue_sample :
    readValue (fun _ => true) (documentWith [.object []]) = some (documentWith [.object []]) ∧
      readValue (fun _ => true) (documentWith currentAndDeposed) =
        some (documentWith currentAndDeposed) := by
  constructor <;> rfl

theorem wellFormed_sample {instances : List Json}
    (h : ∀ item ∈ instances, item.get "index_key" = none) :
    WellFormed (documentWith instances) := by
  constructor
  · intro resource hresource path hpath
    cases List.mem_singleton.mp hresource
    cases hpath
  · intro resource hresource item hitem
    cases List.mem_singleton.mp hresource
    rw [h item hitem]
    trivial

theorem named_sample (instances : List Json) : Named (documentWith instances) := by
  constructor
  · rfl
  · intro resource hresource
    cases List.mem_singleton.mp hresource
    rfl

theorem readHeader_sample :
    samplePlatform.readHeader (textWith "\x7b\x7d") =
        some ⟨4, "l", 1, [⟨"managed", "t", "n", "p", 1⟩], []⟩ ∧
      samplePlatform.readHeader (textWith "\x7b\x7d,\x7b\"deposed\":\"0a\"\x7d") =
        some ⟨4, "l", 1, [⟨"managed", "t", "n", "p", 2⟩], []⟩ := by
  constructor <;> decide +kernel

/-- A single object is counted once by both. -/
theorem readers_agree_sample :
    ∃ (document : Core.StateDocument samplePlatform) (snapshot : StateSnapshot),
      Core.StateDocument.parse samplePlatform (textWith "\x7b\x7d") = .ok document ∧
      parseRawStateV4 Quoting.asciiTables (documentWith [.object []]) = .ok snapshot ∧
      (document.managedCounts.find "t").getD 0 =
        (entriesOf Quoting.asciiTables (documentWith [.object []]) snapshot "t").length := by
  let document : Core.StateDocument samplePlatform :=
    ⟨_, _, readHeader_sample.1, by decide, by decide +kernel⟩
  have hparse := Core.StateDocument.parse_eq_ok.mpr (rfl : document.bytes = textWith "\x7b\x7d")
  obtain ⟨snapshot, hsnapshot, -, -, -, hcounts⟩ :=
    readers_agree Quoting.asciiTables _ _ _ _ _ _ _ hparse
    (if_pos rfl) readValue_sample.1 (named_sample _) (wellFormed_sample (by simp [Json.get]))
  refine ⟨document, snapshot, hparse, hsnapshot, (hcounts "t").2.2.mpr ?_⟩
  decide

/-- The worker lists a current object and a deposed one of one instance once, the backend counts
two. -/
theorem deposed_listed_once :
    ¬ ∀ (T : Quoting.Tables) (P : Core.Platform) (inRange : String → Bool)
      (syntaxOf : Core.Bytes → Option Json) (bytes : Core.Bytes)
      (document : Core.StateDocument (readingStates P inRange syntaxOf)) (raw state : Json),
      Core.StateDocument.parse (readingStates P inRange syntaxOf) bytes = .ok document →
      syntaxOf bytes = some raw → readValue inRange raw = some state → WellFormed state →
      ∃ snapshot, parseRawStateV4 T state = .ok snapshot ∧
        document.lineage = snapshot.lineage ∧ document.serial = snapshot.serial ∧
        (document.managedEmpty = true ↔ snapshot.managed = []) ∧
        ∀ resourceType, (document.managedCounts.find resourceType).getD 0 =
          (entriesOf T state snapshot resourceType).length := by
  intro h
  let document : Core.StateDocument samplePlatform :=
    ⟨_, _, readHeader_sample.2, by decide, by decide +kernel⟩
  have hsyntax : sampleSyntax document.bytes = some (documentWith currentAndDeposed) := by
    change sampleSyntax (textWith _) = _
    unfold sampleSyntax
    rw [if_neg (by decide +kernel), if_pos rfl]
  obtain ⟨snapshot, hsnapshot, -, -, -, hcounts⟩ := h Quoting.asciiTables _ _ _ _ document _ _
    (Core.StateDocument.parse_eq_ok.mpr rfl) hsyntax readValue_sample.2
    (wellFormed_sample (by simp [currentAndDeposed, Json.get]))
  have hread : parseRawStateV4 Quoting.asciiTables (documentWith currentAndDeposed) =
      .ok ⟨["t.n"], [], 1, "l"⟩ := by decide +kernel
  cases hread.symm.trans hsnapshot
  have hcount := hcounts "t"
  revert hcount
  decide +kernel

end EngineState

end Template

end Shaula
