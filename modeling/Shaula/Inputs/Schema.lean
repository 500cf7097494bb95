import Shaula.Template.BindingsValidation
import Shaula.Template.Selection

/-! # The admission schema of inputs

A small grammar of parameter schemas, and the recursive validation of values against them.
-/

namespace Shaula.Inputs

open Library Library.Outcome
open Template (specInvalid isInteger numberOf)

/-- `{:?}` of a text without characters to escape. -/
def quoted (text : String) : String := "\"" ++ text ++ "\""

/-! ## Grammar -/

def supportedSchemaKeywords : List String :=
  ["$schema", "type", "properties", "required", "enum", "additionalProperties", "description",
    "title", "default"]

def supportedTypes : List String := ["object", "string", "integer", "number", "boolean", "array"]

def supportedDialect (value : Json) : Template.CoreResult Unit := do
  let uri ← okOr value.asStr (specInvalid "schema $schema must be a string")
  ensure (uri.startsWith "http://json-schema.org/" ∨ uri.startsWith "https://json-schema.org/" ∨
      uri.startsWith "https://json-schema.org/draft/")
    (specInvalid s!"schema dialect {quoted uri} is unsupported")

def typeShape (value : Json) : Template.CoreResult Unit := do
  let t ← okOr value.asStr (specInvalid "schema type must be a string")
  ensure (t ∈ supportedTypes) (specInvalid s!"schema type {quoted t} is unsupported")

def requiredShape (value : Json) : Template.CoreResult Unit := do
  let required ← okOr value.asArray (specInvalid "schema required must be an array")
  ensure (required.all fun name => name.asStr.isSome)
    (specInvalid "schema required entries must be strings")

/-- A keyword that is checked when it is there. -/
def whenPresent (members : List (String × Json)) (key : String) (check : Json → Template.CoreResult Unit) :
    Template.CoreResult Unit :=
  (Json.lookup members key).elim (.ok ()) check

/-- The keywords of one schema, but for its properties. -/
def keywordsShape (members : List (String × Json)) : Template.CoreResult Unit := do
  members.forM fun member => ensure (member.1 ∈ supportedSchemaKeywords) (specInvalid
    s!"parameter schema uses unsupported constraint {quoted member.1}; the profile must declare a supported subset")
  whenPresent members "$schema" supportedDialect
  whenPresent members "enum" fun value =>
    ensure value.asArray.isSome (specInvalid "schema enum must be an array")
  whenPresent members "type" typeShape
  whenPresent members "required" requiredShape
  whenPresent members "additionalProperties" fun value =>
    ensure value.asBool.isSome (specInvalid "schema additionalProperties must be a boolean")

mutual

/-- Values under `enum` and `default` are data, and are never taken for schemas. -/
def schemaShape : Json → Template.CoreResult Unit
  | .object members => do
    keywordsShape members
    propertiesShape members
  | _ => .error (specInvalid
      "parameter schema must be an object; boolean/unknown schemas are unsupported")

def propertiesShape : List (String × Json) → Template.CoreResult Unit
  | [] => .ok ()
  | (key, value) :: rest =>
    if key = "properties" then
      match value with
      | .object properties => eachShape properties
      | _ => .error (specInvalid "schema properties must be an object")
    else propertiesShape rest

def eachShape : List (String × Json) → Template.CoreResult Unit
  | [] => .ok ()
  | (_, schema) :: rest => do
    schemaShape schema
    eachShape rest

end

/-! ## Values -/

def typeMatches (declared : String) (value : Json) : Bool :=
  match declared with
  | "string" => value.asStr.isSome
  | "integer" => isInteger value
  | "number" => (numberOf value).isSome
  | "boolean" => value.asBool.isSome
  | "object" => value.isObject
  | "array" => value.asArray.isSome
  | _ => true

/-- The type and the options. -/
def validateScalar (path : String) (value schema : Json) : Template.CoreResult Unit := do
  (schema.strAt "type").elim (.ok ()) fun declared => ensure (typeMatches declared value)
    (specInvalid s!"input {quoted path} does not match the declared type {quoted declared}")
  ((schema.get "enum").bind Json.asArray).elim (.ok ()) fun options =>
    ensure (Json.Among options value)
      (specInvalid s!"input {quoted path} is outside the profile's bounded values")

/-- The keys of an object value. -/
def validateKeys (fields : List (String × Json)) (schema : Json) : Template.CoreResult Unit := do
  (schema.itemsAt "required").forM fun name =>
    let key := name.asStr.getD ""
    ensure (Json.lookup fields key).isSome
      (specInvalid s!"required input {quoted key} is missing")
  if schema.get "additionalProperties" = some (.bool false) then
    fields.forM fun field =>
      ensure (schema.property field.1).isSome
        (specInvalid s!"input {quoted field.1} is not declared by the profile schema")
  else .ok ()

def nested (path key : String) : String := if path = "" then key else s!"{path}.{key}"

mutual

/-- Type, options, required keys and additional properties at every nested level. -/
def validateValue (path : String) (value : Json) : Json → Template.CoreResult Unit
  | .object members => do
    validateScalar path value (.object members)
    match value with
    | .object fields => do
      validateKeys fields (.object members)
      validateProperties path fields members
    | _ => .ok ()
  | _ => .ok ()

def validateProperties (path : String) (fields : List (String × Json)) :
    List (String × Json) → Template.CoreResult Unit
  | [] => .ok ()
  | (key, value) :: rest =>
    if key = "properties" then
      match value with
      | .object properties => validateEach path fields properties
      | _ => .ok ()
    else validateProperties path fields rest

def validateEach (path : String) (fields : List (String × Json)) :
    List (String × Json) → Template.CoreResult Unit
  | [] => .ok ()
  | (key, schema) :: rest => do
    match Json.lookup fields key with
    | some inner => validateValue (nested path key) inner schema
    | none => .ok ()
    validateEach path fields rest

end

/-! ## What the checks come to -/

variable {schema value : Json} {members fields : List (String × Json)} {path : String}

theorem andThen_eq_ok {α : Type} {x : Template.CoreResult Unit} {f : Unit → Template.CoreResult α} {a : α} :
    (x >>= f) = .ok a ↔ x = .ok () ∧ f () = .ok a := by
  cases x with
  | error e => simp
  | ok u => exact ⟨fun h => ⟨rfl, h⟩, fun h => h.2⟩

theorem eachShape_eq_ok :
    eachShape fields = .ok () ↔ ∀ field ∈ fields, schemaShape field.2 = .ok () := by
  induction fields with
  | nil => simp [eachShape]
  | cons field rest ih =>
    obtain ⟨key, schema⟩ := field
    rw [eachShape, andThen_eq_ok, List.forall_mem_cons, ih]

theorem propertiesShape_eq (members : List (String × Json)) :
    propertiesShape members = whenPresent members "properties" fun value =>
      match value with
      | .object properties => eachShape properties
      | _ => .error (specInvalid "schema properties must be an object") := by
  induction members with
  | nil => rfl
  | cons member rest ih =>
    obtain ⟨key, value⟩ := member
    by_cases hkey : key = "properties"
    · cases value <;> simp [propertiesShape, hkey, whenPresent]
    · have hskip : propertiesShape ((key, value) :: rest) = propertiesShape rest := by
        cases value <;> simp [propertiesShape, hkey]
      rw [hskip, ih, whenPresent, whenPresent, Json.lookup_cons, if_neg hkey]

/-- A schema of the grammar: an object with known keywords, whose properties are schemas of the
grammar. -/
theorem schemaShape_object (h : schemaShape (.object members) = .ok ()) :
    keywordsShape members = .ok () ∧ ∀ properties, Json.lookup members "properties" =
      some properties → ∃ fields, properties = .object fields ∧
        ∀ field ∈ fields, schemaShape field.2 = .ok () := by
  rw [schemaShape, andThen_eq_ok, propertiesShape_eq] at h
  obtain ⟨hkeywords, hproperties⟩ := h
  refine ⟨hkeywords, fun properties hlookup => ?_⟩
  rw [whenPresent, hlookup, Option.elim_some] at hproperties
  cases properties with
  | object fields => exact ⟨fields, rfl, eachShape_eq_ok.mp hproperties⟩
  | _ => cases hproperties

theorem isObject_of_schemaShape (h : schemaShape schema = .ok ()) :
    ∃ members, schema = .object members := by
  cases schema with
  | object members => exact ⟨members, rfl⟩
  | _ => cases h

theorem whenPresent_eq_ok {key : String} {check : Json → Template.CoreResult Unit} :
    whenPresent members key check = .ok () ↔
      ∀ value, Json.lookup members key = some value → check value = .ok () := by
  unfold whenPresent
  cases Json.lookup members key <;> simp

/-- What the grammar says about the keywords that constrain values. -/
theorem keywordsShape_types (h : keywordsShape members = .ok ()) :
    (∀ member ∈ members, member.1 ∈ supportedSchemaKeywords) ∧
      (∀ options, Json.lookup members "enum" = some options → ∃ items, options = .array items) ∧
      (∀ type, Json.lookup members "type" = some type →
        ∃ name ∈ supportedTypes, type = .string name) ∧
      (∀ required, Json.lookup members "required" = some required → ∃ items,
        required = .array items ∧ ∀ item ∈ items, ∃ name, item = .string name) ∧
      ∀ additional, Json.lookup members "additionalProperties" = some additional →
        ∃ flag, additional = .bool flag := by
  simp only [keywordsShape, andThen_eq_ok, forM_eq_ok, ensure_eq_ok, whenPresent_eq_ok] at h
  simp only [typeShape, requiredShape, bind_eq_ok, ensure_eq_ok, okOr_eq_ok, Json.asStr_eq_some,
    Json.asArray_eq_some, List.all_eq_true, Option.isSome_iff_exists, Json.asBool_eq_some] at h
  obtain ⟨hkeys, -, henum, htype, hrequired, hadditional⟩ := h
  refine ⟨hkeys, henum, fun type ht => ?_, hrequired, hadditional⟩
  obtain ⟨name, rfl, hname⟩ := htype type ht
  exact ⟨name, hname, rfl⟩

theorem validateEach_eq_ok {properties : List (String × Json)} :
    validateEach path fields properties = .ok () ↔ ∀ property ∈ properties, ∀ inner,
      Json.lookup fields property.1 = some inner →
        validateValue (nested path property.1) inner property.2 = .ok () := by
  induction properties with
  | nil => simp [validateEach]
  | cons property rest ih =>
    obtain ⟨key, schema⟩ := property
    rw [validateEach, List.forall_mem_cons]
    cases Json.lookup fields key with
    | none => simp [ih]
    | some inner => simp [-bind_eq_ok, andThen_eq_ok, ih]

theorem validateProperties_eq_ok : validateProperties path fields members = .ok () ↔
    ∀ property ∈ (Json.object members).membersAt "properties", ∀ inner,
      Json.lookup fields property.1 = some inner →
        validateValue (nested path property.1) inner property.2 = .ok () := by
  induction members with
  | nil => simp [validateProperties, Json.membersAt, Json.get]
  | cons member rest ih =>
    obtain ⟨key, value⟩ := member
    by_cases hkey : key = "properties"
    · cases value <;>
        simp [validateProperties, hkey, Json.membersAt, Json.asObject, validateEach_eq_ok]
    · have hskip : validateProperties path fields ((key, value) :: rest) =
          validateProperties path fields rest := by
        cases value <;> simp [validateProperties, hkey]
      rw [hskip, ih, Json.membersAt, Json.membersAt, Json.get_object, Json.get_object,
        Json.lookup_cons, if_neg hkey]

/-- The type and the options of a value. -/
def ScalarFits (schema value : Json) : Prop :=
  (∀ declared, schema.get "type" = some (.string declared) → typeMatches declared value = true) ∧
    ∀ options, schema.get "enum" = some (.array options) → Json.Among options value

/-- The keys of an object value. -/
def KeysFit (schema : Json) (fields : List (String × Json)) : Prop :=
  (∀ name ∈ schema.itemsAt "required", (Json.lookup fields (name.asStr.getD "")).isSome = true) ∧
    (schema.get "additionalProperties" = some (.bool false) →
      ∀ field ∈ fields, (schema.property field.1).isSome = true)

theorem validateScalar_eq_ok : validateScalar path value schema = .ok () ↔
    ScalarFits schema value := by
  have htype : ((schema.strAt "type").elim (.ok ()) fun declared =>
      ensure (typeMatches declared value) (specInvalid
        s!"input {quoted path} does not match the declared type {quoted declared}")) =
        (.ok () : Template.CoreResult Unit) ↔ ∀ declared, schema.get "type" = some (.string declared) →
          typeMatches declared value = true := by
    cases hdeclared : schema.strAt "type" with
    | none =>
      refine iff_of_true rfl fun declared h => ?_
      rw [Json.strAt_eq_some.mpr h] at hdeclared
      cases hdeclared
    | some declared =>
      have hget := Json.strAt_eq_some.mp hdeclared
      simp [hget]
  have henum : (((schema.get "enum").bind Json.asArray).elim (.ok ()) fun options =>
      ensure (Json.Among options value) (specInvalid
        s!"input {quoted path} is outside the profile's bounded values")) =
        (.ok () : Template.CoreResult Unit) ↔ ∀ options, schema.get "enum" = some (.array options) →
          Json.Among options value := by
    cases hget : schema.get "enum" with
    | none => simp
    | some options => cases options <;> simp [Json.asArray]
  rw [validateScalar, andThen_eq_ok, htype, henum, ScalarFits]

theorem validateKeys_eq_ok : validateKeys fields schema = .ok () ↔ KeysFit schema fields := by
  rw [validateKeys, andThen_eq_ok, KeysFit]
  by_cases hclosed : schema.get "additionalProperties" = some (.bool false)
  · simp only [hclosed, if_true, forM_eq_ok, ensure_eq_ok, true_implies]
  · simp only [hclosed, if_false, forM_eq_ok, ensure_eq_ok, false_implies]

/-- A value is valid when its type, options and keys fit, and so do the values it has under the
properties. -/
theorem validateValue_object : validateValue path value (.object members) = .ok () ↔
    ScalarFits (.object members) value ∧ ∀ fields, value = .object fields →
      KeysFit (.object members) fields ∧
      ∀ property ∈ (Json.object members).membersAt "properties", ∀ inner,
        Json.lookup fields property.1 = some inner →
          validateValue (nested path property.1) inner property.2 = .ok () := by
  cases value with
  | object fields =>
    simp [-bind_eq_ok, validateValue, andThen_eq_ok, validateScalar_eq_ok, validateKeys_eq_ok,
      validateProperties_eq_ok]
  | _ => simp [-bind_eq_ok, validateValue, andThen_eq_ok, validateScalar_eq_ok]

theorem sizeOf_membersAt {key : String} {member : String × Json}
    (h : member ∈ schema.membersAt key) : sizeOf member.2 < sizeOf schema := by
  unfold Json.membersAt at h
  cases hget : schema.get key with
  | none => simp [hget] at h
  | some inner =>
    have hinner := Json.sizeOf_get hget
    cases inner with
    | object fields =>
      simp only [hget, Option.bind_some, Json.asObject, Option.getD_some] at h
      have hmem := List.sizeOf_lt_of_mem h
      have hpart : sizeOf member.2 < sizeOf member := by
        obtain ⟨name, member⟩ := member
        simp only [Prod.mk.sizeOf_spec]
        omega
      simp only [Json.object.sizeOf_spec] at hinner
      omega
    | _ => simp [hget, Json.asObject] at h

/-! ## Values that compare alike -/

theorem typeMatches_compared (declared : String) (value : Json) :
    typeMatches declared value.compared = typeMatches declared value := by
  have hinteger : isInteger value.compared = isInteger value := by
    cases value with
    | number n => cases n <;> rfl
    | _ => rfl
  have hkind : value.compared.asStr.isSome = value.asStr.isSome ∧
      (numberOf value.compared).isSome = (numberOf value).isSome ∧
      value.compared.asBool.isSome = value.asBool.isSome ∧
      value.compared.isObject = value.isObject ∧
      value.compared.asArray.isSome = value.asArray.isSome := by
    cases value <;> exact ⟨rfl, rfl, rfl, rfl, rfl⟩
  obtain ⟨htext, hnumber, hbool, hobject, harray⟩ := hkind
  simp only [typeMatches, hinteger, htext, hnumber, hbool, hobject, harray]

theorem scalarFits_compared : ScalarFits schema value.compared ↔ ScalarFits schema value := by
  have hsame := Json.same_compared value
  simp only [ScalarFits, typeMatches_compared]
  refine and_congr_right fun _ => forall₂_congr fun options _ => ?_
  exact ⟨fun h => h.of_same hsame, fun h => h.of_same hsame.symm⟩

theorem keysFit_compared :
    KeysFit schema (Json.comparedMembers fields) ↔ KeysFit schema fields := by
  simp only [KeysFit, Json.lookup_comparedMembers, Option.isSome_map]
  simp only [Json.comparedMembers_eq, List.forall_mem_map]

/-- Whether a value is valid is a question of how it compares. -/
theorem validateValue_compared :
    validateValue path value.compared schema = .ok () ↔ validateValue path value schema = .ok () := by
  induction hsize : sizeOf schema using Nat.strongRecOn generalizing schema value path with
  | ind size ih =>
    cases schema with
    | object members =>
      rw [validateValue_object, validateValue_object, scalarFits_compared]
      refine and_congr_right fun _ => ?_
      cases value with
      | object fields =>
        simp only [Json.compared, Json.object.injEq, forall_eq', keysFit_compared,
          Json.lookup_comparedMembers, Option.map_eq_some_iff]
        refine and_congr_right fun _ => forall₂_congr fun property hproperty => ?_
        constructor
        · intro h inner hinner
          exact (ih _ (hsize ▸ sizeOf_membersAt hproperty) rfl).mp (h _ ⟨inner, hinner, rfl⟩)
        · rintro h _ ⟨inner, hinner, rfl⟩
          exact (ih _ (hsize ▸ sizeOf_membersAt hproperty) rfl).mpr (h inner hinner)
      | _ => simp [Json.compared]
    | _ => simp [validateValue]

theorem validateValue_same {other : Json} (h : value.Same other) :
    validateValue path value schema = .ok () ↔ validateValue path other schema = .ok () := by
  rw [← validateValue_compared, h, validateValue_compared]

/-- The path is for the messages alone. -/
theorem validateValue_path (path' : String) (h : validateValue path value schema = .ok ()) :
    validateValue path' value schema = .ok () := by
  induction hsize : sizeOf schema using Nat.strongRecOn generalizing schema value path path' with
  | ind size ih =>
    cases schema with
    | object members =>
      rw [validateValue_object] at h ⊢
      refine ⟨h.1, fun fields hfields => ⟨(h.2 fields hfields).1, ?_⟩⟩
      intro property hproperty inner hinner
      have hsmaller := sizeOf_membersAt hproperty
      exact ih _ (hsize ▸ hsmaller) _ ((h.2 fields hfields).2 property hproperty inner hinner) rfl
    | _ => rfl

end Shaula.Inputs
