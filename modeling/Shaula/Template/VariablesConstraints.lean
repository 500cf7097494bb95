import Shaula.Template.BindingsValidation

/-! # Schema constraints of declared variables

The compiler's vocabulary of constraints: which schemas it accepts, and which values a schema
accepts.
-/

namespace Shaula

open Library Library.Outcome
open Registry (isWhiteSpace)

namespace Template

namespace VariablesConstraints

/-- `MAX_DEPTH` -/
def maxDepth : Nat := 16

/-- `MAX_FIELDS` -/
def maxFields : Nat := 256

/-- The size limit of a pattern, in bytes. -/
def patternLimit : Nat := 1024 * 1024

/-- `KEYWORDS` -/
def keywords : List String :=
  ["$schema", "title", "description", "default", "sensitive", "type", "enum", "required",
    "properties", "additionalProperties", "items", "prefixItems", "minItems", "maxItems",
    "uniqueItems", "minProperties", "maxProperties", "minLength", "maxLength", "pattern", "format",
    "anyOf", "allOf", "oneOf", "not"]

def typeNames : List String :=
  ["string", "number", "integer", "boolean", "array", "object", "null"]

def pattern (engines : Engines) (value : Json) : CoreResult (String → Bool) := do
  let text ← okOr (value.asStr.filter fun text => text.utf8ByteSize ≤ 4096)
    (invalid "variable schema pattern must be a bounded string")
  okOr (engines.regexWithin patternLimit text)
    (invalid "variable schema pattern is invalid or unsupported")

def array (value : Json) : CoreResult (List Json) :=
  okOr (value.asArray.filter fun values => values.length ≤ maxFields)
    (invalid "variable schema array is invalid or exceeds the item limit")

/-! ## Schemas -/

section Nested

variable (engines : Engines) (check : Json → CoreResult Unit)

def checkRequired (value : Json) : CoreResult Unit := do
  let names ← array value
  ensure (names.all fun name => name.asStr.isSome)
    (invalid "variable schema required names must be strings")
  ensure (names.filterMap Json.asStr).Nodup
    (invalid "variable schema required contains duplicate names")

def checkComposition (key : String) (value : Json) : CoreResult Unit := do
  let branches ← array value
  ensure (branches ≠ [] ∨ key = "prefixItems")
    (invalid "variable schema composition must not be empty")
  branches.forM check

def checkProperties (value : Json) : CoreResult Unit := do
  let fields ← okOr (value.asObject.filter fun fields => fields.length ≤ maxFields)
    (invalid "variable schema properties are invalid or too large")
  fields.forM fun field => check field.2

def checkElements (value : Json) : CoreResult Unit :=
  match value with
  | .bool _ => .ok ()
  | .array _ => do
    let items ← array value
    items.forM check
  | _ => check value

def checkKeyword (key : String) (value : Json) : CoreResult Unit :=
  match key with
  | "type" => ensure (value.asStr.any (· ∈ typeNames))
      (invalid "variable schema type is invalid or unsupported")
  | "minLength" | "maxLength" | "minItems" | "maxItems" | "minProperties" | "maxProperties" =>
    ensure value.asU64.isSome (invalid "variable schema bound must be a nonnegative integer")
  | "pattern" => do
    let _ ← pattern engines value
    return ()
  | "format" => ensure (value.asStr = some "uri") (invalid "variable schema format is unsupported")
  | "sensitive" | "uniqueItems" =>
    ensure value.asBool.isSome (invalid "variable schema annotation must be boolean")
  | "properties" => checkProperties check value
  | "additionalProperties" => if value.asBool.isSome then .ok () else check value
  | "items" => checkElements check value
  | "not" => check value
  | "prefixItems" | "anyOf" | "allOf" | "oneOf" => checkComposition check key value
  | "enum" => do
    let _ ← array value
    return ()
  | "required" => checkRequired value
  | _ => .ok ()

end Nested

/-- Schema shape, over the supported vocabulary alone. -/
def check (engines : Engines) : Nat → Json → CoreResult Unit
  | 0, _ => .error (invalid "variable schema is invalid or too deep")
  | depth + 1, schema => do
    let members ← okOr schema.asObject (invalid "variable schema is invalid or too deep")
    members.forM fun member => do
      ensure (member.1 ∈ keywords) (invalid "variable schema uses an unsupported constraint")
      checkKeyword engines (check engines depth) member.1 member.2

/-! ## Values -/

def bounds (schema : Json) (least most : String) (size : Nat) : Bool :=
  (countAt schema least).all (· ≤ size) && (countAt schema most).all (size ≤ ·)

def typeMatches (schema value : Json) : Bool :=
  match schema.strAt "type" with
  | some "string" => value.asStr.isSome
  | some "number" => (numberOf value).isSome
  | some "integer" => isInteger value
  | some "boolean" => value.asBool.isSome
  | some "object" => value.isObject
  | some "array" => value.asArray.isSome
  | some "null" => value.isNull
  | none => true
  | _ => false

/-- Whether the schema's options allow a value. -/
def optionsAllow (schema value : Json) : Bool :=
  (schema.get "enum").all fun options =>
    options.asArray.any fun options => decide (Json.Among options value)

/-- The `uri` format. -/
def isUri (engines : Engines) (text : String) : Bool :=
  text.toList.all (fun c => c.toNat < 0x80 && !isWhiteSpace c && !Core.isControl c) && engines.isUrl text

/-- One check after another: the first that fails decides. -/
def both (first second : CoreResult Bool) : CoreResult Bool := do
  if ← first then second else return false

/-- All the checks of a list, in order. -/
def every {α : Type} (entries : List α) (accepts : α → CoreResult Bool) : CoreResult Bool :=
  entries.foldr (fun entry rest => both (accepts entry) rest) (.ok true)

/-- How many of the branches of a combinator have to accept. -/
def enough (keyword : String) (count size : Nat) : Bool :=
  if keyword = "anyOf" then 0 < count
  else if keyword = "allOf" then count = size
  else count = 1

section Nested

variable (engines : Engines) (accepts : Json → Json → CoreResult Bool)

def compositionAllows (schema value : Json) (keyword : String) : CoreResult Bool :=
  match schema.get keyword with
  | none => .ok true
  | some composition => do
    let branches ← array composition
    let results ← branches.mapM fun branch => accepts branch value
    return enough keyword (results.count true) branches.length

def negationAllows (schema value : Json) : CoreResult Bool :=
  match schema.get "not" with
  | none => .ok true
  | some negated => do
    let accepted ← accepts negated value
    return !accepted

def textAllows (schema : Json) (text : String) : CoreResult Bool := do
  both (.ok (bounds schema "minLength" "maxLength" text.length))
    (both
      (match schema.get "pattern" with
        | none => .ok true
        | some regex => do
          let matcher ← pattern engines regex
          return matcher text)
      (.ok ((schema.get "format").isNone || isUri engines text)))

/-- The constraint on a field: its property, or that on additional properties. -/
def fieldConstraint (schema : Json) (key : String) : Option Json :=
  (schema.property key).or (schema.get "additionalProperties")

def presenceAllows (schema : Json) (fields : List (String × Json)) : CoreResult Bool :=
  match schema.get "required" with
  | none => .ok true
  | some required => do
    let names ← array required
    return (names.filterMap Json.asStr).all (hasKey fields)

def fieldsAllow (schema : Json) (fields : List (String × Json)) : CoreResult Bool :=
  both (.ok (bounds schema "minProperties" "maxProperties" fields.length))
    (both (presenceAllows schema fields)
      (every fields fun field => (fieldConstraint schema field.1).elim (.ok true) fun constraint =>
        accepts constraint field.2))

/-- The schemas of the first elements: `prefixItems`, or `items` when that is a list. -/
def prefixSchemas (schema : Json) : List Json :=
  (((schema.get "prefixItems").or ((schema.get "items").filter fun items =>
    items.asArray.isSome)).bind Json.asArray).getD []

/-- The constraint on the element at a position. -/
def itemConstraint (schema : Json) (index : Nat) : Option Json :=
  ((prefixSchemas schema)[index]?).or ((schema.get "items").filter fun items =>
    items.asArray.isNone)

/-- Whether a list has an element twice. -/
def hasRepeats : List Json → Bool
  | [] => false
  | item :: rest => decide (Json.Among rest item) || hasRepeats rest

def itemsAllow (schema : Json) (items : List Json) : CoreResult Bool :=
  both (.ok (bounds schema "minItems" "maxItems" items.length))
    (both (.ok (!(decide (schema.get "uniqueItems" = some (.bool true)) && hasRepeats items)))
      (every items.zipIdx fun entry =>
        (itemConstraint schema entry.2).elim (.ok true) fun constraint =>
          accepts constraint entry.1))

end Nested

/-- Whether a schema accepts a value. -/
def accepts (engines : Engines) : Nat → Json → Json → CoreResult Bool
  | 0, _, _ => .error (invalid "variable schema value exceeds the depth limit")
  | depth + 1, schema, value =>
    match schema.asBool with
    | some constant => .ok constant
    | none =>
      both (.ok (typeMatches schema value && optionsAllow schema value))
        (both (every ["anyOf", "allOf", "oneOf"] (compositionAllows (accepts engines depth) schema value))
          (both (negationAllows (accepts engines depth) schema value)
            (both (value.asStr.elim (.ok true) (textAllows engines schema))
              (both (value.asObject.elim (.ok true) (fieldsAllow (accepts engines depth) schema))
                (value.asArray.elim (.ok true) (itemsAllow (accepts engines depth) schema))))))

variable {engines : Engines} {schema value : Json} {depth : Nat} {key : String}

/-! ## What a checked schema consists of -/

theorem check_object (h : check engines depth schema = .ok ()) :
    ∃ members, schema = .object members := by
  cases depth with
  | zero => cases h
  | succ depth =>
    simp only [check, bind_eq_ok, okOr_eq_ok] at h
    obtain ⟨members, hmembers, -⟩ := h
    cases schema with
    | object members => exact ⟨members, rfl⟩
    | _ => cases hmembers

/-- Each member of a checked schema is of the vocabulary and passed its own check. -/
theorem check_get (h : check engines (depth + 1) schema = .ok ()) (hget : schema.get key = some value) :
    key ∈ keywords ∧ checkKeyword engines (check engines depth) key value = .ok () := by
  obtain ⟨members, rfl⟩ := check_object h
  simp only [check, Json.asObject, okOr, bind_eq_ok, Except.ok.injEq, exists_eq_left', forM_eq_ok,
    ensure_eq_ok] at h
  simp only [Json.get, Option.map_eq_some_iff] at hget
  obtain ⟨member, hmember, rfl⟩ := hget
  obtain ⟨-, hkeyword, hchecked⟩ := h member (List.mem_of_find?_eq_some hmember)
  have hkey := List.find?_some hmember
  rw [decide_eq_true_eq] at hkey
  rw [← hkey]
  exact ⟨hkeyword, hchecked⟩

theorem check_absent (h : check engines (depth + 1) schema = .ok ()) (hkey : key ∉ keywords) :
    schema.get key = none := by
  cases hget : schema.get key with
  | none => rfl
  | some value => exact absurd (check_get h hget).1 hkey

theorem array_eq_ok {items : List Json} (h : array value = .ok items) : value = .array items := by
  simp only [array, okOr_eq_ok, Option.filter_eq_some_iff, Json.asArray_eq_some] at h
  exact h.1

/-- The branches under a combinator of a checked schema. -/
theorem check_composition (h : check engines (depth + 1) schema = .ok ())
    (hkey : key = "anyOf" ∨ key = "allOf" ∨ key = "oneOf") (hget : schema.get key = some value) :
    ∃ branches, array value = .ok branches ∧ value = .array branches ∧ branches ≠ [] ∧
      ∀ branch ∈ branches, check engines depth branch = .ok () := by
  have hcomposition : checkComposition (check engines depth) key value = .ok () := by
    rcases hkey with rfl | rfl | rfl
    · exact (check_get h hget).2
    · exact (check_get h hget).2
    · exact (check_get h hget).2
  have hprefixed : key ≠ "prefixItems" := by
    rcases hkey with rfl | rfl | rfl <;> decide
  simp only [checkComposition, bind_eq_ok, ensure_eq_ok, forM_eq_ok] at hcomposition
  obtain ⟨branches, hbranches, -, hnonempty, hall⟩ := hcomposition
  exact ⟨branches, hbranches, array_eq_ok hbranches, hnonempty.resolve_right hprefixed, hall⟩

theorem check_prefix (h : check engines (depth + 1) schema = .ok ())
    (hget : schema.get "prefixItems" = some value) :
    ∃ items, value = .array items ∧ ∀ item ∈ items, check engines depth item = .ok () := by
  have hchecked : checkComposition (check engines depth) "prefixItems" value = .ok () :=
    (check_get h hget).2
  simp only [checkComposition, bind_eq_ok, ensure_eq_ok, forM_eq_ok] at hchecked
  obtain ⟨items, hitems, -, -, hall⟩ := hchecked
  exact ⟨items, array_eq_ok hitems, hall⟩

theorem check_not (h : check engines (depth + 1) schema = .ok ())
    (hget : schema.get "not" = some value) : check engines depth value = .ok () :=
  (check_get h hget).2

theorem check_property (h : check engines (depth + 1) schema = .ok ())
    (hget : schema.property key = some value) : check engines depth value = .ok () := by
  simp only [Json.property, Option.bind_eq_some_iff] at hget
  obtain ⟨properties, hproperties, hvalue⟩ := hget
  have hchecked : checkProperties (check engines depth) properties = .ok () :=
    (check_get h hproperties).2
  simp only [checkProperties, bind_eq_ok, okOr_eq_ok, Option.filter_eq_some_iff,
    forM_eq_ok] at hchecked
  obtain ⟨fields, ⟨hfields, -⟩, hall⟩ := hchecked
  cases properties with
  | object members =>
    cases hfields
    simp only [Json.get, Option.map_eq_some_iff] at hvalue
    obtain ⟨field, hfield, rfl⟩ := hvalue
    exact hall field (List.mem_of_find?_eq_some hfield)
  | _ => cases hfields

theorem check_additional (h : check engines (depth + 1) schema = .ok ())
    (hget : schema.get "additionalProperties" = some value) :
    (∃ constant, value = .bool constant) ∨ check engines depth value = .ok () := by
  have hchecked : (if value.asBool.isSome then .ok () else check engines depth value) = .ok () :=
    (check_get h hget).2
  cases value with
  | bool constant => exact .inl ⟨constant, rfl⟩
  | _ => exact .inr (by simpa [Json.asBool] using hchecked)

theorem check_items (h : check engines (depth + 1) schema = .ok ())
    (hget : schema.get "items" = some value) :
    (∃ constant, value = .bool constant) ∨
      (∃ items, value = .array items ∧ ∀ item ∈ items, check engines depth item = .ok ()) ∨
      check engines depth value = .ok () := by
  have hchecked : checkElements (check engines depth) value = .ok () := (check_get h hget).2
  cases value with
  | bool constant => exact .inl ⟨constant, rfl⟩
  | array items =>
    simp only [checkElements, bind_eq_ok, forM_eq_ok] at hchecked
    obtain ⟨checked, harray, hall⟩ := hchecked
    obtain rfl : items = checked := Json.array.inj (array_eq_ok harray)
    exact .inr (.inl ⟨items, rfl, hall⟩)
  | _ => exact .inr (.inr hchecked)

theorem check_type (h : check engines (depth + 1) schema = .ok ())
    (hget : schema.get "type" = some value) : ∃ name ∈ typeNames, value = .string name := by
  have hchecked : ensure (value.asStr.any (· ∈ typeNames))
      (invalid "variable schema type is invalid or unsupported") = .ok () := (check_get h hget).2
  simp only [ensure_eq_ok, Option.any_eq_true, decide_eq_true_eq, Json.asStr_eq_some] at hchecked
  obtain ⟨name, rfl, hname⟩ := hchecked
  exact ⟨name, hname, rfl⟩

theorem check_enum (h : check engines (depth + 1) schema = .ok ())
    (hget : schema.get "enum" = some value) : ∃ options, value = .array options := by
  have hchecked : (array value >>= fun _ => return ()) = .ok () := (check_get h hget).2
  obtain ⟨options, hoptions, -⟩ := bind_eq_ok.mp hchecked
  exact ⟨options, array_eq_ok hoptions⟩

theorem check_pattern (h : check engines (depth + 1) schema = .ok ())
    (hget : schema.get "pattern" = some value) : ∃ matcher, pattern engines value = .ok matcher := by
  have hchecked : (pattern engines value >>= fun _ => return ()) = .ok () := (check_get h hget).2
  obtain ⟨matcher, hmatcher, -⟩ := bind_eq_ok.mp hchecked
  exact ⟨matcher, hmatcher⟩

theorem check_required (h : check engines (depth + 1) schema = .ok ())
    (hget : schema.get "required" = some value) :
    ∃ names, array value = .ok names ∧ value = .array names := by
  have hchecked : checkRequired value = .ok () := (check_get h hget).2
  simp only [checkRequired, bind_eq_ok] at hchecked
  obtain ⟨names, hnames, -⟩ := hchecked
  exact ⟨names, hnames, array_eq_ok hnames⟩

end VariablesConstraints

end Template

end Shaula
