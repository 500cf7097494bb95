import Shaula.Template.BindingsSchema

/-! # Validating bindings

The registry's validator of a binding set: a bounded subset of JSON Schema, without references.
-/

namespace Shaula

open Library Library.Outcome

namespace Template

/-- What the validators take from other crates: pattern engines with the default and with a given
size limit, the order of numbers as floating point values, and the reader of URLs. -/
structure Engines where
  regex : String → Option (String → Bool)
  regexWithin : Nat → String → Option (String → Bool)
  lessThan : Number → Number → Bool
  isUrl : String → Bool

/-- The default size limit of a pattern, in bytes. -/
def defaultSizeLimit : Nat := 10 * 1024 * 1024

/-- A pattern that compiles within a smaller limit compiles within the default one, to the same
engine. -/
def Engines.Compatible (engines : Engines) : Prop :=
  ∀ limit pattern matcher, limit ≤ defaultSizeLimit →
    engines.regexWithin limit pattern = some matcher → engines.regex pattern = some matcher

/-- The number under `key` when it fits a `u64`. -/
def countAt (schema : Json) (key : String) : Option Nat :=
  ((schema.get key).bind Json.asU64).map UInt64.toNat

def numberOf : Json → Option Number
  | .number value => some value
  | _ => none

/-- `is_i64() || is_u64()` -/
def isInteger : Json → Bool
  | .number (.integer n) => -2 ^ 63 ≤ n ∧ n < 2 ^ 64
  | _ => false

/-- Whether an object or its absence has a member. -/
def hasKey (fields : List (String × Json)) (key : String) : Bool :=
  (Json.lookup fields key).isSome

namespace BindingsSchema

def typeMatches (declared : String) (value : Json) : Bool :=
  match declared with
  | "object" => value.isObject
  | "array" => value.asArray.isSome
  | "string" => value.asStr.isSome
  | "boolean" => value.asBool.isSome
  | "number" => (numberOf value).isSome
  | "integer" => isInteger value
  | "null" => value.isNull
  | _ => true

def wrongType : CoreError := invalid "template binding value has the wrong type"

def checkType (schema value : Json) : CoreResult Unit := do
  ensure ((schema.strAt "type").all fun declared => typeMatches declared value) wrongType
  ensure (((schema.get "type").bind Json.asArray).all fun types =>
    (types.filterMap Json.asStr).any fun declared => typeMatches declared value) wrongType

def checkOptions (schema value : Json) : CoreResult Unit := do
  ensure (((schema.get "enum").bind Json.asArray).all fun options =>
      options.isEmpty || decide (Json.Among options value))
    (invalid "template binding value is not an allowed option")
  ensure ((schema.get "const").all fun expected => decide (expected.Same value))
    (invalid "template binding value does not match the constant")

/-- The checks of a text: its length in bytes, and its pattern. -/
def checkText (engines : Engines) (schema : Json) (text : String) : CoreResult Unit := do
  ensure ((countAt schema "minLength").all fun least => decide (least ≤ text.utf8ByteSize))
    (invalid "template binding value is too short")
  ensure ((countAt schema "maxLength").all fun most => decide (text.utf8ByteSize ≤ most))
    (invalid "template binding value is too long")
  match schema.strAt "pattern" with
  | none => .ok ()
  | some pattern =>
    match engines.regex pattern with
    | none => .error (invalid "bindings schema pattern is invalid")
    | some regex =>
      ensure (regex text) (invalid "template binding value does not match the pattern")

def checkNumber (engines : Engines) (schema : Json) (value : Number) : CoreResult Unit := do
  ensure (((schema.get "minimum").bind numberOf).all fun least => !engines.lessThan value least)
    (invalid "template binding value is below the minimum")
  ensure (((schema.get "maximum").bind numberOf).all fun most => !engines.lessThan most value)
    (invalid "template binding value is above the maximum")

def checkPresence (schema : Json) (fields : List (String × Json)) : CoreResult Unit :=
  (schema.itemsAt "required").forM fun name =>
    (name.asStr).elim (.ok ()) fun field => ensure (hasKey fields field)
      (invalid s!"template binding is missing required field {field}")

section Nested

variable (validate : Json → Json → CoreResult Unit)

/-- The fields that no property names. -/
def checkAdditional (schema : Json) (fields : List (String × Json)) : CoreResult Unit :=
  match schema.get "additionalProperties" with
  | some (.bool false) => fields.forM fun field =>
      ensure ((schema.property field.1).isSome) (invalid s!"unknown template binding field {field.1}")
  | some (.object members) => fields.forM fun field =>
      validate ((schema.property field.1).getD (.object members)) field.2
  | _ => .ok ()

def checkFields (schema : Json) (fields : List (String × Json)) : CoreResult Unit := do
  checkPresence schema fields
  checkAdditional validate schema fields
  fields.forM fun field =>
    (schema.property field.1).elim (.ok ()) fun rule => validate rule field.2

/-- The elements: each by the `items` schema, and the first ones by their own. -/
def checkItems (schema : Json) (items : List Json) : CoreResult Unit := do
  (schema.objectAt "items").elim (.ok ()) fun rule => items.forM (validate rule)
  ((schema.itemsAt "prefixItems").zip items).forM fun entry => validate entry.1 entry.2

/-- How many branches a value matches. -/
def matched (branches : List Json) (value : Json) : Nat :=
  branches.countP fun branch => (validate branch value).isOk

def checkBranches (schema value : Json) : CoreResult Unit := do
  (schema.itemsAt "allOf").forM fun branch => validate branch value
  ["anyOf", "oneOf"].forM fun keyword =>
    ensure (((schema.get keyword).bind Json.asArray).all fun branches =>
        decide (0 < matched validate branches value))
      (invalid "template binding value matches no allowed variant")
  ensure (((schema.get "oneOf").bind Json.asArray).all fun branches =>
      decide (matched validate branches value ≤ 1))
    (invalid "template binding value matches multiple variants")
  ensure ((schema.get "not").all fun negated => !(validate negated value).isOk)
    (invalid "template binding value matches a forbidden variant")

end Nested

/-- A bounded JSON Schema subset validator for merged binding sets. -/
def validateNode (engines : Engines) : Nat → Json → Json → CoreResult Unit
  | 0, _, _ => .error (invalid "bindings schema exceeds the depth limit")
  | depth + 1, schema, value => do
    ensure ((schema.get "$ref").isNone) (invalid "bindings schema references are unsupported")
    checkType schema value
    checkOptions schema value
    value.asStr.elim (.ok ()) (checkText engines schema)
    (numberOf value).elim (.ok ()) (checkNumber engines schema)
    value.asObject.elim (.ok ()) (checkFields (validateNode engines depth) schema)
    value.asArray.elim (.ok ()) (checkItems (validateNode engines depth) schema)
    checkBranches (validateNode engines depth) schema value

/-- Structural validation of a complete binding set against the schema before admission. -/
def validate (engines : Engines) (schema : BindingsSchema) (bindings : Bindings) : CoreResult Unit :=
  validateNode engines (maxDepth + 1) schema.schema (.object bindings.toList)

end BindingsSchema

end Template

end Shaula
