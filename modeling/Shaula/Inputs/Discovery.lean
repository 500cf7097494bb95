import Shaula.Inputs.Projection
import Shaula.Template.VariablesConstraints
import Shaula.Template.VariablesSchema
import Shaula.Template.VariablesType

/-! # Static discovery

Whether a declared type and its schema agree, and the variables that are shown when they do.
-/

namespace Shaula.Inputs

open Library Library.Outcome
open Registry (trim)
open Template (Engines invalid hasKey)
open Template.VariablesType (Kind Node fieldOf)
open Template.VariablesConstraints (maxDepth maxFields)

namespace Discovery

/-- The names that are required, each once. -/
def requiredNames (names : List Json) : Template.CoreResult (List String) :=
  names.foldlM (fun result name => do
    let name ← okOr name.asStr (invalid "variable schema required names must be strings")
    ensure (name ∉ result) (invalid "variable schema required contains duplicate names")
    return result ++ [name]) []

def required (schema : Json) : Template.CoreResult (List String) :=
  (schema.get "required").elim (.ok []) fun value => do
    let names ← okOr value.asArray (invalid "variable schema required must be an array")
    requiredNames names

/-- The schemas of the first elements: `prefixItems`, or `items` when that is a list. -/
def leadingItems (schema : Json) : Option (List Json) :=
  ((schema.get "prefixItems").or ((schema.get "items").filter fun items =>
    items.asArray.isSome)).bind Json.asArray

section Nested

variable (shape : Node → Json → Template.CoreResult Unit)

/-- An attribute is required exactly when it is not optional, unless a default fills it in. -/
def fieldShape (properties : Fields) (required : List String) (field : String × Node) :
    Template.CoreResult Unit := do
  let isRequired := decide (field.1 ∈ required)
  let hasDefault := field.2.default.any fun value => !value.isNull
  ensure (¬ ((!isRequired && !field.2.isOptional) ||
      (isRequired && field.2.isOptional && !hasDefault)) = true)
    (invalid "Terraform variable optionality disagrees with its schema")
  shape field.2 ((Json.lookup properties field.1).getD .null)

def objectShape (fields : List (String × Node)) (schema : Json) : Template.CoreResult Unit := do
  let properties ← okOr ((schema.get "properties").bind Json.asObject)
    (invalid "object variable schema must declare its properties")
  ensure (properties.length = fields.length ∧ ∀ field ∈ fields, hasKey properties field.1 = true)
    (invalid "Terraform variable names disagree with schema properties")
  let required ← required schema
  ensure (∀ key ∈ required, (fieldOf fields key).isSome = true)
    (invalid "variable schema requires an undeclared property")
  fields.forM (fieldShape shape properties required)

/-- One schema for every element, then one for each of the first. -/
def listShape (element : Node) (schema : Json) : Template.CoreResult Unit := do
  (schema.objectAt "items").elim (.ok ()) (shape element)
  ((leadingItems schema).getD []).forM (shape element)

def tupleShape (elements : List Node) (schema : Json) : Template.CoreResult Unit :=
  match leadingItems schema with
  | some items => do
    ensure (items.length = elements.length)
      (invalid "Terraform tuple length disagrees with its schema")
    (elements.zip items).forM fun pair => shape pair.1 pair.2
  | none => (schema.objectAt "items").elim (.ok ()) fun items =>
    elements.forM fun element => shape element items

def mapShape (element : Node) (schema : Json) : Template.CoreResult Unit := do
  (schema.objectAt "additionalProperties").elim (.ok ()) (shape element)
  (schema.membersAt "properties").forM fun property => shape element property.2

def kindShape (kind : Kind) (schema : Json) : Template.CoreResult Unit :=
  match kind with
  | .object fields => objectShape shape fields schema
  | .list element => listShape shape element schema
  | .tuple elements => tupleShape shape elements schema
  | .map element => mapShape shape element schema
  | _ => .ok ()

end Nested

def typeShape (node : Node) (schema : Json) : Template.CoreResult Unit :=
  let declared := schema.strAt "type"
  ensure (declared = some node.kind.name ∨ (declared = some "integer" ∧ node.kind.isNumber = true))
    (invalid "Terraform variable type disagrees with its schema")

section Values

variable (accepts : Json → Json → Template.CoreResult Bool)

/-- A null default stands for an omitted attribute, and is not asked of the schema. -/
def defaultShape (node : Node) (schema : Json) : Template.CoreResult Unit := do
  (schema.get "default").elim (.ok ()) fun default => ensure (node.default.any fun value => decide (value.Same default))
    (invalid "schema default disagrees with the Terraform declaration")
  (node.default.filter fun default => !default.isNull).elim (.ok ()) fun default => do
    let accepted ← accepts schema default
    ensure (accepted = true) (invalid "Terraform default is outside the variable schema")

def optionShape (node : Node) (schema option : Json) : Template.CoreResult Unit := do
  let disagrees := invalid "schema option disagrees with the Terraform variable type"
  ensure (node.matchesValue option = true) disagrees
  let accepted ← accepts schema option
  ensure (accepted = true) disagrees

def enumShape (node : Node) (schema : Json) : Template.CoreResult Unit :=
  (schema.get "enum").elim (.ok ()) fun options => do
    let options ← okOr options.asArray (invalid "variable schema enum must be an array")
    ensure (options.length ≤ maxFields) (invalid "variable schema exceeds the option limit")
    options.forM (optionShape accepts node schema)

end Values

/-- Whether a declared type and its schema agree, down to so many levels. -/
def shape (engines : Engines) : Nat → Node → Json → Template.CoreResult Unit
  | 0, _, _ => .error (invalid "variable schema shape is invalid or too deep")
  | depth + 1, node, schema => do
    ensure (schema.isObject = true) (invalid "variable schema shape is invalid or too deep")
    typeShape node schema
    kindShape (shape engines depth) node.kind schema
    defaultShape (Template.VariablesConstraints.accepts engines (depth + 1)) node schema
    enumShape (Template.VariablesConstraints.accepts engines (depth + 1)) node schema

def text (schema : Json) (key : String) : Template.CoreResult String :=
  let malformed := invalid "variable display annotation must be a bounded string"
  match schema.get key with
  | some value => okOr (value.asStr.filter fun text => text.utf8ByteSize ≤ 8192) malformed
  | none => .ok ""

structure TemplateVariable where
  key : String
  label : String
  description : String
  typeName : String
  required : Bool
  sensitive : Bool
  defaultValueJson : Option String
  options : List InputOption

variable (T : Texts)

def json (value : Json) : Template.CoreResult String := do
  ensure (boundedDepth maxDepth value = true) (invalid "variable value exceeds the depth limit")
  let text := T.render value
  ensure (text.utf8ByteSize ≤ maxBytes) (invalid "variable value exceeds the 1 MiB limit")
  return text

/-- The options of a variable, each once. -/
def options (definition : Json) : Template.CoreResult (List InputOption) := do
  let texts ← (definition.itemsAt "enum").mapM (json T)
  return texts.foldl (fun options text =>
    if ⟨text⟩ ∈ options then options else options ++ [⟨text⟩]) []

def variableLabel (key : String) (definition : Json) : Template.CoreResult String := do
  let title ← text definition "title"
  return if trim title = "" then readableLabel T key else title

/-- What a secret's default and options are is never shown. -/
def variableOf (binding : Bool) (schema : Json) (required : List String) (field : String × Node) :
    Template.CoreResult TemplateVariable := do
  let definition := (schema.property field.1).getD .null
  let sensitive ← Template.VariablesSchema.projectSensitive schema binding field.1
  let label ← variableLabel T field.1 definition
  let defaultValueJson ← if sensitive then pure none else field.2.default.mapM (json T)
  let options ← if sensitive then pure [] else options T definition
  let description ← text definition "description"
  return ⟨field.1, label, description, field.2.kind.name, decide (field.1 ∈ required), sensitive,
    defaultValueJson, options⟩

variable (engines : Engines) (read : Reader) (verify : String → Json → Template.CoreResult Unit)

/-- A schema whose numbers are represented exactly. -/
def schemaJson (schemaText : String) : Template.CoreResult Json := do
  let value ← (read schemaText).mapError fun _ => invalid "template variable schema is invalid JSON"
  verify schemaText value
  return value

def project (node : Node) (schemaText : String) (binding : Bool) :
    Template.CoreResult (List TemplateVariable) := do
  let schema ← schemaJson read verify schemaText
  Template.VariablesConstraints.check engines (maxDepth + 1) schema
  shape engines (maxDepth + 1) node schema
  match node.kind with
  | .object fields => do
    let required ← required schema
    fields.mapM (variableOf T binding schema required)
  | _ => .error (invalid "variables require a declared object type")

end Discovery

end Shaula.Inputs
