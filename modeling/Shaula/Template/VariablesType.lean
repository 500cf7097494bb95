import Shaula.Template.BindingsValidation

/-! # Declared variable types

The types a declaration may give to its variables, and the values that match them.
-/

namespace Shaula

open Library

namespace Template

namespace VariablesType

mutual

inductive Kind where
  | string
  | number
  | bool
  | object (fields : List (String × Node))
  | list (element : Node)
  | map (element : Node)
  | tuple (elements : List Node)

inductive Node where
  | mk (kind : Kind) (isOptional : Bool) (default : Option Json)

end

def Node.kind : Node → Kind
  | .mk kind _ _ => kind

def Node.isOptional : Node → Bool
  | .mk _ isOptional _ => isOptional

def Node.default : Node → Option Json
  | .mk _ _ default => default

def Kind.name : Kind → String
  | .string => "string"
  | .number => "number"
  | .bool => "boolean"
  | .object _ | .map _ => "object"
  | .list _ | .tuple _ => "array"

def Kind.isNumber : Kind → Bool
  | .number => true
  | _ => false

/-- The attribute under a key. -/
def fieldOf (fields : List (String × Node)) (key : String) : Option Node :=
  (fields.find? fun field => field.1 = key).map (·.2)

mutual

/-- A value that is neither coerced nor loses a key.  A null is any type's. -/
def Node.matchesValue : Node → Json → Bool
  | .mk kind _ _, value => value.isNull || kind.matchesValue value

def Kind.matchesValue : Kind → Json → Bool
  | .string, value => value.asStr.isSome
  | .number, value => (numberOf value).isSome
  | .bool, value => value.asBool.isSome
  | .object fields, value => value.asObject.any fun values =>
    (values.all fun entry => fieldMatches fields entry.1 entry.2) &&
      fields.all fun field => field.2.isOptional || hasKey values field.1
  | .list element, value => value.asArray.any fun values =>
    values.all fun value => element.matchesValue value
  | .map element, value => value.asObject.any fun values =>
    values.all fun entry => element.matchesValue entry.2
  | .tuple elements, value => value.asArray.any fun values =>
    decide (values.length = elements.length) && eachMatches elements values

/-- The attribute under the key is there, and matches. -/
def fieldMatches : List (String × Node) → String → Json → Bool
  | [], _, _ => false
  | (name, node) :: rest, key, value =>
    if name = key then node.matchesValue value else fieldMatches rest key value

def eachMatches : List Node → List Json → Bool
  | node :: nodes, value :: values => node.matchesValue value && eachMatches nodes values
  | _, _ => true

end

mutual

/-- Whether a value matches is a question of how it compares. -/
theorem Node.matchesValue_compared : (node : Node) → (value : Json) →
    node.matchesValue value.compared = node.matchesValue value
  | .mk kind _ _, value => by
    have hnull : value.compared.isNull = value.isNull := by cases value <;> rfl
    rw [Node.matchesValue, Node.matchesValue, hnull, Kind.matchesValue_compared kind value]

theorem Kind.matchesValue_compared : (kind : Kind) → (value : Json) →
    kind.matchesValue value.compared = kind.matchesValue value
  | .string, value | .number, value | .bool, value => by cases value <;> rfl
  | .object fields, value => by
    cases value with
    | object values =>
      have hkey : ∀ key, hasKey (Json.comparedMembers values) key = hasKey values key := by
        simp [hasKey]
      simp only [Kind.matchesValue, Json.compared, Json.asObject, Option.any_some, hkey]
      simp only [Json.comparedMembers_eq, List.all_map, Function.comp_def,
        fieldMatches_compared fields]
    | _ => rfl
  | .list element, value => by
    cases value with
    | array items =>
      simp only [Kind.matchesValue, Json.compared, Json.asArray, Option.any_some,
        Json.comparedItems_eq, List.all_map, Function.comp_def, Node.matchesValue_compared element]
    | _ => rfl
  | .map element, value => by
    cases value with
    | object values =>
      simp only [Kind.matchesValue, Json.compared, Json.asObject, Option.any_some,
        Json.comparedMembers_eq, List.all_map, Function.comp_def,
        Node.matchesValue_compared element]
    | _ => rfl
  | .tuple elements, value => by
    cases value with
    | array items =>
      have hlength : (Json.comparedItems items).length = items.length := by
        simp [Json.comparedItems_eq]
      simp only [Kind.matchesValue, Json.compared, Json.asArray, Option.any_some, hlength,
        eachMatches_compared elements items]
    | _ => rfl

theorem fieldMatches_compared : (fields : List (String × Node)) → (key : String) →
    (value : Json) → fieldMatches fields key value.compared = fieldMatches fields key value
  | [], _, _ => rfl
  | (name, node) :: rest, key, value => by
    rw [fieldMatches, fieldMatches, Node.matchesValue_compared node value,
      fieldMatches_compared rest key value]

theorem eachMatches_compared : (nodes : List Node) → (items : List Json) →
    eachMatches nodes (Json.comparedItems items) = eachMatches nodes items
  | node :: nodes, item :: items => by
    rw [Json.comparedItems, eachMatches, eachMatches, Node.matchesValue_compared node item,
      eachMatches_compared nodes items]
  | [], _ | _ :: _, [] => rfl

end

theorem Node.matchesValue_same {node : Node} {value other : Json} (h : value.Same other) :
    node.matchesValue value = node.matchesValue other := by
  rw [← node.matchesValue_compared value, h, node.matchesValue_compared]

theorem fieldMatches_iff {fields : List (String × Node)} {key : String} {value : Json} :
    fieldMatches fields key value = true ↔
      ∃ node, fieldOf fields key = some node ∧ node.matchesValue value = true := by
  induction fields with
  | nil => simp [fieldMatches, fieldOf]
  | cons field rest ih =>
    obtain ⟨name, node⟩ := field
    by_cases hname : name = key
    · simp [fieldMatches, fieldOf, hname]
    · rw [fieldMatches, if_neg hname, ih, fieldOf, fieldOf,
        List.find?_cons_of_neg (by simpa using hname)]

theorem mem_of_fieldOf {fields : List (String × Node)} {key : String} {node : Node}
    (h : fieldOf fields key = some node) : (key, node) ∈ fields := by
  simp only [fieldOf, Option.map_eq_some_iff] at h
  obtain ⟨field, hfield, rfl⟩ := h
  have hkey := List.find?_some hfield
  rw [decide_eq_true_eq] at hkey
  rw [← hkey]
  exact List.mem_of_find?_eq_some hfield

end VariablesType

end Template

end Shaula
