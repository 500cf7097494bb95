import Shaula.Inputs.Schema
import Shaula.Library.JsonObjects

/-! # The authority over inputs

The parsed policy and schema that admission and the shown contract share.
-/

namespace Shaula.Inputs

open Library Library.Outcome
open Template (specInvalid)

abbrev Fields := List (String × Json)

/-- The policy lists the approved values of each input. -/
structure InputAuthority where
  policy : Fields
  schema : Option Json

/-- A reader of JSON texts; a text it refuses has a reason. -/
abbrev Reader := String → Except String Json

namespace InputAuthority

variable (read : Reader)

def parsePolicy (policyJson : String) : Template.CoreResult Fields := do
  let policy ← (read policyJson).mapError fun e => specInvalid s!"policy invalid: {e}"
  okOr policy.asObject (specInvalid "policy must be an object")

def parseSchema (text : String) : Template.CoreResult Json := do
  let value ← (read text).mapError fun e => specInvalid s!"schema invalid: {e}"
  schemaShape value
  return value

def parse (policyJson : String) (schemaJson : Option String) : Template.CoreResult InputAuthority := do
  let policy ← parsePolicy read policyJson
  match schemaJson with
  | none => return ⟨policy, none⟩
  | some text => do
    let schema ← parseSchema read text
    return ⟨policy, some schema⟩

variable (authority : InputAuthority)

def validateApproved (field : String × Json) : Template.CoreResult Unit := do
  let allowed ← okOr ((Json.lookup authority.policy field.1).bind Json.asArray)
    (specInvalid s!"input {quoted field.1} is not in the profile input policy")
  ensure (Json.Among allowed field.2) (specInvalid s!"input {quoted field.1} is not an allowed alias")

/-- Complete admission: neither a projection nor a default can bypass this. -/
def validate (inputs : Fields) : Template.CoreResult Unit := do
  ensure (inputs.length ≤ 32) (specInvalid "too many inputs")
  authority.schema.elim (.ok ()) fun schema => validateValue "" (.object inputs) schema
  inputs.forM (validateApproved authority)

variable {read authority}

/-- The policy approves a value. -/
def Approves (policy : Fields) (key : String) (value : Json) : Prop :=
  ∃ allowed, Json.lookup policy key = some (.array allowed) ∧ Json.Among allowed value

theorem validateApproved_eq_ok {field : String × Json} :
    validateApproved authority field = .ok () ↔ Approves authority.policy field.1 field.2 := by
  simp only [validateApproved, bind_eq_ok, okOr_eq_ok, ensure_eq_ok, Option.bind_eq_some_iff,
    Json.asArray_eq_some, exists_eq_right, Approves]

/-- Inputs are admitted when they are few, valid, and each of them is approved. -/
theorem validate_eq_ok {inputs : Fields} {schema : Json} (hschema : authority.schema = some schema) :
    authority.validate inputs = .ok () ↔ inputs.length ≤ 32 ∧
      validateValue "" (.object inputs) schema = .ok () ∧
        ∀ field ∈ inputs, Approves authority.policy field.1 field.2 := by
  simp only [validate, andThen_eq_ok, ensure_eq_ok, hschema, Option.elim_some, forM_eq_ok,
    validateApproved_eq_ok]

/-- Inputs that compare alike are admitted alike. -/
theorem validate_same {inputs other : Fields} {schema : Json}
    (hschema : authority.schema = some schema) (h : (Json.object inputs).Same (.object other)) :
    authority.validate inputs = .ok () ↔ authority.validate other = .ok () := by
  have hfields : Json.comparedMembers inputs = Json.comparedMembers other := Json.object.inj h
  have hlength : inputs.length = other.length := by
    simpa [Json.comparedMembers_eq] using congrArg List.length hfields
  have hcompared : ∀ fields : Fields, (∀ field ∈ fields,
      Approves authority.policy field.1 field.2) ↔
        ∀ field ∈ Json.comparedMembers fields, Approves authority.policy field.1 field.2 := by
    intro fields
    simp only [Json.comparedMembers_eq, List.forall_mem_map]
    refine forall₂_congr fun field _ => exists_congr fun allowed => and_congr_right fun _ => ?_
    have hsame := Json.same_compared field.2
    exact ⟨fun h => h.of_same hsame.symm, fun h => h.of_same hsame⟩
  rw [validate_eq_ok hschema, validate_eq_ok hschema, hlength, validateValue_same h,
    hcompared inputs, hcompared other, hfields]

theorem parse_eq_ok {policyJson text : String}
    (h : parse read policyJson (some text) = .ok authority) :
    ∃ schema, authority.schema = some schema ∧ read policyJson = .ok (.object authority.policy) ∧
      read text = .ok schema ∧ schemaShape schema = .ok () := by
  simp only [parse, bind_eq_ok, pure_eq_ok] at h
  obtain ⟨policy, hpolicy, schema, hschema, rfl⟩ := h
  simp only [parsePolicy, bind_eq_ok, mapError_eq_ok, okOr_eq_ok] at hpolicy
  obtain ⟨value, hvalue, hobject⟩ := hpolicy
  rw [parseSchema, bind_eq_ok] at hschema
  obtain ⟨schema', hread, hrest⟩ := hschema
  rw [andThen_eq_ok, pure_eq_ok] at hrest
  obtain ⟨hshape, rfl⟩ := hrest
  refine ⟨schema', rfl, ?_, mapError_eq_ok.mp hread, hshape⟩
  cases value with
  | object members =>
    cases hobject
    exact hvalue
  | _ => cases hobject

end InputAuthority

end Shaula.Inputs
