import Std.Data.ExtTreeMap.Lemmas
import Shaula.Library.JsonSchema
import Shaula.Template.Manifest

/-! # Bindings under their schema

The registry's view of a template's bindings: the schema says which fields are protected, a read
shows those as presence markers, and an update is merged field by field.
-/

namespace Shaula

open Library Library.Outcome

namespace Template

/-- A set of bindings: one value under each field. -/
abbrev Bindings := Std.ExtTreeMap String Json

/-- The per-field sensitivity and the document it was read from. -/
structure BindingsSchema where
  fields : List (String × Bool)
  schema : Json

namespace BindingsSchema

/-- `MAX_DEPTH` -/
def maxDepth : Nat := 16

/-! ## Sensitivity -/

/-- The registry's rule: a schema without an annotation is protected, nested or not. -/
def annotation : Annotation CoreError where
  name := "sensitive"
  nested := true
  malformed := invalid "variable sensitive annotation must be boolean"
  tooDeep := invalid "bindings sensitivity schema exceeds the depth limit"

/-- An annotation wins, with a nested `true` protecting the whole subtree. -/
def sensitiveOf (node : Json) (depth : Nat) : CoreResult Bool :=
  annotation.collect (maxDepth + 1 - depth) true node

/-- Sensitivity of one declared top-level field. -/
def fieldSensitive (schema : Json) (key : String) (depth : Nat) : CoreResult Bool :=
  match schema.property key with
  | none => .ok true
  | some field => sensitiveOf field depth

/-- Combinator branches can declare the field's sensitivity on the parent's behalf. -/
def inheritedSensitive (schema : Json) (key : String) (depth : Nat) : CoreResult Bool :=
  annotation.collectFor key (maxDepth + 1 - depth) schema

/-- Whether a declared field is protected. -/
def fieldProtected (schema : Json) (key : String) : CoreResult Bool := do
  let inherited ← inheritedSensitive schema key 0
  if inherited then return true else fieldSensitive schema key 0

/-- Parses a bindings schema document. -/
def parse (schema : Json) : CoreResult BindingsSchema := do
  ensure schema.isObject (invalid "bindings schema must be an object")
  let flags ← (schema.membersAt "properties").mapM fun member => fieldProtected schema member.1
  return ⟨((schema.membersAt "properties").map (·.1)).zip flags, schema⟩

/-- A schema that protects every stored field. -/
def allSensitive : BindingsSchema := ⟨[], .object []⟩

variable (schema : BindingsSchema)

/-- What the schema says about a field. -/
def flag (field : String) : Option Bool :=
  (schema.fields.find? fun entry => entry.1 = field).map (·.2)

/-- Whether the field is protected. Unknown fields are sensitive. -/
def sensitive (field : String) : Bool := (schema.flag field).getD true

/-- Whether the schema declares the field at all. -/
def declares (field : String) : Bool := (schema.flag field).isSome

theorem sensitive_of_not_declares {field : String} (h : schema.declares field = false) :
    schema.sensitive field = true := by
  simp only [declares, Option.isSome_eq_false_iff, Option.isNone_iff_eq_none] at h
  simp [sensitive, h]

/-! ## Reads and updates -/

/-- What a read shows of a protected field. -/
def presenceMarker (value : Json) : Json :=
  .object [("sensitive", .bool true), ("set", .bool (!value.isNull))]

/-- The read projection: non-sensitive values verbatim, sensitive fields as presence markers. -/
def project (bindings : Bindings) : Bindings :=
  bindings.map fun key value => if schema.sensitive key then presenceMarker value else value

/-- The read-side presence marker shape. -/
def isPresenceMarker : Json → Bool
  | .object fields => fields.length = 2 ∧ (Json.lookup fields "sensitive").any (·.asBool = some true) ∧
      (Json.lookup fields "set").any (·.asBool.isSome)
  | _ => false

/-- One submitted field: a `null` for a protected field keeps what is stored. -/
def mergeField (merged : Bindings) (key : String) (value : Json) : Bindings :=
  if schema.sensitive key && value.isNull then merged else merged.insert key value

/-- The update merge: the submitted object is resolved per field against the base. -/
def mergeUpdate (base submitted : Bindings) : CoreResult Bindings := do
  submitted.toList.forM fun entry => do
    ensure (schema.declares entry.1) (invalid s!"unknown template binding field {entry.1}")
    ensure (¬ isPresenceMarker entry.2)
      (invalid "template binding presence markers cannot be submitted")
  return submitted.toList.foldl (fun merged entry => schema.mergeField merged entry.1 entry.2) base

/-- What is submitted to write a read back: each marker of a protected field as `null`. -/
def writeBack (projection : Bindings) : Bindings :=
  projection.map fun key value => if schema.sensitive key then .null else value

variable {schema} {base submitted merged stored : Bindings} {key : String} {value : Json}

theorem mergeField_other {name : String} (h : name ≠ key) :
    (schema.mergeField merged name value)[key]? = merged[key]? := by
  unfold mergeField
  split
  · rfl
  · rw [Std.ExtTreeMap.getElem?_insert, if_neg]
    rw [Std.compare_eq_iff_eq]
    exact h

theorem mergeField_self :
    (schema.mergeField merged key value)[key]? =
      if schema.sensitive key && value.isNull then merged[key]? else some value := by
  unfold mergeField
  split
  · rfl
  · rw [Std.ExtTreeMap.getElem?_insert_self]

/-- Merging a list of fields leaves the other fields alone. -/
theorem foldl_other {entries : List (String × Json)} (h : ∀ entry ∈ entries, entry.1 ≠ key) :
    (entries.foldl (fun merged entry => schema.mergeField merged entry.1 entry.2) base)[key]? =
      base[key]? := by
  induction entries generalizing base with
  | nil => rfl
  | cons entry rest ih =>
    rw [List.foldl_cons, ih fun e he => h e (List.mem_cons_of_mem _ he)]
    exact mergeField_other (h entry List.mem_cons_self)

/-- Of a list of fields under different names, each is merged into what the base has there. -/
theorem foldl_self {entries : List (String × Json)}
    (hdistinct : entries.Pairwise fun a b => a.1 ≠ b.1) (h : (key, value) ∈ entries) :
    (entries.foldl (fun merged entry => schema.mergeField merged entry.1 entry.2) base)[key]? =
      if schema.sensitive key && value.isNull then base[key]? else some value := by
  induction entries generalizing base with
  | nil => cases h
  | cons entry rest ih =>
    rw [List.pairwise_cons] at hdistinct
    rw [List.foldl_cons]
    rcases List.mem_cons.mp h with rfl | hmem
    · rw [foldl_other fun e he => (hdistinct.1 e he).symm]
      exact mergeField_self
    · rw [ih hdistinct.2 hmem, mergeField_other (hdistinct.1 _ hmem)]

theorem distinct_fields (bindings : Bindings) :
    bindings.toList.Pairwise fun a b => a.1 ≠ b.1 := by
  apply Std.ExtTreeMap.distinct_keys_toList.imp
  intro a b h heq
  exact h (Std.compare_eq_iff_eq.mpr heq)

/-- What an update that is let through submits. -/
theorem mergeUpdate_eq_ok : schema.mergeUpdate base submitted = .ok merged ↔
    (∀ key value, submitted[key]? = some value →
      schema.declares key = true ∧ isPresenceMarker value = false) ∧
    submitted.toList.foldl (fun merged entry => schema.mergeField merged entry.1 entry.2) base =
      merged := by
  simp only [mergeUpdate, bind_eq_ok, forM_eq_ok, ensure_eq_ok, pure_eq_ok, exists_const,
    Prod.forall, Std.ExtTreeMap.mem_toList_iff_getElem?_eq_some, Bool.not_eq_true]

/-- A field that is not submitted keeps its value. -/
theorem merged_omitted (h : schema.mergeUpdate base submitted = .ok merged)
    (homitted : submitted[key]? = none) : merged[key]? = base[key]? := by
  obtain ⟨-, rfl⟩ := mergeUpdate_eq_ok.mp h
  apply foldl_other
  rintro ⟨name, value⟩ hmem rfl
  rw [Std.ExtTreeMap.mem_toList_iff_getElem?_eq_some, homitted] at hmem
  cases hmem

theorem merged_submitted (h : schema.mergeUpdate base submitted = .ok merged)
    (hvalue : submitted[key]? = some value) :
    merged[key]? = if schema.sensitive key && value.isNull then base[key]? else some value := by
  obtain ⟨-, rfl⟩ := mergeUpdate_eq_ok.mp h
  exact foldl_self (distinct_fields submitted)
    (Std.ExtTreeMap.mem_toList_iff_getElem?_eq_some.mpr hvalue)

/-- A `null` under a protected field was there before the update. -/
theorem merged_null (h : schema.mergeUpdate base submitted = .ok merged)
    (hsensitive : schema.sensitive key = true) (hnull : merged[key]? = some .null) :
    base[key]? = some .null := by
  cases hvalue : submitted[key]? with
  | none =>
    rw [merged_omitted h hvalue] at hnull
    exact hnull
  | some value =>
    rw [merged_submitted h hvalue, hsensitive, Bool.true_and] at hnull
    split at hnull
    · exact hnull
    · next hpresent =>
      cases hnull
      exact absurd rfl hpresent

@[simp] theorem writeBack_project : (schema.writeBack (schema.project stored))[key]? =
    stored[key]?.map fun value => if schema.sensitive key then .null else value := by
  simp only [writeBack, project, Std.ExtTreeMap.getElem?_map, Option.map_map]
  cases stored[key]? with
  | none => rfl
  | some value =>
    by_cases hsensitive : schema.sensitive key
    · simp [hsensitive]
    · simp [hsensitive]

/-- Writing a read back either restores what is stored or is refused. -/
theorem merged_writeBack
    (h : schema.mergeUpdate stored (schema.writeBack (schema.project stored)) = .ok merged) :
    merged = stored := by
  apply Std.ExtTreeMap.ext_getElem?
  intro key
  cases hstored : stored[key]? with
  | none =>
    rw [← hstored]
    apply merged_omitted h
    rw [writeBack_project, hstored, Option.map_none]
  | some value =>
    have hvalue := @writeBack_project schema stored key
    rw [hstored, Option.map_some] at hvalue
    rw [merged_submitted h hvalue]
    by_cases hsensitive : schema.sensitive key
    · simp [hsensitive, Json.isNull, hstored]
    · simp [hsensitive]

/-- Whether a stored object can be read and written back: its fields are declared, and no value
that is shown has the shape of a marker. -/
def Restorable (schema : BindingsSchema) (stored : Bindings) : Prop :=
  ∀ key value, stored[key]? = some value →
    schema.declares key = true ∧ (schema.sensitive key = true ∨ isPresenceMarker value = false)

theorem writeBack_restores_iff :
    schema.mergeUpdate stored (schema.writeBack (schema.project stored)) = .ok stored ↔
      schema.Restorable stored := by
  constructor
  · intro h key value hvalue
    have hsubmitted := @writeBack_project schema stored key
    rw [hvalue, Option.map_some] at hsubmitted
    obtain ⟨hdeclared, hmarker⟩ := (mergeUpdate_eq_ok.mp h).1 key _ hsubmitted
    refine ⟨hdeclared, ?_⟩
    by_cases hsensitive : schema.sensitive key
    · exact .inl hsensitive
    · rw [if_neg hsensitive] at hmarker
      exact .inr hmarker
  · intro h
    have hmerge : ∃ merged,
        schema.mergeUpdate stored (schema.writeBack (schema.project stored)) = .ok merged := by
      refine ⟨_, mergeUpdate_eq_ok.mpr ⟨?_, rfl⟩⟩
      intro key value hvalue
      rw [writeBack_project, Option.map_eq_some_iff] at hvalue
      obtain ⟨original, hstored, rfl⟩ := hvalue
      obtain ⟨hdeclared, hplain⟩ := h key original hstored
      refine ⟨hdeclared, ?_⟩
      by_cases hsensitive : schema.sensitive key
      · rw [if_pos hsensitive]
        rfl
      · rw [if_neg hsensitive]
        exact hplain.resolve_left hsensitive
    obtain ⟨merged, hmerged⟩ := hmerge
    rw [hmerged, merged_writeBack hmerged]

/-- Two stored objects that differ in the values of protected fields alone, and not in whether
these are set. -/
def SameButSecrets (schema : BindingsSchema) (first second : Bindings) : Prop :=
  ∀ key, first[key]? = second[key]? ∨ schema.sensitive key = true ∧
    ∃ a b, first[key]? = some a ∧ second[key]? = some b ∧ a ≠ .null ∧ b ≠ .null

theorem project_secrets {first second : Bindings} (h : schema.SameButSecrets first second) :
    schema.project first = schema.project second := by
  apply Std.ExtTreeMap.ext_getElem?
  intro key
  simp only [project, Std.ExtTreeMap.getElem?_map]
  rcases h key with heq | ⟨hsensitive, a, b, ha, hb, hanull, hbnull⟩
  · rw [heq]
  · have hset : ∀ value : Json, value ≠ .null → value.isNull = false := by
      intro value hvalue
      cases value with
      | null => exact absurd rfl hvalue
      | _ => rfl
    rw [ha, hb]
    simp [hsensitive, presenceMarker, hset a hanull, hset b hbnull]

/-- A stored object is restored by writing its read back exactly when it is restorable, and is never
changed by that; an update adds no `null` under a protected field and keeps what it does not name;
a read shows nothing of the protected values. -/
theorem read_modify_write (schema : BindingsSchema) :
    (∀ stored, schema.mergeUpdate stored (schema.writeBack (schema.project stored)) = .ok stored ↔
      schema.Restorable stored) ∧
    (∀ stored merged,
      schema.mergeUpdate stored (schema.writeBack (schema.project stored)) = .ok merged →
        merged = stored) ∧
    (∀ (base submitted merged : Bindings) (key : String),
      schema.mergeUpdate base submitted = .ok merged →
        schema.sensitive key = true → merged[key]? = some .null → base[key]? = some .null) ∧
    (∀ (base submitted merged : Bindings) (key : String),
      schema.mergeUpdate base submitted = .ok merged →
        submitted[key]? = none → merged[key]? = base[key]?) ∧
    ∀ first second : Bindings, schema.SameButSecrets first second →
      schema.project first = schema.project second := by
  refine ⟨?_, ?_, ?_, ?_, ?_⟩
  · intro stored
    exact writeBack_restores_iff
  · intro stored merged h
    exact merged_writeBack h
  · intro base submitted merged key h hsensitive hnull
    exact merged_null h hsensitive hnull
  · intro base submitted merged key h homitted
    exact merged_omitted h homitted
  · intro first second h
    exact project_secrets h

/-- A stored object with one field. -/
def region : Bindings := Std.ExtTreeMap.insert ∅ "region" (.string "eu")

/-- A stored field that the schema does not declare cannot be written back. -/
theorem undeclared_field_not_restored :
    ¬ allSensitive.mergeUpdate region (allSensitive.writeBack (allSensitive.project region)) =
      .ok region := by
  intro h
  have hrestorable := writeBack_restores_iff.mp h
  have hdeclared := (hrestorable "region" (.string "eu") Std.ExtTreeMap.getElem?_insert_self).1
  cases hdeclared

end BindingsSchema

end Template

end Shaula
