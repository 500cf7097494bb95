import Shaula.Inputs.Authority
import Mathlib.Data.List.Dedup
import Mathlib.Data.List.Sort
import Mathlib.Data.String.Basic

/-! # The shown input contract

The contract projects whole approved values through the authority that admission uses.  What it
shows is exactly what admission accepts.
-/

namespace Shaula.Inputs

open Library Library.Outcome
open Registry (trim)

/-- An approved complete value as its text. -/
structure InputOption where
  valueJson : String
  deriving DecidableEq

/-- One settable input and its finite approved values. -/
structure InputField where
  key : String
  label : String
  description : String
  required : Bool
  options : List InputOption

/-- Values of a root enum remain whole presets. -/
inductive InputContractProjection where
  | fields (fields : List InputField)
  | presets (presets : List InputOption)

inductive InputContractReadError where
  | forbidden
  | notFound
  | unavailable (reason : String)
  deriving DecidableEq

abbrev ProjectionResult := Except InputContractReadError

/-- The texts of values, the sizes of texts as serialized, and the upper case of characters. -/
structure Texts where
  render : Json → String
  serializedSize : String → Nat
  toUppercase : Char → List Char

def maxBytes : Nat := 1024 * 1024

def unavailable (reason : String) : InputContractReadError := .unavailable reason

def overBudget : InputContractReadError :=
  unavailable "input contract exceeds the 1 MiB projection limit"

/-- What is retained so far, with `size` bytes more. -/
def count (budget size : Nat) : ProjectionResult Nat :=
  if budget + size > maxBytes then .error overBudget else .ok (budget + size)

mutual

/-- Not nested more deeply than so many levels. -/
def boundedDepth : Nat → Json → Bool
  | limit, .array items => boundedItems limit items
  | limit, .object members => boundedMembers limit members
  | _, _ => true

def boundedItems : Nat → List Json → Bool
  | _, [] => true
  | 0, _ :: _ => false
  | limit + 1, item :: rest => boundedDepth limit item && boundedItems (limit + 1) rest

def boundedMembers : Nat → List (String × Json) → Bool
  | _, [] => true
  | 0, _ :: _ => false
  | limit + 1, (_, value) :: rest => boundedDepth limit value && boundedMembers (limit + 1) rest

end

variable (T : Texts)

def option (value : Json) : ProjectionResult InputOption := do
  ensure (boundedDepth 16 value) (unavailable "approved value exceeds the display depth limit of 16")
  let valueJson := T.render value
  ensure (valueJson.utf8ByteSize ≤ maxBytes) overBudget
  return ⟨valueJson⟩

/-- `{"valueJson":…}` -/
def InputOption.serializedSize (option : InputOption) : Nat :=
  14 + T.serializedSize option.valueJson

/-- Values and their options so far, and the bytes retained. -/
structure Collected where
  values : List Json
  options : List InputOption
  budget : Nat

def addOption (collected : Collected) (value : Json) : ProjectionResult Collected :=
  if Json.Among collected.values value then .ok collected
  else do
    ensure (collected.options.length ≠ 256)
      (unavailable "input contract exceeds the limit of 256 options")
    let option ← option T value
    let budget ← count collected.budget (option.serializedSize T)
    return ⟨collected.values ++ [value], collected.options ++ [option], budget⟩

/-- The options of the values that are let through. -/
def addEach (admits : Json → Bool) (collected : Collected) (values : List Json) :
    ProjectionResult Collected :=
  values.foldlM (fun collected value =>
    if admits value then addOption T collected value else .ok collected) collected

def requiredUnavailable (key : String) : InputContractReadError :=
  unavailable
    s!"required input {quoted (String.ofList (key.toList.take 80))} has no valid approved option"

def readableLabel (key : String) : String :=
  match key.toList.map fun c => if c = '_' ∨ c = '-' then ' ' else c with
  | first :: rest => String.ofList (T.toUppercase first ++ rest)
  | [] => key

def projectPresets (authority : InputAuthority) (presets : List Json) :
    ProjectionResult InputContractProjection := do
  let collected ← addEach T
    (fun preset => preset.asObject.any fun inputs => (authority.validate inputs).isOk)
    ⟨[], [], 0⟩ presets
  ensure (collected.options ≠ [])
    (unavailable "root enum has no valid approved input configuration")
  return .presets collected.options

/-- Fields so far, a value for each required one, and the bytes retained.  The values only witness
that the inputs can be satisfied. -/
structure Projected where
  fields : List InputField
  witness : Fields
  budget : Nat

/-- The schema admits a value under the key. -/
def admitsValue (root : Json) (key : String) (value : Json) : Bool :=
  (root.property key).all fun schema => (validateValue key value schema).isOk

def additional (root : Json) : Bool :=
  (root.get "additionalProperties").bind Json.asBool ≠ some false

def requiredKeys (root : Json) : List String :=
  (((root.itemsAt "required").filterMap Json.asStr).insertionSort (· ≤ ·)).dedup

def label (root : Json) (key : String) : String :=
  let declared := root.property key
  match (declared.bind (·.strAt "title")).filter fun title => trim title ≠ "" with
  | some title => title
  | none => if declared.isSome then readableLabel T key else key

def description (root : Json) (key : String) : String :=
  ((root.property key).bind (·.strAt "description")).getD ""

/-- The field of a key, once its options are collected. -/
def addField (root : Json) (projected : Projected) (key : String) (collected : Collected) :
    ProjectionResult Projected :=
  match collected.values with
  | [] => .ok projected
  | first :: _ => do
    ensure (projected.fields.length ≠ 256)
      (unavailable "input contract exceeds the limit of 256 fields")
    let required := decide (key ∈ requiredKeys root)
    let label := label T root key
    let description := description root key
    let budget ← count collected.budget (T.serializedSize key)
    let budget ← count budget (T.serializedSize label)
    let budget ← count budget (T.serializedSize description)
    return ⟨projected.fields ++ [⟨key, label, description, required, collected.options⟩],
      if required then projected.witness ++ [(key, first)] else projected.witness, budget⟩

def projectField (root : Json) (projected : Projected) (entry : String × Json) :
    ProjectionResult Projected :=
  if (root.property entry.1).isNone && !additional root then .ok projected
  else do
    let collected ← addEach T (admitsValue root entry.1) ⟨[], [], projected.budget⟩
      (entry.2.asArray.getD [])
    addField T root projected entry.1 collected

def projectFields (authority : InputAuthority) (root : Json) :
    ProjectionResult InputContractProjection := do
  ensure ((root.strAt "type").all (· = "object"))
    (unavailable "parameter schema does not allow an inputs object")
  ensure ((requiredKeys root).length ≤ 32)
    (unavailable "required inputs exceed the admission limit of 32 keys")
  let projected ← authority.policy.foldlM (projectField T root) ⟨[], [], 0⟩
  (requiredKeys root).forM fun key =>
    ensure (Json.lookup projected.witness key).isSome (requiredUnavailable key)
  (authority.validate projected.witness).mapError fun _ =>
    unavailable "parameter schema has no valid approved input configuration"
  return .fields (projected.fields.insertionSort fun left right => left.key ≤ right.key)

/-- Parser diagnostics can contain publisher-supplied text; only fixed reasons leave here. -/
def project (read : Reader) (policy schema : String) : ProjectionResult InputContractProjection := do
  let authority ← (InputAuthority.parse read policy (some schema)).mapError fun _ =>
    unavailable "parameter schema or input policy is invalid or unsupported"
  ensure (authority.policy.all fun entry => entry.2.asArray.isSome)
    (unavailable "input policy entries must be arrays of approved values")
  let root ← okOr authority.schema (unavailable "parameter schema is absent")
  match (root.get "enum").bind Json.asArray with
  | some presets => projectPresets T authority presets
  | none => projectFields T authority root

/-! ## Options are approved values -/

variable {T} {value root : Json} {collected collected' : Collected}

/-- The options collected so far are the texts of the values collected so far. -/
def Collected.Shown (T : Texts) (collected : Collected) : Prop :=
  collected.options = collected.values.map fun value => ⟨T.render value⟩

theorem option_eq_ok {shown : InputOption} (h : option T value = .ok shown) :
    shown = ⟨T.render value⟩ := by
  simp only [option, bind_eq_ok, pure_eq_ok] at h
  obtain ⟨-, -, -, -, rfl⟩ := h
  rfl

/-- A value is collected unless one that compares alike is, and nothing else is. -/
theorem addOption_collects (h : addOption T collected value = .ok collected')
    (hshown : collected.Shown T) :
    collected'.Shown T ∧ collected.values ⊆ collected'.values ∧
      Json.Among collected'.values value ∧
      ∀ v ∈ collected'.values, v ∈ collected.values ∨ v = value := by
  unfold addOption at h
  split at h
  case isTrue hamong =>
    cases h
    exact ⟨hshown, List.Subset.refl _, hamong, fun v => .inl⟩
  case isFalse =>
    simp only [bind_eq_ok, pure_eq_ok] at h
    obtain ⟨-, -, shown, hoption, budget, -, rfl⟩ := h
    refine ⟨?_, List.subset_append_left .., Json.among_of_mem (by simp), fun v => by simp⟩
    simp only [Collected.Shown, List.map_append, List.map_cons, List.map_nil]
    rw [option_eq_ok hoption, hshown]

theorem addEach_collects {admits : Json → Bool} {values : List Json}
    (h : addEach T admits collected values = .ok collected') (hshown : collected.Shown T) :
    collected'.Shown T ∧ collected.values ⊆ collected'.values ∧
      (∀ v ∈ values, admits v = true → Json.Among collected'.values v) ∧
      ∀ v ∈ collected'.values, v ∈ collected.values ∨ (v ∈ values ∧ admits v = true) := by
  induction values generalizing collected with
  | nil =>
    cases h
    refine ⟨hshown, List.Subset.refl _, fun v hv => ?_, fun v => .inl⟩
    cases hv
  | cons value rest ih =>
    rw [addEach, List.foldlM_cons] at h
    obtain ⟨next, hnext, hrest⟩ := bind_eq_ok.mp h
    have hstep : next.Shown T ∧ collected.values ⊆ next.values ∧
        (admits value = true → Json.Among next.values value) ∧
        ∀ v ∈ next.values, v ∈ collected.values ∨ (v = value ∧ admits value = true) := by
      by_cases hadmits : admits value = true
      · rw [if_pos hadmits] at hnext
        obtain ⟨hnextShown, hkept, hamong, hfrom⟩ := addOption_collects hnext hshown
        exact ⟨hnextShown, hkept, fun _ => hamong, fun v hv => (hfrom v hv).imp_right (⟨·, hadmits⟩)⟩
      · rw [if_neg hadmits] at hnext
        cases hnext
        exact ⟨hshown, List.Subset.refl _, fun hok => absurd hok hadmits, fun v => .inl⟩
    obtain ⟨hnextShown, hkept, hamong, hfrom⟩ := hstep
    obtain ⟨hresult, hkept', hamong', hfrom'⟩ := ih hrest hnextShown
    refine ⟨hresult, List.Subset.trans hkept hkept', fun v hv hadmits => ?_, fun v hv => ?_⟩
    · rcases List.mem_cons.mp hv with rfl | hv
      · obtain ⟨listed, hlisted, hsame⟩ := hamong hadmits
        exact ⟨listed, hkept' hlisted, hsame⟩
      · exact hamong' v hv hadmits
    · rcases hfrom' v hv with hv | ⟨hv, hadmits⟩
      · rcases hfrom v hv with hv | ⟨rfl, hadmits⟩
        · exact .inl hv
        · exact .inr ⟨List.mem_cons_self, hadmits⟩
      · exact .inr ⟨List.mem_cons_of_mem _ hv, hadmits⟩

/-- One of the options is the text of a value that compares as this one. -/
def Shows (T : Texts) (options : List InputOption) (value : Json) : Prop :=
  ∃ shown : Json, shown.Same value ∧ ⟨T.render shown⟩ ∈ options

/-- From nothing, the options are texts of values let through, and show each of them. -/
theorem addEach_options {admits : Json → Bool} {values : List Json} {budget : Nat}
    (h : addEach T admits ⟨[], [], budget⟩ values = .ok collected) :
    (∀ shown ∈ collected.options, ∃ v ∈ values, admits v = true ∧ shown = ⟨T.render v⟩) ∧
      ∀ v ∈ values, admits v = true → Shows T collected.options v := by
  obtain ⟨hshown, -, hamong, hfrom⟩ := addEach_collects h rfl
  rw [hshown]
  constructor
  · intro shown hmem
    obtain ⟨v, hv, rfl⟩ := List.mem_map.mp hmem
    obtain ⟨hmem, hadmits⟩ := (hfrom v hv).resolve_left List.not_mem_nil
    exact ⟨v, hmem, hadmits, rfl⟩
  · intro v hv hadmits
    obtain ⟨listed, hlisted, hsame⟩ := hamong v hv hadmits
    exact ⟨listed, hsame, List.mem_map_of_mem hlisted⟩

/-! ## Fields are the entries of the policy -/

variable {entry : String × Json} {field : InputField} {projected projected' : Projected}

/-- An input of the key is declared, or does not have to be. -/
def Settable (root : Json) (key : String) : Prop :=
  (root.property key).isSome = true ∨ additional root = true

/-- A field shows the values of one entry of the policy that the schema admits. -/
structure FieldOf (T : Texts) (root : Json) (entry : String × Json) (field : InputField) : Prop where
  key : field.key = entry.1
  settable : Settable root entry.1
  required : field.required = decide (entry.1 ∈ requiredKeys root)
  options : ∀ shown ∈ field.options, ∃ v ∈ entry.2.asArray.getD [],
    admitsValue root entry.1 v = true ∧ shown = ⟨T.render v⟩
  shows : ∀ v ∈ entry.2.asArray.getD [], admitsValue root entry.1 v = true →
    Shows T field.options v

/-- What one entry of the policy adds: its field, unless there is no value to choose, and a value
in the witness only for a required field. -/
inductive Adds (T : Texts) (root : Json) (entry : String × Json) (projected : Projected) :
    Projected → Prop where
  | skip (budget : Nat) (h : Settable root entry.1 → ∀ v ∈ entry.2.asArray.getD [],
      admitsValue root entry.1 v = false) :
      Adds T root entry projected ⟨projected.fields, projected.witness, budget⟩
  | field (budget : Nat) (field : InputField) (witness : Fields) (h : FieldOf T root entry field)
      (hwitness : ∀ key, (Json.lookup witness key).isSome = true →
        (Json.lookup projected.witness key).isSome = true ∨
          (field.key = key ∧ field.required = true)) :
      Adds T root entry projected ⟨projected.fields ++ [field], witness, budget⟩

theorem addField_adds (hsettable : Settable root entry.1) {budget : Nat}
    (hcollected : addEach T (admitsValue root entry.1) ⟨[], [], budget⟩
      (entry.2.asArray.getD []) = .ok collected)
    (h : addField T root projected entry.1 collected = .ok projected') :
    Adds T root entry projected projected' := by
  obtain ⟨-, -, hamong, -⟩ := addEach_collects hcollected rfl
  obtain ⟨hoptions, hshows⟩ := addEach_options hcollected
  unfold addField at h
  split at h
  case h_1 hnone =>
    cases h
    refine .skip projected.budget fun _ v hv => ?_
    by_contra hadmits
    obtain ⟨listed, hlisted, -⟩ := hamong v hv (by simpa using hadmits)
    rw [hnone] at hlisted
    cases hlisted
  case h_2 first rest hsome =>
    simp only [bind_eq_ok, pure_eq_ok] at h
    obtain ⟨-, -, -, -, -, -, budget', -, rfl⟩ := h
    refine .field budget' _ _ ⟨rfl, hsettable, rfl, hoptions, hshows⟩ fun key hkey => ?_
    by_cases hrequired : entry.1 ∈ requiredKeys root
    · simp only [hrequired, decide_true, if_true, Json.lookup_append, Json.lookup_cons,
        Json.lookup_nil, Option.isSome_or, Bool.or_eq_true] at hkey
      rcases hkey with hkey | hkey
      · exact .inl hkey
      · by_cases hname : entry.1 = key
        · exact .inr ⟨hname, decide_eq_true hrequired⟩
        · rw [if_neg hname] at hkey
          cases hkey
    · simp only [hrequired, decide_false, Bool.false_eq_true, if_false] at hkey
      exact .inl hkey

theorem projectField_adds (h : projectField T root projected entry = .ok projected') :
    Adds T root entry projected projected' := by
  unfold projectField at h
  split at h
  case isTrue hclosed =>
    cases h
    refine .skip projected.budget fun hsettable => ?_
    rw [Bool.and_eq_true, Option.isNone_iff_eq_none, Bool.not_eq_true'] at hclosed
    rcases hsettable with hdeclared | hadditional
    · rw [hclosed.1] at hdeclared
      cases hdeclared
    · rw [hclosed.2] at hadditional
      cases hadditional
  case isFalse hopen =>
    obtain ⟨collected, hcollected, hadd⟩ := bind_eq_ok.mp h
    refine addField_adds ?_ hcollected hadd
    rw [Bool.and_eq_true, not_and, Option.isNone_iff_eq_none, Bool.not_eq_true'] at hopen
    by_cases hdeclared : (root.property entry.1).isSome = true
    · exact .inl hdeclared
    · refine .inr (Bool.of_not_eq_false (hopen ?_))
      exact Option.not_isSome_iff_eq_none.mp hdeclared

/-- The fields are those of the entries with values to choose, and the witness sets required
fields alone. -/
theorem projectFields_fold {entries : Fields}
    (h : entries.foldlM (projectField T root) projected = .ok projected') :
    (∀ field ∈ projected.fields, field ∈ projected'.fields) ∧
      (∀ field ∈ projected'.fields, field ∈ projected.fields ∨
        ∃ entry ∈ entries, FieldOf T root entry field) ∧
      (∀ entry ∈ entries, Settable root entry.1 → ∀ v ∈ entry.2.asArray.getD [],
        admitsValue root entry.1 v = true → ∃ field ∈ projected'.fields,
          FieldOf T root entry field) ∧
      ∀ key, (Json.lookup projected'.witness key).isSome = true →
        (Json.lookup projected.witness key).isSome = true ∨
          ∃ field ∈ projected'.fields, field.key = key ∧ field.required = true := by
  induction entries generalizing projected with
  | nil =>
    cases h
    refine ⟨fun _ hf => hf, fun _ hf => .inl hf, fun _ he => ?_, fun _ hk => .inl hk⟩
    cases he
  | cons entry rest ih =>
    rw [List.foldlM_cons] at h
    obtain ⟨next, hnext, hrest⟩ := bind_eq_ok.mp h
    obtain ⟨hkept, hfrom, hshown, hwitness⟩ := ih hrest
    cases projectField_adds hnext with
    | skip budget hnone =>
      refine ⟨hkept, fun field hfield => ?_, fun e he hsettable v hv hadmits => ?_, hwitness⟩
      · rcases hfrom field hfield with hold | ⟨e, he, hof⟩
        · exact .inl hold
        · exact .inr ⟨e, List.mem_cons_of_mem _ he, hof⟩
      · rcases List.mem_cons.mp he with rfl | he
        · rw [hnone hsettable v hv] at hadmits
          cases hadmits
        · exact hshown e he hsettable v hv hadmits
    | field budget added witness hof hadded =>
      have hlast := hkept added (List.mem_append_right _ List.mem_cons_self)
      refine ⟨fun field hfield => hkept field (List.mem_append_left _ hfield),
        fun field hfield => ?_, fun e he hsettable v hv hadmits => ?_, fun key hkey => ?_⟩
      · rcases hfrom field hfield with hold | ⟨e, he, hof'⟩
        · rcases List.mem_append.mp hold with hold | hnew
          · exact .inl hold
          · cases List.mem_singleton.mp hnew
            exact .inr ⟨entry, List.mem_cons_self, hof⟩
        · exact .inr ⟨e, List.mem_cons_of_mem _ he, hof'⟩
      · rcases List.mem_cons.mp he with rfl | he
        · exact ⟨added, hlast, hof⟩
        · exact hshown e he hsettable v hv hadmits
      · rcases hwitness key hkey with hold | hnew
        · rcases hadded key hold with hold | ⟨hname, hrequired⟩
          · exact .inl hold
          · exact .inr ⟨added, hlast, hname, hrequired⟩
        · exact .inr hnew

theorem mem_requiredKeys {key : String} :
    key ∈ requiredKeys root ↔ .string key ∈ root.itemsAt "required" := by
  simp only [requiredKeys, List.mem_dedup, List.mem_insertionSort, List.mem_filterMap,
    Json.asStr_eq_some, exists_eq_right]

/-! ## What is shown is what is admitted -/

/-- A value that the policy or the root enum lists. -/
def Listed (policy : Fields) (root value : Json) : Prop :=
  (∃ entry ∈ policy, value ∈ entry.2.asArray.getD []) ∨ value ∈ root.itemsAt "enum"

/-- Inputs chosen from what is shown: a preset, or options of fields with every required one set.
Values are the same when they compare alike. -/
def InputContractProjection.Offers (T : Texts) (inputs : Fields) : InputContractProjection → Prop
  | .presets options => Shows T options (.object inputs)
  | .fields listed => inputs.length ≤ 32 ∧
    (∀ input ∈ inputs, ∃ field ∈ listed,
      field.key = input.1 ∧ Shows T field.options input.2) ∧
    ∀ field ∈ listed, field.required = true → (Json.lookup inputs field.key).isSome = true

variable {authority : InputAuthority} {shown : InputContractProjection} {inputs : Fields}

theorem presets_offer (hschema : authority.schema = some root) {presets : List Json}
    (henum : root.get "enum" = some (.array presets)) (hroot : ∃ members, root = .object members)
    (hrender : ∀ v ∈ presets, ∀ w, T.render v = T.render w → v = w)
    (h : projectPresets T authority presets = .ok shown) :
    authority.validate inputs = .ok () ↔ shown.Offers T inputs := by
  simp only [projectPresets, bind_eq_ok, pure_eq_ok] at h
  obtain ⟨collected, hcollected, -, -, rfl⟩ := h
  obtain ⟨hoptions, hshows⟩ := addEach_options hcollected
  rw [InputContractProjection.Offers]
  constructor
  · intro hvalid
    obtain ⟨members, rfl⟩ := hroot
    obtain ⟨-, hvalue, -⟩ := (InputAuthority.validate_eq_ok hschema).mp hvalid
    obtain ⟨preset, hpreset, hsame⟩ := (validateValue_object.mp hvalue).1.2 presets henum
    obtain ⟨fields, rfl⟩ := Json.object_of_same hsame
    have hadmitted := (InputAuthority.validate_same hschema hsame).mpr hvalid
    obtain ⟨shown, hshown, hmem⟩ := hshows _ hpreset (by
      simp only [Json.asObject, Option.any_some, hadmitted]
      rfl)
    exact ⟨shown, hshown.trans hsame, hmem⟩
  · rintro ⟨shown, hsame, hmem⟩
    obtain ⟨v, hv, hadmitted, htext⟩ := hoptions _ hmem
    cases hrender v hv _ (InputOption.mk.inj htext).symm
    obtain ⟨fields, rfl⟩ := Json.object_of_same hsame
    simp only [Json.asObject, Option.any_some] at hadmitted
    obtain ⟨⟨⟩, hvalid⟩ := exists_ok_of_isOk hadmitted
    exact (InputAuthority.validate_same hschema hsame).mp hvalid

theorem settable_of_closed {key : String} (h : Settable root key)
    (hclosed : root.get "additionalProperties" = some (.bool false)) :
    (root.property key).isSome = true := by
  rcases h with hdeclared | hadditional
  · exact hdeclared
  · simp [additional, hclosed, Json.asBool] at hadditional

theorem settable_of_keysFit {key : String} {value : Json} (h : KeysFit root inputs)
    (hmem : (key, value) ∈ inputs) : Settable root key := by
  by_cases hadditional : additional root = true
  · exact .inr hadditional
  · simp only [additional, ne_eq, decide_not, Bool.not_eq_true', decide_eq_false_iff_not,
      Decidable.not_not, Option.bind_eq_some_iff, Json.asBool_eq_some, exists_eq_right]
      at hadditional
    exact .inl (h.2 hadditional _ hmem)

theorem mem_properties {key : String} {schema : Json} (h : root.property key = some schema) :
    (key, schema) ∈ root.membersAt "properties" := by
  obtain ⟨properties, hproperties, hget⟩ := Option.bind_eq_some_iff.mp h
  cases properties with
  | object members =>
    simp only [Json.membersAt, hproperties, Option.bind_some, Json.asObject, Option.getD_some]
    exact Json.mem_of_lookup hget
  | _ => cases hget

theorem property_of_mem (hdistinct : root.Distinct) {property : String × Json}
    (h : property ∈ root.membersAt "properties") :
    root.property property.1 = some property.2 := by
  unfold Json.membersAt at h
  cases hget : root.get "properties" with
  | none => simp [hget] at h
  | some properties =>
    cases properties with
    | object members =>
      simp only [hget, Option.bind_some, Json.asObject, Option.getD_some] at h
      rw [Json.property, hget]
      exact Json.lookup_of_mem (hdistinct.get hget).nodup h
    | _ => simp [hget, Json.asObject] at h

theorem fields_offer {members : Fields} (hschema : authority.schema = some (.object members))
    (hshape : schemaShape (.object members) = .ok ()) (hdistinct : (Json.object members).Distinct)
    (hpolicy : (authority.policy.map Prod.fst).Nodup)
    (harrays : ∀ entry ∈ authority.policy, entry.2.asArray.isSome = true)
    (henum : ((Json.object members).get "enum").bind Json.asArray = none)
    (hrender : ∀ entry ∈ authority.policy, ∀ v ∈ entry.2.asArray.getD [], ∀ w,
      T.render v = T.render w → v = w)
    (hinputs : (inputs.map Prod.fst).Nodup)
    (h : projectFields T authority (.object members) = .ok shown) :
    authority.validate inputs = .ok () ↔ shown.Offers T inputs := by
  generalize hroot : Json.object members = root at *
  simp only [projectFields, bind_eq_ok, pure_eq_ok, ensure_eq_ok, forM_eq_ok] at h
  obtain ⟨-, htype, -, -, projected, hfold, -, hwitness, -, -, rfl⟩ := h
  obtain ⟨-, hfrom, hshown, hset⟩ := projectFields_fold hfold
  rw [InputAuthority.validate_eq_ok hschema, ← hroot, validateValue_object, hroot,
    InputContractProjection.Offers]
  simp only [List.mem_insertionSort]
  refine and_congr_right fun _ => ⟨?_, ?_⟩
  · rintro ⟨⟨-, hobject⟩, happroved⟩
    obtain ⟨hkeys, hvalues⟩ := hobject inputs rfl
    refine ⟨fun input hinput => ?_, fun field hfield hrequired => ?_⟩
    · obtain ⟨allowed, hallowed, v, hmem, hsame⟩ := happroved input hinput
      have hentry := Json.mem_of_lookup hallowed
      have hadmitted : admitsValue root input.1 v = true := by
        unfold admitsValue
        cases hproperty : root.property input.1 with
        | none => rfl
        | some schema =>
          have hvalid := hvalues _ (mem_properties hproperty) input.2
            (Json.lookup_of_mem hinputs hinput)
          rw [Option.all_some, (validateValue_same hsame).mpr (validateValue_path input.1 hvalid)]
          rfl
      obtain ⟨field, hfield, hof⟩ := hshown _ hentry (settable_of_keysFit hkeys hinput)
        v hmem hadmitted
      obtain ⟨shown, hshows, htext⟩ := hof.shows v hmem hadmitted
      exact ⟨field, hfield, hof.key, shown, hshows.trans hsame, htext⟩
    · rcases hfrom field hfield with hnone | ⟨entry, -, hof⟩
      · cases hnone
      · rw [hof.required, decide_eq_true_eq, mem_requiredKeys] at hrequired
        rw [hof.key]
        exact hkeys.1 _ hrequired
  · rintro ⟨hchosen, hrequired⟩
    have horigin : ∀ input ∈ inputs, ∃ entry ∈ authority.policy, entry.1 = input.1 ∧
        Settable root input.1 ∧ ∃ v ∈ entry.2.asArray.getD [], v.Same input.2 ∧
          admitsValue root input.1 v = true := by
      intro input hinput
      obtain ⟨field, hfield, hkey, shown, hsame, htext⟩ := hchosen input hinput
      rcases hfrom field hfield with hnone | ⟨entry, hentry, hof⟩
      · cases hnone
      · obtain ⟨v, hmem, hadmitted, hrendered⟩ := hof.options _ htext
        cases hrender entry hentry v hmem _ (InputOption.mk.inj hrendered).symm
        rw [← hof.key, hkey] at hadmitted
        have hsettable := hof.settable
        rw [← hof.key, hkey] at hsettable
        exact ⟨entry, hentry, hof.key ▸ hkey, hsettable, shown, hmem, hsame, hadmitted⟩
    refine ⟨⟨⟨fun declared hdeclared => ?_, fun options hoptions => ?_⟩, ?_⟩, ?_⟩
    · have hobject := htype
      simp only [Json.strAt_eq_some.mpr hdeclared, Option.all_some, decide_eq_true_eq] at hobject
      rw [hobject]
      rfl
    · rw [hoptions] at henum
      cases henum
    · rintro fields ⟨⟩
      refine ⟨⟨fun name hname => ?_, fun hclosed field hfield => ?_⟩, ?_⟩
      · have hgrammar := keywordsShape_types (schemaShape_object (hroot ▸ hshape)).1
        obtain ⟨items, hget, hitem⟩ := Json.mem_itemsAt.mp hname
        rw [← hroot] at hget
        obtain ⟨items', hitems, hstrings⟩ := hgrammar.2.2.2.1 _ hget
        cases hitems
        obtain ⟨key, rfl⟩ := hstrings name hitem
        rcases hset key (hwitness key (mem_requiredKeys.mpr hname)) with hnone | hfound
        · cases hnone
        · obtain ⟨field, hfield, rfl, hneeded⟩ := hfound
          exact hrequired field hfield hneeded
      · obtain ⟨entry, -, -, hsettable, -⟩ := horigin field hfield
        exact settable_of_closed hsettable hclosed
      · intro property hproperty inner hinner
        obtain ⟨entry, -, -, -, v, -, hsame, hadmitted⟩ := horigin _ (Json.mem_of_lookup hinner)
        simp only [admitsValue, property_of_mem hdistinct hproperty, Option.all_some] at hadmitted
        obtain ⟨⟨⟩, hvalid⟩ := exists_ok_of_isOk hadmitted
        exact validateValue_path _ ((validateValue_same hsame).mp hvalid)
    · intro input hinput
      obtain ⟨entry, hentry, hkey, -, v, hmem, hsame, -⟩ := horigin input hinput
      obtain ⟨allowed, hallowed⟩ := Option.isSome_iff_exists.mp (harrays entry hentry)
      rw [hallowed, Option.getD_some] at hmem
      refine ⟨allowed, ?_, v, hmem, hsame⟩
      rw [← Json.asArray_eq_some.mp hallowed, ← hkey]
      exact Json.lookup_of_mem hpolicy hentry

/-- The contract shown is the contract enforced: inputs are admitted exactly when they are chosen
from what is shown. -/
theorem project_offers_admitted {read : Reader} {policy schema : String}
    (hdistinct : ∀ text value, read text = .ok value → value.Distinct)
    (hrender : ∀ entries root v, read policy = .ok (.object entries) → read schema = .ok root →
      Listed entries root v → ∀ w, T.render v = T.render w → v = w)
    (h : project T read policy schema = .ok shown) :
    ∃ authority, InputAuthority.parse read policy (some schema) = .ok authority ∧
      ∀ inputs, (inputs.map Prod.fst).Nodup →
        (authority.validate inputs = .ok () ↔ shown.Offers T inputs) := by
  simp only [project, bind_eq_ok, mapError_eq_ok, ensure_eq_ok, okOr_eq_ok,
    List.all_eq_true] at h
  obtain ⟨authority, hparse, -, harrays, root, hschema, h⟩ := h
  refine ⟨authority, hparse, fun inputs hinputs => ?_⟩
  obtain ⟨root', hsame, hpolicy, hread, hshape⟩ := InputAuthority.parse_eq_ok hparse
  rw [hschema] at hsame
  cases hsame
  obtain ⟨members, rfl⟩ := isObject_of_schemaShape hshape
  split at h
  case h_1 presets hpresets =>
    have henum : (Json.object members).get "enum" = some (.array presets) := by
      simpa only [Option.bind_eq_some_iff, Json.asArray_eq_some, exists_eq_right] using hpresets
    refine presets_offer hschema henum ⟨members, rfl⟩ (fun v hv => ?_) h
    exact hrender _ _ v hpolicy hread (.inr (Json.mem_itemsAt.mpr ⟨presets, henum, hv⟩))
  case h_2 hnone =>
    have hnodup := (hdistinct _ _ hpolicy).nodup
    refine fields_offer hschema hshape (hdistinct _ _ hread) hnodup harrays hnone
      (fun entry hentry v hv => ?_) hinputs h
    exact hrender _ _ v hpolicy hread (.inl ⟨entry, hentry, hv⟩)

def samplePolicy : String := "\x7b\"size\":[\"small\",\"large\"]\x7d"

def sampleSchema : String :=
  "\x7b\"properties\":\x7b\"size\":\x7b\"enum\":[\"small\"]\x7d\x7d,\"required\":[\"size\"]\x7d"

def sampleRead : Reader := fun text =>
  if text = samplePolicy then
    .ok (.object [("size", .array [.string "small", .string "large"])])
  else if text = sampleSchema then
    .ok (.object [("properties", .object [("size", .object [("enum", .array [.string "small"])])]),
      ("required", .array [.string "size"])])
  else .error "expected value"

def sampleTexts : Texts where
  render
    | .string text => quoted text
    | _ => "null"
  serializedSize := fun text => text.utf8ByteSize + 2
  toUppercase := fun c => [c.toUpper]

theorem project_offers_admitted_size :
    ∃ authority, InputAuthority.parse sampleRead samplePolicy (some sampleSchema) = .ok authority ∧
      ∀ inputs, (inputs.map Prod.fst).Nodup → (authority.validate inputs = .ok () ↔
        (InputContractProjection.fields
          [⟨"size", "Size", "", true, [⟨"\"small\""⟩]⟩]).Offers sampleTexts inputs) := by
  refine project_offers_admitted (fun text value hread => ?_)
    (fun entries root v hpolicy hschema hlisted w hsame => ?_) (by rfl)
  · unfold sampleRead at hread
    split at hread
    · cases hread
      simp [Json.Distinct, Json.DistinctMembers, Json.DistinctItems]
    · split at hread
      · cases hread
        simp [Json.Distinct, Json.DistinctMembers, Json.DistinctItems]
      · cases hread
  · cases hpolicy
    cases hschema
    have htext : ∃ text, v = .string text := by
      rcases hlisted with ⟨entry, hentry, hv⟩ | hv
      · cases List.mem_singleton.mp hentry
        simp only [Json.asArray, Option.getD_some, List.mem_cons, List.not_mem_nil,
          or_false] at hv
        rcases hv with rfl | rfl
        · exact ⟨_, rfl⟩
        · exact ⟨_, rfl⟩
      · cases hv
    obtain ⟨text, rfl⟩ := htext
    cases w with
    | string other =>
      simp only [sampleTexts, quoted] at hsame
      simpa using hsame
    | _ => simp [sampleTexts, quoted, String.ext_iff] at hsame

end Shaula.Inputs
