import Shaula.Template.BindingsSchema

/-! # Discovered variables

Discovery reads the same schema document as the registry and marks which variables are sensitive.
Both walk the document alike; they differ in what a nested schema without an annotation counts as.
-/

namespace Shaula

open Library Library.Outcome

namespace Template

namespace VariablesSchema

open Annotation (Below Scope Marked IsTrue IsOmitted collectFor_eq_true collect_eq_true)

/-- `MAX_DEPTH` -/
def maxDepth : Nat := 16

/-- Discovery's rule: a nested schema without an annotation is not sensitive. -/
def annotation : Annotation CoreError where
  name := "sensitive"
  nested := false
  malformed := invalid "variable sensitive annotation must be boolean"
  tooDeep := invalid "variable sensitivity schema exceeds the depth limit"

def sensitive (schema : Json) (binding : Bool) (depth : Nat) : CoreResult Bool :=
  annotation.collect (maxDepth + 1 - depth) binding schema

/-- Only the selected property's metadata applies, in each branch of a composition. -/
def inheritedSensitive (schema : Json) (key : String) (depth : Nat) : CoreResult Bool :=
  annotation.collectFor key (maxDepth + 1 - depth) schema

/-- What `project` puts down as the sensitivity of a variable. -/
def projectSensitive (schema : Json) (binding : Bool) (key : String) : CoreResult Bool := do
  let inherited ← inheritedSensitive schema key 0
  if inherited then return true
  else sensitive ((schema.property key).getD .null) binding 0

variable {schema field sub : Json} {key : String} {found : Bool} {bindings : BindingsSchema}

/-! ## What each walk finds -/

/-- A schema that a walk for a property meets: what the document or one of its branches says about
the property, or a schema nested in that. -/
def Met (schema : Json) (key : String) (sub : Json) : Prop :=
  ∃ scope field, Scope schema scope ∧ scope.property key = some field ∧
    (sub = field ∨ Below field sub)

/-- Some annotation that is met, or one on the document or a branch, is `true`. -/
def SaysTrue (schema : Json) (key : String) : Prop :=
  (∃ scope, Scope schema scope ∧ scope.get "sensitive" = some (.bool true)) ∨
    ∃ sub, Met schema key sub ∧ sub.get "sensitive" = some (.bool true)

/-- Some schema that is met has no annotation. -/
def LeavesOut (schema : Json) (key : String) : Prop :=
  ∃ sub, Met schema key sub ∧ sub.get "sensitive" = none

theorem registry_inherited (h : BindingsSchema.inheritedSensitive schema key 0 = .ok found) :
    found = true ↔ SaysTrue schema key ∨ LeavesOut schema key := by
  rw [collectFor_eq_true h]
  simp only [Marked, IsTrue, IsOmitted, SaysTrue, LeavesOut, Met,
    BindingsSchema.annotation, and_true]
  constructor
  · rintro ⟨scope, hscope, htrue | ⟨field, hfield, htrue | homitted | ⟨sub, hsub, hmark⟩⟩⟩
    · exact .inl (.inl ⟨scope, hscope, htrue⟩)
    · exact .inl (.inr ⟨field, ⟨scope, field, hscope, hfield, .inl rfl⟩, htrue⟩)
    · exact .inr ⟨field, ⟨scope, field, hscope, hfield, .inl rfl⟩, homitted⟩
    · rcases hmark with htrue | homitted
      · exact .inl (.inr ⟨sub, ⟨scope, field, hscope, hfield, .inr hsub⟩, htrue⟩)
      · exact .inr ⟨sub, ⟨scope, field, hscope, hfield, .inr hsub⟩, homitted⟩
  · rintro ((⟨scope, hscope, htrue⟩ | ⟨sub, ⟨scope, field, hscope, hfield, hwhere⟩, htrue⟩) |
      ⟨sub, ⟨scope, field, hscope, hfield, hwhere⟩, homitted⟩)
    · exact ⟨scope, hscope, .inl htrue⟩
    · rcases hwhere with rfl | hbelow
      · exact ⟨scope, hscope, .inr ⟨sub, hfield, .inl htrue⟩⟩
      · exact ⟨scope, hscope, .inr ⟨field, hfield, .inr (.inr ⟨sub, hbelow, .inl htrue⟩)⟩⟩
    · rcases hwhere with rfl | hbelow
      · exact ⟨scope, hscope, .inr ⟨sub, hfield, .inr (.inl homitted)⟩⟩
      · exact ⟨scope, hscope, .inr ⟨field, hfield, .inr (.inr ⟨sub, hbelow, .inr homitted⟩)⟩⟩

theorem discovery_inherited (h : inheritedSensitive schema key 0 = .ok found) :
    found = true ↔ SaysTrue schema key := by
  rw [collectFor_eq_true h]
  simp only [Marked, IsTrue, IsOmitted, SaysTrue, Met, annotation,
    Bool.false_eq_true, and_false, or_false, false_or]
  constructor
  · rintro ⟨scope, hscope, htrue | ⟨field, hfield, htrue | ⟨sub, hsub, htrue⟩⟩⟩
    · exact .inl ⟨scope, hscope, htrue⟩
    · exact .inr ⟨field, ⟨scope, field, hscope, hfield, .inl rfl⟩, htrue⟩
    · exact .inr ⟨sub, ⟨scope, field, hscope, hfield, .inr hsub⟩, htrue⟩
  · rintro (⟨scope, hscope, htrue⟩ | ⟨sub, ⟨scope, field, hscope, hfield, hwhere⟩, htrue⟩)
    · exact ⟨scope, hscope, .inl htrue⟩
    · rcases hwhere with rfl | hbelow
      · exact ⟨scope, hscope, .inr ⟨sub, hfield, .inl htrue⟩⟩
      · exact ⟨scope, hscope, .inr ⟨field, hfield, .inr ⟨sub, hbelow, htrue⟩⟩⟩

/-- What a field says itself is met by the walk for it. -/
theorem met_self (hfield : schema.property key = some field) : Met schema key field :=
  ⟨schema, field, .refl, hfield, .inl rfl⟩

theorem met_below (hfield : schema.property key = some field) (hsub : Below field sub) :
    Met schema key sub :=
  ⟨schema, field, .refl, hfield, .inr hsub⟩

/-- The registry protects a field when something says so or something is left out. -/
theorem registry_protected (hfield : schema.property key = some field)
    (h : BindingsSchema.fieldProtected schema key = .ok found) :
    found = true ↔ SaysTrue schema key ∨ LeavesOut schema key := by
  simp only [BindingsSchema.fieldProtected, bind_eq_ok] at h
  obtain ⟨inherited, hinherited, hfound⟩ := h
  have hwalk := registry_inherited hinherited
  cases inherited with
  | true =>
    rw [if_pos rfl, pure_eq_ok] at hfound
    rw [← hfound, ← hwalk]
  | false =>
    have hnone := hwalk.not.mp Bool.false_ne_true
    simp only [Bool.false_eq_true, if_false, BindingsSchema.fieldSensitive, hfield,
      BindingsSchema.sensitiveOf] at hfound
    rw [collect_eq_true hfound]
    refine iff_of_false ?_ hnone
    simp only [Marked, IsTrue, IsOmitted,
      BindingsSchema.annotation, and_true]
    rintro (htrue | homitted | ⟨sub, hsub, htrue | homitted⟩)
    · exact hnone (.inl (.inr ⟨field, met_self hfield, htrue⟩))
    · exact hnone (.inr ⟨field, met_self hfield, homitted⟩)
    · exact hnone (.inl (.inr ⟨sub, met_below hfield hsub, htrue⟩))
    · exact hnone (.inr ⟨sub, met_below hfield hsub, homitted⟩)

/-- Discovery marks a binding when something says so or the field itself leaves it out. -/
theorem discovery_marked (hfield : schema.property key = some field)
    (h : projectSensitive schema true key = .ok found) :
    found = true ↔ SaysTrue schema key ∨ field.get "sensitive" = none := by
  simp only [projectSensitive, bind_eq_ok] at h
  obtain ⟨inherited, hinherited, hfound⟩ := h
  have hwalk := discovery_inherited hinherited
  cases inherited with
  | true =>
    rw [if_pos rfl, pure_eq_ok] at hfound
    rw [← hfound]
    exact iff_of_true rfl (.inl (hwalk.mp rfl))
  | false =>
    have hnone := hwalk.not.mp Bool.false_ne_true
    simp only [Bool.false_eq_true, if_false, hfield, Option.getD_some, sensitive] at hfound
    rw [collect_eq_true hfound]
    simp only [Marked, IsTrue, IsOmitted, annotation,
      Bool.false_eq_true, and_false, or_false, and_true]
    constructor
    · rintro (htrue | homitted | ⟨sub, hsub, htrue⟩)
      · exact .inl (.inr ⟨field, met_self hfield, htrue⟩)
      · exact .inr homitted
      · exact .inl (.inr ⟨sub, met_below hfield hsub, htrue⟩)
    · rintro (htrue | homitted)
      · exact absurd htrue hnone
      · exact .inr (.inl homitted)

/-! ## Which documents each accepts -/

/-- A walk for a property goes through what the document says about it. -/
theorem collect_of_inherited (hfield : schema.property key = some field)
    (h : ∃ found, BindingsSchema.inheritedSensitive schema key 0 = .ok found) :
    ∃ found, BindingsSchema.sensitiveOf field 0 = .ok found := by
  obtain ⟨found, h⟩ := h
  obtain ⟨own, -, hown, -, -⟩ := Annotation.collectFor_succ.mp h
  rw [hfield] at hown
  exact Annotation.collect_deeper ⟨own, hown⟩

theorem registry_succeeds (hfield : schema.property key = some field) :
    (∃ found, BindingsSchema.fieldProtected schema key = .ok found) ↔
      ∃ found, BindingsSchema.inheritedSensitive schema key 0 = .ok found := by
  simp only [BindingsSchema.fieldProtected, bind_eq_ok, BindingsSchema.fieldSensitive, hfield]
  constructor
  · rintro ⟨-, inherited, hinherited, -⟩
    exact ⟨inherited, hinherited⟩
  · intro h
    obtain ⟨own, hown⟩ := collect_of_inherited hfield h
    obtain ⟨inherited, hinherited⟩ := h
    cases inherited with
    | true => exact ⟨true, true, hinherited, rfl⟩
    | false => exact ⟨own, false, hinherited, hown⟩

theorem same_name : BindingsSchema.annotation.name = annotation.name := rfl

theorem discovery_succeeds (hfield : schema.property key = some field) :
    (∃ found, projectSensitive schema true key = .ok found) ↔
      ∃ found, BindingsSchema.inheritedSensitive schema key 0 = .ok found := by
  simp only [projectSensitive, bind_eq_ok, hfield, Option.getD_some]
  constructor
  · rintro ⟨-, inherited, hinherited, -⟩
    have hsource : ∃ found, annotation.collectFor key (maxDepth + 1 - 0) schema = .ok found :=
      ⟨inherited, hinherited⟩
    exact Annotation.collectFor_succeeds same_name.symm hsource
  · intro h
    have hfieldRead : ∃ found, BindingsSchema.annotation.collect (maxDepth + 1 - 0) true field =
        .ok found := collect_of_inherited hfield h
    have hsource : ∃ found, BindingsSchema.annotation.collectFor key (maxDepth + 1 - 0) schema =
        .ok found := h
    have hsensitive : ∃ found, sensitive field true 0 = .ok found :=
      Annotation.collect_succeeds same_name hfieldRead
    have hinheritedRead : ∃ found, inheritedSensitive schema key 0 = .ok found :=
      Annotation.collectFor_succeeds same_name hsource
    obtain ⟨own, hown⟩ := hsensitive
    obtain ⟨inherited, hinherited⟩ := hinheritedRead
    cases inherited with
    | true => exact ⟨true, true, hinherited, rfl⟩
    | false => exact ⟨own, false, hinherited, hown⟩

theorem property_isSome : (schema.property key).isSome = true ↔
    ∃ member ∈ schema.membersAt "properties", member.1 = key := by
  unfold Json.property Json.membersAt
  cases schema.get "properties" with
  | none => simp
  | some properties => cases properties <;> simp [Json.get, Json.asObject]

/-- The flags of a parsed schema are those of its declared fields. -/
theorem flag_eq_some (hparse : BindingsSchema.parse schema = .ok bindings)
    (hflag : bindings.flag key = some found) :
    BindingsSchema.fieldProtected schema key = .ok found ∧ (schema.property key).isSome := by
  simp only [BindingsSchema.parse, bind_eq_ok, ensure_eq_ok, pure_eq_ok, exists_const,
    mapM_eq_ok] at hparse
  obtain ⟨-, flags, hflags, rfl⟩ := hparse
  rw [property_isSome]
  simp only [BindingsSchema.flag, Option.map_eq_some_iff] at hflag
  obtain ⟨entry, hentry, rfl⟩ := hflag
  generalize schema.membersAt "properties" = members at hflags hentry
  induction hflags with
  | nil => cases hentry
  | @cons member flag members flags hmember _ ih =>
    rw [List.map_cons, List.zip_cons_cons, List.find?_cons] at hentry
    by_cases hkey : member.1 = key
    · simp only [hkey, decide_true, Option.some.injEq] at hentry
      subst hentry
      exact ⟨hkey ▸ hmember, member, List.mem_cons_self, hkey⟩
    · simp only [hkey, decide_false] at hentry
      obtain ⟨hprotected, other, hother, hsame⟩ := ih hentry
      exact ⟨hprotected, other, List.mem_cons_of_mem _ hother, hsame⟩

/-- A document is parsed when the walk for each of its fields gets through. -/
theorem parse_succeeds (hobject : schema.isObject = true) :
    (∃ bindings, BindingsSchema.parse schema = .ok bindings) ↔
      ∀ key, (schema.property key).isSome = true →
        ∃ found, BindingsSchema.fieldProtected schema key = .ok found := by
  simp only [BindingsSchema.parse, bind_eq_ok, ensure_eq_ok, pure_eq_ok, exists_const, hobject,
    true_and]
  constructor
  · rintro ⟨-, flags, hflags, -⟩ key hkey
    obtain ⟨member, hmember, rfl⟩ := property_isSome.mp hkey
    exact Annotation.mapM_each hflags member hmember
  · intro h
    have hflags : ∃ flags, (schema.membersAt "properties").mapM (fun member =>
        BindingsSchema.fieldProtected schema member.1) = .ok flags := by
      apply Annotation.mapM_succeeds
      intro member hmember
      exact h member.1 (property_isSome.mpr ⟨member, hmember, rfl⟩)
    obtain ⟨flags, hflags⟩ := hflags
    exact ⟨_, flags, hflags, rfl⟩

/-! ## Agreement -/

/-- Some annotation that counts is `true`, the field's own is left out, or none is left out. -/
def AnnotatedAlike (schema : Json) (key : String) : Prop :=
  SaysTrue schema key ∨ (∃ field, schema.property key = some field ∧ field.get "sensitive" = none) ∨
    ¬ LeavesOut schema key

/-- The registry and discovery accept the same fields; a field that discovery marks is protected by
the registry; and both agree on a field exactly when it is annotated alike for both. -/
theorem sensitivity_agrees_iff (schema : Json) (hobject : schema.isObject = true) :
    ((∃ bindings, BindingsSchema.parse schema = .ok bindings) ↔
      ∀ key, (schema.property key).isSome = true →
        ∃ found, projectSensitive schema true key = .ok found) ∧
    ∀ bindings key found, BindingsSchema.parse schema = .ok bindings →
      bindings.declares key = true → projectSensitive schema true key = .ok found →
        (found = true → bindings.sensitive key = true) ∧
        (bindings.sensitive key = found ↔ AnnotatedAlike schema key) := by
  constructor
  · rw [parse_succeeds hobject]
    refine forall_congr' fun key => ?_
    constructor
    · intro h hkey
      obtain ⟨field, hfield⟩ := Option.isSome_iff_exists.mp hkey
      exact (discovery_succeeds hfield).mpr ((registry_succeeds hfield).mp (h hkey))
    · intro h hkey
      obtain ⟨field, hfield⟩ := Option.isSome_iff_exists.mp hkey
      exact (registry_succeeds hfield).mpr ((discovery_succeeds hfield).mp (h hkey))
  · intro bindings key found hparse hdeclares hfound
    obtain ⟨shown, hflag⟩ := Option.isSome_iff_exists.mp hdeclares
    obtain ⟨hprotected, hkey⟩ := flag_eq_some hparse hflag
    obtain ⟨field, hfield⟩ := Option.isSome_iff_exists.mp hkey
    have hregistry := registry_protected hfield hprotected
    have hdiscovery := discovery_marked hfield hfound
    have hown : field.get "sensitive" = none → LeavesOut schema key :=
      fun homitted => ⟨field, met_self hfield, homitted⟩
    have hsensitive : bindings.sensitive key = shown := by
      rw [BindingsSchema.sensitive, hflag, Option.getD_some]
    have hsomewhere : (∃ field, schema.property key = some field ∧
        field.get "sensitive" = none) ↔ field.get "sensitive" = none := by
      simp [hfield]
    have hagree : shown = found ↔ (shown = true ↔ found = true) := Bool.eq_iff_iff
    rw [hsensitive, hagree, AnnotatedAlike, hsomewhere, hregistry, hdiscovery]
    refine ⟨fun hmarked => hmarked.imp_right hown, ?_⟩
    constructor
    · intro heq
      by_cases hleft : LeavesOut schema key
      · exact (heq.mp (.inr hleft)).imp_right .inl
      · exact .inr (.inr hleft)
    · rintro (htrue | homitted | hnone)
      · exact iff_of_true (.inl htrue) (.inl htrue)
      · exact iff_of_true (.inr (hown homitted)) (.inr homitted)
      · refine or_congr_right (iff_of_false hnone fun homitted => hnone (hown homitted))

/-- A schema with one field, which carries no annotation. -/
def bareToken : Json := .object [("properties", .object [("token", .object [])])]

/-- A field without an annotation is protected by both. -/
theorem sensitivity_agrees_iff_sample :
    (true = true → BindingsSchema.sensitive ⟨[("token", true)], bareToken⟩ "token" = true) ∧
      (BindingsSchema.sensitive ⟨[("token", true)], bareToken⟩ "token" = true ↔
        AnnotatedAlike bareToken "token") :=
  (sensitivity_agrees_iff bareToken rfl).2 ⟨[("token", true)], bareToken⟩ "token" true rfl rfl rfl

/-- A public list of strings whose element schema carries no annotation. -/
def publicList : Json :=
  .object [("properties", .object [("zones", .object [("type", .string "array"),
    ("sensitive", .bool false), ("items", .object [("type", .string "string")])])])]

/-- Discovery shows the field, the registry protects it. -/
theorem nested_omission_disagrees :
    ¬ ∀ bindings found, BindingsSchema.parse publicList = .ok bindings →
      projectSensitive publicList true "zones" = .ok found →
        (bindings.sensitive "zones" = true ↔ found = true) := by
  intro h
  have hparse : BindingsSchema.parse publicList = .ok ⟨[("zones", true)], publicList⟩ := by rfl
  have hfound : projectSensitive publicList true "zones" = .ok false := by rfl
  have hagree := h _ _ hparse hfound
  revert hagree
  decide

end VariablesSchema

end Template

end Shaula
