import Shaula.Inputs.Discovery

/-! # Admitted inputs and declared types

Discovery checks once that the declared type and the schema agree.  Admission checks values by the
schema alone.  What its grammar leaves open is all that can still disagree with the type.
-/

namespace Shaula.Inputs

open Library Library.Outcome
open Template (Engines invalid hasKey numberOf isInteger)
open Template.VariablesType (Kind Node fieldOf mem_of_fieldOf fieldMatches_iff)
open Template.VariablesConstraints (maxDepth)

namespace Discovery

mutual

/-- What the schema leaves open of an admitted value matches the type.  Options leave nothing open.
Elements of lists and tuples are open, values of a map under keys that are no properties, and keys
of an object that are not declared. -/
def openFits : Node → Json → Json → Prop
  | .mk kind _ _, schema, value => (schema.get "enum").isSome = true ∨ kindOpenFits kind schema value

def kindOpenFits : Kind → Json → Json → Prop
  | .object fields, schema, .object values =>
    ∀ entry ∈ values, fieldOpenFits fields schema entry.1 entry.2
  | .map element, schema, .object values => ∀ entry ∈ values,
    (schema.property entry.1).elim (element.matchesValue entry.2 = true)
      fun property => openFits element property entry.2
  | .list element, _, .array items => ∀ item ∈ items, element.matchesValue item = true
  | .tuple elements, _, .array items => (Kind.tuple elements).matchesValue (.array items) = true
  | _, _, _ => True

def fieldOpenFits : List (String × Node) → Json → String → Json → Prop
  | [], _, _, _ => False
  | (name, node) :: rest, schema, key, value =>
    if name = key then openFits node ((schema.property key).getD .null) value
    else fieldOpenFits rest schema key value

end

theorem fieldOpenFits_iff {fields : List (String × Node)} {schema value : Json} {key : String} :
    fieldOpenFits fields schema key value ↔ ∃ node, fieldOf fields key = some node ∧
      openFits node ((schema.property key).getD .null) value := by
  induction fields with
  | nil => simp [fieldOpenFits, fieldOf]
  | cons field rest ih =>
    obtain ⟨name, node⟩ := field
    by_cases hname : name = key
    · simp [fieldOpenFits, fieldOf, hname]
    · rw [fieldOpenFits, if_neg hname, ih, fieldOf, fieldOf,
        List.find?_cons_of_neg (by simpa using hname)]

/-! ## What agreement says -/

variable {engines : Engines} {node : Node} {schema value : Json} {depth : Nat}
  {fields : List (String × Node)} {values members : Fields} {path : String}
  {nested : Node → Json → Template.CoreResult Unit}

theorem shape_eq_ok (h : shape engines (depth + 1) node schema = .ok ()) :
    typeShape node schema = .ok () ∧ kindShape (shape engines depth) node.kind schema = .ok () ∧
      enumShape (Template.VariablesConstraints.accepts engines (depth + 1)) node schema = .ok () := by
  rw [shape, andThen_eq_ok, andThen_eq_ok, andThen_eq_ok, andThen_eq_ok] at h
  obtain ⟨-, htype, hkind, -, henum⟩ := h
  exact ⟨htype, hkind, henum⟩

theorem mem_requiredNames {names : List Json} {found : List String}
    (h : requiredNames names = .ok found) {key : String} (hkey : key ∈ found) :
    .string key ∈ names := by
  have hfold : ∀ (names : List Json) (start found : List String),
      names.foldlM (fun result name => do
        let name ← okOr name.asStr (invalid "variable schema required names must be strings")
        ensure (name ∉ result) (invalid "variable schema required contains duplicate names")
        return result ++ [name]) start = (.ok found : Template.CoreResult (List String)) →
      ∀ key ∈ found, key ∈ start ∨ .string key ∈ names := by
    intro names
    induction names with
    | nil =>
      intro start found h key hkey
      cases h
      exact .inl hkey
    | cons name rest ih =>
      intro start found h key hkey
      simp only [List.foldlM_cons, bind_eq_ok, okOr_eq_ok, Json.asStr_eq_some, pure_eq_ok] at h
      obtain ⟨next, ⟨text, rfl, -, -, rfl⟩, hrest⟩ := h
      rcases ih _ _ hrest key hkey with hold | hmem
      · rcases List.mem_append.mp hold with hold | hnew
        · exact .inl hold
        · rw [List.mem_singleton.mp hnew]
          exact .inr List.mem_cons_self
      · exact .inr (List.mem_cons_of_mem _ hmem)
  rcases hfold names [] found h key hkey with hnone | hmem
  · cases hnone
  · exact hmem

theorem mem_required {found : List String} (h : required schema = .ok found) {key : String}
    (hkey : key ∈ found) : .string key ∈ schema.itemsAt "required" := by
  unfold required at h
  cases hget : schema.get "required" with
  | none =>
    rw [hget] at h
    cases h
    cases hkey
  | some names =>
    rw [hget, Option.elim_some, bind_eq_ok] at h
    obtain ⟨items, hitems, hfound⟩ := h
    rw [okOr_eq_ok, Json.asArray_eq_some] at hitems
    rw [Json.itemsAt_eq (hitems ▸ hget)]
    exact mem_requiredNames hfound hkey

/-- Every attribute agrees with its property, and is required unless it is optional. -/
theorem objectShape_eq_ok (h : objectShape nested fields schema = .ok ()) :
    ∀ field ∈ fields,
      (∃ property, (field.1, property) ∈ schema.membersAt "properties" ∧
        schema.property field.1 = some property ∧ nested field.2 property = .ok ()) ∧
      (field.2.isOptional = true ∨ .string field.1 ∈ schema.itemsAt "required") := by
  simp only [objectShape, bind_eq_ok, okOr_eq_ok, ensure_eq_ok, forM_eq_ok,
    Option.bind_eq_some_iff] at h
  obtain ⟨properties, ⟨object, hobject, hmembers⟩, -, ⟨-, hkeys⟩, names, hnames, -, -, heach⟩ := h
  intro field hfield
  have hthis := heach field hfield
  rw [fieldShape, andThen_eq_ok, ensure_eq_ok] at hthis
  obtain ⟨hpresence, hnested⟩ := hthis
  obtain ⟨property, hproperty⟩ := Option.isSome_iff_exists.mp (hkeys field hfield)
  have hlisted : schema.membersAt "properties" = properties := by
    rw [Json.membersAt, hobject, Option.bind_some, hmembers, Option.getD_some]
  have hlookup : schema.property field.1 = some property := by
    cases object with
    | object members =>
      cases hmembers
      rw [Json.property, hobject]
      exact hproperty
    | _ => cases hmembers
  rw [hproperty, Option.getD_some] at hnested
  refine ⟨⟨property, hlisted ▸ Json.mem_of_lookup hproperty, hlookup, hnested⟩, ?_⟩
  by_cases hoptional : field.2.isOptional = true
  · exact .inl hoptional
  · refine .inr (mem_required hnames ?_)
    by_contra hmissing
    simp [hmissing, hoptional] at hpresence

theorem mapShape_eq_ok {element : Node} (h : mapShape nested element schema = .ok ()) :
    ∀ property ∈ schema.membersAt "properties", nested element property.2 = .ok () := by
  rw [mapShape, andThen_eq_ok, forM_eq_ok] at h
  exact h.2

theorem enumShape_matches {accepts : Json → Json → Template.CoreResult Bool} {options : List Json}
    (h : enumShape accepts node schema = .ok ())
    (henum : schema.get "enum" = some (.array options)) (hvalue : Json.Among options value) :
    node.matchesValue value = true := by
  simp only [enumShape, henum, Option.elim_some, bind_eq_ok, okOr_eq_ok, Json.asArray_eq_some,
    forM_eq_ok] at h
  obtain ⟨items, hitems, -, -, heach⟩ := h
  cases hitems
  obtain ⟨option, hmem, hsame⟩ := hvalue
  have hoption := heach option hmem
  rw [optionShape, andThen_eq_ok, ensure_eq_ok] at hoption
  rw [← Template.VariablesType.Node.matchesValue_same hsame]
  exact hoption.1

/-! ## Types and admitted values -/

/-- A value of the schema's type is a value of the declared kind. -/
theorem typeMatches_kind (h : typeShape node schema = .ok ()) (hfits : ScalarFits schema value) :
    (typeMatches node.kind.name value = true) ∨
      (node.kind.isNumber = true ∧ isInteger value = true) := by
  rw [typeShape, ensure_eq_ok] at h
  rcases h with hsame | ⟨hinteger, hnumber⟩
  · exact .inl (hfits.1 _ (Json.strAt_eq_some.mp hsame))
  · exact .inr ⟨hnumber, hfits.1 _ (Json.strAt_eq_some.mp hinteger)⟩

theorem numberOf_of_isInteger (h : isInteger value = true) : (numberOf value).isSome = true := by
  cases value with
  | number n => rfl
  | _ => cases h

theorem isObject_iff : value.isObject = true ↔ ∃ values, value = .object values := by
  cases value <;> simp [Json.isObject]

/-- Of an admitted object, every attribute that has to be there is. -/
theorem object_matches (hshape : objectShape nested fields schema = .ok ())
    (hkeys : KeysFit schema values) :
    (Kind.object fields).matchesValue (.object values) = true ↔
      ∀ entry ∈ values, ∃ node, fieldOf fields entry.1 = some node ∧
        node.matchesValue entry.2 = true := by
  have hpresent : (fields.all fun field => field.2.isOptional || hasKey values field.1) = true := by
    rw [List.all_eq_true]
    intro field hfield
    rcases (objectShape_eq_ok hshape field hfield).2 with hoptional | hrequired
    · rw [hoptional, Bool.true_or]
    · have hthere := hkeys.1 _ hrequired
      simp only [Json.asStr, Option.getD_some] at hthere
      rw [hasKey, hthere, Bool.or_true]
  simp only [Kind.matchesValue, Json.asObject, Option.any_some, hpresent, Bool.and_true,
    List.all_eq_true, fieldMatches_iff]

/-- The schemas that a schema of the grammar has for keys are of the grammar. -/
theorem schemaShape_property (h : schemaShape schema = .ok ()) {key : String} {property : Json}
    (hproperty : (key, property) ∈ schema.membersAt "properties") : schemaShape property = .ok () := by
  obtain ⟨members, rfl⟩ := isObject_of_schemaShape h
  unfold Json.membersAt at hproperty
  cases hget : (Json.object members).get "properties" with
  | none => simp [hget] at hproperty
  | some properties =>
    obtain ⟨fields, rfl, heach⟩ := (schemaShape_object h).2 properties hget
    simp only [hget, Option.bind_some, Json.asObject, Option.getD_some] at hproperty
    exact heach _ hproperty

theorem enum_array (h : schemaShape schema = .ok ()) {options : Json}
    (hget : schema.get "enum" = some options) : ∃ items, options = .array items := by
  obtain ⟨members, rfl⟩ := isObject_of_schemaShape h
  exact (keywordsShape_types (schemaShape_object h).1).2.1 options hget

/-- An object of an admitted value goes on with the properties it has. -/
theorem validateValue_property (h : schemaShape schema = .ok ())
    (hvalid : validateValue path (.object values) schema = .ok ()) {key : String}
    {inner property : Json} (hproperty : (key, property) ∈ schema.membersAt "properties")
    (hinner : Json.lookup values key = some inner) :
    ∃ path, validateValue path inner property = .ok () := by
  obtain ⟨members, rfl⟩ := isObject_of_schemaShape h
  exact ⟨_, ((validateValue_object.mp hvalid).2 values rfl).2 _ hproperty inner hinner⟩

/-- Of an admitted value, the type asks for no more than what is left open. -/
theorem matchesValue_iff (hshape : shape engines depth node schema = .ok ())
    (hgrammar : schemaShape schema = .ok ()) (hvalid : validateValue path value schema = .ok ())
    (hdistinct : value.Distinct) :
    node.matchesValue value = true ↔ openFits node schema value := by
  induction depth generalizing node schema value path with
  | zero => cases hshape
  | succ depth ih =>
    obtain ⟨htype, hkind, henumShape⟩ := shape_eq_ok hshape
    obtain ⟨members, rfl⟩ := isObject_of_schemaShape hgrammar
    obtain ⟨hscalar, hobject⟩ := validateValue_object.mp hvalid
    generalize hschema : Json.object members = schema at *
    obtain ⟨kind, isOptional, default⟩ := node
    rw [openFits]
    cases henum : schema.get "enum" with
    | some options =>
      obtain ⟨items, rfl⟩ := enum_array (hschema ▸ hgrammar) henum
      refine iff_of_true ?_ (.inl rfl)
      exact enumShape_matches henumShape henum (hscalar.2 items henum)
    | none =>
      have hkindType := typeMatches_kind htype hscalar
      have hnull : value.isNull = false := by
        cases value with
        | null =>
          rcases hkindType with hnull | ⟨-, hnull⟩
          · cases kind <;> cases hnull
          · cases hnull
        | _ => rfl
      simp only [Node.matchesValue, hnull, Bool.false_or, Option.isSome_none, Bool.false_eq_true,
        false_or]
      cases kind with
      | string =>
        refine iff_of_true ?_ trivial
        simpa [Node.kind, Kind.name, Kind.isNumber, typeMatches, Kind.matchesValue] using hkindType
      | number =>
        refine iff_of_true ?_ trivial
        rcases hkindType with hnumber | ⟨-, hinteger⟩
        · exact hnumber
        · exact numberOf_of_isInteger hinteger
      | bool =>
        refine iff_of_true ?_ trivial
        simpa [Node.kind, Kind.name, Kind.isNumber, typeMatches, Kind.matchesValue] using hkindType
      | object fields =>
        obtain ⟨values, rfl⟩ : ∃ values, value = .object values := by
          simpa [Node.kind, Kind.name, Kind.isNumber, typeMatches, isObject_iff] using hkindType
        rw [object_matches hkind (hobject values rfl).1, kindOpenFits]
        refine forall₂_congr fun entry hentry => ?_
        rw [fieldOpenFits_iff]
        refine exists_congr fun node => and_congr_right fun hfield => ?_
        obtain ⟨⟨property, hmem, hlookup, hnested⟩, -⟩ :=
          objectShape_eq_ok hkind _ (mem_of_fieldOf hfield)
        rw [hlookup, Option.getD_some]
        obtain ⟨inner, hinner⟩ := validateValue_property hgrammar hvalid hmem
          (Json.lookup_of_mem hdistinct.nodup hentry)
        exact ih hnested (schemaShape_property hgrammar hmem) hinner
          (Json.distinct_of_mem hdistinct.2 hentry)
      | map element =>
        obtain ⟨values, rfl⟩ : ∃ values, value = .object values := by
          simpa [Node.kind, Kind.name, Kind.isNumber, typeMatches, isObject_iff] using hkindType
        simp only [Kind.matchesValue, Json.asObject, Option.any_some, List.all_eq_true,
          kindOpenFits]
        refine forall₂_congr fun entry hentry => ?_
        cases hproperty : schema.property entry.1 with
        | none => rfl
        | some property =>
          have hmem := mem_properties hproperty
          obtain ⟨inner, hinner⟩ := validateValue_property hgrammar hvalid hmem
            (Json.lookup_of_mem hdistinct.nodup hentry)
          exact ih (mapShape_eq_ok hkind _ hmem) (schemaShape_property hgrammar hmem) hinner
            (Json.distinct_of_mem hdistinct.2 hentry)
      | list element =>
        obtain ⟨items, rfl⟩ : ∃ items, value = .array items := by
          simpa [Node.kind, Kind.name, Kind.isNumber, typeMatches, Option.isSome_iff_exists]
            using hkindType
        simp only [Kind.matchesValue, Json.asArray, Option.any_some, List.all_eq_true,
          kindOpenFits]
      | tuple elements =>
        obtain ⟨items, rfl⟩ : ∃ items, value = .array items := by
          simpa [Node.kind, Kind.name, Kind.isNumber, typeMatches, Option.isSome_iff_exists]
            using hkindType
        rw [kindOpenFits]

/-- Admitted inputs match the declared type exactly when what the schema leaves open of them does:
elements of lists and tuples, other values of maps, and undeclared keys, which never match. -/
theorem admitted_matches_iff {T : Texts} {read : Reader} {verify : String → Json → Template.CoreResult Unit}
    {policy schemaText : String} {binding : Bool} {found : List TemplateVariable}
    {authority : InputAuthority} {inputs : Fields}
    (hproject : project T engines read verify node schemaText binding = .ok found)
    (hparse : InputAuthority.parse read policy (some schemaText) = .ok authority)
    (hinputs : (Json.object inputs).Distinct) (hvalid : authority.validate inputs = .ok ()) :
    ∃ schema, authority.schema = some schema ∧
      (node.matchesValue (.object inputs) = true ↔ openFits node schema (.object inputs)) := by
  obtain ⟨schema, hschema, -, hread, hgrammar⟩ := InputAuthority.parse_eq_ok hparse
  obtain ⟨-, hvalue, -⟩ := (InputAuthority.validate_eq_ok hschema).mp hvalid
  rw [project, bind_eq_ok] at hproject
  obtain ⟨document, hdocument, hrest⟩ := hproject
  rw [andThen_eq_ok, andThen_eq_ok] at hrest
  obtain ⟨-, hshape, -⟩ := hrest
  rw [schemaJson, bind_eq_ok] at hdocument
  obtain ⟨value, hagain, hverified⟩ := hdocument
  rw [mapError_eq_ok, hread] at hagain
  cases hagain
  rw [andThen_eq_ok, pure_eq_ok] at hverified
  obtain ⟨-, rfl⟩ := hverified
  exact ⟨schema, hschema, matchesValue_iff hshape hgrammar hvalue hinputs⟩

/-- `object(\x7b tags = list(string) \x7d)` -/
def tagsType : Node :=
  .mk (.object [("tags", .mk (.list (.mk .string false none)) false none)]) false none

def tagsPolicy : String := "\x7b\"debug\":[true],\"tags\":[[1],[\"a\"]]\x7d"

def tagsSchema : String :=
  "\x7b\"properties\":\x7b\"tags\":\x7b\"type\":\"array\"\x7d\x7d," ++
    "\"required\":[\"tags\"],\"type\":\"object\"\x7d"

def tagsRead : Reader := fun text =>
  if text = tagsPolicy then
    .ok (.object [("debug", .array [.bool true]),
      ("tags", .array [.array [.number (.integer 1)], .array [.string "a"]])])
  else if text = tagsSchema then
    .ok (.object [("properties", .object [("tags", .object [("type", .string "array")])]),
      ("required", .array [.string "tags"]), ("type", .string "object")])
  else .error "expected value"

def plainEngines : Engines where
  regex _ := none
  regexWithin _ _ := none
  lessThan _ _ := false
  isUrl _ := false

def tagsProject : Template.CoreResult (List TemplateVariable) :=
  project sampleTexts plainEngines tagsRead (fun _ _ => .ok ()) tagsType tagsSchema false

def tagsAdmit (inputs : Fields) : Template.CoreResult Unit := do
  let authority ← InputAuthority.parse tagsRead tagsPolicy (some tagsSchema)
  authority.validate inputs

theorem admitted_matches_iff_tags :
    ∃ (authority : InputAuthority) (schema : Json), authority.schema = some schema ∧
    (tagsType.matchesValue (.object [("tags", .array [.string "a"])]) = true ↔
      openFits tagsType schema (.object [("tags", .array [.string "a"])])) := by
  obtain ⟨found, hproject⟩ := exists_ok_of_isOk (show tagsProject.isOk = true by decide +kernel)
  have hadmitted : (tagsAdmit [("tags", .array [.string "a"])]).isOk = true := by decide +kernel
  obtain ⟨⟨⟩, hadmit⟩ := exists_ok_of_isOk hadmitted
  obtain ⟨authority, hparse, hvalid⟩ := bind_eq_ok.mp hadmit
  refine ⟨authority, admitted_matches_iff hproject hparse ?_ hvalid⟩
  simp [Json.Distinct, Json.DistinctMembers, Json.DistinctItems]

/-- A number in a list of texts, and a key that is not declared, are admitted. -/
theorem admitted_not_well_typed : tagsProject.isOk = true ∧
    ((tagsAdmit [("tags", .array [.number (.integer 1)])]).isOk = true ∧
      tagsType.matchesValue (.object [("tags", .array [.number (.integer 1)])]) = false) ∧
    (tagsAdmit [("debug", .bool true), ("tags", .array [.string "a"])]).isOk = true ∧
      tagsType.matchesValue
        (.object [("debug", .bool true), ("tags", .array [.string "a"])]) = false := by
  decide +kernel

end Discovery

end Shaula.Inputs
