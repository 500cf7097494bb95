import Shaula.Library.Agreement
import Shaula.Template.VariablesConstraints

/-! # The two validators

Bindings are validated by the registry against a schema that the compiler checked for its own
vocabulary.  The two validators read part of that vocabulary differently.  They are compared part by
part: checks that both make alike are taken as their answers, and the others as what either answers.
-/

namespace Shaula

open Library Library.Outcome

namespace Template

open BindingsSchema VariablesConstraints

/-! ## The comparison -/

/-- Whether the pattern of a schema matches, compiled as the compiler does. -/
def patternMatches (engines : Engines) (schema : Json) (text : String) : Bool :=
  (schema.strAt "pattern").all fun pattern =>
    (engines.regexWithin patternLimit pattern).any fun matcher => matcher text

/-- The type and the options: the registry passes over an empty list of them. -/
def compareOptions (schema value : Json) : Agreement :=
  .ofPair
    (VariablesConstraints.typeMatches schema value &&
      (optionsAllow schema value || decide (schema.get "enum" = some (.array []))))
    (VariablesConstraints.typeMatches schema value && optionsAllow schema value)

/-- The registry measures bytes, and passes over formats. -/
def compareText (engines : Engines) (schema : Json) (text : String) : Agreement :=
  .ofPair
    (bounds schema "minLength" "maxLength" text.utf8ByteSize && patternMatches engines schema text)
    (bounds schema "minLength" "maxLength" text.length && (patternMatches engines schema text &&
      ((schema.get "format").isNone || isUri engines text)))

/-- Whether the required fields are there. -/
def fieldsPresent (schema : Json) (fields : List (String × Json)) : Bool :=
  ((schema.itemsAt "required").filterMap Json.asStr).all (hasKey fields)

/-- Whether elements that have to be unique are. -/
def unrepeated (schema : Json) (items : List Json) : Bool :=
  !(decide (schema.get "uniqueItems" = some (.bool true)) && hasRepeats items)

section Nested

variable (compare : Json → Json → Agreement) (last : Bool)

/-- A combinator: how many branches accept. -/
def compareCombinator (schema value : Json) (keyword : String) : Agreement :=
  (schema.get keyword).elim .accepted fun _ =>
    .combined (fun count => enough keyword count (schema.itemsAt keyword).length)
      ((schema.itemsAt keyword).map fun branch => compare branch value)

def compareNegation (schema value : Json) : Agreement :=
  (schema.get "not").elim .accepted fun negated => (compare negated value).negated

/-- A constant for additional fields is too deep for the compiler at the last level. -/
def compareField (schema : Json) (field : String × Json) : Agreement :=
  match (schema.property field.1).or (schema.objectAt "additionalProperties") with
  | some rule => compare rule field.2
  | none =>
    match schema.get "additionalProperties" with
    | some (.bool constant) => if last then .failing else .ofPair constant constant
    | _ => .accepted

/-- The registry passes over the number of fields. -/
def compareFields (schema : Json) (fields : List (String × Json)) : Agreement :=
  (Agreement.ofPair (fieldsPresent schema fields)
    (bounds schema "minProperties" "maxProperties" fields.length &&
      fieldsPresent schema fields)).andThen
    (.all (fields.map (compareField compare last schema)))

/-- The registry asks the schema of all elements of the first ones too, and passes over a closed list
and a list of schemas for the first elements under `items`. -/
def compareItem (schema item : Json) (index : Nat) : Agreement :=
  match (schema.itemsAt "prefixItems")[index]? with
  | some rule => (compare rule item).andThen
      ((schema.objectAt "items").elim .accepted fun rule => compare rule item).ofFirst
  | none =>
    match schema.get "items" with
    | none => .accepted
    | some (.bool constant) => if last then .failing else .ofPair true constant
    | some (.array rules) =>
      if (schema.get "prefixItems").isSome then .accepted
      else (rules[index]?).elim .accepted fun rule => (compare rule item).ofSecond
    | some rule => compare rule item

/-- The registry passes over the number of elements, and over repeated ones. -/
def compareItems (schema : Json) (items : List Json) : Agreement :=
  (Agreement.ofPair true (bounds schema "minItems" "maxItems" items.length &&
    unrepeated schema items)).andThen
    (.all (items.zipIdx.map fun entry => compareItem compare last schema entry.1 entry.2))

end Nested

/-- What is known of the answers of the two validators, from the parts of a schema and a value. -/
def agreement (engines : Engines) : Nat → Json → Json → Agreement
  | 0, _, _ => .failing
  | depth + 1, schema, value =>
    (compareOptions schema value).andThen <|
      (Agreement.all (["anyOf", "allOf", "oneOf"].map
        (compareCombinator (agreement engines depth) schema value))).andThen <|
      (compareNegation (agreement engines depth) schema value).andThen <|
      (value.asStr.elim .accepted (compareText engines schema)).andThen <|
      (value.asObject.elim .accepted
        (compareFields (agreement engines depth) (decide (depth = 0)) schema)).andThen <|
      value.asArray.elim .accepted
        (compareItems (agreement engines depth) (decide (depth = 0)) schema)

variable {engines : Engines} {schema value : Json} {depth : Nat} {key : String}

/-! ## Keyword by keyword -/

theorem isOk_iff {result : CoreResult Unit} : result.isOk = true ↔ result = .ok () := by
  cases result <;> simp [Except.isOk, Except.toBool]

/-- The registry's checks in Boolean terms. -/
theorem isOk_eq {result : CoreResult Unit} {answer : Bool} (h : result = .ok () ↔ answer = true) :
    result.isOk = answer := by
  rw [Bool.eq_iff_iff, isOk_iff, h]

theorem both_ok_ok (first second : Bool) (rest : CoreResult Bool) :
    both (.ok first) (both (.ok second) rest) = both (.ok (first && second)) rest := by
  cases first <;> rfl

theorem type_agrees (h : check engines (depth + 1) schema = .ok ()) :
    checkType schema value = .ok () ↔ VariablesConstraints.typeMatches schema value = true := by
  simp only [checkType, bind_eq_ok, ensure_eq_ok, exists_const]
  cases hget : schema.get "type" with
  | none => simp [VariablesConstraints.typeMatches, Json.strAt, hget]
  | some declared =>
    obtain ⟨name, hname, rfl⟩ := check_type h hget
    simp only [typeNames, List.mem_cons, List.not_mem_nil, or_false] at hname
    rcases hname with rfl | rfl | rfl | rfl | rfl | rfl | rfl <;>
      simp [VariablesConstraints.typeMatches, Json.strAt, hget, Json.asStr, Json.asArray,
        BindingsSchema.typeMatches]

theorem options_agree (h : check engines (depth + 1) schema = .ok ()) :
    checkOptions schema value = .ok () ↔
      (optionsAllow schema value || decide (schema.get "enum" = some (.array []))) = true := by
  have hconst : schema.get "const" = none := check_absent h (by decide)
  simp only [checkOptions, bind_eq_ok, ensure_eq_ok, exists_const, hconst, Option.all_none, and_true,
    optionsAllow, Bool.or_eq_true, decide_eq_true_eq]
  cases hget : schema.get "enum" with
  | none => simp
  | some declared =>
    obtain ⟨options, rfl⟩ := check_enum h hget
    simp [Json.asArray, or_comm]

/-- The type and the options, in the order of either validator. -/
theorem of_options (h : check engines (depth + 1) schema = .ok ()) :
    (compareOptions schema value).Of
      ((checkType schema value).isOk && (checkOptions schema value).isOk)
      (.ok (VariablesConstraints.typeMatches schema value && optionsAllow schema value) :
        CoreResult Bool) := by
  rw [isOk_eq (type_agrees h), isOk_eq (options_agree h)]
  exact Agreement.of_ofPair _ _

theorem pattern_eq_ok {matcher : String → Bool} (h : pattern engines value = .ok matcher) :
    ∃ text, value = .string text ∧ engines.regexWithin patternLimit text = some matcher := by
  simp only [pattern, bind_eq_ok, okOr_eq_ok, Option.filter_eq_some_iff, Json.asStr_eq_some] at h
  obtain ⟨text, ⟨htext, -⟩, hmatcher⟩ := h
  exact ⟨text, htext, hmatcher⟩

theorem of_text {text : String} (hcompatible : engines.Compatible)
    (h : check engines (depth + 1) schema = .ok ()) :
    (compareText engines schema text).Of (checkText engines schema text).isOk
      (textAllows engines schema text) := by
  have hparts : (checkText engines schema text = .ok () ↔
        (bounds schema "minLength" "maxLength" text.utf8ByteSize &&
          patternMatches engines schema text) = true) ∧
      textAllows engines schema text = .ok (bounds schema "minLength" "maxLength" text.length &&
        (patternMatches engines schema text &&
          ((schema.get "format").isNone || isUri engines text))) := by
    have hboth : ∀ first second : Bool,
        both (.ok first) (.ok second) = (.ok (first && second) : CoreResult Bool) := by
      intro first second
      cases first <;> rfl
    cases hget : schema.get "pattern" with
    | none =>
      have hstr : schema.strAt "pattern" = none := by simp [Json.strAt, hget]
      simp only [textAllows, hget, checkText, hstr, patternMatches, Option.all_none, hboth,
        Bool.and_true, Bool.true_and, bounds, Bool.and_eq_true, bind_eq_ok, ensure_eq_ok,
        exists_const, and_true]
    | some declared =>
      obtain ⟨matcher, hmatcher⟩ := check_pattern h hget
      obtain ⟨source, rfl, hwithin⟩ := pattern_eq_ok hmatcher
      have hlimit : patternLimit ≤ defaultSizeLimit := by decide
      have hregex := hcompatible patternLimit source matcher hlimit hwithin
      have hstr : schema.strAt "pattern" = some source := by simp [Json.strAt, hget, Json.asStr]
      constructor
      · simp only [checkText, hstr, hregex, patternMatches, Option.all_some, hwithin, Option.any_some,
          bounds, Bool.and_eq_true, bind_eq_ok, ensure_eq_ok, exists_const, and_assoc]
      · simp only [textAllows, hget, hmatcher, patternMatches, hstr, Option.all_some, hwithin,
          Option.any_some]
        change both _ (both (.ok (matcher text)) _) = _
        rw [hboth, hboth]
  rw [isOk_eq hparts.1, hparts.2]
  exact Agreement.of_ofPair _ _

theorem number_agrees {number : Number} (h : check engines (depth + 1) schema = .ok ()) :
    checkNumber engines schema number = .ok () := by
  have hleast : schema.get "minimum" = none := check_absent h (by decide)
  have hmost : schema.get "maximum" = none := check_absent h (by decide)
  simp [checkNumber, hleast, hmost]

/-! ## Nested schemas -/

/-- At this depth the comparison is right about checked schemas. -/
def Compared (engines : Engines) (depth : Nat) : Prop :=
  ∀ schema value, check engines depth schema = .ok () →
    (agreement engines depth schema value).Of (validateNode engines depth schema value).isOk
      (accepts engines depth schema value)

/-- What the registry asks of a combinator. -/
def combinatorHolds (engines : Engines) (depth : Nat) (schema value : Json) (keyword : String) :
    Bool :=
  ((schema.get keyword).bind Json.asArray).all fun branches =>
    enough keyword (matched (validateNode engines depth) branches value) branches.length

theorem of_combinator (hcompared : Compared engines depth)
    (h : check engines (depth + 1) schema = .ok ())
    (hkey : key = "anyOf" ∨ key = "allOf" ∨ key = "oneOf") :
    (compareCombinator (agreement engines depth) schema value key).Of
      (combinatorHolds engines depth schema value key)
      (compositionAllows (accepts engines depth) schema value key) := by
  unfold compareCombinator combinatorHolds compositionAllows
  cases hget : schema.get key with
  | none => exact ⟨rfl, rfl⟩
  | some declared =>
    obtain ⟨branches, harray, rfl, -, hall⟩ := check_composition h hkey hget
    rw [Json.itemsAt_eq hget]
    simp only [Option.elim_some, Option.bind_some, Json.asArray, Option.all_some, harray]
    exact Agreement.of_combined _ fun branch hbranch => hcompared branch value (hall branch hbranch)

theorem of_negation (hcompared : Compared engines depth)
    (h : check engines (depth + 1) schema = .ok ()) :
    (compareNegation (agreement engines depth) schema value).Of
      ((schema.get "not").all fun negated => !(validateNode engines depth negated value).isOk)
      (negationAllows (accepts engines depth) schema value) := by
  unfold compareNegation negationAllows
  cases hget : schema.get "not" with
  | none => exact ⟨rfl, rfl⟩
  | some negated => exact (hcompared negated value (check_not h hget)).negated

/-- All of the branches match when their number does. -/
theorem all_matched : combinatorHolds engines depth schema value "allOf" = true ↔
    ∀ branch ∈ schema.itemsAt "allOf", validateNode engines depth branch value = .ok () := by
  unfold combinatorHolds Json.itemsAt
  cases (schema.get "allOf").bind Json.asArray with
  | none => simp
  | some branches => simp [enough, matched, List.countP_eq_length, isOk_iff]

/-- The registry's combinators, as the compiler counts them. -/
theorem branches_agree : checkBranches (validateNode engines depth) schema value = .ok () ↔
    ((["anyOf", "allOf", "oneOf"].all (combinatorHolds engines depth schema value)) &&
      (schema.get "not").all fun negated => !(validateNode engines depth negated value).isOk) =
        true := by
  have hany : combinatorHolds engines depth schema value "anyOf" =
      ((schema.get "anyOf").bind Json.asArray).all fun branches =>
        decide (0 < matched (validateNode engines depth) branches value) := rfl
  have hone : combinatorHolds engines depth schema value "oneOf" = true ↔
      ((schema.get "oneOf").bind Json.asArray).all (fun branches =>
        decide (0 < matched (validateNode engines depth) branches value)) = true ∧
      ((schema.get "oneOf").bind Json.asArray).all (fun branches =>
        decide (matched (validateNode engines depth) branches value ≤ 1)) = true := by
    unfold combinatorHolds
    cases (schema.get "oneOf").bind Json.asArray with
    | none => simp
    | some branches =>
      have henough : ∀ count size, enough "oneOf" count size =
          (decide (0 < count) && decide (count ≤ 1)) := by
        intro count size
        rw [← Bool.decide_and]
        exact decide_eq_decide.mpr (by omega)
      simp [henough]
  simp only [List.all_cons, List.all_nil, Bool.and_true, Bool.and_eq_true, all_matched, hone, hany,
    checkBranches, bind_eq_ok, forM_eq_ok, ensure_eq_ok, exists_const, List.forall_mem_cons,
    List.not_mem_nil, false_implies, implies_true, and_true]
  constructor
  · rintro ⟨hevery, ⟨hsome, hpositive⟩, hsingle, hnegated⟩
    exact ⟨⟨hsome, hevery, hpositive, hsingle⟩, hnegated⟩
  · rintro ⟨⟨hsome, hevery, hpositive, hsingle⟩, hnegated⟩
    exact ⟨hevery, ⟨hsome, hpositive⟩, hsingle, hnegated⟩

/-- A constant is decided unless the depth is used up. -/
theorem accepts_constant {constant : Bool} (hdepth : depth ≠ 0) :
    accepts engines depth (.bool constant) value = .ok constant := by
  obtain ⟨depth, rfl⟩ := Nat.exists_eq_succ_of_ne_zero hdepth
  rfl

theorem objectAt_eq_some {rule : Json} (h : schema.objectAt key = some rule) :
    schema.get key = some rule ∧ ∃ members, rule = .object members := by
  simp only [Json.objectAt, Option.filter_eq_some_iff] at h
  refine ⟨h.1, ?_⟩
  cases rule with
  | object members => exact ⟨members, rfl⟩
  | _ => cases h.2

/-! ## Fields -/

/-- What the registry asks of one field. -/
def fieldHolds (engines : Engines) (depth : Nat) (schema : Json) (field : String × Json) : Bool :=
  (match schema.get "additionalProperties" with
    | some (.bool false) => (schema.property field.1).isSome
    | some (.object members) =>
      (validateNode engines depth ((schema.property field.1).getD (.object members)) field.2).isOk
    | _ => true) &&
    (schema.property field.1).all fun rule => (validateNode engines depth rule field.2).isOk

theorem additional_agrees {fields : List (String × Json)} :
    checkAdditional (validateNode engines depth) schema fields = .ok () ↔ ∀ field ∈ fields,
      (match schema.get "additionalProperties" with
        | some (.bool false) => (schema.property field.1).isSome
        | some (.object members) => (validateNode engines depth
            ((schema.property field.1).getD (.object members)) field.2).isOk
        | _ => true) = true := by
  unfold checkAdditional
  cases schema.get "additionalProperties" with
  | none => simp
  | some declared =>
    cases declared with
    | bool constant => cases constant <;> simp only [forM_eq_ok, ensure_eq_ok, implies_true]
    | object members => simp only [forM_eq_ok, isOk_iff]
    | _ => simp only [implies_true]

theorem presence_agrees {fields : List (String × Json)} :
    checkPresence schema fields = .ok () ↔ fieldsPresent schema fields = true := by
  simp only [checkPresence, forM_eq_ok, fieldsPresent, List.all_eq_true, List.mem_filterMap,
    forall_exists_index, and_imp]
  constructor
  · intro hall field name hname hstr
    have hone := hall name hname
    rw [hstr, Option.elim_some, ensure_eq_ok] at hone
    exact hone
  · intro hall name hname
    cases hstr : name.asStr with
    | none => rfl
    | some field => exact ensure_eq_ok.mpr (hall field name hname hstr)

theorem fields_agree {fields : List (String × Json)} :
    checkFields (validateNode engines depth) schema fields = .ok () ↔
      (fieldsPresent schema fields && fields.all (fieldHolds engines depth schema)) = true := by
  have hproperty : ∀ field : String × Json, (schema.property field.1).elim (.ok ()) (fun rule =>
        validateNode engines depth rule field.2) = .ok () ↔
      ((schema.property field.1).all fun rule =>
        (validateNode engines depth rule field.2).isOk) = true := by
    intro field
    cases schema.property field.1 with
    | none => simp
    | some rule => simp [isOk_iff]
  simp only [checkFields, bind_eq_ok, Unique.exists_iff, PUnit.default_eq_unit, presence_agrees,
    additional_agrees, forM_eq_ok, hproperty, Bool.and_eq_true, List.all_eq_true, fieldHolds]
  grind

theorem presenceAllows_eq {fields : List (String × Json)}
    (h : check engines (depth + 1) schema = .ok ()) :
    presenceAllows schema fields = .ok (fieldsPresent schema fields) := by
  unfold presenceAllows fieldsPresent
  cases hrequired : schema.get "required" with
  | none => simp [hrequired, Json.itemsAt]
  | some declared =>
    obtain ⟨names, harray, rfl⟩ := check_required h hrequired
    simp only [harray, Json.itemsAt_eq hrequired]
    rfl

theorem of_field {field : String × Json} (hcompared : Compared engines depth)
    (h : check engines (depth + 1) schema = .ok ()) :
    (compareField (agreement engines depth) (decide (depth = 0)) schema field).Of
      (fieldHolds engines depth schema field)
      ((fieldConstraint schema field.1).elim (.ok true) fun constraint =>
        accepts engines depth constraint field.2) := by
  unfold compareField fieldHolds fieldConstraint
  cases hproperty : schema.property field.1 with
  | some rule =>
    have hrule := hcompared rule field.2 (check_property h hproperty)
    simp only [Option.some_or, Option.elim_some, Option.all_some, Option.isSome_some, Option.getD_some]
    cases schema.get "additionalProperties" with
    | none => simpa using hrule
    | some declared =>
      cases declared with
      | bool constant => cases constant <;> simpa using hrule
      | object members => simpa using hrule
      | _ => simpa using hrule
  | none =>
    cases hadditional : schema.get "additionalProperties" with
    | none =>
      simp only [Json.objectAt, hadditional, Option.filter_none, Option.or_none]
      exact ⟨rfl, rfl⟩
    | some declared =>
      rcases check_additional h hadditional with ⟨constant, rfl⟩ | hchecked
      · simp only [Json.objectAt, hadditional, Option.filter_some, Json.isObject,
          Bool.false_eq_true, if_false, Option.or_none, Option.none_or, Option.elim_some]
        by_cases hdepth : depth = 0
        · simp only [hdepth, decide_true, if_true]
          exact trivial
        · simp only [hdepth, decide_false, Bool.false_eq_true, if_false, accepts_constant hdepth]
          cases constant
          · exact ⟨rfl, rfl⟩
          · exact ⟨rfl, rfl⟩
      · obtain ⟨members, rfl⟩ := check_object hchecked
        have hrule := hcompared (.object members) field.2 hchecked
        have hobject : schema.objectAt "additionalProperties" = some (.object members) := by
          simp [Json.objectAt, hadditional, Json.isObject]
        simpa [hobject] using hrule

theorem of_fields {fields : List (String × Json)} (hcompared : Compared engines depth)
    (h : check engines (depth + 1) schema = .ok ()) :
    (compareFields (agreement engines depth) (decide (depth = 0)) schema fields).Of
      (checkFields (validateNode engines depth) schema fields).isOk
      (fieldsAllow (accepts engines depth) schema fields) := by
  rw [isOk_eq fields_agree, fieldsAllow, presenceAllows_eq h, both_ok_ok]
  exact (Agreement.of_ofPair _ _).andThen (Agreement.of_all fun field _ => of_field hcompared h)

/-! ## Elements -/

/-- What the registry asks of one element. -/
def itemHolds (engines : Engines) (depth : Nat) (schema item : Json) (index : Nat) : Bool :=
  (((schema.itemsAt "prefixItems")[index]?).all fun rule =>
      (validateNode engines depth rule item).isOk) &&
    (schema.objectAt "items").all fun rule => (validateNode engines depth rule item).isOk

theorem items_agree {items : List Json} :
    checkItems (validateNode engines depth) schema items = .ok () ↔
      (items.zipIdx.all fun entry => itemHolds engines depth schema entry.1 entry.2) = true := by
  have hrules : (schema.objectAt "items").elim (.ok ()) (fun rule =>
      items.forM (validateNode engines depth rule)) = .ok () ↔
      ∀ item ∈ items, ∀ rule, schema.objectAt "items" = some rule →
        validateNode engines depth rule item = .ok () := by
    cases schema.objectAt "items" with
    | none => simp
    | some rule => simp only [Option.elim_some, forM_eq_ok, Option.some.injEq, forall_eq']
  simp only [checkItems, bind_eq_ok, hrules, forM_eq_ok, exists_const, List.all_eq_true, itemHolds,
    Bool.and_eq_true, Option.all_eq_true, isOk_iff]
  constructor
  · rintro ⟨hall, hfirst⟩ ⟨item, index⟩ hmem
    have hitem := List.mk_mem_zipIdx_iff_getElem?.mp hmem
    refine ⟨fun rule hrule => ?_, hall item (List.mem_of_getElem? hitem)⟩
    have hzip : ((schema.itemsAt "prefixItems").zip items)[index]? = some (rule, item) :=
      List.getElem?_zip_eq_some.mpr ⟨hrule, hitem⟩
    exact hfirst (rule, item) (List.mem_of_getElem? hzip)
  · intro hall
    constructor
    · intro item hmem
      obtain ⟨index, hindex⟩ := List.getElem?_of_mem hmem
      exact (hall (item, index) (List.mk_mem_zipIdx_iff_getElem?.mpr hindex)).2
    · rintro ⟨rule, item⟩ hmem
      obtain ⟨index, hindex⟩ := List.getElem?_of_mem hmem
      obtain ⟨hrule, hitem⟩ := List.getElem?_zip_eq_some.mp hindex
      exact (hall (item, index) (List.mk_mem_zipIdx_iff_getElem?.mpr hitem)).1 rule hrule

/-- A check that only the registry makes comes after one of both. -/
theorem of_first {known other : Agreement} {first first' : Bool} {second second' : CoreResult Bool}
    (h : known.Of first second) (h' : other.Of first' second') :
    (known.andThen other.ofFirst).Of (first && first') second := by
  have hboth : (second >>= fun accepted => if accepted = true then .ok true else .ok false) =
      second := by
    cases second with
    | error e => rfl
    | ok accepted => cases accepted <;> rfl
  have hand := h.andThen h'.ofFirst
  rw [hboth] at hand
  exact hand

/-- A list under `items` counts where no other one is there. -/
theorem prefixSchemas_eq
    (h : (schema.get "prefixItems").isSome ∨ ∀ rules, schema.get "items" ≠ some (.array rules)) :
    prefixSchemas schema = schema.itemsAt "prefixItems" := by
  unfold prefixSchemas Json.itemsAt
  cases hlead : schema.get "prefixItems" with
  | some first => rfl
  | none =>
    rw [hlead] at h
    have hlist := h.resolve_left (by decide)
    cases hitems : schema.get "items" with
    | none => rfl
    | some items =>
      cases items with
      | array rules => exact absurd hitems (hlist rules)
      | _ => rfl

theorem check_objectAt_items {rule : Json} (h : check engines (depth + 1) schema = .ok ())
    (hrule : schema.objectAt "items" = some rule) : check engines depth rule = .ok () := by
  obtain ⟨hget, members, rfl⟩ := objectAt_eq_some hrule
  rcases check_items h hget with ⟨constant, hbool⟩ | ⟨rules, hlist, -⟩ | hchecked
  · cases hbool
  · cases hlist
  · exact hchecked

/-- An element that has a schema of its own. -/
theorem of_firstItem {item rule : Json} {index : Nat} (hcompared : Compared engines depth)
    (h : check engines (depth + 1) schema = .ok ())
    (hrule : (schema.itemsAt "prefixItems")[index]? = some rule) :
    (compareItem (agreement engines depth) (decide (depth = 0)) schema item index).Of
      (itemHolds engines depth schema item index)
      ((itemConstraint schema index).elim (.ok true) fun constraint =>
        accepts engines depth constraint item) := by
  obtain ⟨rules, hget, hmem⟩ := Json.mem_itemsAt.mp (List.mem_of_getElem? hrule)
  have hchecked : check engines depth rule = .ok () := by
    obtain ⟨rules', hrules, hall⟩ := check_prefix h hget
    cases hrules
    exact hall rule hmem
  have hlist : prefixSchemas schema = schema.itemsAt "prefixItems" :=
    prefixSchemas_eq (.inl (by rw [hget]; rfl))
  simp only [compareItem, itemHolds, itemConstraint, hlist, hrule, Option.all_some, Option.some_or,
    Option.elim_some]
  have hrest : ((schema.objectAt "items").elim .accepted fun rule =>
      agreement engines depth rule item).Of
      ((schema.objectAt "items").all fun rule => (validateNode engines depth rule item).isOk)
      ((schema.objectAt "items").elim (.ok true) fun rule => accepts engines depth rule item) := by
    cases hobject : schema.objectAt "items" with
    | none => exact ⟨rfl, rfl⟩
    | some rest => exact hcompared rest item (check_objectAt_items h hobject)
  exact of_first (hcompared rule item hchecked) hrest

theorem of_item {item : Json} {index : Nat} (hcompared : Compared engines depth)
    (h : check engines (depth + 1) schema = .ok ()) :
    (compareItem (agreement engines depth) (decide (depth = 0)) schema item index).Of
      (itemHolds engines depth schema item index)
      ((itemConstraint schema index).elim (.ok true) fun constraint =>
        accepts engines depth constraint item) := by
  cases hrule : (schema.itemsAt "prefixItems")[index]? with
  | some rule => exact of_firstItem hcompared h hrule
  | none =>
    cases hget : schema.get "items" with
    | none =>
      have hlist : prefixSchemas schema = schema.itemsAt "prefixItems" :=
        prefixSchemas_eq (.inr (by simp [hget]))
      simp [compareItem, itemHolds, itemConstraint, hlist, hrule, hget, Json.objectAt, Agreement.Of]
    | some items =>
      rcases check_items h hget with ⟨constant, rfl⟩ | ⟨rules, rfl, hchecked⟩ | hchecked
      · have hlist : prefixSchemas schema = schema.itemsAt "prefixItems" :=
          prefixSchemas_eq (.inr (by simp [hget]))
        have hobject : schema.objectAt "items" = none := by simp [Json.objectAt, hget, Json.isObject]
        simp only [compareItem, itemHolds, itemConstraint, hlist, hrule, hget, hobject,
          Option.all_none, Bool.and_true, Option.none_or, Option.filter_some, Json.asArray,
          Option.isNone_none, if_true, Option.elim_some]
        by_cases hdepth : depth = 0
        · rw [if_pos (decide_eq_true hdepth)]
          exact trivial
        · rw [if_neg (by simpa using hdepth), accepts_constant hdepth]
          exact Agreement.of_ofPair true constant
      · have hobject : schema.objectAt "items" = none := by simp [Json.objectAt, hget, Json.isObject]
        simp only [compareItem, itemHolds, itemConstraint, hrule, hget, hobject, Option.all_none,
          Bool.and_true, Option.filter_some, Json.asArray, Option.isNone_some, Bool.false_eq_true,
          if_false, Option.or_none]
        cases hlead : schema.get "prefixItems" with
        | some first =>
          rw [prefixSchemas_eq (.inl (by rw [hlead]; rfl)), hrule, Option.isSome_some, if_pos rfl]
          exact ⟨rfl, rfl⟩
        | none =>
          have hlist : prefixSchemas schema = rules := by
            rw [prefixSchemas, hlead, hget]
            rfl
          rw [hlist, Option.isSome_none, if_neg Bool.false_ne_true]
          cases hown : rules[index]? with
          | none => exact ⟨rfl, rfl⟩
          | some rule =>
            exact (hcompared rule item (hchecked rule (List.mem_of_getElem? hown))).ofSecond
      · obtain ⟨members, rfl⟩ := check_object hchecked
        have hlist : prefixSchemas schema = schema.itemsAt "prefixItems" :=
          prefixSchemas_eq (.inr (by simp [hget]))
        have hobject : schema.objectAt "items" = some (.object members) := by
          simp [Json.objectAt, hget, Json.isObject]
        simp only [compareItem, itemHolds, itemConstraint, hlist, hrule, hget, hobject,
          Option.all_none, Option.all_some, Bool.true_and, Option.none_or, Option.filter_some,
          Json.asArray, Option.isNone_none, if_true, Option.elim_some]
        exact hcompared (.object members) item hchecked

theorem of_items {items : List Json} (hcompared : Compared engines depth)
    (h : check engines (depth + 1) schema = .ok ()) :
    (compareItems (agreement engines depth) (decide (depth = 0)) schema items).Of
      (checkItems (validateNode engines depth) schema items).isOk
      (itemsAllow (accepts engines depth) schema items) := by
  rw [isOk_eq items_agree, itemsAllow, both_ok_ok]
  exact (Agreement.of_ofPair true _).andThen
    (Agreement.of_all fun entry _ => of_item hcompared h)

/-! ## Whole schemas -/

/-- What the checks of one kind of value come to. -/
theorem of_elim {α : Type} {part : Option α} {compare : α → Agreement} {checks : α → CoreResult Unit}
    {allows : α → CoreResult Bool} (h : ∀ a, (compare a).Of (checks a).isOk (allows a)) :
    (part.elim .accepted compare).Of (part.elim (.ok ()) checks).isOk
      (part.elim (.ok true) allows) := by
  cases part with
  | none => exact ⟨rfl, rfl⟩
  | some a => exact h a

/-- The registry asks in another order, with the combinators last. -/
theorem node_agrees (h : check engines (depth + 1) schema = .ok ()) :
    validateNode engines (depth + 1) schema value = .ok () ↔
      ((checkType schema value).isOk && (checkOptions schema value).isOk &&
        ((["anyOf", "allOf", "oneOf"].all (combinatorHolds engines depth schema value)) &&
        (((schema.get "not").all fun negated => !(validateNode engines depth negated value).isOk) &&
        ((value.asStr.elim (.ok ()) (checkText engines schema)).isOk &&
        ((value.asObject.elim (.ok ()) (checkFields (validateNode engines depth) schema)).isOk &&
        (value.asArray.elim (.ok ()) (checkItems (validateNode engines depth) schema)).isOk))))) =
        true := by
  have href : schema.get "$ref" = none := check_absent h (by decide)
  have hnumber : (numberOf value).elim (.ok ()) (checkNumber engines schema) = .ok () := by
    cases numberOf value with
    | none => rfl
    | some number => exact number_agrees h
  simp only [validateNode, href, Option.isNone_none, bind_eq_ok, ensure_eq_ok, hnumber,
    branches_agree, Bool.and_eq_true, isOk_iff, Unique.exists_iff, PUnit.default_eq_unit, true_and]
  constructor
  · rintro ⟨htype, hoptions, htext, hfields, hitems, hcombinators, hnegation⟩
    exact ⟨⟨htype, hoptions⟩, hcombinators, hnegation, htext, hfields, hitems⟩
  · rintro ⟨⟨htype, hoptions⟩, hcombinators, hnegation, htext, hfields, hitems⟩
    exact ⟨htype, hoptions, htext, hfields, hitems, hcombinators, hnegation⟩

/-- **Step lemma.**  Where nested schemas are compared rightly, so is a schema. -/
theorem Compared.step (hcompatible : engines.Compatible) (hcompared : Compared engines depth) :
    Compared engines (depth + 1) := by
  intro schema value h
  have hbool : schema.asBool = none := by
    obtain ⟨members, rfl⟩ := check_object h
    rfl
  have hbranches : (Agreement.all (["anyOf", "allOf", "oneOf"].map
      (compareCombinator (agreement engines depth) schema value))).Of _ _ :=
    Agreement.of_all fun keyword hkeyword => of_combinator hcompared h (by simpa using hkeyword)
  have htext : (value.asStr.elim .accepted (compareText engines schema)).Of _ _ :=
    of_elim fun _ => of_text hcompatible h
  have hfields : (value.asObject.elim .accepted (compareFields (agreement engines depth)
      (decide (depth = 0)) schema)).Of _ _ :=
    of_elim fun _ => of_fields hcompared h
  have hitems : (value.asArray.elim .accepted (compareItems (agreement engines depth)
      (decide (depth = 0)) schema)).Of _ _ :=
    of_elim fun _ => of_items hcompared h
  rw [isOk_eq (node_agrees h)]
  simp only [accepts, hbool]
  exact (of_options h).andThen (hbranches.andThen ((of_negation hcompared h).andThen
    (htext.andThen (hfields.andThen hitems))))

/-- **Run lemma.**  By induction on the depth that is left. -/
theorem compared (hcompatible : engines.Compatible) : ∀ depth, Compared engines depth
  | 0 => fun _ _ _ => trivial
  | depth + 1 => (compared hcompatible depth).step hcompatible

/-- For a schema that the compiler accepts, the registry's validator and the compiler's accept the
same values wherever the parts decide, and not where just one part is read differently. -/
theorem validators_agree (engines : Engines) (hcompatible : engines.Compatible)
    (schema value : Json)
    (hchecked : check engines (VariablesConstraints.maxDepth + 1) schema = .ok ()) :
    ((agreement engines (VariablesConstraints.maxDepth + 1) schema value).Decided →
      (validateNode engines (BindingsSchema.maxDepth + 1) schema value = .ok () ↔
        accepts engines (VariablesConstraints.maxDepth + 1) schema value = .ok true)) ∧
    (agreement engines (VariablesConstraints.maxDepth + 1) schema value = .apart →
      ¬ (validateNode engines (BindingsSchema.maxDepth + 1) schema value = .ok () ↔
        accepts engines (VariablesConstraints.maxDepth + 1) schema value = .ok true)) := by
  have hof := compared hcompatible _ schema value hchecked
  rw [← isOk_iff]
  refine ⟨hof.iff, fun hapart => ?_⟩
  rw [hapart] at hof
  exact hof.not_iff

/-- Engines for documents without patterns and formats. -/
def plainEngines : Engines where
  regex _ := none
  regexWithin _ _ := none
  lessThan _ _ := false
  isUrl _ := false

theorem plainEngines_compatible : plainEngines.Compatible := nofun

/-- A text of at most one character. -/
def oneCharacter : Json :=
  .object [("type", .string "string"), ("maxLength", .number (.integer 1))]

/-- A text, or a list of at least two elements. -/
def textOrPair : Json :=
  .object [("anyOf", .array [.object [("type", .string "string")],
    .object [("type", .string "array"), ("minItems", .number (.integer 2))]])]

/-- The number of elements makes no difference to a text, and the length of one to a letter. -/
theorem validators_agree_sample :
    (validateNode plainEngines (BindingsSchema.maxDepth + 1) oneCharacter (.string "e") = .ok () ↔
      accepts plainEngines (VariablesConstraints.maxDepth + 1) oneCharacter (.string "e") =
        .ok true) ∧
    (validateNode plainEngines (BindingsSchema.maxDepth + 1) textOrPair (.string "e") = .ok () ↔
      accepts plainEngines (VariablesConstraints.maxDepth + 1) textOrPair (.string "e") =
        .ok true) ∧
    ¬ (validateNode plainEngines (BindingsSchema.maxDepth + 1) textOrPair (.array []) = .ok () ↔
      accepts plainEngines (VariablesConstraints.maxDepth + 1) textOrPair (.array []) =
        .ok true) :=
  ⟨(validators_agree plainEngines plainEngines_compatible oneCharacter (.string "e") rfl).1
      (.inl rfl),
    (validators_agree plainEngines plainEngines_compatible textOrPair (.string "e") rfl).1
      (.inl rfl),
    (validators_agree plainEngines plainEngines_compatible textOrPair (.array []) rfl).2 rfl⟩

/-- One character of two bytes is too long for the registry and not for the compiler. -/
theorem bytes_are_not_characters :
    check plainEngines (VariablesConstraints.maxDepth + 1) oneCharacter = .ok () ∧
    ¬ (validateNode plainEngines (BindingsSchema.maxDepth + 1) oneCharacter (.string "é") = .ok () ↔
      accepts plainEngines (VariablesConstraints.maxDepth + 1) oneCharacter (.string "é") =
        .ok true) := by
  have hregistry : validateNode plainEngines (BindingsSchema.maxDepth + 1) oneCharacter
      (.string "é") = .error (invalid "template binding value is too long") := by rfl
  have hcompiler : accepts plainEngines (VariablesConstraints.maxDepth + 1) oneCharacter
      (.string "é") = .ok true := by rfl
  refine ⟨rfl, ?_⟩
  rw [hregistry, hcompiler]
  simp

end Template

end Shaula
