import Mathlib.Logic.Relation
import Shaula.Library.Json
import Shaula.Library.Outcome

/-! # Walks over schema documents

A schema nests further schemas in its properties, its elements and its branches.  A walk collects a
boolean annotation over all of them, down to a limit of depth.
-/

namespace Shaula.Library

namespace Json

/-! ## Equality -/

mutual

/-- Equality of values is decided part by part. -/
def decEq : (a b : Json) → Decidable (a = b)
  | .null, b => match b with
    | .null => isTrue rfl
    | .bool _ | .number _ | .string _ | .array _ | .object _ => isFalse nofun
  | .bool x, b => match b with
    | .bool y => decidable_of_iff (x = y) (by simp)
    | .null | .number _ | .string _ | .array _ | .object _ => isFalse nofun
  | .number x, b => match b with
    | .number y => decidable_of_iff (x = y) (by simp)
    | .null | .bool _ | .string _ | .array _ | .object _ => isFalse nofun
  | .string x, b => match b with
    | .string y => decidable_of_iff (x = y) (by simp)
    | .null | .bool _ | .number _ | .array _ | .object _ => isFalse nofun
  | .array x, b => match b with
    | .array y => match decEqItems x y with
      | isTrue h => isTrue (h ▸ rfl)
      | isFalse h => isFalse fun heq => h (by cases heq; rfl)
    | .null | .bool _ | .number _ | .string _ | .object _ => isFalse nofun
  | .object x, b => match b with
    | .object y => match decEqMembers x y with
      | isTrue h => isTrue (h ▸ rfl)
      | isFalse h => isFalse fun heq => h (by cases heq; rfl)
    | .null | .bool _ | .number _ | .string _ | .array _ => isFalse nofun

def decEqItems : (a b : List Json) → Decidable (a = b)
  | [], [] => isTrue rfl
  | [], _ :: _ | _ :: _, [] => isFalse nofun
  | x :: xs, y :: ys =>
    match decEq x y, decEqItems xs ys with
    | isTrue h, isTrue hs => isTrue (h ▸ hs ▸ rfl)
    | isFalse h, _ => isFalse fun heq => h (by cases heq; rfl)
    | _, isFalse h => isFalse fun heq => h (by cases heq; rfl)

def decEqMembers : (a b : List (String × Json)) → Decidable (a = b)
  | [], [] => isTrue rfl
  | [], _ :: _ | _ :: _, [] => isFalse nofun
  | (k, x) :: xs, (l, y) :: ys =>
    match (inferInstance : Decidable (k = l)), decEq x y, decEqMembers xs ys with
    | isTrue hk, isTrue h, isTrue hs => isTrue (hk ▸ h ▸ hs ▸ rfl)
    | isFalse h, _, _ => isFalse fun heq => h (by cases heq; rfl)
    | _, isFalse h, _ => isFalse fun heq => h (by cases heq; rfl)
    | _, _, isFalse h => isFalse fun heq => h (by cases heq; rfl)

end

instance : DecidableEq Json := decEq

/-- A number as it is compared: of floating point numbers the two zeros are equal, and no two
others. -/
def comparedNumber : Number → Number
  | .float text => .float (if text = "-0.0" then "0.0" else text)
  | .integer value => .integer value

mutual

/-- A value as it is compared. -/
def compared : Json → Json
  | .number value => .number (comparedNumber value)
  | .array items => .array (comparedItems items)
  | .object members => .object (comparedMembers members)
  | .null => .null
  | .bool value => .bool value
  | .string value => .string value

def comparedItems : List Json → List Json
  | [] => []
  | item :: rest => compared item :: comparedItems rest

def comparedMembers : List (String × Json) → List (String × Json)
  | [] => []
  | (key, value) :: rest => (key, compared value) :: comparedMembers rest

end

/-- Equality as readers of JSON compare values. -/
def Same (a b : Json) : Prop := a.compared = b.compared

instance (a b : Json) : Decidable (a.Same b) := inferInstanceAs (Decidable (_ = _))

/-- Whether a list contains a value. -/
def Among (values : List Json) (value : Json) : Prop := ∃ listed ∈ values, listed.Same value

instance (values : List Json) (value : Json) : Decidable (Among values value) :=
  inferInstanceAs (Decidable (∃ listed ∈ values, _))

theorem comparedMembers_eq (members : List (String × Json)) :
    comparedMembers members = members.map fun member => (member.1, member.2.compared) := by
  induction members with
  | nil => rfl
  | cons member rest ih =>
    obtain ⟨key, value⟩ := member
    rw [comparedMembers, ih, List.map_cons]

theorem comparedItems_eq (items : List Json) : comparedItems items = items.map compared := by
  induction items with
  | nil => rfl
  | cons item rest ih => rw [comparedItems, ih, List.map_cons]

@[simp] theorem lookup_comparedMembers (members : List (String × Json)) (key : String) :
    lookup (comparedMembers members) key = (lookup members key).map compared := by
  induction members with
  | nil => rfl
  | cons member rest ih =>
    obtain ⟨name, value⟩ := member
    rw [comparedMembers, lookup_cons, lookup_cons, ih]
    split <;> rfl

theorem comparedNumber_idem (value : Number) :
    comparedNumber (comparedNumber value) = comparedNumber value := by
  cases value with
  | integer => rfl
  | float text =>
    unfold comparedNumber
    by_cases h : text = "-0.0" <;> simp [h]

/-- What is compared is compared as itself. -/
@[simp] theorem compared_idem (value : Json) : value.compared.compared = value.compared := by
  induction hsize : sizeOf value using Nat.strongRecOn generalizing value with
  | ind size ih =>
    cases value with
    | number value => simp only [compared, comparedNumber_idem]
    | array items =>
      simp only [compared, comparedItems_eq, List.map_map, array.injEq]
      apply List.map_congr_left
      intro item hitem
      exact ih _ (hsize ▸ sizeOf_mem_array rfl hitem) item rfl
    | object members =>
      simp only [compared, comparedMembers_eq, List.map_map, object.injEq]
      apply List.map_congr_left
      intro member hmember
      have hlt := List.sizeOf_lt_of_mem hmember
      have hpart : sizeOf member.2 < size := by
        obtain ⟨name, part⟩ := member
        simp only [Prod.mk.sizeOf_spec, object.sizeOf_spec] at hlt hsize ⊢
        omega
      exact congrArg (Prod.mk member.1) (ih _ hpart member.2 rfl)
    | _ => rfl

theorem same_compared (value : Json) : value.compared.Same value := compared_idem value

/-- A list contains what is the same as one of its values. -/
theorem Among.of_same {values : List Json} {value other : Json} (h : Among values value)
    (hsame : value.Same other) : Among values other := by
  obtain ⟨listed, hmem, hlisted⟩ := h
  exact ⟨listed, hmem, hlisted.trans hsame⟩

theorem object_of_same {value : Json} {members : List (String × Json)}
    (h : value.Same (.object members)) : ∃ fields, value = .object fields := by
  cases value with
  | object fields => exact ⟨fields, rfl⟩
  | _ => cases h

theorem among_of_mem {values : List Json} {value : Json} (h : value ∈ values) :
    Among values value :=
  ⟨value, h, rfl⟩

/-! ## Subschemas -/

/-- The members of the object under `key`; none when there is no object. -/
def membersAt (value : Json) (key : String) : List (String × Json) :=
  ((value.get key).bind asObject).getD []

/-- The value under `key` when it is an object. -/
def objectAt (value : Json) (key : String) : Option Json := (value.get key).filter isObject

/-- The schemas that a schema nests. -/
def nestedSchemas (schema : Json) : List Json :=
  (schema.membersAt "properties").map (·.2) ++
    ["items", "additionalProperties", "not"].filterMap schema.objectAt ++
    ["items", "prefixItems", "anyOf", "allOf", "oneOf"].flatMap schema.itemsAt

/-- The schemas that speak about the same value: the branches of a schema's combinators. -/
def branches (schema : Json) : List Json :=
  ["anyOf", "allOf", "oneOf"].flatMap schema.itemsAt ++ (schema.get "not").toList

/-- What a schema says about a property. -/
def property (schema : Json) (key : String) : Option Json :=
  (schema.get "properties").bind (·.get key)

end Json

open Json Outcome

/-- How a walk reads the annotation: its name, what a nested schema without it counts as, and the
two errors. -/
structure Annotation (ε : Type) where
  name : String
  nested : Bool
  malformed : ε
  tooDeep : ε

namespace Annotation

variable {ε : Type} (walk : Annotation ε)

/-- The annotation of one schema, with a default when it has none. -/
def read (default : Bool) (schema : Json) : Except ε Bool :=
  match schema.get walk.name with
  | some (.bool value) => .ok value
  | none => .ok default
  | some _ => .error walk.malformed

/-- Whether the schema or one it nests carries the annotation. -/
def collect : Nat → Bool → Json → Except ε Bool
  | 0, _, _ => .error walk.tooDeep
  | depth + 1, default, schema => do
    let own ← walk.read default schema
    let below ← schema.nestedSchemas.mapM (collect depth walk.nested)
    return own || below.any id

/-- The walk over what a schema and its branches say about one property. -/
def collectFor (key : String) : Nat → Json → Except ε Bool
  | 0, _ => .error walk.tooDeep
  | depth + 1, schema => do
    let field ← (schema.property key).elim (.ok false) (walk.collect depth walk.nested)
    let others ← schema.branches.mapM (collectFor key depth)
    return (schema.get walk.name).bind Json.asBool = some true || field || others.any id

/-! ## What a walk finds -/

/-- A schema that is nested, at any depth. -/
def Below (root schema : Json) : Prop :=
  Relation.TransGen (fun parent child => child ∈ parent.nestedSchemas) root schema

/-- A schema reached by branches alone. -/
def Scope (root schema : Json) : Prop :=
  Relation.ReflTransGen (fun parent branch => branch ∈ parent.branches) root schema

def IsTrue (schema : Json) : Prop := schema.get walk.name = some (.bool true)

def IsOmitted (schema : Json) : Prop := schema.get walk.name = none

/-- Whether a schema counts as annotated: it says so, or leaves out what counts as said, or one it
nests does. -/
def Marked (default : Bool) (schema : Json) : Prop :=
  walk.IsTrue schema ∨ (walk.IsOmitted schema ∧ default = true) ∨
    ∃ sub, Below schema sub ∧ (walk.IsTrue sub ∨ walk.IsOmitted sub ∧ walk.nested = true)

variable {walk} {default found : Bool} {schema root : Json} {depth : Nat} {key : String}

theorem read_eq_true : walk.read default schema = .ok true ↔
    walk.IsTrue schema ∨ walk.IsOmitted schema ∧ default = true := by
  unfold read IsTrue IsOmitted
  cases hget : schema.get walk.name with
  | none => simp
  | some value => cases value <;> simp

theorem below_iff : Below root schema ↔
    ∃ child ∈ root.nestedSchemas, schema = child ∨ Below child schema := by
  unfold Below
  rw [Relation.TransGen.head'_iff]
  constructor
  · rintro ⟨child, hchild, hrest⟩
    rcases Relation.reflTransGen_iff_eq_or_transGen.mp hrest with heq | hbelow
    · exact ⟨child, hchild, .inl heq⟩
    · exact ⟨child, hchild, .inr hbelow⟩
  · rintro ⟨child, hchild, heq | hbelow⟩
    · exact ⟨child, hchild, heq ▸ .refl⟩
    · exact ⟨child, hchild, hbelow.to_reflTransGen⟩

theorem scope_iff : Scope root schema ↔
    schema = root ∨ ∃ branch ∈ root.branches, Scope branch schema := by
  unfold Scope
  rw [Relation.ReflTransGen.cases_head_iff, eq_comm]

/-- A walk over a list finds the annotation when it does in one of the entries. -/
theorem any_of_mapM {α : Type} {f : α → Except ε Bool} {entries : List α} {results : List Bool}
    (h : entries.mapM f = .ok results) :
    results.any id = true ↔ ∃ entry ∈ entries, f entry = .ok true := by
  rw [mapM_eq_ok] at h
  induction h with
  | nil => simp
  | cons hhead _ ih =>
    simp only [List.any_cons, id, Bool.or_eq_true, ih, List.mem_cons, exists_eq_or_imp, hhead,
      Except.ok.injEq]

theorem mapM_each {α : Type} {f : α → Except ε Bool} {entries : List α} {results : List Bool}
    (h : entries.mapM f = .ok results) : ∀ entry ∈ entries, ∃ found, f entry = .ok found := by
  rw [mapM_eq_ok] at h
  induction h with
  | nil => simp
  | cons hhead _ ih =>
    intro entry hmem
    rcases List.mem_cons.mp hmem with rfl | hmem
    · exact ⟨_, hhead⟩
    · exact ih entry hmem

theorem mapM_succeeds {α : Type} {f : α → Except ε Bool} {entries : List α}
    (h : ∀ entry ∈ entries, ∃ found, f entry = .ok found) :
    ∃ results, entries.mapM f = .ok results := by
  induction entries with
  | nil => exact ⟨[], rfl⟩
  | cons entry rest ih =>
    obtain ⟨found, hfound⟩ := h entry List.mem_cons_self
    obtain ⟨results, hresults⟩ := ih fun s hs => h s (List.mem_cons_of_mem _ hs)
    refine ⟨found :: results, ?_⟩
    rw [List.mapM_cons, hfound, hresults]
    rfl

theorem collect_succ : walk.collect (depth + 1) default schema = .ok found ↔
    ∃ own below, walk.read default schema = .ok own ∧
      schema.nestedSchemas.mapM (walk.collect depth walk.nested) = .ok below ∧
      (own || below.any id) = found := by
  simp only [collect, bind_eq_ok, pure_eq_ok]
  constructor
  · rintro ⟨own, hown, below, hbelow, hfound⟩
    exact ⟨own, below, hown, hbelow, hfound⟩
  · rintro ⟨own, below, hown, hbelow, hfound⟩
    exact ⟨own, hown, below, hbelow, hfound⟩

/-- A walk that succeeds finds the annotation where it stands, its own default at its root, and the
nested default below. -/
theorem collect_eq_true (h : walk.collect depth default schema = .ok found) :
    found = true ↔ walk.Marked default schema := by
  unfold Marked
  induction depth generalizing default schema found with
  | zero => cases h
  | succ depth ih =>
    obtain ⟨own, below, hown, hbelow, rfl⟩ := collect_succ.mp h
    have heach := mapM_each hbelow
    rw [Bool.or_eq_true, any_of_mapM hbelow]
    have hread : own = true ↔ walk.IsTrue schema ∨ walk.IsOmitted schema ∧ default = true := by
      rw [← read_eq_true, hown, Except.ok.injEq]
    rw [hread, or_assoc]
    refine or_congr_right (or_congr_right ?_)
    constructor
    · rintro ⟨child, hchild, hfound⟩
      rcases (ih hfound).mp rfl with htrue | ⟨homitted, hnested⟩ | ⟨sub, hsub, hmark⟩
      · exact ⟨child, below_iff.mpr ⟨child, hchild, .inl rfl⟩, .inl htrue⟩
      · exact ⟨child, below_iff.mpr ⟨child, hchild, .inl rfl⟩, .inr ⟨homitted, hnested⟩⟩
      · exact ⟨sub, below_iff.mpr ⟨child, hchild, .inr hsub⟩, hmark⟩
    · rintro ⟨sub, hsub, hmark⟩
      obtain ⟨child, hchild, hreach⟩ := below_iff.mp hsub
      obtain ⟨result, hresult⟩ := heach child hchild
      have hfound : result = true := by
        apply (ih hresult).mpr
        rcases hreach with rfl | hreach
        · exact hmark.imp_right .inl
        · exact .inr (.inr ⟨sub, hreach, hmark⟩)
      exact ⟨child, hchild, hfound ▸ hresult⟩

/-- Whether a walk gets through depends on the annotations and the depth, not on the defaults. -/
theorem collect_succeeds {other : Annotation ε} (hname : walk.name = other.name) {default' : Bool}
    (h : ∃ found, walk.collect depth default schema = .ok found) :
    ∃ found, other.collect depth default' schema = .ok found := by
  induction depth generalizing default default' schema with
  | zero =>
    obtain ⟨found, h⟩ := h
    cases h
  | succ depth ih =>
    obtain ⟨found, h⟩ := h
    obtain ⟨own, below, hown, hbelow, -⟩ := collect_succ.mp h
    have heach := mapM_each hbelow
    have hread : ∃ own', other.read default' schema = .ok own' := by
      unfold read at hown ⊢
      rw [← hname]
      cases hget : schema.get walk.name with
      | none => exact ⟨default', rfl⟩
      | some value =>
        rw [hget] at hown
        cases value with
        | bool value => exact ⟨value, rfl⟩
        | _ => cases hown
    have hmap : ∃ below', schema.nestedSchemas.mapM (other.collect depth other.nested) =
        .ok below' := by
      apply mapM_succeeds
      intro child hchild
      exact ih (heach child hchild)
    obtain ⟨own', hown'⟩ := hread
    obtain ⟨below', hbelow'⟩ := hmap
    exact ⟨_, collect_succ.mpr ⟨own', below', hown', hbelow', rfl⟩⟩

theorem collectFor_succ : walk.collectFor key (depth + 1) schema = .ok found ↔
    ∃ field others, ((schema.property key).elim (.ok false) (walk.collect depth walk.nested)) =
        .ok field ∧
      schema.branches.mapM (walk.collectFor key depth) = .ok others ∧
      (decide ((schema.get walk.name).bind Json.asBool = some true) || field ||
        others.any id) = found := by
  simp only [collectFor, bind_eq_ok, pure_eq_ok]
  constructor
  · rintro ⟨field, hfield, others, hothers, hfound⟩
    exact ⟨field, others, hfield, hothers, hfound⟩
  · rintro ⟨field, others, hfield, hothers, hfound⟩
    exact ⟨field, hfield, others, hothers, hfound⟩

/-- A walk for a property finds the annotation on a scope, or in what a scope says about it. -/
theorem collectFor_eq_true (h : walk.collectFor key depth schema = .ok found) :
    found = true ↔ ∃ scope, Scope schema scope ∧
      (walk.IsTrue scope ∨ ∃ field, scope.property key = some field ∧
        walk.Marked walk.nested field) := by
  induction depth generalizing schema found with
  | zero => cases h
  | succ depth ih =>
    obtain ⟨field, others, hfield, hothers, rfl⟩ := collectFor_succ.mp h
    have heach := mapM_each hothers
    have hhere : field = true ↔
        ∃ value, schema.property key = some value ∧ walk.Marked walk.nested value := by
      cases hproperty : schema.property key with
      | none =>
        rw [hproperty] at hfield
        cases hfield
        simp
      | some value =>
        rw [hproperty] at hfield
        rw [collect_eq_true hfield]
        simp
    have htrue : (schema.get walk.name).bind Json.asBool = some true ↔ walk.IsTrue schema := by
      simp [Option.bind_eq_some_iff, IsTrue]
    rw [Bool.or_eq_true, Bool.or_eq_true, decide_eq_true_eq, htrue, hhere, any_of_mapM hothers]
    constructor
    · rintro (hself | ⟨branch, hbranch, hfound⟩)
      · exact ⟨schema, .refl, hself⟩
      · obtain ⟨scope, hscope, hmark⟩ := (ih hfound).mp rfl
        exact ⟨scope, scope_iff.mpr (.inr ⟨branch, hbranch, hscope⟩), hmark⟩
    · rintro ⟨scope, hscope, hmark⟩
      rcases scope_iff.mp hscope with rfl | ⟨branch, hbranch, hscope⟩
      · exact .inl hmark
      · obtain ⟨result, hresult⟩ := heach branch hbranch
        have hfound : result = true := (ih hresult).mpr ⟨scope, hscope, hmark⟩
        exact .inr ⟨branch, hbranch, hfound ▸ hresult⟩

theorem collectFor_succeeds {other : Annotation ε} (hname : walk.name = other.name)
    (h : ∃ found, walk.collectFor key depth schema = .ok found) :
    ∃ found, other.collectFor key depth schema = .ok found := by
  induction depth generalizing schema with
  | zero =>
    obtain ⟨found, h⟩ := h
    cases h
  | succ depth ih =>
    obtain ⟨found, h⟩ := h
    obtain ⟨field, others, hfield, hothers, -⟩ := collectFor_succ.mp h
    have hfield' : ∃ field', (schema.property key).elim (.ok false)
        (other.collect depth other.nested) = .ok field' := by
      cases hproperty : schema.property key with
      | none => exact ⟨false, rfl⟩
      | some value =>
        rw [hproperty] at hfield
        exact collect_succeeds hname ⟨field, hfield⟩
    have hothers' : ∃ others', schema.branches.mapM (other.collectFor key depth) = .ok others' := by
      apply mapM_succeeds
      intro branch hbranch
      exact ih (mapM_each hothers branch hbranch)
    obtain ⟨field', hfield'⟩ := hfield'
    obtain ⟨others', hothers'⟩ := hothers'
    exact ⟨_, collectFor_succ.mpr ⟨field', others', hfield', hothers', rfl⟩⟩

/-- A walk that starts deeper than another gets through when the other does. -/
theorem collect_deeper (h : ∃ found, walk.collect depth default schema = .ok found) :
    ∃ found, walk.collect (depth + 1) default schema = .ok found := by
  induction depth generalizing default schema with
  | zero =>
    obtain ⟨found, h⟩ := h
    cases h
  | succ depth ih =>
    obtain ⟨found, h⟩ := h
    obtain ⟨own, below, hown, hbelow, -⟩ := collect_succ.mp h
    have hmap : ∃ below', schema.nestedSchemas.mapM (walk.collect (depth + 1) walk.nested) =
        .ok below' := by
      apply mapM_succeeds
      intro child hchild
      exact ih (mapM_each hbelow child hchild)
    obtain ⟨below', hbelow'⟩ := hmap
    exact ⟨_, collect_succ.mpr ⟨own, below', hown, hbelow', rfl⟩⟩

end Annotation

end Shaula.Library
