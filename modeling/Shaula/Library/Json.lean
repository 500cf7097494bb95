import Mathlib.Algebra.Group.Int.Defs
import Mathlib.Algebra.Group.Nat.Defs
import Mathlib.Data.List.Basic

/-! # JSON values

Values as a reader returns them: an object is the list of its members, and a lookup that meets
another kind of value finds nothing.
-/

namespace Shaula.Library

/-- A number: an integer, or a floating point number as the shortest text that is read as it. -/
inductive Number where
  | integer (value : Int)
  | float (text : String)
  deriving DecidableEq

inductive Json where
  | null
  | bool (value : Bool)
  | number (value : Number)
  | string (value : String)
  | array (items : List Json)
  | object (members : List (String × Json))

namespace Json

/-- The member of an object under `key`. -/
def get (value : Json) (key : String) : Option Json :=
  match value with
  | .object members => (members.find? fun member => member.1 = key).map (·.2)
  | _ => none

def asStr : Json → Option String
  | .string value => some value
  | _ => none

def asBool : Json → Option Bool
  | .bool value => some value
  | _ => none

def asArray : Json → Option (List Json)
  | .array items => some items
  | _ => none

def isObject : Json → Bool
  | .object _ => true
  | _ => false

def isNull : Json → Bool
  | .null => true
  | _ => false

/-- The text an object has under `key`. -/
def strAt (value : Json) (key : String) : Option String := (value.get key).bind asStr

/-- The items of the array an object has under `key`; none when there is no array. -/
def itemsAt (value : Json) (key : String) : List Json := ((value.get key).bind asArray).getD []

/-- Whether an object has something other than `null` under `key`. -/
def present (value : Json) (key : String) : Bool := (value.get key).any fun member => !member.isNull

mutual

/-- How deeply a value is nested: the arrays and objects around its innermost part. -/
def depth : Json → Nat
  | .array items => 1 + depthItems items
  | .object members => 1 + depthMembers members
  | _ => 0

def depthItems : List Json → Nat
  | [] => 0
  | item :: rest => max (depth item) (depthItems rest)

def depthMembers : List (String × Json) → Nat
  | [] => 0
  | (_, value) :: rest => max (depth value) (depthMembers rest)

end

/-! ## Reading structures -/

def asObject : Json → Option (List (String × Json))
  | .object members => some members
  | _ => none

def asU64 : Json → Option UInt64
  | .number (.integer n) => if 0 ≤ n ∧ n < 2 ^ 64 then some (.ofNat n.toNat) else none
  | _ => none

def asU32 : Json → Option Nat
  | .number (.integer n) => if 0 ≤ n ∧ n < 2 ^ 32 then some n.toNat else none
  | _ => none

def asI64 : Json → Option Int64
  | .number (.integer n) => if -2 ^ 63 ≤ n ∧ n < 2 ^ 63 then some (.ofInt n) else none
  | _ => none

def asStrings (value : Json) : Option (List String) := value.asArray.bind fun items => items.mapM asStr

/-- A member that has to be there. -/
def required {α : Type} (value : Json) (key : String) (read : Json → Option α) : Option α :=
  (value.get key).bind read

/-- A member that may be missing or null. -/
def optional {α : Type} (value : Json) (key : String) (read : Json → Option α) :
    Option (Option α) :=
  match value.get key with
  | none | some .null => some none
  | some member => (read member).map some

/-- A member with a value to take when it is missing. -/
def defaulted {α : Type} (value : Json) (key : String) (fallback : α) (read : Json → Option α) :
    Option α :=
  match value.get key with
  | none => some fallback
  | some member => read member

/-- Whether a value is an object of no other members than these. -/
def onlyKeys (keys : List String) : Json → Bool
  | .object members => members.all fun member => member.1 ∈ keys
  | _ => false

/-- The members an optional field is written as. -/
def memberOf (key : String) (value : Option Json) : List (String × Json) :=
  match value with
  | some member => [(key, member)]
  | none => []

/-! ## Lookups -/

variable {value member item : Json} {items : List Json} {key : String}

@[simp] theorem asStr_eq_some {s : String} : value.asStr = some s ↔ value = .string s := by
  cases value <;> simp [asStr]

@[simp] theorem asBool_eq_some {b : Bool} : value.asBool = some b ↔ value = .bool b := by
  cases value <;> simp [asBool]

@[simp] theorem asArray_eq_some : value.asArray = some items ↔ value = .array items := by
  cases value <;> simp [asArray]

theorem strAt_eq_some {s : String} :
    value.strAt key = some s ↔ value.get key = some (.string s) := by
  simp [strAt, Option.bind_eq_some_iff]

/-! ## Objects by their members -/

/-- The member under `key`. -/
def lookup (members : List (String × Json)) (key : String) : Option Json :=
  (Json.object members).get key

@[simp] theorem get_object (members : List (String × Json)) :
    (Json.object members).get key = lookup members key := rfl

@[simp] theorem lookup_nil : lookup [] key = none := rfl

@[simp] theorem lookup_cons (name : String) (rest : List (String × Json)) :
    lookup ((name, value) :: rest) key = if name = key then some value else lookup rest key := by
  by_cases h : name = key <;> simp [lookup, get, h]

@[simp] theorem lookup_append (first rest : List (String × Json)) :
    lookup (first ++ rest) key = (lookup first key).or (lookup rest key) := by
  simp only [lookup, get, List.find?_append]
  cases first.find? fun member => member.1 = key <;> simp

@[simp] theorem lookup_memberOf (name : String) (field : Option Json) :
    lookup (memberOf name field) key = if name = key then field else none := by
  cases field with
  | none => simp [memberOf]
  | some member => simp [memberOf]

/-- Members under known names. -/
def Known (keys : List String) (members : List (String × Json)) : Prop :=
  ∀ member ∈ members, member.1 ∈ keys

@[simp] theorem known_append {keys : List String} {first rest : List (String × Json)} :
    Known keys (first ++ rest) ↔ Known keys first ∧ Known keys rest := by
  simp only [Known, List.mem_append]
  constructor
  · intro h
    exact ⟨fun member hmem => h member (.inl hmem), fun member hmem => h member (.inr hmem)⟩
  · rintro ⟨hfirst, hrest⟩ member (hmem | hmem)
    · exact hfirst member hmem
    · exact hrest member hmem

theorem known_memberOf {keys : List String} {name : String} {field : Option Json}
    (h : name ∈ keys) : Known keys (memberOf name field) := by
  cases field with
  | none => simp [Known, memberOf]
  | some member => simp [Known, memberOf, h]

theorem onlyKeys_object {keys : List String} {members : List (String × Json)} :
    onlyKeys keys (.object members) = true ↔ Known keys members := by
  simp [onlyKeys, Known]

section Fields

variable {α : Type} {field : Option α} {encode : α → Json} {read : Json → Option α}

theorem required_encoded {a : α} (hget : value.get key = some member)
    (hread : read member = some a) : required value key read = some a := by
  rw [required, hget, Option.bind_some, hread]

/-- An optional field is read back from the member it is written as. -/
theorem optional_encoded (hget : value.get key = field.map encode)
    (hnull : ∀ a, encode a ≠ .null) (hread : ∀ a, field = some a → read (encode a) = some a) :
    optional value key read = some field := by
  cases field with
  | none => simp [optional, hget]
  | some a =>
    have hself := hread a rfl
    have hvalue := hnull a
    simp only [optional, hget, Option.map_some]
    cases hencoded : encode a <;> simp_all

theorem defaulted_encoded (hget : value.get key = field.map encode)
    (hread : ∀ a, field = some a → read (encode a) = some a) :
    defaulted value key none (fun member => (read member).map some) = some field := by
  cases field with
  | none => simp [defaulted, hget]
  | some a => simp [defaulted, hget, hread a rfl]

end Fields

/-! ## Depth -/

@[simp] theorem depthMembers_append (first rest : List (String × Json)) :
    depthMembers (first ++ rest) = max (depthMembers first) (depthMembers rest) := by
  induction first with
  | nil => simp [depthMembers]
  | cons member first ih =>
    obtain ⟨name, value⟩ := member
    simp only [List.cons_append, depthMembers, ih, Nat.max_assoc]

theorem depthItems_le {items : List Json} {n : Nat} (h : ∀ item ∈ items, item.depth ≤ n) :
    depthItems items ≤ n := by
  induction items with
  | nil => exact Nat.zero_le n
  | cons item rest ih =>
    rw [depthItems]
    exact Nat.max_le.mpr ⟨h item List.mem_cons_self, ih fun i hi => h i (List.mem_cons_of_mem _ hi)⟩

theorem depthMembers_memberOf_le {name : String} {field : Option Json} {n : Nat}
    (h : ∀ member, field = some member → member.depth ≤ n) :
    depthMembers (memberOf name field) ≤ n := by
  cases field with
  | none => exact Nat.zero_le n
  | some member => simpa [memberOf, depthMembers] using h member rfl

theorem mem_itemsAt :
    item ∈ value.itemsAt key ↔ ∃ items, value.get key = some (.array items) ∧ item ∈ items := by
  unfold itemsAt
  cases hget : value.get key with
  | none => simp
  | some member => cases member <;> simp [asArray]

theorem itemsAt_eq (h : value.get key = some (.array items)) : value.itemsAt key = items := by
  simp [itemsAt, h, asArray]

/-- A member is part of the object it is looked up in. -/
theorem sizeOf_get (h : value.get key = some member) : sizeOf member < sizeOf value := by
  cases value with
  | object members =>
    simp only [get, Option.map_eq_some_iff] at h
    obtain ⟨pair, hpair, rfl⟩ := h
    have hlt := List.sizeOf_lt_of_mem (List.mem_of_find?_eq_some hpair)
    have hpart : sizeOf pair.2 < sizeOf pair := by
      obtain ⟨name, member⟩ := pair
      simp only [Prod.mk.sizeOf_spec]
      omega
    simp only [object.sizeOf_spec]
    omega
  | _ => cases h

theorem sizeOf_mem_array (h : value = .array items) (hitem : item ∈ items) :
    sizeOf item < sizeOf value := by
  subst h
  have hlt := List.sizeOf_lt_of_mem hitem
  simp only [array.sizeOf_spec]
  omega

end Json

end Shaula.Library
