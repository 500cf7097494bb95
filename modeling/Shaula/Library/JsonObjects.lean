import Shaula.Library.Json
import Mathlib.Data.List.Nodup

/-! # Objects as maps

A reader of JSON keeps one member for each key.  Then the member found under a key is the only one.
-/

namespace Shaula.Library.Json

mutual

/-- No object in the value has a key twice. -/
def Distinct : Json → Prop
  | .array items => DistinctItems items
  | .object members => (members.map Prod.fst).Nodup ∧ DistinctMembers members
  | _ => True

def DistinctItems : List Json → Prop
  | [] => True
  | item :: rest => Distinct item ∧ DistinctItems rest

def DistinctMembers : List (String × Json) → Prop
  | [] => True
  | (_, value) :: rest => Distinct value ∧ DistinctMembers rest

end

variable {value member : Json} {members : List (String × Json)} {key : String}

theorem mem_of_lookup (h : lookup members key = some member) : (key, member) ∈ members := by
  simp only [lookup, get, Option.map_eq_some_iff] at h
  obtain ⟨pair, hpair, rfl⟩ := h
  have hkey := List.find?_some hpair
  rw [decide_eq_true_eq] at hkey
  rw [← hkey]
  exact List.mem_of_find?_eq_some hpair

theorem lookup_isSome : (lookup members key).isSome = true ↔ ∃ value, (key, value) ∈ members := by
  constructor
  · intro h
    obtain ⟨value, hvalue⟩ := Option.isSome_iff_exists.mp h
    exact ⟨value, mem_of_lookup hvalue⟩
  · rintro ⟨value, hmem⟩
    simp only [lookup, get, Option.isSome_map, List.find?_isSome, decide_eq_true_eq]
    exact ⟨_, hmem, rfl⟩

theorem lookup_of_mem (hdistinct : (members.map Prod.fst).Nodup) (hmem : (key, member) ∈ members) :
    lookup members key = some member := by
  obtain ⟨found, hfound⟩ := Option.isSome_iff_exists.mp (lookup_isSome.mpr ⟨member, hmem⟩)
  have hsame := List.inj_on_of_nodup_map hdistinct hmem (mem_of_lookup hfound) rfl
  rw [hfound, (Prod.mk.inj hsame).2]

theorem distinct_of_mem (h : DistinctMembers members) (hmem : (key, member) ∈ members) :
    Distinct member := by
  induction members with
  | nil => cases hmem
  | cons first rest ih =>
    obtain ⟨name, value⟩ := first
    rcases List.mem_cons.mp hmem with heq | hmem
    · cases heq
      exact h.1
    · exact ih h.2 hmem

theorem Distinct.get (h : value.Distinct) (hget : value.get key = some member) :
    member.Distinct := by
  cases value with
  | object members => exact distinct_of_mem h.2 (mem_of_lookup hget)
  | _ => cases hget

theorem Distinct.nodup (h : (Json.object members).Distinct) : (members.map Prod.fst).Nodup := h.1

end Shaula.Library.Json
