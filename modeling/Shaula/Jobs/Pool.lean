import Mathlib.Data.List.Sort
import Mathlib.Data.Prod.Lex
import Mathlib.Data.String.Basic
import Shaula.Library.Table
import Shaula.Store.Request

/-! # Asking for records in turn

Records without a result are asked for at the provider, a bounded number at a time, those that were
asked for longest ago first.
-/

namespace Shaula

open Library Library.Outcome

namespace Jobs

def saturatingSub (a b : Int) : Int := max (a - b) (-2 ^ 63)

/-- A stored identity that was written as a positive number. -/
def decimalId (problem : String) (id : Nat) : StoreResult Nat := do
  ensure (0 < id) (.corrupt problem)
  return id

section

variable {ρ : Type} (asked : ρ → Option Int) (createdAt : ρ → Int)

/-- What records are ordered by. -/
def turnKey (e : String × ρ) : Int ×ₗ Int ×ₗ String :=
  toLex ((asked e.2).getD 0, toLex (createdAt e.2, e.1))

/-- The first records, in turn, that meet a condition. -/
def inTurn (p : ρ → Bool) (limit : Nat) (t : Table String ρ) : List (String × ρ) :=
  ((t.rows.filter fun e => p e.2).insertionSort
    fun e e' => turnKey asked createdAt e ≤ turnKey asked createdAt e').take limit

variable {asked createdAt} {p : ρ → Bool} {limit : Nat} {t : Table String ρ}

/-- Each record is asked for once, as it is stored. -/
theorem inTurn_spec :
    (∀ e ∈ inTurn asked createdAt p limit t, t.find e.1 = some e.2) ∧
      ((inTurn asked createdAt p limit t).map (·.1)).Nodup := by
  have hmem : ∀ e ∈ inTurn asked createdAt p limit t, t.find e.1 = some e.2 := by
    intro e he
    have hsorted := List.mem_of_mem_take he
    rw [List.mem_insertionSort, List.mem_filter] at hsorted
    exact Table.mem_rows.mp hsorted.1
  refine ⟨hmem, List.Nodup.map_on ?_ ?_⟩
  · intro e he e' he' hkey
    have hrow := hmem e he
    rw [hkey, hmem e' he'] at hrow
    exact Prod.ext hkey (Option.some.inj hrow.symm)
  · apply List.Nodup.sublist (List.take_sublist _ _)
    rw [(List.perm_insertionSort _ _).nodup_iff]
    exact (Table.nodup_rows _).filter _

end

end Jobs

end Shaula
