import Shaula.Library.Table
import Mathlib.Algebra.GroupWithZero.Nat

/-! # Sweeping tables and counting their rows

`HashMap::retain` and `HashMap::len` of a keyed table: what a sweep leaves to find, and how inserts,
deletes and sweeps change the number of rows.  Of a table of numbers, how they change the sum.
-/

namespace Shaula.Library.Table

variable {κ ρ : Type*} [DecidableEq κ]

/-- Keep the rows that meet the condition. -/
def retain (t : Table κ ρ) (p : κ → ρ → Bool) : Table κ ρ where
  entries := t.entries.filter fun e => p e.1 e.2
  nodupKeys := t.nodupKeys.sublist List.filter_sublist

/-- The number of rows. -/
def size (t : Table κ ρ) : Nat := t.entries.length

omit [DecidableEq κ] in
@[simp] theorem size_empty : (∅ : Table κ ρ).size = 0 := rfl

@[simp] theorem find_retain (t : Table κ ρ) (p : κ → ρ → Bool) (k : κ) :
    (t.retain p).find k = (t.find k).filter fun r => p k r := by
  ext r
  have hmem : Sigma.mk k r ∈ (t.retain p).entries ↔ Sigma.mk k r ∈ t.entries ∧ p k r = true := by
    simp [retain, List.mem_filter]
  have hfind : ∀ t : Table κ ρ, t.find k = some r ↔ Sigma.mk k r ∈ t.entries :=
    fun t => (List.mem_dlookup_iff t.nodupKeys)
  rw [hfind, hmem, ← hfind]
  simp [Option.filter_eq_some_iff]

omit [DecidableEq κ] in
theorem size_retain_le (t : Table κ ρ) (p : κ → ρ → Bool) : (t.retain p).size ≤ t.size :=
  List.length_filter_le _ _

theorem size_delete_le (t : Table κ ρ) (k : κ) : (t.delete k).size ≤ t.size :=
  (List.kerase_sublist k t.entries).length_le

theorem size_put_le (t : Table κ ρ) (k : κ) (r : ρ) : (t.put k r).size ≤ t.size + 1 := by
  change (List.kinsert k r t.entries).length ≤ t.entries.length + 1
  exact Nat.succ_le_succ (List.kerase_sublist k t.entries).length_le

/-- Writing the row of a taken key adds no row. -/
theorem size_put_of_find (t : Table κ ρ) {k : κ} {r r' : ρ} (h : t.find k = some r') :
    (t.put k r).size = t.size := by
  have hmem : k ∈ t.entries.keys := by
    refine List.dlookup_isSome.mp ?_
    have hlookup : t.entries.dlookup k = some r' := h
    rw [hlookup]
    rfl
  obtain ⟨r₀, before, after, -, hentries, herase⟩ := List.exists_of_kerase hmem
  change (List.kerase k t.entries).length + 1 = t.entries.length
  rw [herase, hentries, List.length_append, List.length_append, List.length_cons, Nat.add_assoc]

/-! ## Sums -/

section Total

variable {t : Table κ Nat} {k : κ} {n : Nat}

omit [DecidableEq κ] in
/-- The sum of a table of numbers. -/
def total (t : Table κ Nat) : Nat := (t.entries.map fun e => e.2).sum

omit [DecidableEq κ] in
@[simp] theorem total_empty : (∅ : Table κ Nat).total = 0 := rfl

/-- A row and the others. -/
theorem total_delete_add (h : t.find k = some n) : (t.delete k).total + n = t.total := by
  have hmem : k ∈ t.entries.keys := List.dlookup_isSome.mp (Option.isSome_iff_exists.mpr ⟨n, h⟩)
  obtain ⟨m, before, after, hbefore, hentries, herase⟩ := List.exists_of_kerase hmem
  have hrow : m = n := by
    have hlookup : List.dlookup k t.entries = some n := h
    rw [hentries, List.dlookup_append, List.dlookup_eq_none.mpr hbefore] at hlookup
    simpa using hlookup
  show ((List.kerase k t.entries).map fun e => e.2).sum + n = (t.entries.map fun e => e.2).sum
  rw [herase, hentries, hrow]
  simp only [List.map_append, List.map_cons, List.sum_append, List.sum_cons]
  omega

theorem total_delete_of_none (h : t.find k = none) : (t.delete k).total = t.total := by
  have hmem : k ∉ t.entries.keys := List.dlookup_eq_none.mp h
  show ((List.kerase k t.entries).map fun e => e.2).sum = _
  rw [List.kerase_of_notMem_keys hmem]
  rfl

theorem total_delete_le (t : Table κ Nat) (k : κ) : (t.delete k).total ≤ t.total := by
  cases h : t.find k with
  | none => exact Nat.le_of_eq (total_delete_of_none h)
  | some n => exact Nat.le_trans (Nat.le_add_right _ n) (Nat.le_of_eq (total_delete_add h))

theorem total_put (t : Table κ Nat) (k : κ) (n : Nat) : (t.put k n).total = n + (t.delete k).total :=
  rfl

end Total

end Shaula.Library.Table
