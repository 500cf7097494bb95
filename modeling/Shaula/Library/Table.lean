import Mathlib.Data.List.AList
import Mathlib.Data.List.MinMax

/-! # Keyed tables

A table of a relational store: finitely many rows, at most one for each primary key.  The
statements a store runs on one are lookups by key, inserts that refuse a taken key, and updates of
all rows that meet a condition; each has one lemma saying what every lookup returns afterwards.
-/

namespace Shaula.Library

/-- Finitely many rows `ρ`, at most one for each key `κ`. -/
abbrev Table (κ ρ : Type*) := AList fun _ : κ => ρ

namespace Table

variable {κ ρ : Type*} [DecidableEq κ]

/-- `SELECT .. WHERE key = k`. -/
def find (t : Table κ ρ) (k : κ) : Option ρ := t.lookup k

/-- Write the row at `k`, whether or not there was one. -/
def put (t : Table κ ρ) (k : κ) (r : ρ) : Table κ ρ := t.insert k r

/-- `INSERT`: a key that is already taken violates the primary key. -/
def create (t : Table κ ρ) (k : κ) (r : ρ) : Option (Table κ ρ) :=
  match t.find k with
  | some _ => none
  | none => some (t.put k r)

/-- `INSERT .. ON CONFLICT DO NOTHING`. -/
def createIfAbsent (t : Table κ ρ) (k : κ) (r : ρ) : Table κ ρ :=
  match t.find k with
  | some _ => t
  | none => t.put k r

/-- `DELETE .. WHERE key = k`. -/
def delete (t : Table κ ρ) (k : κ) : Table κ ρ := t.erase k

/-- `UPDATE .. SET f WHERE p` over all rows. -/
def update (t : Table κ ρ) (p : κ → ρ → Bool) (f : ρ → ρ) : Table κ ρ where
  entries := t.entries.map (Sigma.map id fun k r => if p k r then f r else r)
  nodupKeys := List.NodupKeys.map₂ _ _ t.nodupKeys

/-- The rows, with their keys. -/
def rows (t : Table κ ρ) : List (κ × ρ) := t.entries.map fun e => (e.1, e.2)

/-- `SELECT COUNT(*) .. WHERE p`. -/
def count (t : Table κ ρ) (p : κ → ρ → Bool) : Nat := t.entries.countP fun e => p e.1 e.2

/-- `SELECT .. WHERE key = k AND p ORDER BY number DESC LIMIT 1`. -/
def latestWhere (t : Table (κ × Int) ρ) (k : κ) (p : Int → Bool) : Option (Int × ρ) :=
  @List.argmax _ _ Int.instLinearOrder.toPreorder Int.instLinearOrder.toDecidableLT Prod.fst
    ((t.rows.filter fun e => e.1.1 = k && p e.1.2).map fun e => (e.1.2, e.2))

/-- The version of the largest number. -/
def latest (t : Table (κ × Int) ρ) (k : κ) : Option (Int × ρ) := t.latestWhere k fun _ => true

/-- The version of the largest number below `n`. -/
def latestBelow (t : Table (κ × Int) ρ) (k : κ) (n : Int) : Option (Int × ρ) :=
  t.latestWhere k fun m => m < n

@[simp] theorem find_empty (k : κ) : (∅ : Table κ ρ).find k = none := rfl

@[simp] theorem find_put (t : Table κ ρ) (k k' : κ) (r : ρ) :
    (t.put k r).find k' = if k' = k then some r else t.find k' := by
  by_cases h : k' = k
  · subst h
    simp [find, put]
  · simp [find, put, h]

@[simp] theorem find_createIfAbsent (t : Table κ ρ) (k k' : κ) (r : ρ) :
    (t.createIfAbsent k r).find k' = (t.find k').or (if k' = k then some r else none) := by
  unfold createIfAbsent
  by_cases h : k' = k
  · subst h
    cases hfind : t.find k' <;> simp [hfind]
  · cases t.find k <;> simp [h]

@[simp] theorem find_delete (t : Table κ ρ) (k k' : κ) :
    (t.delete k).find k' = if k' = k then none else t.find k' := by
  by_cases h : k' = k
  · subst h
    simp [find, delete]
  · simp [find, delete, h]

@[simp] theorem find_update (t : Table κ ρ) (p : κ → ρ → Bool) (f : ρ → ρ) (k : κ) :
    (t.update p f).find k = (t.find k).map fun r => if p k r then f r else r :=
  List.dlookup_map₂ k

theorem create_eq_some {t t' : Table κ ρ} {k : κ} {r : ρ} :
    t.create k r = some t' ↔ t.find k = none ∧ t' = t.put k r := by
  unfold create
  cases t.find k <;> simp [eq_comm]

theorem mem_rows {t : Table κ ρ} {k : κ} {r : ρ} : (k, r) ∈ t.rows ↔ t.find k = some r := by
  constructor
  · intro h
    obtain ⟨⟨k₀, r₀⟩, he, heq⟩ := List.mem_map.mp h
    obtain ⟨rfl, rfl⟩ := Prod.mk.inj heq
    exact AList.mem_lookup_iff.mpr he
  · intro h
    exact List.mem_map.mpr ⟨⟨k, r⟩, AList.mem_lookup_iff.mp h, rfl⟩

omit [DecidableEq κ] in
theorem nodup_keys (t : Table κ ρ) : (t.rows.map Prod.fst).Nodup := by
  have heq : t.rows.map Prod.fst = t.entries.keys := by
    unfold rows
    rw [List.map_map]
    rfl
  exact heq ▸ t.nodupKeys

omit [DecidableEq κ] in
theorem nodup_rows (t : Table κ ρ) : t.rows.Nodup := t.nodup_keys.of_map

theorem count_put {t : Table κ ρ} {k : κ} {r : ρ} {p : κ → ρ → Bool} (h : t.find k = none) :
    (t.put k r).count p = t.count p + if p k r then 1 else 0 := by
  have hkeys : k ∉ t.entries.keys := AList.lookup_eq_none.mp h
  have hentries : (t.put k r).entries = ⟨k, r⟩ :: t.entries := by
    rw [put, AList.entries_insert, List.kerase_of_notMem_keys hkeys]
  rw [count, hentries, List.countP_cons]
  rfl

/-! ## Constrained rows

A table whose rows carry a `CHECK` constraint `C`.  An update that would leave a row violating it
fails as a statement, so no stored row ever does. -/

variable {C : ρ → Prop} [DecidablePred C]

/-- `UPDATE .. SET f WHERE key = k AND p`, with the number of rows affected; `none` when the new row
violates the constraint. -/
def amend (t : Table κ {r : ρ // C r}) (k : κ) (p : ρ → Bool) (f : ρ → ρ) :
    Option (Table κ {r : ρ // C r} × Nat) :=
  match t.find k with
  | none => some (t, 0)
  | some r =>
    if p r then if h : C (f r) then some (t.put k ⟨f r, h⟩, 1) else none
    else some (t, 0)

/-- An update that affected a row replaced the one row there was, which met the condition. -/
theorem amend_eq_some_one {t t' : Table κ {r : ρ // C r}} {k : κ} {p : ρ → Bool} {f : ρ → ρ}
    (h : t.amend k p f = some (t', 1)) :
    ∃ r, t.find k = some r ∧ p r ∧ ∃ hf : C (f r), t' = t.put k ⟨f r, hf⟩ := by
  unfold amend at h
  split at h
  · cases h
  · next r hr =>
    split at h
    · next hp =>
      split at h
      · next hf =>
        cases h
        exact ⟨r, hr, hp, hf, rfl⟩
      · cases h
    · cases h

/-- An update found no row to change, or replaced the one row there was. -/
theorem amend_eq_some {t t' : Table κ {r : ρ // C r}} {k : κ} {p : ρ → Bool} {f : ρ → ρ} {n : Nat}
    (h : t.amend k p f = some (t', n)) :
    (t' = t ∧ ∀ r, t.find k = some r → p r = false) ∨
      ∃ r, t.find k = some r ∧ p r ∧ ∃ hf : C (f r), t' = t.put k ⟨f r, hf⟩ := by
  unfold amend at h
  split at h
  · next hnone =>
    cases h
    exact .inl ⟨rfl, by simp [hnone]⟩
  · next r hr =>
    split at h
    · next hp =>
      split at h
      · next hf =>
        cases h
        exact .inr ⟨r, hr, hp, hf, rfl⟩
      · cases h
    · next hp =>
      cases h
      refine .inl ⟨rfl, fun r' hr' => ?_⟩
      cases Option.some.inj (hr.symm.trans hr')
      simpa using hp

end Table

end Shaula.Library
