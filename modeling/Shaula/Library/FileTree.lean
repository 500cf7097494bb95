import Shaula.Library.Outcome
import Shaula.Library.Table
import Mathlib.Data.List.Nodup
import Mathlib.Data.List.Infix

/-! # Directory trees

The entries below a directory, by their paths.  A walk lists every entry once, a directory before
what is in it; files can be removed at any time, and directories in the opposite order of a walk.
-/

namespace Shaula.Library

inductive Entry (φ : Type) where
  | file (f : φ)
  | directory (readable : Bool)
  /-- A link or a device. -/
  | other
  deriving DecidableEq

/-- What is below a directory.  Every path leads through directories. -/
structure FileTree (ν φ : Type) [DecidableEq ν] where
  /-- The directory itself can be read. -/
  readable : Bool
  entries : Table (List ν) (Entry φ)
  rooted : ∀ path ∈ entries.keys, path ≠ [] ∧
    (path.dropLast = [] ∨ ∃ readable, entries.find path.dropLast = some (.directory readable))

namespace FileTree

section Names

variable {ν : Type}

theorem dropLast_append_getLast? {path : List ν} {name : ν} (h : path.getLast? = some name) :
    path = path.dropLast ++ [name] := by
  obtain ⟨before, rfl⟩ := List.getLast?_eq_some_iff.mp h
  simp

end Names

variable {ν φ : Type} [DecidableEq ν] (t t' : FileTree ν φ)

def find (path : List ν) : Option (Entry φ) := t.entries.find path

/-- The names in a directory, in the order in which they are read. -/
def names (dir : List ν) : List ν :=
  t.entries.keys.filterMap fun path => if path.dropLast = dir then path.getLast? else none

def readableAt (dir : List ν) : Bool :=
  if dir = [] then t.readable
  else match t.find dir with
    | some (.directory readable) => readable
    | _ => false

def readDir (dir : List ν) : Option (List ν) :=
  if t.readableAt dir then some (t.names dir) else none

/-- The paths below a directory, to a depth. -/
def walk : Nat → List ν → List (List ν)
  | 0, _ => []
  | depth + 1, dir =>
    (t.names dir).flatMap fun name => (dir ++ [name]) :: walk depth (dir ++ [name])

/-- Nothing was added. -/
structure Within : Prop where
  readable : t.readable = t'.readable
  find : ∀ path entry, t.find path = some entry → t'.find path = some entry

variable {t t'} {path path' dir : List ν} {name : ν} {entry : Entry φ}

theorem mem_keys : path ∈ t.entries.keys ↔ (t.find path).isSome = true :=
  AList.lookup_isSome.symm

theorem ne_nil_of_find (h : t.find path = some entry) : path ≠ [] :=
  (t.rooted path (mem_keys.mpr (h ▸ rfl))).1

theorem mem_names : name ∈ t.names dir ↔ (t.find (dir ++ [name])).isSome = true := by
  unfold names
  rw [List.mem_filterMap, ← mem_keys]
  constructor
  · rintro ⟨path, hpath, hname⟩
    split at hname
    · next hdir =>
      subst hdir
      rw [← dropLast_append_getLast? hname]
      exact hpath
    · cases hname
  · intro hpath
    exact ⟨dir ++ [name], hpath, by simp⟩

theorem nodup_names (t : FileTree ν φ) (dir : List ν) : (t.names dir).Nodup := by
  refine List.Nodup.filterMap (fun p q name hp hq => ?_) t.entries.keys_nodup
  split at hp
  · next hdir =>
    split at hq
    · next hdir' =>
      rw [dropLast_append_getLast? hp, dropLast_append_getLast? hq, hdir, hdir']
    · cases hq
  · cases hp

/-- Only directories have something below them. -/
theorem names_eq_nil (hpath : dir ≠ []) (h : ∀ readable, t.find dir ≠ some (.directory readable)) :
    t.names dir = [] := by
  rw [List.eq_nil_iff_forall_not_mem]
  intro name hname
  have hrooted := (t.rooted _ (mem_keys.mpr (mem_names.mp hname))).2
  rw [List.dropLast_concat] at hrooted
  obtain hnil | ⟨readable, hdir⟩ := hrooted
  · exact hpath hnil
  · exact h readable hdir

/-! ## Walks -/

/-- What is above an entry is an entry. -/
theorem find_above {rest : List ν} (h : (t.find (dir ++ name :: rest)).isSome = true) :
    (t.find (dir ++ [name])).isSome = true := by
  induction rest using List.reverseRecOn with
  | nil => exact h
  | append_singleton rest last ih =>
    have hrooted := (t.rooted _ (mem_keys.mpr h)).2
    rw [← List.cons_append, ← List.append_assoc, List.dropLast_concat] at hrooted
    obtain hnil | ⟨readable, hdir⟩ := hrooted
    · simp at hnil
    · apply ih
      rw [show t.find _ = _ from hdir]
      rfl

theorem mem_walk_succ {depth : Nat} : path ∈ t.walk (depth + 1) dir ↔
    ∃ name ∈ t.names dir, path = dir ++ [name] ∨ path ∈ t.walk depth (dir ++ [name]) := by
  simp [walk, List.mem_flatMap]

/-- A walk meets what is below the directory, as deep as it goes. -/
theorem mem_walk {depth : Nat} : path ∈ t.walk depth dir ↔
    (t.find path).isSome = true ∧ (∃ name rest, path = dir ++ name :: rest) ∧
      path.length ≤ dir.length + depth := by
  induction depth generalizing dir with
  | zero =>
    constructor
    · intro h
      cases h
    · rintro ⟨-, ⟨name, rest, rfl⟩, hlength⟩
      rw [List.length_append, List.length_cons] at hlength
      omega
  | succ depth ih =>
    rw [mem_walk_succ]
    constructor
    · rintro ⟨name, hname, rfl | hpath⟩
      · refine ⟨mem_names.mp hname, ⟨name, [], rfl⟩, ?_⟩
        rw [List.length_append, List.length_singleton]
        omega
      · obtain ⟨hfind, ⟨next, rest, rfl⟩, hlength⟩ := ih.mp hpath
        refine ⟨hfind, ⟨name, next :: rest, by simp⟩, ?_⟩
        have hdir : (dir ++ [name]).length = dir.length + 1 := by simp
        omega
    · rintro ⟨hfind, ⟨name, rest, rfl⟩, hlength⟩
      refine ⟨name, mem_names.mpr (find_above hfind), ?_⟩
      cases rest with
      | nil => exact .inl rfl
      | cons next rest =>
        refine .inr (ih.mpr ⟨hfind, ⟨next, rest, by simp⟩, ?_⟩)
        have hdir : (dir ++ [name]).length = dir.length + 1 := by simp
        omega

theorem exists_of_mem_block {depth : Nat}
    (h : path ∈ (dir ++ [name]) :: t.walk depth (dir ++ [name])) :
    ∃ rest, path = dir ++ name :: rest := by
  rcases List.mem_cons.mp h with rfl | h
  · exact ⟨[], rfl⟩
  · obtain ⟨-, ⟨next, rest, rfl⟩, -⟩ := mem_walk.mp h
    exact ⟨next :: rest, by simp⟩

theorem nodup_walk (t : FileTree ν φ) (depth : Nat) (dir : List ν) : (t.walk depth dir).Nodup := by
  induction depth generalizing dir with
  | zero => exact List.nodup_nil
  | succ depth ih =>
    refine List.nodup_flatMap.mpr ⟨fun name _ => List.nodup_cons.mpr ⟨fun h => ?_, ih _⟩, ?_⟩
    · obtain ⟨-, ⟨next, rest, heq⟩, -⟩ := mem_walk.mp h
      simp at heq
    · refine (t.nodup_names dir).imp fun {a b} hne p hp hq => ?_
      obtain ⟨rest, rfl⟩ := exists_of_mem_block hp
      obtain ⟨rest', heq⟩ := exists_of_mem_block hq
      simp only [List.append_cancel_left_eq, List.cons.injEq] at heq
      exact hne heq.1

/-- No entry is met before the directory that it is in. -/
theorem pairwise_walk (t : FileTree ν φ) (depth : Nat) (dir : List ν) :
    (t.walk depth dir).Pairwise fun p q => p.dropLast ≠ q := by
  induction depth generalizing dir with
  | zero => exact .nil
  | succ depth ih =>
    refine List.pairwise_flatMap.mpr ⟨fun name _ => .cons (fun q hq => ?_) (ih _), ?_⟩
    · obtain ⟨-, ⟨next, rest, rfl⟩, -⟩ := mem_walk.mp hq
      simp
    · refine (t.nodup_names dir).imp fun {a b} hne p hp q hq heq => ?_
      obtain ⟨rest, rfl⟩ := exists_of_mem_block hp
      obtain ⟨rest', rfl⟩ := exists_of_mem_block hq
      cases rest with
      | nil => simp at heq
      | cons next rest =>
        rw [List.dropLast_append_of_ne_nil (List.cons_ne_nil _ _), List.dropLast_cons_cons] at heq
        simp only [List.append_cancel_left_eq, List.cons.injEq] at heq
        exact hne heq.1

/-- A walk of a tree to which nothing was added is no longer. -/
theorem Within.length_walk_le (h : t.Within t') (depth : Nat) (dir : List ν) :
    (t.walk depth dir).length ≤ (t'.walk depth dir).length := by
  refine (List.subperm_of_subset (t.nodup_walk depth dir) fun path hpath => ?_).length_le
  obtain ⟨hfind, hbelow, hlength⟩ := mem_walk.mp hpath
  obtain ⟨entry, hentry⟩ := Option.isSome_iff_exists.mp hfind
  exact mem_walk.mpr ⟨Option.isSome_iff_exists.mpr ⟨entry, h.find _ _ hentry⟩, hbelow, hlength⟩

/-! ## Removals -/

theorem not_mem_of_names (h : t.names path = []) (hpath' : path' ∈ t.entries.keys) :
    path'.dropLast ≠ path := by
  intro heq
  have hne := (t.rooted path' hpath').1
  have hlast := List.dropLast_append_getLast hne
  rw [heq] at hlast
  have hname : path'.getLast hne ∈ t.names path := by
    rw [mem_names, hlast]
    exact mem_keys.mp hpath'
  rw [h] at hname
  cases hname

variable (t path) in
/-- The tree without an entry that has nothing below it. -/
def remove : Option (FileTree ν φ) :=
  if h : t.names path = [] then
    some
      { readable := t.readable
        entries := t.entries.delete path
        rooted := by
          intro path' hpath'
          have hmem : path' ∈ t.entries.keys := (AList.mem_erase.mp hpath').2
          obtain ⟨hne, hrooted⟩ := t.rooted path' hmem
          refine ⟨hne, hrooted.imp_right fun ⟨readable, hdir⟩ => ⟨readable, ?_⟩⟩
          rw [Table.find_delete, if_neg (not_mem_of_names h hmem)]
          exact hdir }
  else none

variable (t path) in
def removeFile : Option (FileTree ν φ) :=
  match t.find path with
  | none | some (.directory _) => none
  | some _ => t.remove path

variable (t path) in
def removeDirectory : Option (FileTree ν φ) :=
  match t.find path with
  | some (.directory _) => t.remove path
  | _ => none

theorem remove_eq_some (h : t.remove path = some t') :
    t.names path = [] ∧ t'.readable = t.readable ∧
      ∀ p, t'.find p = if p = path then none else t.find p := by
  unfold remove at h
  split at h
  · next hnames =>
    cases h
    exact ⟨hnames, rfl, fun p => Table.find_delete t.entries path p⟩
  · cases h

theorem exists_remove (h : t.names path = []) : ∃ t', t.remove path = some t' := by
  unfold remove
  rw [dif_pos h]
  exact ⟨_, rfl⟩

/-- Nothing is below a file. -/
theorem exists_removeFile {f : φ} (h : t.find path = some (.file f)) :
    ∃ t', t.removeFile path = some t' := by
  unfold removeFile
  rw [h]
  refine exists_remove (names_eq_nil (ne_nil_of_find h) fun readable hdir => ?_)
  cases h.symm.trans hdir

theorem exists_removeDirectory {readable : Bool} (h : t.find path = some (.directory readable))
    (hempty : ∀ p entry, t.find p = some entry → p.dropLast ≠ path) :
    ∃ t', t.removeDirectory path = some t' := by
  unfold removeDirectory
  rw [h]
  refine exists_remove ?_
  rw [List.eq_nil_iff_forall_not_mem]
  intro name hname
  obtain ⟨entry, hentry⟩ := Option.isSome_iff_exists.mp (mem_names.mp hname)
  exact hempty _ entry hentry (by simp)

theorem removeFile_eq_some (h : t.removeFile path = some t') : t.remove path = some t' := by
  unfold removeFile at h
  split at h
  · cases h
  · cases h
  · exact h

theorem removeDirectory_eq_some (h : t.removeDirectory path = some t') :
    t.remove path = some t' := by
  unfold removeDirectory at h
  split at h
  · exact h
  · cases h

theorem within_of_remove (h : t.remove path = some t') : t'.Within t := by
  obtain ⟨-, hreadable, hfind⟩ := remove_eq_some h
  refine ⟨hreadable, fun p entry hp => ?_⟩
  rw [hfind] at hp
  split at hp
  · cases hp
  · exact hp

theorem Within.refl (t : FileTree ν φ) : t.Within t := ⟨rfl, fun _ _ h => h⟩

theorem Within.trans {t'' : FileTree ν φ} (h : t.Within t') (h' : t'.Within t'') : t.Within t'' :=
  ⟨h.readable.trans h'.readable, fun p entry hp => h'.find p entry (h.find p entry hp)⟩

end FileTree

end Shaula.Library
