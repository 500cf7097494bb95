import Shaula.Template.Cleanup
import Mathlib.Logic.Relation

/-! # Reaping in several goes

Nothing is removed from a workspace unless every entry of it is recognised.  What an interrupted
cleanup leaves is recognised again exactly if no directory needs a file to be recognised.
-/

namespace Shaula.Template.Workspace

open Library Library.Outcome Core FileTree

/-! ## The inventory -/

section Inventory

variable (t : WorkspaceTree)

/-- The inventory goes into a directory. -/
def enter (dir : RelativePath) : StateResult Unit := do
  ensure (dir.length ≤ 32) .tooLarge
  ensure (t.readableAt dir = true) .unavailable

/-- The inventory meets an entry. -/
def visit (found : Inventory) (path : RelativePath) : StateResult Inventory := do
  ensure (found.count < 8192) .tooLarge
  match t.find path with
  | some (.directory _) =>
    enter t path
    return { found with dirs := found.dirs ++ [path] }
  | some (.file file) => return { found with files := found.files ++ [(path, file.size)] }
  | some .other => .error .invalid
  | none => .error .unavailable

variable {t}

theorem walk_file {path : RelativePath} {file : StoredFile} (h : t.find path = some (.file file))
    (depth : Nat) : t.walk depth path = [] := by
  cases depth with
  | zero => rfl
  | succ depth =>
    rw [walk, names_eq_nil (ne_nil_of_find h) fun readable hdir => by cases h.symm.trans hdir]
    rfl

theorem foldlM_flatMap {α β σ ε : Type} (g : α → List β) (f : σ → β → Except ε σ) (l : List α)
    (s : σ) : (l.flatMap g).foldlM f s = l.foldlM (fun s a => (g a).foldlM f s) s := by
  induction l generalizing s with
  | nil => rfl
  | cons a l ih =>
    rw [List.flatMap_cons, List.foldlM_append, List.foldlM_cons]
    simp only [ih]

/-- The inventory is a walk that ends at the first entry it refuses. -/
theorem inventory_eq {depth : Nat} {dir : RelativePath} (hdepth : dir.length + depth = 33)
    (found : Inventory) : inventory t depth dir found =
      (enter t dir >>= fun _ => (t.walk depth dir).foldlM (visit t) found) := by
  induction depth generalizing dir found with
  | zero =>
    have hlength : ¬ dir.length ≤ 32 := by omega
    rw [enter, ensure, if_neg hlength]
    rfl
  | succ depth ih =>
    have hlength : dir.length ≤ 32 := by omega
    have hname : ∀ (found : Inventory) name, (do
        ensure (found.count < 8192) StateError.tooLarge
        match t.find (dir ++ [name]) with
        | some (.directory _) =>
          inventory t depth (dir ++ [name]) ⟨found.files, found.dirs ++ [dir ++ [name]]⟩
        | some (.file file) =>
          return ⟨found.files ++ [(dir ++ [name], file.size)], found.dirs⟩
        | some .other => .error .invalid
        | none => .error .unavailable) =
        ((dir ++ [name]) :: t.walk depth (dir ++ [name])).foldlM (visit t) found := by
      intro found name
      rw [List.foldlM_cons, visit, bind_assoc]
      congr 1
      funext _
      cases hfind : t.find (dir ++ [name]) with
      | none => rfl
      | some entry =>
        cases entry with
        | file file => simp only [walk_file hfind]; rfl
        | directory readable =>
          have hdepth' : (dir ++ [name]).length + depth = 33 := by
            rw [List.length_append, List.length_singleton]
            omega
          simp only [ih hdepth', bind_assoc]
          rfl
        | other => rfl
    rw [enter, ensure, if_pos hlength, inventory, readDir, walk, foldlM_flatMap]
    cases t.readableAt dir with
    | false => rfl
    | true =>
      exact congrArg (fun f => (t.names dir).foldlM f found)
        (funext fun found => funext fun name => hname found name)

/-- The inventory does not refuse the entry. -/
def Visitable (t : WorkspaceTree) (path : RelativePath) : Prop :=
  match t.find path with
  | some (.file _) => True
  | some (.directory _) => path.length ≤ 32 ∧ t.readableAt path = true
  | _ => False

def fileAt (t : WorkspaceTree) (path : RelativePath) : Option (RelativePath × Nat) :=
  match t.find path with
  | some (.file file) => some (path, file.size)
  | _ => none

def directoryAt (t : WorkspaceTree) (path : RelativePath) : Option RelativePath :=
  match t.find path with
  | some (.directory _) => some path
  | _ => none

theorem visit_eq_ok {found out : Inventory} {path : RelativePath} :
    visit t found path = .ok out ↔ found.count < 8192 ∧ Visitable t path ∧
      out = ⟨found.files ++ (fileAt t path).toList, found.dirs ++ (directoryAt t path).toList⟩ := by
  unfold visit Visitable fileAt directoryAt enter
  cases t.find path with
  | none => simp only [bind_eq_ok, reduceCtorEq, and_false, exists_false, false_and]
  | some entry =>
    cases entry with
    | file file =>
      simp only [bind_eq_ok, ensure_eq_ok, pure_eq_ok, true_and, Option.toList_some,
        Option.toList_none, List.append_nil, exists_const, @eq_comm _ out]
    | directory readable =>
      simp only [bind_eq_ok, ensure_eq_ok, pure_eq_ok, Option.toList_some, Option.toList_none,
        List.append_nil, exists_const, @eq_comm _ out, and_assoc]
    | other => simp only [bind_eq_ok, reduceCtorEq, and_false, exists_false, false_and]

theorem count_visit {path : RelativePath} (h : Visitable t path) (found : Inventory) :
    Inventory.count ⟨found.files ++ (fileAt t path).toList,
      found.dirs ++ (directoryAt t path).toList⟩ = found.count + 1 := by
  unfold Visitable at h
  unfold Inventory.count fileAt directoryAt
  cases hfind : t.find path with
  | none => simp [hfind] at h
  | some entry =>
    cases entry with
    | file file =>
      simp only [Option.toList_some, Option.toList_none, List.length_append, List.length_singleton,
        List.length_nil]
      omega
    | directory readable =>
      simp only [Option.toList_some, Option.toList_none, List.length_append, List.length_singleton,
        List.length_nil]
      omega
    | other => simp [hfind] at h

/-- What the inventory holds after a list of entries. -/
theorem foldlM_visit_eq_ok {paths : List RelativePath} {found out : Inventory} :
    paths.foldlM (visit t) found = .ok out ↔ (∀ path ∈ paths, Visitable t path) ∧
      (paths = [] ∨ found.count + paths.length ≤ 8192) ∧
      out = ⟨found.files ++ paths.filterMap (fileAt t),
        found.dirs ++ paths.filterMap (directoryAt t)⟩ := by
  induction paths generalizing found with
  | nil =>
    rw [List.foldlM_nil, pure_eq_ok]
    simp [eq_comm]
  | cons path paths ih =>
    rw [List.foldlM_cons, bind_eq_ok]
    simp only [visit_eq_ok, ih]
    constructor
    · rintro ⟨next, ⟨hcount, hpath, rfl⟩, hpaths, hrest, rfl⟩
      refine ⟨List.forall_mem_cons.mpr ⟨hpath, hpaths⟩, .inr ?_, ?_⟩
      · rw [count_visit hpath] at hrest
        rw [List.length_cons]
        rcases hrest with rfl | hrest
        · rw [List.length_nil]
          omega
        · omega
      · cases hf : fileAt t path <;> cases hd : directoryAt t path <;> simp [hf, hd]
    · rintro ⟨hpaths, hcount, rfl⟩
      obtain ⟨hpath, hpaths⟩ := List.forall_mem_cons.mp hpaths
      rcases hcount with hnil | hcount
      · cases hnil
      rw [List.length_cons] at hcount
      refine ⟨_, ⟨by omega, hpath, rfl⟩, hpaths, .inr ?_, ?_⟩
      · rw [count_visit hpath]
        omega
      · cases hf : fileAt t path <;> cases hd : directoryAt t path <;> simp [hf, hd]

/-- Every entry of the workspace, as far as the inventory goes. -/
def walked (t : WorkspaceTree) : List RelativePath := t.walk 33 []

theorem inventory_eq_ok {out : Inventory} : inventory t 33 [] ⟨[], []⟩ = .ok out ↔
    t.readable = true ∧ (∀ path ∈ walked t, Visitable t path) ∧
      (walked t = [] ∨ (walked t).length ≤ 8192) ∧
      out = ⟨(walked t).filterMap (fileAt t), (walked t).filterMap (directoryAt t)⟩ := by
  have hdepth : ([] : RelativePath).length + 33 = 33 := rfl
  rw [inventory_eq hdepth, bind_eq_ok]
  simp [enter, readableAt, foldlM_visit_eq_ok, walked, Inventory.count]

/-- The inventory leaves nothing out. -/
theorem mem_walked (h : ∀ path ∈ walked t, Visitable t path) {path : RelativePath}
    {entry : Entry StoredFile} (hfind : t.find path = some entry) : path ∈ walked t := by
  induction path using List.reverseRecOn generalizing entry with
  | nil => exact absurd rfl (ne_nil_of_find hfind)
  | append_singleton dir name ih =>
    have hlength : dir.length ≤ 32 := by
      have hrooted := (t.rooted _ (mem_keys.mpr (Option.isSome_iff_exists.mpr ⟨_, hfind⟩))).2
      rw [List.dropLast_concat] at hrooted
      rcases hrooted with rfl | ⟨readable, hdir⟩
      · exact Nat.zero_le _
      · have hvisited := h dir (ih hdir)
        unfold Visitable at hvisited
        rw [show t.find dir = _ from hdir] at hvisited
        exact hvisited.1
    have hbelow : ∃ first rest, dir ++ [name] = [] ++ first :: rest := by
      cases dir with
      | nil => exact ⟨name, [], rfl⟩
      | cons first rest => exact ⟨first, rest ++ [name], rfl⟩
    refine mem_walk.mpr ⟨Option.isSome_iff_exists.mpr ⟨_, hfind⟩, hbelow, ?_⟩
    rw [List.length_append, List.length_singleton, List.length_nil]
    omega

end Inventory

/-! ## What is recognised -/

section Recognised

variable {t t' : WorkspaceTree} {R : Readers} {disk : Surroundings} {request : WorkspaceCleanup}
  {found : Inventory} {path : RelativePath} {entry : Entry StoredFile}

variable (t R disk request path) in
/-- What is known of an entry of a workspace that may be removed. -/
def Recognised : Entry StoredFile → Prop
  | .file file => recognisedFile t R disk request path file.size = .ok true
  | .directory _ => (∃ file stored, t.find file = some (.file stored) ∧ path <+: file) ∨
      knownDirectory disk path = true
  | .other => False

theorem recognisedFiles_eq_ok {files : List (RelativePath × Nat)} :
    recognisedFiles t R disk request files = .ok true ↔
      ∀ file ∈ files, recognisedFile t R disk request file.1 file.2 = .ok true := by
  induction files with
  | nil => simp [recognisedFiles]
  | cons file files ih =>
    obtain ⟨path, size⟩ := file
    rw [recognisedFiles, bind_eq_ok, List.forall_mem_cons, ← ih]
    constructor
    · rintro ⟨allowed, hallowed, hrest⟩
      cases allowed with
      | true => exact ⟨hallowed, hrest⟩
      | false => cases hrest
    · rintro ⟨hallowed, hrest⟩
      exact ⟨true, hallowed, hrest⟩

/-- The inventory is checked. -/
structure Checked (t : WorkspaceTree) (R : Readers) (disk : Surroundings)
    (request : WorkspaceCleanup) (found : Inventory) : Prop where
  readable : t.readable = true
  visitable : ∀ path ∈ walked t, Visitable t path
  bounded : (walked t).length ≤ 8192
  files : found.files = sortFiles ((walked t).filterMap (fileAt t))
  dirs : found.dirs = (walked t).filterMap (directoryAt t)
  recognisedFiles : ∀ file ∈ found.files, recognisedFile t R disk request file.1 file.2 = .ok true
  recognisedDirectories : ∀ dir ∈ found.dirs, recognisedDirectory disk found.files dir = true

theorem checkedInventory_eq_some :
    checkedInventory t R disk request = .ok (some found) ↔ Checked t R disk request found := by
  have hbounded : (walked t = [] ∨ (walked t).length ≤ 8192) ↔ (walked t).length ≤ 8192 := by
    refine ⟨fun h => h.elim (fun hnil => ?_) id, .inr⟩
    rw [hnil]
    exact Nat.zero_le _
  unfold checkedInventory
  constructor
  · intro h
    split at h
    · cases h
    · next out hout =>
      obtain ⟨hreadable, hvisitable, hlength, rfl⟩ := inventory_eq_ok.mp hout
      obtain ⟨allowed, hallowed, hfound⟩ := bind_eq_ok.mp h
      split at hfound
      · next hall =>
        rw [Bool.and_eq_true, List.all_eq_true] at hall
        obtain ⟨rfl, hdirs⟩ := hall
        cases hfound
        exact ⟨hreadable, hvisitable, hbounded.mp hlength, rfl, rfl,
          recognisedFiles_eq_ok.mp hallowed, hdirs⟩
      · cases hfound
  · rintro ⟨hreadable, hvisitable, hlength, hfiles, hdirs, hrecognised, hdirectories⟩
    rw [inventory_eq_ok.mpr ⟨hreadable, hvisitable, hbounded.mpr hlength, rfl⟩]
    obtain ⟨files, dirs⟩ := found
    cases hfiles
    cases hdirs
    refine bind_eq_ok.mpr ⟨true, recognisedFiles_eq_ok.mpr hrecognised, ?_⟩
    rw [if_pos]
    · rfl
    · rw [Bool.true_and, List.all_eq_true]
      exact hdirectories

theorem Checked.mem_files (h : Checked t R disk request found) {size : Nat} :
    (path, size) ∈ found.files ↔ ∃ file, t.find path = some (.file file) ∧ file.size = size := by
  rw [h.files, sortFiles, List.mem_insertionSort, List.mem_filterMap]
  unfold fileAt
  constructor
  · rintro ⟨walked, -, hfile⟩
    split at hfile
    · next file hfind =>
      cases hfile
      exact ⟨file, hfind, rfl⟩
    · cases hfile
  · rintro ⟨file, hfind, rfl⟩
    refine ⟨path, mem_walked h.visitable hfind, ?_⟩
    rw [hfind]

theorem Checked.mem_dirs (h : Checked t R disk request found) :
    path ∈ found.dirs ↔ ∃ readable, t.find path = some (.directory readable) := by
  rw [h.dirs, List.mem_filterMap]
  unfold directoryAt
  constructor
  · rintro ⟨walked, -, hdir⟩
    split at hdir
    · next readable hfind =>
      cases hdir
      exact ⟨readable, hfind⟩
    · cases hdir
  · rintro ⟨readable, hfind⟩
    refine ⟨path, mem_walked h.visitable hfind, ?_⟩
    rw [hfind]

/-- Every entry of a checked workspace is recognised. -/
theorem Checked.recognised (h : Checked t R disk request found) (hfind : t.find path = some entry) :
    Recognised t R disk request path entry := by
  cases entry with
  | file file => exact h.recognisedFiles _ (h.mem_files.mpr ⟨file, hfind, rfl⟩)
  | directory readable =>
    have hdir := h.recognisedDirectories _ (h.mem_dirs.mpr ⟨readable, hfind⟩)
    rw [recognisedDirectory, Bool.or_eq_true, List.any_eq_true] at hdir
    refine hdir.imp_left fun ⟨⟨file, size⟩, hfile, hpath⟩ => ?_
    obtain ⟨stored, hstored, -⟩ := h.mem_files.mp hfile
    exact ⟨file, stored, hstored, of_decide_eq_true hpath⟩
  | other =>
    have hvisited := h.visitable _ (mem_walked h.visitable hfind)
    unfold Visitable at hvisited
    rw [hfind] at hvisited
    exact hvisited

theorem recognisedFile_within (h : t'.Within t) (hfind : t'.find path = some entry) (size : Nat) :
    recognisedFile t' R disk request path size = recognisedFile t R disk request path size := by
  have hcontent : contentAt t' path = contentAt t path := by
    unfold contentAt
    rw [hfind, h.find _ _ hfind]
  unfold recognisedFile
  rw [hcontent]

theorem visitable_within (h : t'.Within t) (hfind : t'.find path = some entry)
    (hpath : Visitable t path) : Visitable t' path := by
  have hreadable : t'.readableAt path = t.readableAt path := by
    unfold readableAt
    rw [hfind, h.find _ _ hfind, h.readable]
  unfold Visitable at hpath ⊢
  rw [hfind, hreadable]
  rw [h.find _ _ hfind] at hpath
  exact hpath

/-- A checked workspace in which every directory is known is checked without some entries too. -/
theorem Checked.within (h : Checked t R disk request found) (hwithin : t'.Within t)
    (hdirs : ∀ path readable, t'.find path = some (.directory readable) →
      knownDirectory disk path = true) : ∃ found', Checked t' R disk request found' := by
  have hvisitable : ∀ path ∈ walked t', Visitable t' path := by
    intro path hpath
    obtain ⟨entry, hentry⟩ := Option.isSome_iff_exists.mp (mem_walk.mp hpath).1
    have hwalked := mem_walked h.visitable (hwithin.find _ _ hentry)
    exact visitable_within hwithin hentry (h.visitable path hwalked)
  have hfile : ∀ file ∈ sortFiles ((walked t').filterMap (fileAt t')),
      ∃ stored, t'.find file.1 = some (.file stored) ∧ stored.size = file.2 := by
    intro file hfile
    rw [sortFiles, List.mem_insertionSort, List.mem_filterMap] at hfile
    obtain ⟨path, -, hpath⟩ := hfile
    unfold fileAt at hpath
    split at hpath
    · next stored hfind =>
      cases hpath
      exact ⟨stored, hfind, rfl⟩
    · cases hpath
  refine ⟨⟨_, _⟩, hwithin.readable.trans h.readable, hvisitable,
    (hwithin.length_walk_le 33 []).trans h.bounded, rfl, rfl, fun file hmem => ?_,
    fun dir hdir => ?_⟩
  · obtain ⟨stored, hfind, hsize⟩ := hfile file hmem
    rw [recognisedFile_within hwithin hfind]
    exact h.recognisedFiles _ (h.mem_files.mpr ⟨stored, hwithin.find _ _ hfind, hsize⟩)
  · obtain ⟨path, -, hpath⟩ := List.mem_filterMap.mp hdir
    unfold directoryAt at hpath
    split at hpath
    · next readable hfind =>
      cases hpath
      rw [recognisedDirectory, hdirs _ readable hfind, Bool.or_true]
    · cases hpath

end Recognised

/-! ## Removals -/

section Removals

variable {t t' : WorkspaceTree} {R : Readers} {disk : Surroundings} {request : WorkspaceCleanup}
  {found : Inventory} {w w' : WorkspaceState} {removals rest : List Removal}

theorem removeAll_append : removeAll (removals ++ rest) w =
    match removeAll removals w with
    | (.ok _, w') => removeAll rest w'
    | (.error e, w') => (.error e, w') := by
  induction removals generalizing w with
  | nil => rfl
  | cons removal removals ih =>
    rw [List.cons_append, removeAll, removeAll]
    cases removal.perform w with
    | ok w' => exact ih
    | error e => rfl

theorem perform_eq_ok {removal : Removal} (h : removal.perform w = .ok w') :
    ∃ t, w = some t ∧ (w' = none ∨ ∃ t', w' = some t' ∧ t'.Within t) := by
  cases removal with
  | file path =>
    simp only [Removal.perform, bind_eq_ok, okOr_eq_ok, pure_eq_ok] at h
    obtain ⟨t, ht, t', hremoved, rfl⟩ := h
    exact ⟨t, ht, .inr ⟨t', rfl, within_of_remove (removeFile_eq_some hremoved)⟩⟩
  | dir path =>
    simp only [Removal.perform, bind_eq_ok, okOr_eq_ok, pure_eq_ok] at h
    obtain ⟨t, ht, t', hremoved, rfl⟩ := h
    exact ⟨t, ht, .inr ⟨t', rfl, within_of_remove (removeDirectory_eq_some hremoved)⟩⟩
  | workspace =>
    simp only [Removal.perform, bind_eq_ok, okOr_eq_ok, pure_eq_ok] at h
    obtain ⟨t, ht, -, -, rfl⟩ := h
    exact ⟨t, ht, .inl rfl⟩

/-- Removals add nothing. -/
theorem removeAll_within (removals : List Removal) (w : WorkspaceState) :
    (removeAll removals w).2 = none ∨
      ∃ t t', w = some t ∧ (removeAll removals w).2 = some t' ∧ t'.Within t := by
  induction removals generalizing w with
  | nil =>
    cases w with
    | none => exact .inl rfl
    | some t => exact .inr ⟨t, t, rfl, rfl, .refl t⟩
  | cons removal removals ih =>
    rw [removeAll]
    cases hperform : removal.perform w with
    | error e =>
      cases w with
      | none => exact .inl rfl
      | some t => exact .inr ⟨t, t, rfl, rfl, .refl t⟩
    | ok w' =>
      obtain ⟨t, rfl, rfl | ⟨t', rfl, hwithin⟩⟩ := perform_eq_ok hperform
      · exact (ih none).imp_right fun ⟨_, _, h, _⟩ => by cases h
      · refine (ih (some t')).imp_right fun ⟨_, t'', h, hrest, hwithin'⟩ => ?_
        cases h
        exact ⟨t, t'', rfl, hrest, hwithin'.trans hwithin⟩

/-- Files can be removed in any order. -/
theorem removeAll_files {paths : List RelativePath} (hnodup : paths.Nodup)
    (hfiles : ∀ path ∈ paths, ∃ file, t.find path = some (.file file)) :
    ∃ t', removeAll (paths.map .file) (some t) = (.ok (), some t') ∧
      t'.readable = t.readable ∧ ∀ p, t'.find p = if p ∈ paths then none else t.find p := by
  induction paths generalizing t with
  | nil => exact ⟨t, rfl, rfl, fun p => by simp⟩
  | cons path paths ih =>
    obtain ⟨file, hfile⟩ := hfiles path List.mem_cons_self
    obtain ⟨t₁, hremoved⟩ := exists_removeFile hfile
    obtain ⟨-, hreadable, hfind⟩ := remove_eq_some (removeFile_eq_some hremoved)
    have hrest : ∀ p ∈ paths, ∃ file, t₁.find p = some (.file file) := by
      intro p hp
      have hne : p ≠ path := fun heq => (List.nodup_cons.mp hnodup).1 (heq ▸ hp)
      obtain ⟨file, hfile⟩ := hfiles p (List.mem_cons_of_mem _ hp)
      exact ⟨file, by rw [hfind, if_neg hne, hfile]⟩
    obtain ⟨t', hall, hreadable', hfind'⟩ := ih (List.nodup_cons.mp hnodup).2 hrest
    refine ⟨t', ?_, hreadable'.trans hreadable, fun p => ?_⟩
    · have hperform : Removal.perform (some t) (.file path) = .ok (some t₁) := by
        simp [Removal.perform, hremoved]
      rw [List.map_cons, removeAll, hperform]
      exact hall
    · rw [hfind', hfind]
      by_cases hp : p = path
      · simp [hp]
      · simp [hp]

/-- Directories can be removed when those in them come first and nothing else is left. -/
theorem removeAll_dirs {paths : List RelativePath} (hnodup : paths.Nodup)
    (hdirs : ∀ path ∈ paths, ∃ readable, t.find path = some (.directory readable))
    (hall : ∀ path entry, t.find path = some entry → path ∈ paths)
    (horder : paths.Pairwise fun p q => q.dropLast ≠ p) :
    ∃ t', removeAll (paths.map .dir) (some t) = (.ok (), some t') ∧ ∀ p, t'.find p = none := by
  induction paths generalizing t with
  | nil =>
    refine ⟨t, rfl, fun p => ?_⟩
    cases hp : t.find p with
    | none => rfl
    | some entry => cases hall p entry hp
  | cons path paths ih =>
    obtain ⟨readable, hdir⟩ := hdirs path List.mem_cons_self
    obtain ⟨hfirst, horder⟩ := List.pairwise_cons.mp horder
    have hempty : ∀ p entry, t.find p = some entry → p.dropLast ≠ path := by
      intro p entry hp
      rcases List.mem_cons.mp (hall p entry hp) with rfl | hmem
      · have hne := ne_nil_of_find hp
        have hpos := List.length_pos_of_ne_nil hne
        intro heq
        have hlength := congrArg List.length heq
        rw [List.length_dropLast] at hlength
        omega
      · exact hfirst p hmem
    obtain ⟨t₁, hremoved⟩ := exists_removeDirectory hdir hempty
    obtain ⟨-, -, hfind⟩ := remove_eq_some (removeDirectory_eq_some hremoved)
    have hne : ∀ p ∈ paths, p ≠ path := fun p hp heq => (List.nodup_cons.mp hnodup).1 (heq ▸ hp)
    have hdirs' : ∀ p ∈ paths, ∃ readable, t₁.find p = some (.directory readable) := by
      intro p hp
      obtain ⟨readable, hdir⟩ := hdirs p (List.mem_cons_of_mem _ hp)
      exact ⟨readable, by rw [hfind, if_neg (hne p hp), hdir]⟩
    have hall' : ∀ p entry, t₁.find p = some entry → p ∈ paths := by
      intro p entry hp
      rw [hfind] at hp
      split at hp
      · cases hp
      · next hother => exact (List.mem_cons.mp (hall p entry hp)).resolve_left hother
    obtain ⟨t', hrest, hnone⟩ := ih (List.nodup_cons.mp hnodup).2 hdirs' hall' horder
    have hperform : Removal.perform (some t) (.dir path) = .ok (some t₁) := by
      simp [Removal.perform, hremoved]
    refine ⟨t', ?_, hnone⟩
    rw [List.map_cons, removeAll, hperform]
    exact hrest

theorem Checked.nodup_files (h : Checked t R disk request found) :
    (found.files.map (·.1)).Nodup := by
  have hperm : found.files.Perm ((walked t).filterMap (fileAt t)) := by
    rw [h.files]
    exact List.perm_insertionSort _ _
  refine (hperm.map _).nodup_iff.mpr ?_
  rw [List.map_filterMap]
  refine List.Nodup.filterMap (fun p q name hp hq => ?_) (t.nodup_walk 33 [])
  have hself : ∀ p, name ∈ (fileAt t p).map (·.1) → p = name := by
    intro p hp
    unfold fileAt at hp
    split at hp
    · cases hp
      rfl
    · cases hp
  rw [hself p hp, hself q hq]

theorem eq_of_directoryAt {path path' : RelativePath} (h : directoryAt t path = some path') :
    path = path' := by
  unfold directoryAt at h
  split at h
  · cases h
    rfl
  · cases h

/-- What is left when the files are removed. -/
theorem Checked.remove_files (h : Checked t R disk request found) :
    ∃ t', removeAll (found.files.map fun file => .file file.1) (some t) = (.ok (), some t') ∧
      t'.readable = t.readable ∧ (∀ path file, t'.find path ≠ some (.file file)) ∧
      ∀ path readable, t.find path = some (.directory readable) →
        t'.find path = some (.directory readable) := by
  have hfiles : ∀ path ∈ found.files.map (·.1), ∃ file, t.find path = some (.file file) := by
    intro path hpath
    obtain ⟨⟨_, size⟩, hfile, rfl⟩ := List.mem_map.mp hpath
    obtain ⟨file, hfind, -⟩ := h.mem_files.mp hfile
    exact ⟨file, hfind⟩
  obtain ⟨t', hremoved, hreadable, hfind⟩ := removeAll_files h.nodup_files hfiles
  rw [List.map_map] at hremoved
  refine ⟨t', hremoved, hreadable, fun path file hfile => ?_, fun path readable hdir => ?_⟩
  · rw [hfind] at hfile
    split at hfile
    · cases hfile
    · next hnot =>
      exact hnot (List.mem_map.mpr ⟨_, h.mem_files.mpr ⟨file, hfile, rfl⟩, rfl⟩)
  · rw [hfind, if_neg]
    · exact hdir
    · intro hmem
      obtain ⟨⟨_, size⟩, hfile, rfl⟩ := List.mem_map.mp hmem
      obtain ⟨file, hfind, -⟩ := h.mem_files.mp hfile
      cases hdir.symm.trans hfind

theorem Checked.order_dirs (h : Checked t R disk request found) :
    found.dirs.reverse.Nodup ∧ found.dirs.reverse.Pairwise fun p q => q.dropLast ≠ p := by
  rw [List.nodup_reverse, List.pairwise_reverse, h.dirs]
  constructor
  · refine List.Nodup.filterMap (fun p q dir hp hq => ?_) (t.nodup_walk 33 [])
    rw [eq_of_directoryAt hp, eq_of_directoryAt hq]
  · refine (t.pairwise_walk 33 []).filterMap _ fun p q hne p' hp q' hq => ?_
    rw [← eq_of_directoryAt hp, ← eq_of_directoryAt hq]
    exact hne

/-- A checked workspace can be removed as a whole. -/
theorem Checked.remove_all (h : Checked t R disk request found) :
    removeAll found.removals (some t) = (.ok (), none) := by
  obtain ⟨t₁, hfiles, -, hnone, hdirs⟩ := h.remove_files
  have hwithin : t₁.Within t := by
    rcases removeAll_within (found.files.map fun file => .file file.1) (some t) with
      hgone | ⟨_, _, hstart, hleft, hwithin⟩
    · rw [hfiles] at hgone
      cases hgone
    · rw [hfiles] at hleft
      cases hstart
      cases hleft
      exact hwithin
  obtain ⟨hnodup, horder⟩ := h.order_dirs
  obtain ⟨t₂, hremoved, hempty⟩ := removeAll_dirs (t := t₁) hnodup
    (fun path hpath => by
      obtain ⟨readable, hdir⟩ := h.mem_dirs.mp (List.mem_reverse.mp hpath)
      exact ⟨readable, hdirs path readable hdir⟩)
    (fun path entry hpath => by
      have hbefore := hwithin.find _ _ hpath
      rw [List.mem_reverse, h.mem_dirs]
      have hrecognised := h.recognised hbefore
      cases entry with
      | file file => exact absurd hpath (hnone path file)
      | directory readable => exact ⟨readable, hbefore⟩
      | other => exact hrecognised.elim)
    horder
  have hnames : t₂.names [] = [] := by
    rw [List.eq_nil_iff_forall_not_mem]
    intro name hname
    rw [mem_names, hempty] at hname
    cases hname
  rw [Inventory.removals, removeAll_append, removeAll_append, hfiles]
  simp only [hremoved, removeAll, Removal.perform, okOr, bind, Except.bind, ensure, if_pos hnames]
  rfl

end Removals

/-! ## Attempts -/

section Attempts

variable (R : Readers) (disk : Surroundings) (request : WorkspaceCleanup)

/-- The same entries, which need not be read in the same order. -/
def SameEntries : WorkspaceState → WorkspaceState → Prop
  | none, none => True
  | some t, some t' => t.readable = t'.readable ∧ ∀ path, t.find path = t'.find path
  | _, _ => False

/-- A call fails or is interrupted after any number of removals. -/
def Interrupted (w w' : WorkspaceState) : Prop :=
  ∃ removals, SameEntries (cutShort R disk request removals w) w'

def Inventory.Has (found : Inventory) (path : RelativePath) : Entry StoredFile → Prop
  | .file file => (path, file.size) ∈ found.files
  | .directory _ => path ∈ found.dirs
  | .other => False

def Holds (w : WorkspaceState) (path : RelativePath) (entry : Entry StoredFile) : Prop :=
  ∃ t, w = some t ∧ t.find path = some entry

/-- What a cleanup may do to a workspace. -/
structure ReapsSafely (w : WorkspaceState) : Prop where
  /-- One entry that is not recognised keeps everything. -/
  refuses : ∀ t path entry, w = some t → t.find path = some entry →
    ¬ Recognised t R disk request path entry →
      ((reap R disk request w).1 = .ok .retained ∨ ∃ e, (reap R disk request w).1 = .error e) ∧
        (reap R disk request w).2 = w ∧ ∀ removals, cutShort R disk request removals w = w
  gone : (reap R disk request w).1 = .ok .reaped → (reap R disk request w).2 = none
  /-- Only inventoried entries are removed, and nothing is added. -/
  inventoried : ∀ removals path entry,
    (Holds (cutShort R disk request removals w) path entry → Holds w path entry) ∧
      (Holds w path entry → ¬ Holds (cutShort R disk request removals w) path entry →
        ∃ t found, w = some t ∧ checkedInventory t R disk request = .ok (some found) ∧
          found.Has path entry)
  resumes : (reap R disk request w).1 = .ok .reaped → ∀ w',
    Relation.ReflTransGen (Interrupted R disk request) w w' →
      (reap R disk request w').1 = .ok .reaped

variable {R disk request} {t : WorkspaceTree} {w : WorkspaceState} {found : Inventory}

variable (disk request) in
/-- The request is about its own generation, and everything is where it should be. -/
def Admitted : Prop :=
  request.fileName = some request.generationId ∧ disk.known = true ∧ disk.workContains = true ∧
    disk.artifactsContain = true ∧ disk.isDirectory = true ∧ disk.intact = true

theorem decision_admitted (h : Admitted disk request) : decision R disk request (some t) =
    (checkedInventory t R disk request >>= fun found =>
      match found with
      | none => return .answer .retained
      | some found => return .remove found) := by
  obtain ⟨hname, hknown, hplaces⟩ := h
  unfold decision
  rw [if_neg (not_not.mpr hname), if_neg (not_not.mpr hknown)]
  dsimp only
  exact if_neg (not_not.mpr hplaces)

theorem decision_not_admitted (h : ¬ Admitted disk request) :
    decision R disk request (some t) = .ok (.answer .retained) ∨
      decision R disk request (some t) = .error .unavailable := by
  unfold decision
  by_cases hname : request.fileName = some request.generationId
  · rw [if_neg (not_not.mpr hname)]
    by_cases hknown : disk.known = true
    · rw [if_neg (not_not.mpr hknown)]
      dsimp only
      rw [if_pos fun hplaces => h ⟨hname, hknown, hplaces⟩]
      exact .inl rfl
    · rw [if_pos hknown]
      exact .inr rfl
  · rw [if_pos hname]
    exact .inl rfl

theorem decision_eq_remove : decision R disk request w = .ok (.remove found) ↔
    Admitted disk request ∧ ∃ t, w = some t ∧ Checked t R disk request found := by
  cases w with
  | none =>
    constructor
    · intro h
      unfold decision at h
      split at h
      · cases h
      split at h
      · cases h
      · cases h
    · rintro ⟨-, t, ht, -⟩
      cases ht
  | some t =>
    simp only [Option.some.injEq, exists_eq_left']
    by_cases hadmitted : Admitted disk request
    · rw [decision_admitted hadmitted, bind_eq_ok, ← checkedInventory_eq_some]
      constructor
      · rintro ⟨found', hfound, h⟩
        cases found' with
        | none => cases h
        | some found' =>
          cases h
          exact ⟨hadmitted, hfound⟩
      · rintro ⟨-, hfound⟩
        exact ⟨some found, hfound, rfl⟩
    · refine ⟨fun h => ?_, fun h => absurd h.1 hadmitted⟩
      rcases decision_not_admitted (R := R) (t := t) hadmitted with hdecision | hdecision
      · cases hdecision.symm.trans h
      · cases hdecision.symm.trans h

/-- Only a workspace that is gone is reaped without removals. -/
theorem decision_eq_reaped (h : decision R disk request w = .ok (.answer .reaped)) :
    request.fileName = some request.generationId ∧ disk.known = true ∧ w = none := by
  cases w with
  | none =>
    unfold decision at h
    split at h
    · cases h
    · next hname =>
      split at h
      · cases h
      · next hknown => exact ⟨not_not.mp hname, not_not.mp hknown, rfl⟩
  | some t =>
    by_cases hadmitted : Admitted disk request
    · rw [decision_admitted hadmitted, bind_eq_ok] at h
      obtain ⟨found, -, h⟩ := h
      cases found <;> cases h
    · rcases decision_not_admitted (R := R) (t := t) hadmitted with hdecision | hdecision
      · cases hdecision.symm.trans h
      · cases hdecision.symm.trans h

theorem reap_eq_reaped (h : (reap R disk request w).1 = .ok .reaped) :
    request.fileName = some request.generationId ∧ disk.known = true ∧ (w = none ∨
      Admitted disk request ∧ ∃ t found, w = some t ∧ Checked t R disk request found) := by
  unfold reap at h
  split at h
  · cases h
  · next hdecision =>
    cases h
    obtain ⟨hname, hknown, hnone⟩ := decision_eq_reaped hdecision
    exact ⟨hname, hknown, .inl hnone⟩
  · next found hdecision =>
    obtain ⟨hadmitted, t, ht, hchecked⟩ := decision_eq_remove.mp hdecision
    exact ⟨hadmitted.1, hadmitted.2.1, .inr ⟨hadmitted, t, found, ht, hchecked⟩⟩

theorem reap_none (hname : request.fileName = some request.generationId)
    (hknown : disk.known = true) : reap R disk request none = (.ok .reaped, none) := by
  have hdecision : decision R disk request none = .ok (.answer .reaped) := by
    unfold decision
    rw [if_neg (not_not.mpr hname), if_neg (not_not.mpr hknown)]
    rfl
  rw [reap, hdecision]

theorem reap_checked (hadmitted : Admitted disk request) (h : Checked t R disk request found) :
    reap R disk request (some t) = (.ok .reaped, none) := by
  rw [reap, decision_eq_remove.mpr ⟨hadmitted, t, rfl, h⟩]
  simp [h.remove_all, Except.map]

/-- Without a removal the workspace is as it was. -/
theorem unchanged_of_not_remove (h : ∀ found, decision R disk request w ≠ .ok (.remove found)) :
    (reap R disk request w).2 = w ∧ ∀ removals, cutShort R disk request removals w = w := by
  unfold reap cutShort
  cases hdecision : decision R disk request w with
  | error e => exact ⟨rfl, fun _ => rfl⟩
  | ok decision =>
    cases decision with
    | answer outcome => exact ⟨rfl, fun _ => rfl⟩
    | remove found => exact absurd hdecision (h found)

theorem refused_of_not_remove
    (h : ∀ found, decision R disk request (some t) ≠ .ok (.remove found)) :
    (reap R disk request (some t)).1 = .ok .retained ∨
      ∃ e, (reap R disk request (some t)).1 = .error e := by
  unfold reap
  cases hdecision : decision R disk request (some t) with
  | error e => exact .inr ⟨e, rfl⟩
  | ok decision =>
    cases decision with
    | answer outcome =>
      cases outcome with
      | reaped => cases (decision_eq_reaped hdecision).2.2
      | retained => exact .inl rfl
    | remove found => exact absurd hdecision (h found)

theorem cutShort_within (removals : Nat) (w : WorkspaceState) :
    cutShort R disk request removals w = none ∨
      ∃ t t', w = some t ∧ cutShort R disk request removals w = some t' ∧ t'.Within t := by
  unfold cutShort
  split
  · exact removeAll_within _ w
  · cases w with
    | none => exact .inl rfl
    | some t => exact .inr ⟨t, t, rfl, rfl, .refl t⟩

theorem SameEntries.within {w w' : WorkspaceState} (h : SameEntries w w') :
    w' = none ∨ ∃ t t', w = some t ∧ w' = some t' ∧ t'.Within t := by
  cases w' with
  | none => exact .inl rfl
  | some t' =>
    cases w with
    | none => exact h.elim
    | some t =>
      refine .inr ⟨t, t', rfl, rfl, h.1.symm, fun path entry hpath => ?_⟩
      rw [h.2]
      exact hpath

/-- What interrupted calls leave. -/
theorem interrupted_within {w w' : WorkspaceState}
    (h : Relation.ReflTransGen (Interrupted R disk request) w w') :
    w' = none ∨ ∃ t t', w = some t ∧ w' = some t' ∧ t'.Within t := by
  induction h with
  | refl =>
    cases w with
    | none => exact .inl rfl
    | some t => exact .inr ⟨t, t, rfl, rfl, .refl t⟩
  | @tail w₁ w₂ _ hstep ih =>
    obtain ⟨removals, hsame⟩ := hstep
    rcases hsame.within with hnone | ⟨t₁, t₂, hcut, htwo, hwithin⟩
    · exact .inl hnone
    · rcases cutShort_within (R := R) removals w₁ with hgone | ⟨t₀, t₁', hone, hcut', hwithin'⟩
      · cases hgone.symm.trans hcut
      · cases hcut.symm.trans hcut'
        rcases ih with hgone | ⟨t, t₀', ht, hzero, hwithin''⟩
        · cases hgone.symm.trans hone
        · cases hone.symm.trans hzero
          exact .inr ⟨t, t₂, ht, htwo, (hwithin.trans hwithin').trans hwithin''⟩

/-- **Resumption.**  An interrupted cleanup can be resumed, whenever it is interrupted, exactly if
every directory is known without its files. -/
theorem resumes_iff (hadmitted : Admitted disk request) (h : Checked t R disk request found) :
    (∀ w', Relation.ReflTransGen (Interrupted R disk request) (some t) w' →
      (reap R disk request w').1 = .ok .reaped) ↔
    ∀ path readable, t.find path = some (.directory readable) →
      knownDirectory disk path = true := by
  constructor
  · intro hresumes path readable hdir
    obtain ⟨t', hremoved, -, hnone, hdirs⟩ := h.remove_files
    have hcut : cutShort R disk request found.files.length (some t) = some t' := by
      have htake : found.removals.take found.files.length =
          found.files.map fun file => .file file.1 := by
        rw [Inventory.removals, List.append_assoc, List.take_left' (List.length_map _)]
      rw [cutShort, decision_eq_remove.mpr ⟨hadmitted, t, rfl, h⟩]
      simp only [htake, hremoved]
    have hreaped := hresumes (some t') (.single ⟨found.files.length, by
      rw [hcut]
      exact ⟨rfl, fun _ => rfl⟩⟩)
    obtain ⟨-, -, hgone | ⟨-, t'', found', heq, hchecked⟩⟩ := reap_eq_reaped hreaped
    · cases hgone
    cases heq
    rcases hchecked.recognised (hdirs path readable hdir) with ⟨file, stored, hfile, -⟩ | hknown
    · exact absurd hfile (hnone file stored)
    · exact hknown
  · intro hknown w' hinterrupted
    rcases interrupted_within hinterrupted with rfl | ⟨t₀, t', heq, rfl, hwithin⟩
    · rw [reap_none hadmitted.1 hadmitted.2.1]
    · cases heq
      obtain ⟨found', hchecked⟩ := h.within hwithin fun path readable hdir =>
        hknown path readable (hwithin.find _ _ hdir)
      rw [reap_checked hadmitted hchecked]

theorem reap_refuses {path : RelativePath} {entry : Entry StoredFile}
    (hfind : t.find path = some entry) (h : ¬ Recognised t R disk request path entry) :
    ((reap R disk request (some t)).1 = .ok .retained ∨
        ∃ e, (reap R disk request (some t)).1 = .error e) ∧
      (reap R disk request (some t)).2 = some t ∧
        ∀ removals, cutShort R disk request removals (some t) = some t := by
  have hnot : ∀ found, decision R disk request (some t) ≠ .ok (.remove found) := by
    intro found hdecision
    obtain ⟨-, t', ht', hchecked⟩ := decision_eq_remove.mp hdecision
    cases ht'
    exact h (hchecked.recognised hfind)
  exact ⟨refused_of_not_remove hnot, unchanged_of_not_remove hnot⟩

theorem reap_gone (h : (reap R disk request w).1 = .ok .reaped) :
    (reap R disk request w).2 = none := by
  obtain ⟨hname, hknown, rfl | ⟨hadmitted, t, found, rfl, hchecked⟩⟩ := reap_eq_reaped h
  · rw [reap_none hname hknown]
  · rw [reap_checked hadmitted hchecked]

theorem Holds.of_cutShort {removals : Nat} {path : RelativePath} {entry : Entry StoredFile}
    (h : Holds (cutShort R disk request removals w) path entry) : Holds w path entry := by
  obtain ⟨t', ht', hfind⟩ := h
  rcases cutShort_within (R := R) removals w with hgone | ⟨t, t'', hw, hcut, hwithin⟩
  · cases hgone.symm.trans ht'
  · cases hcut.symm.trans ht'
    exact ⟨t, hw, hwithin.find _ _ hfind⟩

/-- What a call removes is in its checked inventory. -/
theorem inventoried_of_removed {removals : Nat} {path : RelativePath} {entry : Entry StoredFile}
    (h : Holds w path entry) (hremoved : ¬ Holds (cutShort R disk request removals w) path entry) :
    ∃ t found, w = some t ∧ checkedInventory t R disk request = .ok (some found) ∧
      found.Has path entry := by
  by_cases hdecision : ∃ found, decision R disk request w = .ok (.remove found)
  · obtain ⟨found, hdecision⟩ := hdecision
    obtain ⟨-, t, rfl, hchecked⟩ := decision_eq_remove.mp hdecision
    obtain ⟨_, ht, hfind⟩ := h
    cases ht
    refine ⟨t, found, rfl, checkedInventory_eq_some.mpr hchecked, ?_⟩
    have hrecognised := hchecked.recognised hfind
    cases entry with
    | file file => exact hchecked.mem_files.mpr ⟨file, hfind, rfl⟩
    | directory readable => exact hchecked.mem_dirs.mpr ⟨readable, hfind⟩
    | other => exact hrecognised
  · rw [not_exists] at hdecision
    rw [(unchanged_of_not_remove hdecision).2] at hremoved
    exact absurd h hremoved

/-- **Reaping.**  Whatever the workspace and the request: one entry that is not recognised keeps
everything, only inventoried entries are removed, and only a workspace that is gone is reaped.  An
interrupted cleanup can always be resumed exactly if every directory of a workspace that would be
reaped is known without its files. -/
theorem reaps_safely_iff (R : Readers) (disk : Surroundings) (request : WorkspaceCleanup)
    (w : WorkspaceState) : ReapsSafely R disk request w ↔
      ((reap R disk request w).1 = .ok .reaped → ∀ t path readable, w = some t →
        t.find path = some (.directory readable) → knownDirectory disk path = true) := by
  constructor
  · intro hsafe hreaped t path readable hw hdir
    obtain ⟨-, -, hnone | ⟨hadmitted, t', found, hw', hchecked⟩⟩ := reap_eq_reaped hreaped
    · cases hnone.symm.trans hw
    · cases hw.symm.trans hw'
      subst hw
      exact (resumes_iff hadmitted hchecked).mp (hsafe.resumes hreaped) path readable hdir
  · intro hknown
    refine ⟨fun t path entry hw hfind h => ?_, reap_gone,
      fun removals path entry => ⟨.of_cutShort, inventoried_of_removed⟩, fun hreaped w' hw' => ?_⟩
    · subst hw
      exact reap_refuses hfind h
    · obtain ⟨hname, hknown', rfl | ⟨hadmitted, t, found, rfl, hchecked⟩⟩ := reap_eq_reaped hreaped
      · rcases interrupted_within hw' with rfl | ⟨t, -, ht, -⟩
        · exact hreaped
        · cases ht
      · exact (resumes_iff hadmitted hchecked).mpr
          (fun path readable hdir => hknown hreaped t path readable rfl hdir) w' hw'

end Attempts

/-! ### A provider package -/

def fileName (s : String) (h : text s ≠ [] ∧ 0 ∉ text s ∧ 47 ∉ text s) : FileName := ⟨text s, h⟩

/-- The directories of a provider package, with the provider in the last. -/
def packagePath : RelativePath :=
  [fileName ".terraform" (by decide +kernel), fileName "providers" (by decide +kernel),
    fileName "registry.terraform.io" (by decide +kernel), fileName "indexyz" (by decide +kernel),
    fileName "proxmox" (by decide +kernel), fileName "0.5.1" (by decide +kernel),
    fileName "linux_amd64" (by decide +kernel),
    fileName "terraform-provider-proxmox" (by decide +kernel)]

def packageTree : WorkspaceTree where
  readable := true
  entries := Table.put ((List.range 7).foldr (fun n (entries : Table _ (Entry StoredFile)) =>
    entries.put (packagePath.take (n + 1)) (.directory true)) ∅) packagePath (.file ⟨0, some []⟩)
  rooted := by decide +kernel

def packageReaders : Readers := ⟨fun _ => "", fun _ => none, id⟩

def packageDisk : Surroundings := ⟨true, true, true, true, true, fun _ => none⟩

def packageRequest : WorkspaceCleanup := ⟨some "id", "id", none⟩

/-- The workspace is kept when its cleanup is interrupted after the one file of it. -/
theorem package_retained :
    (reap packageReaders packageDisk packageRequest (some packageTree)).1 = .ok .reaped ∧
      (reap packageReaders packageDisk packageRequest
        (cutShort packageReaders packageDisk packageRequest 1 (some packageTree))).1 =
          .ok .retained := by
  decide +kernel

theorem package_not_resumed :
    ¬ ReapsSafely packageReaders packageDisk packageRequest (some packageTree) := by
  intro hsafe
  obtain ⟨hreaped, hretained⟩ := package_retained
  have hsame : ∀ w, SameEntries w w := by
    intro w
    cases w with
    | none => exact trivial
    | some t => exact ⟨rfl, fun _ => rfl⟩
  cases hretained.symm.trans (hsafe.resumes hreaped _ (.single ⟨1, hsame _⟩))

end Shaula.Template.Workspace
