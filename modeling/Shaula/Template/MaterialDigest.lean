import Shaula.Library.Framing
import Shaula.Library.Outcome
import Mathlib.Data.List.Lex
import Mathlib.Data.List.Sort
import Mathlib.Data.List.Infix

/-! # The digest of the template material

The digest runs over every template file in the order of their paths: the path, a zero byte and the
content, with nothing behind the content.  Files that the engine generates are no template material.
The walk over the files leaves whole directories out that have the name of such a file.
-/

namespace Shaula.Template.Workspace

open Library Library.Outcome

abbrev Bytes := List UInt8

/-- A name in a directory. -/
structure FileName where
  bytes : Bytes
  valid : bytes ≠ [] ∧ 0 ∉ bytes ∧ 47 ∉ bytes
  deriving DecidableEq

/-- A relative path, by its components. -/
abbrev RelativePath := List FileName

/-- What a directory holds, in the order in which it is read. -/
inductive Listing where
  | done
  | file (name : FileName) (content : Bytes) (rest : Listing)
  | directory (name : FileName) (inner rest : Listing)
  deriving DecidableEq

namespace Listing

def names : Listing → List FileName
  | done => []
  | file name _ rest => name :: rest.names
  | directory name _ rest => name :: rest.names

/-- No directory holds two entries of one name. -/
def Distinct : Listing → Prop
  | done => True
  | file name _ rest => name ∉ rest.names ∧ rest.Distinct
  | directory name inner rest => name ∉ rest.names ∧ inner.Distinct ∧ rest.Distinct

instance decidableDistinct : (listing : Listing) → Decidable listing.Distinct
  | done => inferInstanceAs (Decidable True)
  | file name _ rest =>
    have := rest.decidableDistinct
    inferInstanceAs (Decidable (name ∉ rest.names ∧ rest.Distinct))
  | directory name inner rest =>
    have := inner.decidableDistinct
    have := rest.decidableDistinct
    inferInstanceAs (Decidable (name ∉ rest.names ∧ inner.Distinct ∧ rest.Distinct))

/-- The content of the file at a path. -/
def read : Listing → RelativePath → Option Bytes
  | done, _ => none
  | file name content rest, path => if path = [name] then some content else rest.read path
  | directory name inner rest, path =>
    if path.head? = some name then inner.read path.tail else rest.read path

end Listing

/-- A directory tree. -/
structure Directory where
  listing : Listing
  distinct : listing.Distinct

/-! ## What is template material -/

/-- `OsStr::to_str` succeeds. -/
def FileName.utf8 (name : FileName) : Bool := (String.fromUTF8? ⟨name.bytes.toArray⟩).isSome

def FileName.named (name : FileName) (text : String) : Bool := name.bytes = text.toUTF8.toList

def generatedNames : List String :=
  ["tfplan", "shaula.tfvars.json", "terraform.tfstate", "terraform.tfstate.backup",
    ".terraform.tfstate.lock.info"]

/-- Engine-generated files and directories appear only after init, plan and apply. -/
def engineGenerated (rel : RelativePath) : Bool :=
  if rel.any fun c => c.named ".terraform" || c.named "terraform.tfstate.d" then true
  else match rel.getLast? with
    | none => true
    | some name => !name.utf8 || generatedNames.any name.named

def backendFile : String := "shaula.backend.tf"

section Digest

variable (httpBackend : Bool)

/-- The walk passes this entry over. -/
def passedOver (rel : RelativePath) : Bool :=
  engineGenerated rel ||
    (httpBackend && match rel with
      | [name] => name.named backendFile
      | _ => false)

/-- The paths of the template files below `dir`. -/
def collect (dir : RelativePath) : Listing → List RelativePath
  | .done => []
  | .file name _ rest =>
    let rel := dir ++ [name]
    if passedOver httpBackend rel then collect dir rest else rel :: collect dir rest
  | .directory name inner rest =>
    let rel := dir ++ [name]
    if passedOver httpBackend rel then collect dir rest
    else collect rel inner ++ collect dir rest

/-- The order of paths: by their components, and these by their bytes. -/
def RelativePath.key (path : RelativePath) : List (List Nat) :=
  path.map fun name => name.bytes.map (·.toNat)

def sortPaths (files : List RelativePath) : List RelativePath :=
  files.insertionSort fun p q => RelativePath.key p ≤ RelativePath.key q

variable (lossy : Bytes → Bytes)

/-- `to_string_lossy`; `lossy` replaces malformed sequences. -/
def FileName.toStringLossy (name : FileName) : Bytes :=
  if name.utf8 then name.bytes else lossy name.bytes

/-- The path in its canonical form, with forward slashes. -/
def canonical (path : RelativePath) : Bytes :=
  List.intercalate [47] (path.map (·.toStringLossy lossy))

def requiredFiles : List String := ["main.tf", "profile.yaml", ".terraform.lock.hcl"]

/-- The directory has a file of this name. -/
def Directory.isFile (dir : Directory) (text : String) : Bool :=
  dir.listing.names.any fun name => name.named text && (dir.listing.read [name]).isSome

variable (sha256 : Bytes → String) (root : String)

def materialDigest (dir : Directory) : Except String String := do
  requiredFiles.forM fun name =>
    ensure (dir.isFile name = true) ("template file " ++ root ++ "/" ++ name ++ " missing")
  let files := sortPaths (collect httpBackend [] dir.listing)
  let records ← files.mapM fun rel => do
    let bytes ← okOr (dir.listing.read rel) "template file unreadable"
    pure (canonical lossy rel, bytes)
  pure ("sha256:" ++ sha256 (spelled 0 records))

def templateFilesDigest (dir : Directory) : Except String String :=
  materialDigest false lossy sha256 root dir

end Digest

/-! ## The material of a directory -/

/-- The files that the walk does not pass over, with their contents. -/
def kept (httpBackend : Bool) (dir : RelativePath) : Listing → List (RelativePath × Bytes)
  | .done => []
  | .file name content rest =>
    if passedOver httpBackend (dir ++ [name]) then kept httpBackend dir rest
    else (dir ++ [name], content) :: kept httpBackend dir rest
  | .directory name inner rest =>
    if passedOver httpBackend (dir ++ [name]) then kept httpBackend dir rest
    else kept httpBackend (dir ++ [name]) inner ++ kept httpBackend dir rest

/-- The files that the digest runs over. -/
def Directory.walked (dir : Directory) : List (RelativePath × Bytes) :=
  kept false [] dir.listing

/-- All files below `dir`, with their contents. -/
def Listing.files (dir : RelativePath) : Listing → List (RelativePath × Bytes)
  | done => []
  | file name content rest => (dir ++ [name], content) :: rest.files dir
  | directory name inner rest => inner.files (dir ++ [name]) ++ rest.files dir

/-- The files of a directory, less those that the engine generates. -/
def Directory.material (dir : Directory) : List (RelativePath × Bytes) :=
  (dir.listing.files []).filter fun file => !engineGenerated file.1

/-- Two directories hold the same template files. -/
def SameMaterial (dir dir' : Directory) : Prop :=
  ∀ file, file ∈ dir.material ↔ file ∈ dir'.material

/-- The path leads through a directory that has the name of a file the engine generates. -/
def skipped (path : RelativePath) : Bool :=
  path.inits.any fun dir => dir ≠ [] && dir ≠ path && engineGenerated dir

/-- Two directories hold the same template files but for files in directories of such names. -/
def DifferInSkipped (dir dir' : Directory) : Prop :=
  (∀ file : RelativePath × Bytes, skipped file.1 = false →
    (file ∈ dir.material ↔ file ∈ dir'.material)) ∧ ¬ SameMaterial dir dir'

/-- The files that the digest runs over, in the order of their paths. -/
def Directory.sorted (dir : Directory) : List (RelativePath × Bytes) :=
  dir.walked.insertionSort fun f g => RelativePath.key f.1 ≤ RelativePath.key g.1

/-- The records the digest runs over. -/
def Directory.records (dir : Directory) : List (Bytes × Bytes) :=
  dir.sorted.map fun file => (List.intercalate [47] (file.1.map (·.bytes)), file.2)

variable {httpBackend : Bool} {lossy : Bytes → Bytes} {sha256 : Bytes → String} {root : String}
  {listing : Listing} {dir : RelativePath}

theorem collect_eq : collect httpBackend dir listing = (kept httpBackend dir listing).map (·.1) := by
  induction listing generalizing dir with
  | done => rfl
  | file name content rest ih =>
    simp only [collect, kept]
    split
    · exact ih
    · rw [ih]
      rfl
  | directory name inner rest ihInner ih =>
    simp only [collect, kept]
    split
    · exact ih
    · rw [ihInner, ih, List.map_append]

/-- A kept file lies below the directory, and is what is read there. -/
theorem exists_of_mem_kept (h : listing.Distinct) {file : RelativePath × Bytes}
    (hfile : file ∈ kept httpBackend dir listing) :
    ∃ first path, first ∈ listing.names ∧ file.1 = dir ++ first :: path ∧
      listing.read (first :: path) = some file.2 := by
  induction listing generalizing dir with
  | done => exact absurd hfile List.not_mem_nil
  | file name content rest ih =>
    obtain ⟨hname, hrest⟩ := h
    have hlater : file ∈ kept httpBackend dir rest → ∃ first path,
        first ∈ (Listing.file name content rest).names ∧ file.1 = dir ++ first :: path ∧
        (Listing.file name content rest).read (first :: path) = some file.2 := by
      intro hmem
      obtain ⟨first, path, hfirst, hpath, hread⟩ := ih hrest hmem
      have hne : first :: path ≠ [name] := by
        intro heq
        cases heq
        exact hname hfirst
      refine ⟨first, path, List.mem_cons_of_mem _ hfirst, hpath, ?_⟩
      rw [Listing.read, if_neg hne]
      exact hread
    simp only [kept] at hfile
    split at hfile
    · exact hlater hfile
    · rcases List.mem_cons.mp hfile with rfl | hmem
      · exact ⟨name, [], List.mem_cons_self, rfl, if_pos rfl⟩
      · exact hlater hmem
  | directory name inner rest ihInner ih =>
    obtain ⟨hname, hinner, hrest⟩ := h
    have hlater : file ∈ kept httpBackend dir rest → ∃ first path,
        first ∈ (Listing.directory name inner rest).names ∧ file.1 = dir ++ first :: path ∧
        (Listing.directory name inner rest).read (first :: path) = some file.2 := by
      intro hmem
      obtain ⟨first, path, hfirst, hpath, hread⟩ := ih hrest hmem
      have hne : ¬ (first :: path).head? = some name := by
        intro heq
        cases heq
        exact hname hfirst
      refine ⟨first, path, List.mem_cons_of_mem _ hfirst, hpath, ?_⟩
      rw [Listing.read, if_neg hne]
      exact hread
    simp only [kept] at hfile
    split at hfile
    · exact hlater hfile
    · rcases List.mem_append.mp hfile with hmem | hmem
      · obtain ⟨first, path, -, hpath, hread⟩ := ihInner hinner hmem
        refine ⟨name, first :: path, List.mem_cons_self, ?_, ?_⟩
        · rw [hpath, List.append_assoc, List.singleton_append]
        · exact (if_pos rfl).trans hread
      · exact hlater hmem

theorem nodup_kept (h : listing.Distinct) :
    ((kept httpBackend dir listing).map (·.1)).Nodup := by
  induction listing generalizing dir with
  | done => exact List.nodup_nil
  | file name content rest ih =>
    simp only [kept]
    split
    · exact ih h.2
    · rw [List.map_cons]
      refine List.nodup_cons.mpr ⟨fun hmem => ?_, ih h.2⟩
      obtain ⟨file, hfile, hpath⟩ := List.mem_map.mp hmem
      obtain ⟨first, path, hfirst, hpath', -⟩ := exists_of_mem_kept h.2 hfile
      have heq := List.append_cancel_left (hpath'.symm.trans hpath)
      cases heq
      exact h.1 hfirst
  | directory name inner rest ihInner ih =>
    simp only [kept]
    split
    · exact ih h.2.2
    · rw [List.map_append]
      refine List.nodup_append.mpr ⟨ihInner h.2.1, ih h.2.2, ?_⟩
      intro p hp q hq heq
      obtain ⟨file, hfile, rfl⟩ := List.mem_map.mp hp
      obtain ⟨file', hfile', rfl⟩ := List.mem_map.mp hq
      obtain ⟨first, path, -, hpath, -⟩ := exists_of_mem_kept h.2.1 hfile
      obtain ⟨first', path', hfirst', hpath', -⟩ := exists_of_mem_kept h.2.2 hfile'
      rw [hpath, hpath', List.append_assoc] at heq
      cases List.append_cancel_left heq
      exact h.1 hfirst'

theorem exists_of_mem_files {file : RelativePath × Bytes} (hfile : file ∈ listing.files dir) :
    ∃ name path, file.1 = dir ++ name :: path := by
  induction listing generalizing dir with
  | done => cases hfile
  | file name content rest ih =>
    rcases List.mem_cons.mp hfile with rfl | hmem
    · exact ⟨name, [], rfl⟩
    · exact ih hmem
  | directory name inner rest ihInner ih =>
    rcases List.mem_append.mp hfile with hmem | hmem
    · obtain ⟨first, path, hpath⟩ := ihInner hmem
      exact ⟨name, first :: path, by rw [hpath, List.append_assoc, List.singleton_append]⟩
    · exact ih hmem

@[simp] theorem passedOver_false (rel : RelativePath) :
    passedOver false rel = engineGenerated rel := by
  simp [passedOver]

/-- A file is kept if the walk passes over no directory on the way to it, and not over itself. -/
theorem mem_kept_iff {file : RelativePath × Bytes} :
    file ∈ kept false dir listing ↔ file ∈ listing.files dir ∧
      ∀ path, path ≠ [] → dir ++ path <+: file.1 → engineGenerated (dir ++ path) = false := by
  induction listing generalizing dir with
  | done => simp [kept, Listing.files]
  | file name content rest ih =>
    have hhead : (∀ path, path ≠ [] → dir ++ path <+: dir ++ [name] →
        engineGenerated (dir ++ path) = false) ↔ engineGenerated (dir ++ [name]) = false := by
      constructor
      · exact fun h => h [name] (List.cons_ne_nil _ _) (List.prefix_refl _)
      · intro h path hne hlead
        have hsub := List.prefix_append_right_inj dir |>.mp hlead
        cases path with
        | nil => exact absurd rfl hne
        | cons first path =>
          rw [List.cons_prefix_cons, List.prefix_nil] at hsub
          rw [hsub.1, hsub.2]
          exact h
    simp only [kept, passedOver_false, Listing.files, List.mem_cons]
    by_cases hgenerated : engineGenerated (dir ++ [name]) = true
    · rw [if_pos hgenerated, ih]
      constructor
      · exact fun h => ⟨.inr h.1, h.2⟩
      · rintro ⟨rfl | hmem, hclear⟩
        · cases (hhead.mp hclear).symm.trans hgenerated
        · exact ⟨hmem, hclear⟩
    · rw [if_neg hgenerated, List.mem_cons, ih]
      constructor
      · rintro (rfl | h)
        · exact ⟨.inl rfl, hhead.mpr (Bool.eq_false_of_not_eq_true hgenerated)⟩
        · exact ⟨.inr h.1, h.2⟩
      · rintro ⟨rfl | hmem, hclear⟩
        · exact .inl rfl
        · exact .inr ⟨hmem, hclear⟩
  | directory name inner rest ihInner ih =>
    have hinner : file ∈ inner.files (dir ++ [name]) →
        ((∀ path, path ≠ [] → dir ++ path <+: file.1 → engineGenerated (dir ++ path) = false) ↔
          engineGenerated (dir ++ [name]) = false ∧ ∀ path, path ≠ [] →
            dir ++ [name] ++ path <+: file.1 →
              engineGenerated (dir ++ [name] ++ path) = false) := by
      intro hmem
      obtain ⟨first, below, hfile⟩ := exists_of_mem_files hmem
      rw [List.append_assoc, List.singleton_append] at hfile
      constructor
      · intro hclear
        refine ⟨hclear [name] (List.cons_ne_nil _ _) ?_, fun path _ hlead => ?_⟩
        · rw [hfile, List.prefix_append_right_inj]
          exact ⟨first :: below, rfl⟩
        · rw [List.append_assoc, List.singleton_append] at hlead ⊢
          exact hclear (name :: path) (List.cons_ne_nil _ _) hlead
      · rintro ⟨hdirectory, hclear⟩ path hne hlead
        cases path with
        | nil => exact absurd rfl hne
        | cons head path =>
          have hhead := hlead
          rw [hfile, List.prefix_append_right_inj, List.cons_prefix_cons] at hhead
          rw [hhead.1] at hlead ⊢
          cases path with
          | nil => exact hdirectory
          | cons next path =>
            have hsplit : dir ++ name :: next :: path = dir ++ [name] ++ next :: path := by simp
            rw [hsplit] at hlead ⊢
            exact hclear _ (List.cons_ne_nil _ _) hlead
    simp only [kept, passedOver_false, Listing.files, List.mem_append]
    by_cases hgenerated : engineGenerated (dir ++ [name]) = true
    · rw [if_pos hgenerated, ih]
      constructor
      · exact fun h => ⟨.inr h.1, h.2⟩
      · rintro ⟨hmem | hmem, hclear⟩
        · cases ((hinner hmem).mp hclear).1.symm.trans hgenerated
        · exact ⟨hmem, hclear⟩
    · rw [if_neg hgenerated, List.mem_append, ihInner, ih]
      constructor
      · rintro (h | h)
        · exact ⟨.inl h.1, (hinner h.1).mpr ⟨Bool.eq_false_of_not_eq_true hgenerated, h.2⟩⟩
        · exact ⟨.inr h.1, h.2⟩
      · rintro ⟨hmem | hmem, hclear⟩
        · exact .inl ⟨hmem, ((hinner hmem).mp hclear).2⟩
        · exact .inr ⟨hmem, hclear⟩

/-- The digest runs over the material outside of the directories that are left out. -/
theorem mem_walked_iff {dir : Directory} {file : RelativePath × Bytes} :
    file ∈ dir.walked ↔ file ∈ dir.material ∧ skipped file.1 = false := by
  unfold Directory.walked Directory.material skipped
  rw [mem_kept_iff, List.mem_filter, and_assoc]
  refine and_congr_right fun hmem => ?_
  obtain ⟨name, below, hfile⟩ := exists_of_mem_files hmem
  have hne : file.1 ≠ [] := by
    rw [hfile]
    exact List.cons_ne_nil _ _
  simp only [List.nil_append, Bool.not_eq_true', List.any_eq_false, List.mem_inits,
    Bool.and_eq_true, decide_eq_true_eq, not_and, Bool.not_eq_true]
  constructor
  · intro hclear
    exact ⟨hclear _ hne (List.prefix_refl _), fun path hlead hpath => hclear path hpath.1 hlead⟩
  · rintro ⟨hself, hdirectories⟩ path hpath hlead
    by_cases heq : path = file.1
    · rw [heq]
      exact hself
    · exact hdirectories path hlead ⟨hpath, heq⟩

/-- No component of a kept path is passed over for its encoding. -/
theorem utf8_of_mem_kept (hdir : ∀ name ∈ dir, name.utf8 = true) {file : RelativePath × Bytes}
    (hfile : file ∈ kept httpBackend dir listing) : ∀ name ∈ file.1, name.utf8 = true := by
  have hlast : ∀ {dir : RelativePath} {name : FileName}, ¬ passedOver httpBackend (dir ++ [name]) →
      (∀ name ∈ dir, name.utf8 = true) → ∀ name' ∈ dir ++ [name], name'.utf8 = true := by
    intro dir name hpassed hdir name' hname'
    rcases List.mem_append.mp hname' with hmem | hmem
    · exact hdir name' hmem
    · rw [List.mem_singleton.mp hmem]
      by_contra hnot
      refine hpassed ?_
      have hgenerated : engineGenerated (dir ++ [name]) = true := by
        unfold engineGenerated
        split
        · rfl
        · rw [List.getLast?_concat]
          have hmalformed : name.utf8 = false := by simpa using hnot
          simp [hmalformed]
      simp [passedOver, hgenerated]
  induction listing generalizing dir with
  | done => exact absurd hfile List.not_mem_nil
  | file name content rest ih =>
    simp only [kept] at hfile
    split at hfile
    · exact ih hdir hfile
    · next hpassed =>
      rcases List.mem_cons.mp hfile with rfl | hmem
      · exact hlast hpassed hdir
      · exact ih hdir hmem
  | directory name inner rest ihInner ih =>
    simp only [kept] at hfile
    split at hfile
    · exact ih hdir hfile
    · next hpassed =>
      rcases List.mem_append.mp hfile with hmem | hmem
      · exact ihInner (hlast hpassed hdir) hmem
      · exact ih hdir hmem

/-! ## Paths and their canonical forms -/

theorem FileName.ext_bytes {name name' : FileName} (h : name.bytes = name'.bytes) :
    name = name' := by
  cases name
  cases name'
  cases h
  rfl

/-- Components hold no slash, so the slashes of a canonical path are those between them. -/
theorem intercalate_bytes_inj {path path' : RelativePath}
    (h : List.intercalate [47] (path.map (·.bytes)) =
      List.intercalate [47] (path'.map (·.bytes))) : path = path' := by
  have hslash : ∀ path : RelativePath, ∀ bytes ∈ path.map (·.bytes), 47 ∉ bytes := by
    intro path bytes hbytes
    obtain ⟨name, -, rfl⟩ := List.mem_map.mp hbytes
    exact name.valid.2.2
  have hsplit : ∀ {path : RelativePath}, path ≠ [] →
      (List.intercalate [47] (path.map (·.bytes))).splitOn 47 = path.map (·.bytes) := by
    intro path hne
    refine List.splitOn_intercalate 47 (hslash path) ?_
    simpa using hne
  have hnonempty : ∀ {path : RelativePath}, path ≠ [] →
      List.intercalate [47] (path.map (·.bytes)) ≠ [] := by
    intro path hne hnil
    have hbytes := hsplit hne
    rw [hnil] at hbytes
    cases path with
    | nil => exact hne rfl
    | cons name path =>
      have hname : [] = name.bytes := (List.cons.inj hbytes).1
      exact name.valid.1 hname.symm
  by_cases hpath : path = []
  · by_cases hpath' : path' = []
    · rw [hpath, hpath']
    · subst hpath
      exact absurd h.symm (hnonempty hpath')
  · by_cases hpath' : path' = []
    · subst hpath'
      exact absurd h (hnonempty hpath)
    · have hmap := congrArg (List.splitOn 47) h
      rw [hsplit hpath, hsplit hpath'] at hmap
      exact List.map_injective_iff.mpr (fun _ _ => FileName.ext_bytes) hmap

theorem zero_not_mem_intercalate (path : RelativePath) :
    (0 : UInt8) ∉ List.intercalate [47] (path.map (·.bytes)) := by
  intro hmem
  induction path with
  | nil => exact absurd hmem List.not_mem_nil
  | cons name path ih =>
    cases path with
    | nil =>
      rw [List.map_singleton, List.intercalate_singleton] at hmem
      exact name.valid.2.1 hmem
    | cons next path =>
      rw [List.map_cons, List.map_cons, List.intercalate_cons_cons] at hmem
      rcases List.mem_append.mp hmem with hmem | hmem
      · rcases List.mem_append.mp hmem with hmem | hmem
        · exact name.valid.2.1 hmem
        · exact absurd (List.mem_singleton.mp hmem) (by decide)
      · exact ih hmem

theorem RelativePath.key_inj {path path' : RelativePath}
    (h : RelativePath.key path = RelativePath.key path') : path = path' := by
  refine List.map_injective_iff.mpr (fun name name' hname => ?_) h
  have hbytes : name.bytes = name'.bytes :=
    List.map_injective_iff.mpr (fun _ _ => UInt8.toNat_inj.mp) hname
  exact FileName.ext_bytes hbytes

theorem canonical_eq {path : RelativePath} (h : ∀ name ∈ path, name.utf8 = true) :
    canonical lossy path = List.intercalate [47] (path.map (·.bytes)) := by
  unfold canonical
  congr 1
  refine List.map_congr_left fun name hname => ?_
  exact if_pos (h name hname)

/-! ## The sorted material -/

theorem Directory.perm_sorted (dir : Directory) : dir.sorted.Perm dir.walked :=
  List.perm_insertionSort _ _

theorem Directory.mem_sorted {dir : Directory} {file : RelativePath × Bytes} :
    file ∈ dir.sorted ↔ file ∈ dir.walked :=
  dir.perm_sorted.mem_iff

/-- The records are the walked files in an order that the walk has no part in. -/
theorem records_eq_iff {dir dir' : Directory} :
    dir.records = dir'.records ↔ ∀ file, file ∈ dir.walked ↔ file ∈ dir'.walked := by
  constructor
  · intro h file
    have hinj : Function.Injective fun file : RelativePath × Bytes =>
        (List.intercalate [47] (file.1.map (·.bytes)), file.2) := by
      rintro ⟨path, content⟩ ⟨path', content'⟩ heq
      obtain ⟨hpath, hcontent⟩ := Prod.mk.inj heq
      exact Prod.ext (intercalate_bytes_inj hpath) hcontent
    have hsorted := List.map_injective_iff.mpr hinj h
    rw [← Directory.mem_sorted, ← Directory.mem_sorted, hsorted]
  · intro h
    have hnodup : ∀ dir : Directory, dir.walked.Nodup :=
      fun dir => (nodup_kept dir.distinct).of_map
    have hperm : dir.sorted.Perm dir'.sorted :=
      dir.perm_sorted.trans (((List.perm_ext_iff_of_nodup (hnodup dir) (hnodup dir')).mpr
        fun file => h file).trans dir'.perm_sorted.symm)
    have hascending : ∀ dir : Directory,
        dir.sorted.Pairwise fun f g => RelativePath.key f.1 ≤ RelativePath.key g.1 := by
      intro dir
      have : IsTrans (RelativePath × Bytes)
          fun f g => RelativePath.key f.1 ≤ RelativePath.key g.1 := ⟨fun _ _ _ => le_trans⟩
      have : Std.Total (α := RelativePath × Bytes)
          fun f g => RelativePath.key f.1 ≤ RelativePath.key g.1 := ⟨fun _ _ => le_total _ _⟩
      exact List.pairwise_insertionSort _ _
    have hsame : dir.sorted = dir'.sorted := by
      refine hperm.eq_of_pairwise (fun f g hf hg hle hge => ?_) (hascending dir) (hascending dir')
      have hkey := RelativePath.key_inj (le_antisymm hle hge)
      have hf' := Directory.mem_sorted.mp hf
      have hg' := Directory.mem_sorted.mp (hperm.mem_iff.mpr hg)
      exact List.inj_on_of_nodup_map (nodup_kept dir.distinct) hf' hg' hkey
    unfold Directory.records
    rw [hsame]

theorem sortPaths_map (files : List (RelativePath × Bytes)) :
    sortPaths (files.map (·.1)) =
      (files.insertionSort fun f g => RelativePath.key f.1 ≤ RelativePath.key g.1).map (·.1) := by
  unfold sortPaths
  symm
  exact List.map_insertionSort _ (fun p q => RelativePath.key p ≤ RelativePath.key q) Prod.fst files
    fun _ _ _ _ => Iff.rfl

/-- A digest that was computed is that of the records. -/
theorem templateFilesDigest_eq_ok {dir : Directory} {digest : String}
    (h : templateFilesDigest lossy sha256 root dir = .ok digest) :
    digest = "sha256:" ++ sha256 (spelled 0 dir.records) := by
  unfold templateFilesDigest materialDigest at h
  obtain ⟨_, -, hrest⟩ := bind_eq_ok.mp h
  obtain ⟨records, hrecords, hdigest⟩ := bind_eq_ok.mp hrest
  have hsame : records = dir.records := by
    rw [collect_eq, sortPaths_map] at hrecords
    have hread : ∀ file ∈ dir.sorted, dir.listing.read file.1 = some file.2 ∧
        canonical lossy file.1 = List.intercalate [47] (file.1.map (·.bytes)) := by
      intro file hfile
      have hkept := Directory.mem_sorted.mp hfile
      obtain ⟨first, path, -, hpath, hread⟩ := exists_of_mem_kept dir.distinct hkept
      have hutf8 := utf8_of_mem_kept (fun name hname => absurd hname List.not_mem_nil) hkept
      exact ⟨hpath ▸ hread, canonical_eq hutf8⟩
    have hmap := map_eq_of_mapM_eq_ok (g := id)
      (h := fun rel => (canonical lossy rel, (dir.listing.read rel).getD [])) hrecords ?_
    · rw [List.map_id, List.map_map] at hmap
      rw [hmap]
      refine List.map_congr_left fun file hfile => ?_
      obtain ⟨hcontent, hcanonical⟩ := hread file hfile
      exact Prod.ext hcanonical (by simp [hcontent])
    · intro rel hrel record hrecord
      obtain ⟨bytes, hbytes, hrecord⟩ := bind_eq_ok.mp hrecord
      rw [← pure_eq_ok.mp hrecord]
      simp [okOr_eq_ok.mp hbytes]
  rw [← pure_eq_ok.mp hdigest, hsame]

theorem zero_not_mem_records (dir : Directory) : ∀ record ∈ dir.records, (0 : UInt8) ∉ record.1 := by
  intro record hrecord
  obtain ⟨file, -, rfl⟩ := List.mem_map.mp hrecord
  exact zero_not_mem_intercalate file.1

theorem sameMaterial_iff {dir dir' : Directory} : SameMaterial dir dir' ↔
    (∀ file, file ∈ dir.walked ↔ file ∈ dir'.walked) ∧ ¬ DifferInSkipped dir dir' := by
  have hwalked : (∀ file, file ∈ dir.walked ↔ file ∈ dir'.walked) ↔
      ∀ file : RelativePath × Bytes, skipped file.1 = false →
        (file ∈ dir.material ↔ file ∈ dir'.material) := by
    refine forall_congr' fun file => ?_
    rw [mem_walked_iff, mem_walked_iff]
    exact and_congr_left_iff
  unfold DifferInSkipped
  rw [hwalked]
  constructor
  · exact fun h => ⟨fun file _ => h file, fun hdiffer => hdiffer.2 h⟩
  · rintro ⟨hsame, hno⟩
    by_contra hdiffer
    exact hno ⟨hsame, hdiffer⟩

/-- **What the digest binds.**  The digests of two directories tell their template material apart
exactly when they do not differ in directories alone that the walk leaves out, and neither directory
respells the other: when it is not so that the first file in which they differ goes on, in one of
them, with the bytes that the next files spell in the other. -/
theorem templateFilesDigest_binds_iff (hsha256 : Function.Injective sha256) {root' : String}
    {directory directory' : Directory} {digest digest' : String}
    (h : templateFilesDigest lossy sha256 root directory = .ok digest)
    (h' : templateFilesDigest lossy sha256 root' directory' = .ok digest') :
    (digest = digest' ↔ SameMaterial directory directory') ↔
      ¬ DifferInSkipped directory directory' ∧
        ¬ (Respelled 0 directory.records directory'.records ∨
          Respelled 0 directory'.records directory.records) := by
  have hspelled : digest = digest' ↔
      spelled 0 directory.records = spelled 0 directory'.records := by
    rw [templateFilesDigest_eq_ok h, templateFilesDigest_eq_ok h']
    constructor
    · intro heq
      exact hsha256 (String.append_right_inj _ |>.mp heq)
    · intro heq
      rw [heq]
  have hfaithful := spelled_faithful_iff (zero_not_mem_records directory)
    (zero_not_mem_records directory')
  have hsame : directory.records = directory'.records →
      spelled 0 directory.records = spelled 0 directory'.records := congrArg _
  have hdiffer : DifferInSkipped directory directory' →
      directory.records = directory'.records := by
    intro hdiffer
    rw [records_eq_iff]
    intro file
    rw [mem_walked_iff, mem_walked_iff]
    exact and_congr_left_iff.mpr (hdiffer.1 file)
  rw [hspelled, sameMaterial_iff, ← records_eq_iff, ← hfaithful]
  tauto

/-! ## Two directories with one digest -/

def latin1 (bytes : Bytes) : String := String.ofList (bytes.map fun b => Char.ofNat b.toNat)

theorem latin1_injective : Function.Injective latin1 := by
  have hchar : ∀ b : UInt8, (Char.ofNat b.toNat).toNat = b.toNat := by
    intro b
    have hvalid : b.toNat.isValidChar := .inl (by have := b.toNat_lt; omega)
    unfold Char.ofNat
    rw [dif_pos hvalid]
    rfl
  intro bytes bytes' heq
  refine List.map_injective_iff.mpr (fun b c h => ?_) (String.ofList_injective heq)
  have hnat := congrArg Char.toNat h
  rw [hchar, hchar] at hnat
  exact UInt8.toNat_inj.mp hnat

/-- `main.tf`, the module file `name`, and the other two files every template has. -/
def moduleDirectory (main : Bytes) (name : FileName) (content : Bytes) : Listing :=
  .file ⟨"main.tf".toUTF8.toList, by decide +kernel⟩ main
    (.file name content
      (.file ⟨"profile.yaml".toUTF8.toList, by decide +kernel⟩ [35]
        (.file ⟨".terraform.lock.hcl".toUTF8.toList, by decide +kernel⟩ [35] .done)))

def longName : Directory where
  listing := moduleDirectory [35] ⟨"nn.tf".toUTF8.toList, by decide +kernel⟩ [10]
  distinct := by decide +kernel

/-- The first letter of the module file's name has become the last byte of `main.tf`. -/
def shortName : Directory where
  listing := moduleDirectory [35, 110] ⟨"n.tf".toUTF8.toList, by decide +kernel⟩ [10]
  distinct := by decide +kernel

/-- A template with a file in a directory of the name of a saved plan. -/
def planned (content : Bytes) : Directory where
  listing := .directory ⟨"tfplan".toUTF8.toList, by decide +kernel⟩
    (.file ⟨"main.tf".toUTF8.toList, by decide +kernel⟩ content .done) longName.listing
  distinct := by
    have h := longName.distinct
    exact ⟨by decide +kernel, ⟨List.not_mem_nil, trivial⟩, h⟩

theorem templateFilesDigest_same_for_different_material :
    (templateFilesDigest id latin1 "artifact" longName).isOk = true ∧
      templateFilesDigest id latin1 "artifact" longName =
        templateFilesDigest id latin1 "artifact" shortName ∧
      ¬ SameMaterial longName shortName ∧
      (templateFilesDigest id latin1 "artifact" (planned [35])).isOk = true ∧
      templateFilesDigest id latin1 "artifact" (planned [35]) =
        templateFilesDigest id latin1 "artifact" (planned [36]) ∧
      ¬ SameMaterial (planned [35]) (planned [36]) := by
  refine ⟨by decide +kernel, by decide +kernel, fun hsame => ?_, by decide +kernel,
    by decide +kernel, fun hsame => ?_⟩
  · have hmem : ([⟨"main.tf".toUTF8.toList, by decide +kernel⟩], [35]) ∈ shortName.material :=
      (hsame _).mp (by decide +kernel)
    exact absurd hmem (by decide +kernel)
  · have hmem : ([⟨"tfplan".toUTF8.toList, by decide +kernel⟩,
        ⟨"main.tf".toUTF8.toList, by decide +kernel⟩], [35]) ∈ (planned [36]).material :=
      (hsame _).mp (by decide +kernel)
    exact absurd hmem (by decide +kernel)

/-- The exact condition at the first pair of directories above. -/
theorem templateFilesDigest_binds_iff_sample :
    ∃ digest digest', templateFilesDigest id latin1 "artifact" longName = .ok digest ∧
      templateFilesDigest id latin1 "artifact" shortName = .ok digest' ∧
      ((digest = digest' ↔ SameMaterial longName shortName) ↔
        ¬ DifferInSkipped longName shortName ∧
          ¬ (Respelled 0 longName.records shortName.records ∨
            Respelled 0 shortName.records longName.records)) := by
  obtain ⟨digest, h⟩ := exists_ok_of_isOk
    (x := templateFilesDigest id latin1 "artifact" longName) (by decide +kernel)
  obtain ⟨digest', h'⟩ := exists_ok_of_isOk
    (x := templateFilesDigest id latin1 "artifact" shortName) (by decide +kernel)
  exact ⟨digest, digest', h, h', templateFilesDigest_binds_iff latin1_injective h h'⟩

end Shaula.Template.Workspace
