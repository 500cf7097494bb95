import Shaula.Core.StateBackend
import Shaula.Library.FileTree
import Shaula.Library.Json
import Shaula.Template.MaterialDigest

/-! # Receipt-authorized cleanup

The entire workspace is refused if any path in it is unknown, mutable evidence, redirected, or no
longer backed by retained material.
-/

namespace Shaula.Template.Workspace

open Library Library.Outcome Core

inductive CleanupOutcome where
  | reaped
  | retained
  deriving DecidableEq

/-- A regular file.  It may not be readable. -/
structure StoredFile where
  size : Nat
  content : Option Bytes
  deriving DecidableEq

abbrev WorkspaceTree := FileTree FileName StoredFile

structure WorkspaceCleanup where
  /-- The last component of the workspace's path. -/
  fileName : Option String
  generationId : String
  retainedInputDigest : Option String

/-- What a cleanup finds beside the workspace. -/
structure Surroundings where
  /-- Whether there is a workspace can be told. -/
  known : Bool
  /-- The workspace is `contained` in the work root. -/
  workContains : Bool
  /-- The artifact is `contained` in the artifact root. -/
  artifactsContain : Bool
  /-- The workspace is a directory, and no link to one. -/
  isDirectory : Bool
  /-- The artifact has the digest that the request tells. -/
  intact : Bool
  artifact : RelativePath → Option (Entry StoredFile)

structure Readers where
  sha256 : Bytes → String
  /-- `serde_json::from_slice`. -/
  fromSlice : Bytes → Option Json
  lossy : Bytes → Bytes

def Readers.digest (R : Readers) (content : Bytes) : String := "sha256:" ++ R.sha256 content

def text (s : String) : Bytes := s.toUTF8.toList

/-! ## Inventory -/

structure Inventory where
  files : List (RelativePath × Nat)
  dirs : List RelativePath

def Inventory.count (found : Inventory) : Nat := found.files.length + found.dirs.length

section Reap

variable (t : WorkspaceTree)

/-- Bounded inventory; `depth` is what is left of 32 components.  No link is followed. -/
def inventory : Nat → RelativePath → Inventory → StateResult Inventory
  | 0, _, _ => .error .tooLarge
  | depth + 1, relative, found => do
    let names ← okOr (t.readDir relative) .unavailable
    names.foldlM (fun found name => do
      ensure (found.count < 8192) .tooLarge
      let path := relative ++ [name]
      match t.find path with
      | some (.directory _) => inventory depth path { found with dirs := found.dirs ++ [path] }
      | some (.file file) => return { found with files := found.files ++ [(path, file.size)] }
      | some .other => .error .invalid
      | none => .error .unavailable) found

/-! ## What is recognised -/

def providerDirectory (path : RelativePath) (least most : Nat) : Bool :=
  path.all (·.utf8) && (least ≤ path.length && path.length ≤ most) &&
    (path.take 2).map (·.bytes) = [text ".terraform", text "providers"] &&
    (path.length < 3 || (path.drop 2).head?.any (·.named "registry.terraform.io")) &&
    (path.drop 2).all fun name => name.bytes.all fun c =>
      (48 ≤ c && c ≤ 57) || (65 ≤ c && c ≤ 90) || (97 ≤ c && c ≤ 122) || c ∈ text "._-"

def providerCacheDirectory (path : RelativePath) : Bool := providerDirectory path 2 6

/-- Installed provider packages ship README, CHANGELOG and LICENSE beside the binary. -/
def providerPackageDirectory (path : RelativePath) : Bool := providerDirectory path 7 7

def maxStateBytes : Nat := 16 * 1024 * 1024

def backendBytes : Bytes := text "terraform \x7b\n  backend \"http\" \x7b\x7d\n\x7d\n"

/-- The http backend, with no setting of its own. -/
def backendUnset (value : Json) : Bool :=
  ((value.get "backend").bind fun backend => backend.strAt "type") = some "http" &&
    (((value.get "backend").bind fun backend => backend.get "config").bind Json.asObject).any
      fun members => members.all fun member => member.2.isNull

/-- What reading a file of the workspace gives. -/
def contentAt (path : RelativePath) : Option Bytes :=
  match t.find path with
  | some (.file file) => file.content
  | _ => none

variable (R : Readers) (disk : Surroundings) (request : WorkspaceCleanup)

/-- The path with forward slashes only. -/
def slashed (path : RelativePath) : Bytes :=
  (canonical R.lossy path).map fun c => if c = 92 then 47 else c

def recognisedFile (path : RelativePath) (size : Nat) : StateResult Bool :=
  let name := slashed R path
  let content := contentAt t path
  if name = text "shaula.tfvars.json" then
    return size ≤ maxStateBytes && request.retainedInputDigest.any fun expected =>
      content.any fun bytes => R.digest bytes = expected
  else if name = text "shaula.backend.tf" then
    return size < 128 && content = some backendBytes
  else if name = text "tfplan" then return true
  else if name = text ".terraform/terraform.tfstate" then
    return size < 64 * 1024 && content.any fun bytes => (R.fromSlice bytes).any backendUnset
  else if text "tfstate" <:+: name ∨ text ".tfstate.backup" <:+ name then return false
  else if text ".terraform/providers/" <+: name then
    return (path.getLast?.any fun file => file.utf8 &&
        (text "terraform-provider-" <+: file.bytes || file.named "LICENSE.txt")) ||
      providerPackageDirectory path.dropLast
  else
    match disk.artifact path with
    | some (.file retained) =>
      if retained.size = size then do
        let actual ← okOr content .unavailable
        let expected ← okOr retained.content .unavailable
        return R.digest actual = R.digest expected
      else return false
    | _ => return false

/-- Every file in turn is recognised. -/
def recognisedFiles : List (RelativePath × Nat) → StateResult Bool
  | [] => return true
  | (path, size) :: rest => do
    let allowed ← recognisedFile t R disk request path size
    if allowed then recognisedFiles rest else return false

/-- Directories that need not lead to a file. -/
def knownDirectory (dir : RelativePath) : Bool :=
  (match disk.artifact dir with
    | some (.directory _) => true
    | _ => false) ||
    (dir.map (·.bytes) = [text ".terraform"] || providerCacheDirectory dir)

def recognisedDirectory (files : List (RelativePath × Nat)) (dir : RelativePath) : Bool :=
  (files.any fun file => dir <+: file.1) || knownDirectory disk dir

/-- The files in the order of their paths. -/
def sortFiles (files : List (RelativePath × Nat)) : List (RelativePath × Nat) :=
  files.insertionSort fun f g => RelativePath.key f.1 ≤ RelativePath.key g.1

/-- What is there, if everything is recognised. -/
def checkedInventory : StateResult (Option Inventory) :=
  match inventory t 33 [] ⟨[], []⟩ with
  | .error _ => return none
  | .ok found => do
    let files := sortFiles found.files
    let allowed ← recognisedFiles t R disk request files
    if allowed && found.dirs.all (recognisedDirectory disk files) then
      return some { found with files }
    else return none

/-! ## Removal -/

/-- A workspace, while there is one. -/
abbrev WorkspaceState := Option WorkspaceTree

inductive Removal where
  | file (path : RelativePath)
  | dir (path : RelativePath)
  | workspace
  deriving DecidableEq

/-- The file system refuses to remove a directory that is not empty. -/
def Removal.perform (w : WorkspaceState) : Removal → StateResult WorkspaceState
  | .file path => do
    let t ← okOr w .unavailable
    let t ← okOr (t.removeFile path) .unavailable
    return some t
  | .dir path => do
    let t ← okOr w .unavailable
    let t ← okOr (t.removeDirectory path) .unavailable
    return some t
  | .workspace => do
    let t ← okOr w .unavailable
    ensure (t.names [] = []) .unavailable
    return none

/-- The inventoried entries, and no others: a new entry prevents the removal of its directory. -/
def Inventory.removals (found : Inventory) : List Removal :=
  found.files.map (fun file => .file file.1) ++ found.dirs.reverse.map .dir ++ [.workspace]

/-- The first failure ends the removals. -/
def removeAll : List Removal → WorkspaceState → StateResult Unit × WorkspaceState
  | [], w => (.ok (), w)
  | removal :: rest, w =>
    match removal.perform w with
    | .ok w' => removeAll rest w'
    | .error e => (.error e, w)

inductive Decision where
  | answer (outcome : CleanupOutcome)
  | remove (found : Inventory)

/-- What is to be done, before anything is removed. -/
def decision (w : WorkspaceState) : StateResult Decision :=
  if request.fileName ≠ some request.generationId then return .answer .retained
  else if ¬ disk.known then .error .unavailable
  else match w with
    | none => return .answer .reaped
    | some t =>
      if ¬ (disk.workContains ∧ disk.artifactsContain ∧ disk.isDirectory ∧ disk.intact) then
        return .answer .retained
      else do
        let found ← checkedInventory t R disk request
        match found with
        | none => return .answer .retained
        | some found => return .remove found

def reap (w : WorkspaceState) : StateResult CleanupOutcome × WorkspaceState :=
  match decision R disk request w with
  | .error e => (.error e, w)
  | .ok (.answer outcome) => (.ok outcome, w)
  | .ok (.remove found) =>
    let (removed, w') := removeAll found.removals w
    (removed.map fun _ => .reaped, w')

/-- What a call leaves that is interrupted, or fails, after so many removals. -/
def cutShort (removals : Nat) (w : WorkspaceState) : WorkspaceState :=
  match decision R disk request w with
  | .ok (.remove found) => (removeAll (found.removals.take removals) w).2
  | _ => w

end Reap

end Shaula.Template.Workspace
