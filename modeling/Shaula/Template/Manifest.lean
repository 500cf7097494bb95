import Shaula.Core.Records
import Shaula.Library.Json
import Shaula.Library.Quoting
import Shaula.Registry.Spec

/-! # Template profile manifests

The versioned manifest inside an admitted artifact, its static validation and the runner backend a
publisher's bindings select.
-/

namespace Shaula

open Library Library.Outcome
open Registry (isWhiteSpace trim)

namespace Template

/-! ## Errors -/

inductive ReasonCode where
  | specInvalid
  | templateInvalid
  | templatePlanFailed
  | templateExecutionFailed
  deriving DecidableEq, Repr

structure CoreError where
  code : ReasonCode
  message : String
  deriving DecidableEq, Repr

abbrev CoreResult := Except CoreError

def invalid (message : String) : CoreError := ⟨.templateInvalid, message⟩

/-! ## Foreign readers -/

/-- The parts of a semantic version that are looked at. -/
structure Version where
  major : Nat
  pre : String

/-- The parts of a URL that are looked at. -/
structure Url where
  scheme : String
  host : Option String
  username : String
  password : Option String
  query : Option String
  fragment : Option String
  port : Option Nat
  path : String

/-- The readers this program takes from other crates, and the table of the debug printer. -/
structure Crates where
  parseVersion : String → Option Version
  parseUrl : String → Option Url
  tables : Quoting.Tables

/-! ## Strings -/

def isAsciiHexDigit (c : Char) : Bool :=
  c.isDigit || ('a' ≤ c && c ≤ 'f') || ('A' ≤ c && c ≤ 'F')

/-- What follows `lead` in `value`. -/
def stripPrefix (lead value : String) : Option String :=
  if lead.toList.isPrefixOf value.toList then
    some (String.ofList (value.toList.drop lead.toList.length))
  else none

/-- What precedes and follows the first occurrence of `pattern`. -/
def splitOnceChars (pattern : List Char) : List Char → Option (List Char × List Char)
  | [] => if pattern = [] then some ([], []) else none
  | c :: rest =>
    if pattern.isPrefixOf (c :: rest) then some ([], (c :: rest).drop pattern.length)
    else (splitOnceChars pattern rest).map fun halves => (c :: halves.1, halves.2)

def splitOnce (pattern value : String) : Option (String × String) :=
  (splitOnceChars pattern.toList value.toList).map fun halves =>
    (String.ofList halves.1, String.ofList halves.2)

/-- The parts of `value` between occurrences of `separator`. -/
def split (separator : Char) (value : String) : List String :=
  (value.toList.splitOn separator).map String.ofList

/-- The decimal `u64` a text denotes, which may carry a plus sign. -/
def parseU64 (value : String) : Option Nat :=
  let digits := if value.toList.head? = some '+' then value.toList.drop 1 else value.toList
  if digits ≠ [] ∧ digits.all Char.isDigit then
    let n := digits.foldl (fun n c => 10 * n + (c.toNat - '0'.toNat)) 0
    if n < 2 ^ 64 then some n else none
  else none

/-! ## Engine versions -/

/-- Parses `major[.minor[.patch]]` into zero-padded segments. -/
def parseSegments (raw : String) : Option (Nat × Nat × Nat) :=
  if trim raw = "" then none
  else
    match (split '.' (trim raw)).mapM fun part => parseU64 (trim part) with
    | some [major] => some (major, 0, 0)
    | some [major, minor] => some (major, minor, 0)
    | some [major, minor, patch] => some (major, minor, patch)
    | _ => none

inductive ConstraintElement where
  | atLeast (bound : Nat × Nat × Nat)
  | below (bound : Nat × Nat × Nat)
  deriving DecidableEq

def parseElement (raw : String) : Option ConstraintElement :=
  match stripPrefix ">=" (trim raw), stripPrefix "<" (trim raw) with
  | some bound, _ => (parseSegments bound).map .atLeast
  | none, some bound => (parseSegments bound).map .below
  | none, none => none

/-- Comma-separated `>= a.b.c` and `< a.b.c` constraints. -/
def parseConstraint (constraint : String) : Option (List ConstraintElement) :=
  (split ',' constraint).mapM parseElement

/-- Whether a required version is within the supported grammar. -/
def requiredVersionSupported (constraint : String) : Bool := (parseConstraint constraint).isSome

/-! ## The manifest -/

/-- One role of the managed resource shape, under its name. -/
structure ManagedResourceRole extends Core.ManagedResourceRole where
  role : String
  deriving DecidableEq, Repr

structure ManifestRuntime where
  protocol : String
  engine : String
  rootModule : String
  requiredVersion : String
  deriving DecidableEq, Repr

structure ProfileManifest where
  apiVersion : String
  kind : String
  platform : String
  runnerBackend : String
  runnerBackends : List String
  runtime : ManifestRuntime
  bindingsContract : String
  managedResourceShape : List ManagedResourceRole
  runnerImageDigests : List String
  runtimePolicyDigest : String
  inputContractVersion : Nat
  setupInfoContract : Option String
  containerBootstrapContract : Option String
  vmImageContract : Option String
  forgejoVmBootstrapContract : Option String
  gitlabVmBootstrapContract : Option String
  deriving DecidableEq, Repr

def manifestApiVersion : String := "shaula.io/template-profile/v1"
def manifestKind : String := "RunnerTemplateProfile"
def supportedProtocol : String := "terraform-cli/v1"
def supportedEngine : String := "terraform"
def setupInfoContract : String := "shaula.setup-info/v1"
def containerBootstrapContract : String := "shaula.container-bootstrap/v1"
def forgejoVmBootstrapContract : String := "shaula.forgejo-vm-cloud-init/v1"
def gitlabVmBootstrapContract : String := "shaula.gitlab-vm-cloud-init/v1"

/-! ## Official images -/

/-- A content digest: 64 hexadecimal characters. -/
def isSha256Digest (digest : String) : Bool :=
  digest.utf8ByteSize = 64 && digest.toList.all isAsciiHexDigit

section Images

variable (C : Crates)

/-- Releases only: prereleases do not prove the minimum supported protocol. -/
def supportsRelease (minimumMajor : Nat) (version : String) : Bool :=
  (C.parseVersion version).any fun v => decide (minimumMajor ≤ v.major) && decide (v.pre = "")

def forgejoSupportsRunnerVersion (version : String) : Bool :=
  supportsRelease C 13 ((stripPrefix "v" version).getD version)

def gitlabSupportsRunnerVersion (tag : String) : Bool :=
  (stripPrefix "v" tag).any (supportsRelease C 19)

def officialRunnerImage (backend image : String) : Bool :=
  match splitOnce "@sha256:" image with
  | none => false
  | some (repository, digest) =>
    isSha256Digest digest &&
      match backend with
      | "github" =>
        decide (repository = "ghcr.io/actions/actions-runner") ||
          (stripPrefix "ghcr.io/actions/actions-runner:" repository).any fun tag =>
            tag ≠ "" && !tag.toList.contains '/' && !tag.toList.any isWhiteSpace
      | "forgejo" =>
        (stripPrefix "code.forgejo.org/forgejo/runner:" repository).any
          (forgejoSupportsRunnerVersion C)
      | "gitlab" =>
        (stripPrefix "gitlab/gitlab-runner:" repository).any (gitlabSupportsRunnerVersion C)
      | _ => false

end Images

/-- Each VM image contract binds exactly one platform and its bindings contract. -/
def vmImageContractBinding : String → Option (String × String)
  | "shaula.proxmox-template/v1" => some ("proxmox", "shaula.bindings.proxmox/v1")
  | "shaula.aws-ami/v1" => some ("aws", "shaula.bindings.aws/v1")
  | "shaula.tencentcloud-image/v1" => some ("tencentcloud", "shaula.bindings.tencentcloud/v1")
  | "shaula.alicloud-image/v1" => some ("alicloud", "shaula.bindings.alicloud/v1")
  | _ => none

/-! ## Validation -/

namespace ProfileManifest

variable (C : Crates) (manifest : ProfileManifest)

def supportsRunnerBackend (backend : String) : Bool :=
  if manifest.runnerBackends = [] then decide (manifest.runnerBackend = backend)
  else decide (backend ∈ manifest.runnerBackends)

/-- A container platform under the container bootstrap contract. -/
def isContainer : Bool :=
  decide (manifest.platform = "docker" ∨ manifest.platform = "kubernetes") &&
    decide (manifest.containerBootstrapContract = some Template.containerBootstrapContract)

/-- A template under the contract that delivers Forgejo credentials to VMs. -/
def isForgejoVm : Bool :=
  decide (manifest.forgejoVmBootstrapContract = some Template.forgejoVmBootstrapContract)

def declared (name : String) : Nat := manifest.runnerBackends.count name

/-- What selectable backends have to be. -/
def SelectableBackends : Prop :=
  (manifest.isContainer ∨ manifest.isForgejoVm) ∧
    manifest.runnerBackends.length = 2 + manifest.declared "gitlab" ∧
    manifest.declared "github" = 1 ∧ manifest.declared "forgejo" = 1 ∧
    manifest.declared "gitlab" ≤ (manifest.isContainer || (manifest.isForgejoVm &&
      decide (manifest.gitlabVmBootstrapContract = some Template.gitlabVmBootstrapContract))).toNat ∧
    manifest.runnerBackend = "github"

instance : Decidable manifest.SelectableBackends := by
  unfold SelectableBackends
  infer_instance

def validateRunnerBackends : CoreResult Unit := do
  ensure (manifest.runnerBackend = "github" ∨ manifest.runnerBackend = "forgejo")
    (invalid "runner_backend must be github or forgejo")
  ensure (manifest.runnerBackends = [] ∨ manifest.SelectableBackends)
    (invalid ("selectable runner_backends requires github and forgejo (optionally gitlab), a " ++
      "github default and an admitted bootstrap contract"))
  ensure (manifest.runnerBackends = [] ∨ manifest.isContainer = false ∨
      ∀ backend ∈ manifest.runnerBackends,
        (manifest.runnerImageDigests.any (officialRunnerImage C backend)) = true)
    (invalid "each selectable runner backend requires an official pinned image")

/-- What a contract that delivers one backend's credentials to VMs asks for. -/
def validateVmBootstrap (declared : Option String) (expected backend message : String) :
    CoreResult Unit :=
  match declared with
  | none => .ok ()
  | some contract =>
    ensure (contract = expected ∧
        manifest.platform ∈ ["proxmox", "aws", "tencentcloud", "alicloud"] ∧
        manifest.vmImageContract.isSome ∧ manifest.containerBootstrapContract = none ∧
        manifest.inputContractVersion = 1 ∧ manifest.supportsRunnerBackend backend)
      (invalid message)

def validateForgejoVmBootstrap : CoreResult Unit :=
  manifest.validateVmBootstrap manifest.forgejoVmBootstrapContract
    Template.forgejoVmBootstrapContract "forgejo"
    "unsupported Forgejo VM cloud-init bootstrap contract"

def validateGitlabVmBootstrap : CoreResult Unit :=
  manifest.validateVmBootstrap manifest.gitlabVmBootstrapContract
    Template.gitlabVmBootstrapContract "gitlab"
    "unsupported GitLab VM cloud-init bootstrap contract"

/-- The bindings contract of a container platform. -/
def containerBinding : Option String :=
  match manifest.platform with
  | "docker" => some "shaula.bindings.docker/v1"
  | "kubernetes" => some "shaula.bindings.kubernetes/v1"
  | _ => none

def validateContainerBootstrap : CoreResult Unit :=
  match manifest.containerBootstrapContract with
  | none => .ok ()
  | some contract =>
    ensure (contract = Template.containerBootstrapContract ∧
        manifest.containerBinding = some manifest.bindingsContract ∧
        manifest.inputContractVersion = 1 ∧ manifest.setupInfoContract = none ∧
        ∀ image ∈ manifest.runnerImageDigests, ∃ backend ∈ ["github", "forgejo", "gitlab"],
          manifest.supportsRunnerBackend backend ∧ officialRunnerImage C backend image)
      (invalid "unsupported container bootstrap contract or non-official runner image")

def validateImageContract : CoreResult Unit :=
  match manifest.vmImageContract with
  | some contract =>
    ensure (vmImageContractBinding contract = some (manifest.platform, manifest.bindingsContract) ∧
        manifest.inputContractVersion = 1 ∧ manifest.setupInfoContract = none ∧
        manifest.containerBootstrapContract = none ∧ manifest.runnerImageDigests = [])
      (invalid "unsupported VM image contract or conflicting image/bootstrap declaration")
  | none => do
    ensure (manifest.runnerImageDigests ≠ [] ∧ manifest.runnerImageDigests.length ≤ 8)
      (invalid "runner_image_digests must declare 1..=8 admitted images")
    manifest.runnerImageDigests.forM fun image => do
      let (_, digest) ← okOr (splitOnce "@sha256:" (trim image))
        (invalid "runner_image_digests entries must be content pins (repo@sha256:<64 hex>)")
      ensure (isSha256Digest digest)
        (invalid "runner_image_digests sha256 digest must be exactly 64 hex characters")
    ensure manifest.runnerImageDigests.Nodup (invalid "duplicate runner_image_digests entries")

/-- Static structural validation. -/
def validate : CoreResult Unit := do
  manifest.validateRunnerBackends C
  manifest.validateForgejoVmBootstrap
  manifest.validateGitlabVmBootstrap
  manifest.validateContainerBootstrap C
  ensure ((manifest.inputContractVersion = 1 ∧ manifest.setupInfoContract = none) ∨
      (manifest.inputContractVersion = 2 ∧
        manifest.setupInfoContract = some Template.setupInfoContract))
    (invalid "unsupported input/setup-info contract combination")
  ensure (manifest.apiVersion = manifestApiVersion) (invalid "unsupported manifest api_version")
  ensure (manifest.kind = manifestKind) (invalid "unsupported manifest kind")
  ensure (manifest.runtime.protocol = supportedProtocol) (invalid "unsupported runtime protocol")
  ensure (manifest.runtime.engine = supportedEngine)
    (invalid "unsupported engine; v1 is Terraform-only")
  ensure (trim manifest.runtime.rootModule ≠ "") (invalid "root_module must be set")
  ensure (requiredVersionSupported manifest.runtime.requiredVersion)
    (invalid "required_version uses an unsupported constraint grammar")
  ensure (manifest.bindingsContract ≠ "" ∧ manifest.bindingsContract.utf8ByteSize ≤ 128)
    (invalid "bindings_contract must be 1..=128 characters")
  ensure (manifest.managedResourceShape ≠ [] ∧ manifest.managedResourceShape.length ≤ 8)
    (invalid "managed_resource_shape must declare 1..=8 roles")
  manifest.validateImageContract
  ensure (trim manifest.runtimePolicyDigest ≠ "") (invalid "runtime_policy_digest must be set")
  ensure (manifest.managedResourceShape.map (·.role)).Nodup
    (invalid "duplicate managed resource roles")
  ensure (∀ shape ∈ manifest.managedResourceShape,
      shape.role ≠ "" ∧ shape.terraformType ≠ "" ∧ shape.exactCount ≠ 0)
    (invalid "invalid managed resource shape entry")

/-- Admission for new publications and Create, never retained reads or Destroy. -/
def validateNewContainerProfile : CoreResult Unit := do
  manifest.validate C
  ensure (manifest.platform ∈ ["docker", "kubernetes"] → manifest.containerBootstrapContract ≠ none)
    (invalid "new container runners require official images and host-owned bootstrap")

/-- What validation asks of a managed resource shape. -/
structure ValidShape (shape : List ManagedResourceRole) : Prop where
  nonempty : shape ≠ []
  bounded : shape.length ≤ 8
  distinct : (shape.map (·.role)).Nodup
  entries : ∀ r ∈ shape, r.role ≠ "" ∧ r.terraformType ≠ "" ∧ r.exactCount ≠ 0

variable {C manifest}

theorem validShape_of_validate (h : manifest.validate C = .ok ()) :
    ValidShape manifest.managedResourceShape := by
  simp only [validate, bind_eq_ok, ensure_eq_ok] at h
  obtain ⟨-, -, -, -, -, -, -, -, -, -, -, -, -, -, -, -, -, -, -, -, -, -, -, -, -, hshape, -, -,
    -, -, -, hdistinct, hentries⟩ := h
  exact ⟨hshape.1, hshape.2, hdistinct, hentries⟩

end ProfileManifest

end Template

end Shaula
