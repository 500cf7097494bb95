import Shaula.Template.GitlabBootstrap
import Shaula.Template.Selection

/-! # Input envelopes

The protected `shaula` input of a generation: what Create writes for the engine, and what Destroy
and recovery read back.
-/

namespace Shaula

open Library Library.Outcome
open Registry (isWhiteSpace trim)

namespace Template

/-! ## Credentials -/

/-- Bounds on a Forgejo runner token, checked by its constructor and by its reader. -/
def forgejoTokenValid (token : String) : Bool :=
  token ≠ "" && token.utf8ByteSize ≤ 4096 && !token.toList.any Core.isControl

/-- The token of one ephemeral Forgejo runner. -/
structure ForgejoVmBootstrap where
  token : String
  valid : forgejoTokenValid token = true

/-- Non-secret registration data exposed to a template. -/
structure ForgejoBootstrapIdentity where
  instanceUrl : String
  uuid : String
  labels : List String
  deriving DecidableEq

/-- What the constructor of the Forgejo material checks besides its labels. -/
def forgejoMaterialValid (C : Crates) (instanceUrl uuid token : String) : Bool :=
  (C.parseUrl instanceUrl).any Url.isInstance && trim uuid ≠ "" && uuid.utf8ByteSize ≤ 128 &&
    !uuid.toList.any Core.isControl && forgejoTokenValid token

def forgejoMaterialLabelsValid (labels : List String) : Bool :=
  labels.length ≤ 32 && labels.all fun label =>
    trim label ≠ "" && label.utf8ByteSize ≤ 255 && !label.toList.any Core.isControl

/-- One-shot Forgejo registration material, which only the constructor makes. -/
structure ForgejoBootstrapMaterial (C : Crates) where
  instanceUrl : String
  uuid : String
  token : String
  labels : List String
  valid : forgejoMaterialValid C instanceUrl uuid token = true
  labelsValid : forgejoMaterialLabelsValid labels = true

/-- The reader of a token accepts what the constructor accepted. -/
theorem ForgejoBootstrapMaterial.token_valid {C : Crates} (material : ForgejoBootstrapMaterial C) :
    forgejoTokenValid material.token = true := by
  have hvalid := material.valid
  simp only [forgejoMaterialValid, Bool.and_eq_true] at hvalid
  exact hvalid.2

/-- Copies a validated per-runner token. -/
def ForgejoVmBootstrap.fromRegistration {C : Crates} (material : ForgejoBootstrapMaterial C) :
    ForgejoVmBootstrap :=
  ⟨material.token, material.token_valid⟩

/-- A GitLab registration delivered through VM cloud-init. -/
structure GitlabVmBootstrap (C : Crates) where
  material : GitlabBootstrapMaterial C

/-! ## Setup info -/

inductive SetupInfoDescriptor where
  | disabled
  | enabled (url capability : String) (expiresAt : Int64) (waitSeconds : Nat)
  deriving DecidableEq

def setupInfoRejected : CoreError := invalid "setup-info descriptor rejected"

namespace SetupInfoDescriptor

variable (C : Crates)

def isCapabilityChar (c : Char) : Bool := c.isAlphanum || c = '-' || c = '_'

def validate : SetupInfoDescriptor → CoreResult Unit
  | .disabled => .ok ()
  | .enabled url capability expiresAt waitSeconds => do
    let parsed ← okOr (C.parseUrl url) setupInfoRejected
    ensure (url.utf8ByteSize ≤ 2048 ∧ url.toList.any isWhiteSpace = false ∧
        parsed.scheme = "https" ∧ parsed.host.isSome ∧ parsed.username = "" ∧
        parsed.password = none ∧ parsed.query = none ∧ parsed.fragment = none ∧
        parsed.port ≠ some 0 ∧ 32 ≤ capability.utf8ByteSize ∧ capability.utf8ByteSize ≤ 512 ∧
        capability.toList.all isCapabilityChar ∧ 0 < expiresAt.toInt ∧ 1 ≤ waitSeconds ∧
        waitSeconds ≤ 300) setupInfoRejected

def validateForGeneration (generation : String) (descriptor : SetupInfoDescriptor) :
    CoreResult Unit := do
  descriptor.validate C
  match descriptor with
  | .disabled => return
  | .enabled url _ _ _ => do
    let parsed ← okOr (C.parseUrl url) setupInfoRejected
    ensure (parsed.path = "/runner/v1/generations/" ++ generation ++ "/setup-info")
      setupInfoRejected

end SetupInfoDescriptor

/-! ## The envelope -/

structure GenerationIdentity where
  fleetKey : String
  scaleSetId : Option Int64
  id : String
  runnerName : String
  generationName : String
  deriving DecidableEq

/-- System-side protected input.  Bindings and parameters are objects: their members in the order of
the keys. -/
structure ShaulaInputEnvelope (C : Crates) where
  contractVersion : Nat
  generation : GenerationIdentity
  jitConfig : String
  forgejo : Option ForgejoBootstrapIdentity
  forgejoVm : Option ForgejoVmBootstrap
  gitlab : Option GitlabBootstrapIdentity
  gitlabVm : Option (GitlabVmBootstrap C)
  bindingsDigest : String
  bindings : List (String × Json)
  parameters : List (String × Json)
  setupInfo : Option SetupInfoDescriptor

namespace ShaulaInputEnvelope

variable {C : Crates} (input : ShaulaInputEnvelope C)

/-- The VM token must belong to exactly the GitLab registration named by the identity, on an envelope
without any other credential. -/
def validateGitlabVm : CoreResult Unit :=
  match input.gitlabVm with
  | none => .ok ()
  | some vm =>
    ensure (input.gitlab = some vm.material.identity ∧ input.forgejo = none ∧
        input.forgejoVm.isNone ∧ input.jitConfig = "" ∧ input.generation.scaleSetId = none)
      (invalid "VM bootstrap credentials require an exclusive GitLab identity")

def validate : CoreResult Unit := do
  ensure (input.forgejoVm.isNone ∨ (input.forgejo.isSome ∧ input.jitConfig = "" ∧
      input.generation.scaleSetId = none))
    (invalid "VM bootstrap credentials require an exclusive Forgejo identity")
  input.validateGitlabVm
  match input.contractVersion, input.setupInfo with
  | 1, none => return
  | 2, some descriptor => descriptor.validateForGeneration C input.generation.id
  | _, _ => .error (invalid "input contract version/setup-info mismatch")

/-- Whether the bootstrap identity is the one of the selected backend. -/
def validateBackend (manifest : ProfileManifest) (backend : String) : CoreResult Unit :=
  let exclusive := input.jitConfig = "" ∧ input.generation.scaleSetId = none
  if backend = "github" ∧ input.forgejo = none ∧ input.forgejoVm.isNone ∧ input.gitlab = none ∧
      input.gitlabVm.isNone then .ok ()
  else if backend = "gitlab" ∧ input.gitlab.isSome ∧ input.forgejo = none ∧
      input.forgejoVm.isNone ∧ exclusive ∧
      input.gitlabVm.isSome = manifest.gitlabVmBootstrapContract.isSome then
    manifest.validateGitlabGenerationTarget C
  else if backend = "forgejo" ∧ input.forgejo.isSome ∧ input.gitlab = none ∧
      input.gitlabVm.isNone ∧ exclusive ∧
      input.forgejoVm.isSome = manifest.forgejoVmBootstrapContract.isSome then
    match input.forgejo with
    | some identity => manifest.validateForgejoTargets C identity.labels
    | none => .ok ()
  else .error (invalid "input bootstrap identity differs from the runner backend")

def validateForManifest (manifest : ProfileManifest) : CoreResult Unit := do
  manifest.validate C
  input.validate
  ensure (input.contractVersion = manifest.inputContractVersion)
    (invalid "input contract differs from manifest")
  let backend ← manifest.runnerBackendForBindings input.bindings
  input.validateBackend manifest backend

end ShaulaInputEnvelope

/-! ## Writing -/

open Json (memberOf)

def encodeStrings (values : List String) : Json := .array (values.map .string)

def GenerationIdentity.encode (identity : GenerationIdentity) : Json := .object (
  [("fleet_key", .string identity.fleetKey),
    ("generation_name", .string identity.generationName),
    ("id", .string identity.id),
    ("runner_name", .string identity.runnerName)] ++
  memberOf "scale_set_id" (identity.scaleSetId.map fun id => .number (.integer id.toInt)))

def ForgejoBootstrapIdentity.encode (identity : ForgejoBootstrapIdentity) : Json := .object [
  ("instance_url", .string identity.instanceUrl),
  ("labels", encodeStrings identity.labels),
  ("uuid", .string identity.uuid)]

def ForgejoVmBootstrap.encode (vm : ForgejoVmBootstrap) : Json := .object [
  ("token", .string vm.token)]

def GitlabBootstrapIdentity.encode (identity : GitlabBootstrapIdentity) : Json := .object [
  ("instance_url", .string identity.instanceUrl),
  ("runner_id", .number (.integer identity.runnerId.toNat)),
  ("runner_name", .string identity.runnerName)]

/-- Serializes only as the rendered configuration. -/
def GitlabVmBootstrap.encode {C : Crates} (vm : GitlabVmBootstrap C) : Json := .object [
  ("config_toml", .string vm.material.configToml)]

def SetupInfoDescriptor.encode : SetupInfoDescriptor → Json
  | .disabled => .object [("status", .string "disabled")]
  | .enabled url capability expiresAt waitSeconds => .object [
    ("capability", .string capability),
    ("expires_at", .number (.integer expiresAt.toInt)),
    ("status", .string "enabled"),
    ("url", .string url),
    ("wait_seconds", .number (.integer waitSeconds))]

namespace ShaulaInputEnvelope

variable {C : Crates} (input : ShaulaInputEnvelope C)

def encode : Json := .object (
  [("bindings", .object input.bindings),
    ("bindings_digest", .string input.bindingsDigest),
    ("contract_version", .number (.integer input.contractVersion))] ++
  memberOf "forgejo" (input.forgejo.map (·.encode)) ++
  memberOf "forgejo_vm" (input.forgejoVm.map (·.encode)) ++
  [("generation", input.generation.encode)] ++
  memberOf "gitlab" (input.gitlab.map (·.encode)) ++
  memberOf "gitlab_vm" (input.gitlabVm.map (·.encode)) ++
  [("jit_config", .string input.jitConfig),
    ("parameters", .object input.parameters)] ++
  memberOf "setup_info" (input.setupInfo.map (·.encode)))

/-- The document whose sole top-level variable is `shaula`. -/
def document : Json := .object [("shaula", input.encode)]

end ShaulaInputEnvelope

/-- The text form of JSON values, as another crate writes and reads it. -/
structure JsonText where
  render : Json → String
  parse : String → Option Json

/-- The deepest nesting the reader follows. -/
def recursionLimit : Nat := 127

/-- A value is read back from its text, unless it is nested too deeply to be read at all. -/
def JsonText.Reads (T : JsonText) (value : Json) : Prop :=
  T.parse (T.render value) = if value.depth ≤ recursionLimit then some value else none

/-- Renders the protected tfvars document. -/
def ShaulaInputEnvelope.toTfvars {C : Crates} (input : ShaulaInputEnvelope C) (T : JsonText) :
    CoreResult String := do
  input.validate
  return T.render input.document

/-! ## Reading -/

open Json (required optional defaulted onlyKeys asStr asStrings asU64 asU32 asI64 asObject)

def GenerationIdentity.decode (value : Json) : Option GenerationIdentity := do
  let fleetKey ← required value "fleet_key" asStr
  let scaleSetId ← optional value "scale_set_id" asI64
  let id ← required value "id" asStr
  let runnerName ← required value "runner_name" asStr
  let generationName ← required value "generation_name" asStr
  return ⟨fleetKey, scaleSetId, id, runnerName, generationName⟩

def ForgejoBootstrapIdentity.decode (value : Json) : Option ForgejoBootstrapIdentity :=
  if onlyKeys ["instance_url", "uuid", "labels"] value then do
    let instanceUrl ← required value "instance_url" asStr
    let uuid ← required value "uuid" asStr
    let labels ← required value "labels" asStrings
    return ⟨instanceUrl, uuid, labels⟩
  else none

def ForgejoVmBootstrap.decode (value : Json) : Option ForgejoVmBootstrap :=
  if onlyKeys ["token"] value then do
    let token ← required value "token" asStr
    if valid : forgejoTokenValid token = true then some ⟨token, valid⟩ else none
  else none

def GitlabBootstrapIdentity.decode (value : Json) : Option GitlabBootstrapIdentity :=
  if onlyKeys ["instance_url", "runner_id", "runner_name"] value then do
    let instanceUrl ← required value "instance_url" asStr
    let runnerId ← required value "runner_id" asU64
    let runnerName ← required value "runner_name" asStr
    return ⟨instanceUrl, runnerId, runnerName⟩
  else none

def GitlabVmBootstrap.decode (C : Crates) (value : Json) : Option (GitlabVmBootstrap C) :=
  if onlyKeys ["config_toml"] value then do
    let config ← required value "config_toml" asStr
    let material ← GitlabBootstrapMaterial.parse C config
    return ⟨material⟩
  else none

def SetupInfoDescriptor.decode (value : Json) : Option SetupInfoDescriptor := do
  let status ← required value "status" asStr
  if status = "disabled" then some .disabled
  else if status = "enabled" ∧
      onlyKeys ["status", "url", "capability", "expires_at", "wait_seconds"] value then do
    let url ← required value "url" asStr
    let capability ← required value "capability" asStr
    let expiresAt ← required value "expires_at" asI64
    let waitSeconds ← required value "wait_seconds" asU32
    return .enabled url capability expiresAt waitSeconds
  else none

namespace ShaulaInputEnvelope

variable (C : Crates)

/-- The members of an envelope on the wire. -/
def wireKeys : List String := ["contract_version", "generation", "jit_config", "forgejo",
  "forgejo_vm", "gitlab", "gitlab_vm", "bindings_digest", "bindings", "parameters", "setup_info"]

/-- `InputWire`: the parts of an envelope, not validated yet. -/
def decodeWire (value : Json) : Option (ShaulaInputEnvelope C) :=
  if onlyKeys wireKeys value then do
    let contractVersion ← required value "contract_version" asU32
    let generation ← required value "generation" GenerationIdentity.decode
    let jitConfig ← required value "jit_config" asStr
    let forgejo ← optional value "forgejo" ForgejoBootstrapIdentity.decode
    let forgejoVm ← optional value "forgejo_vm" ForgejoVmBootstrap.decode
    let gitlab ← optional value "gitlab" GitlabBootstrapIdentity.decode
    let gitlabVm ← optional value "gitlab_vm" (GitlabVmBootstrap.decode C)
    let bindingsDigest ← required value "bindings_digest" asStr
    let bindings ← defaulted value "bindings" [] asObject
    let parameters ← defaulted value "parameters" [] asObject
    -- A null descriptor is refused, not taken for none.
    let setupInfo ← defaulted value "setup_info" none fun member =>
      (SetupInfoDescriptor.decode member).map some
    return ⟨contractVersion, generation, jitConfig, forgejo, forgejoVm, gitlab, gitlabVm,
      bindingsDigest, bindings, parameters, setupInfo⟩
  else none

def decode (value : Json) : Option (ShaulaInputEnvelope C) := do
  let input ← decodeWire C value
  if input.validate.isOk then some input else none

/-- What Destroy and recovery make of the protected input. -/
def read (T : JsonText) (text : String) : Option (ShaulaInputEnvelope C) := do
  let value ← T.parse text
  decode C ((value.get "shaula").getD .null)

end ShaulaInputEnvelope

/-- The check of `destroy_flow` on the protected input. -/
def destroyInput (C : Crates) (T : JsonText) (manifest : ProfileManifest) (text : String) :
    Option (ShaulaInputEnvelope C) := do
  let input ← ShaulaInputEnvelope.read C T text
  if (input.validateForManifest manifest).isOk then some input else none

/-- The protected input that `recover_workspace` writes, which has to have the original digest. -/
def recoverInput (C : Crates) (T : JsonText) (digest : String → String) (original : String)
    (text : String) : Option String := do
  if digest text ≠ original then none
  else do
    let input ← ShaulaInputEnvelope.read C T text
    let written ← (input.toTfvars T).toOption
    if digest written = original then some written else none

end Template

end Shaula
