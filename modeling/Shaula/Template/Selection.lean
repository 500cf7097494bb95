import Shaula.Template.Manifest

/-! # Runner backends of a template

Backend capabilities belong to the artifact; the selection belongs to the publisher's bindings.
-/

namespace Shaula

open Library Library.Outcome
open Registry (FleetProviderKind isWhiteSpace trim)

namespace Template

def specInvalid (message : String) : CoreError := ⟨.specInvalid, message⟩

/-- The backend a provider runs on. -/
def backendName : FleetProviderKind → String
  | .github => "github"
  | .forgejo => "forgejo"
  | .gitlab => "gitlab"

/-- The name of a Forgejo label, and its backend target when it has one. -/
def labelParts (label : String) : String × Option String :=
  match splitOnce ":" label with
  | some (name, target) => (name, some target)
  | none => (label, none)

/-- What one Forgejo label has to be. -/
def labelValid (label : String) : Bool :=
  let (name, target) := labelParts label
  trim label = label && label.utf8ByteSize ≤ 255 && name ≠ "" &&
    !(label.toList.any fun c => Core.isControl c || c = ',') && trim name = name &&
    target.all fun target => trim target ≠ ""

/-- `forgejo::validate_labels`. -/
def validateLabels (labels : List String) : CoreResult Unit := do
  ensure (labels ≠ [] ∧ labels.length ≤ 32) (specInvalid "expected 1..=32 Forgejo labels")
  ensure ((∀ label ∈ labels, labelValid label = true) ∧
      (labels.map fun label => (labelParts label).1).Nodup)
    (specInvalid "Forgejo labels must have distinct nonempty names and valid backend targets")

namespace ProfileManifest

variable (C : Crates) (manifest : ProfileManifest)

/-- The backend that bindings select.  Manifests of a single backend ignore them. -/
def runnerBackendForBindings (bindings : List (String × Json)) : CoreResult String := do
  let selected ←
    if manifest.runnerBackends = [] then .ok manifest.runnerBackend
    else
      match (Json.object bindings).get "runner_backend" with
      | some (.string backend) => .ok backend
      | none => .ok manifest.runnerBackend
      | some _ => .error (invalid "runner_backend binding must be a declared backend")
  ensure (manifest.supportsRunnerBackend selected = true)
    (invalid "runner_backend binding is not supported by this template")
  return selected

def validateForProvider (provider : FleetProviderKind) : CoreResult Unit := do
  manifest.validate C
  ensure (manifest.supportsRunnerBackend (backendName provider) = true)
    (invalid "template does not support the Fleet runner backend")

/-- Forgejo executes on the isolated generation host. -/
def validateForgejoTargets (labels : List String) : CoreResult Unit := do
  manifest.validateForProvider C .forgejo
  validateLabels labels
  ensure ((manifest.isContainer ∨ manifest.isForgejoVm) ∧
      ∀ label ∈ labels, (":host".toList.reverse.isPrefixOf label.toList.reverse) = true)
    (invalid ("Forgejo bootstrap requires an admitted container/VM contract and explicit :host " ++
      "labels"))

def validateGitlabTarget : CoreResult Unit := do
  manifest.validateForProvider C .gitlab
  ensure (manifest.isContainer = true)
    (invalid "GitLab bootstrap requires the admitted container contract")

/-- GitLab Create admission: VM artifacts through their cloud-init contract, everything else through
the container contract. -/
def validateGitlabGenerationTarget : CoreResult Unit :=
  if manifest.gitlabVmBootstrapContract = none then manifest.validateGitlabTarget C
  else do
    manifest.validateForProvider C .gitlab
    manifest.validateGitlabVmBootstrap

end ProfileManifest

end Template

end Shaula
