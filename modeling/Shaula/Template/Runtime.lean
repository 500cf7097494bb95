import Shaula.Library.Program
import Shaula.RunnerOperation.Effects
import Shaula.Template.Input
import Shaula.Template.PlanDocument

/-! # Effects of the template runtime

What the runtime reads from a workspace, asks of the engine and records about an attempt, in a world
where other processes write the same files.  The world also keeps which bytes each read saw.
-/

namespace Shaula

open Library Library.Outcome
open Core (Bytes PlanIntent StateLineage PlanProvenance Uuid)
open RunnerOperation (TemplateOutcomeError OriginalStateIdentity)
open Registry (trim)

namespace Template

/-! ## Requests -/

structure TemplateCreateRequest (C : Crates) where
  pinnedArtifactDigest : String
  input : ShaulaInputEnvelope C
  managedShape : List ManagedResourceRole
  environment : List (String × String)
  /-- Whether the caller gave a durable sink for the apply intent. -/
  applyIntentSink : Bool
  generationId : Uuid
  names : input.generation.id = generationId.text

structure TemplateDestroyRequest where
  pinnedArtifactDigest : String
  generationId : Uuid
  managedShape : List ManagedResourceRole
  originalProvenance : PlanProvenance
  originalState : OriginalStateIdentity
  applyIntentSink : Bool

structure TemplateRuntime (C : Crates) where
  /-- The worker's HTTP state backend is configured. -/
  httpBackend : Bool
  /-- `bootstrap::admit_plan`: the check of a container's plan. -/
  admitBootstrap : ProfileManifest → TemplateCreateRequest C → Json → Bool

/-! ## Errors -/

def planErr (phase : String) : TemplateOutcomeError := .planFailed phase

def execErr (phase : String) : TemplateOutcomeError := .executionFailed phase

def stateErr (phase : String) : TemplateOutcomeError := .stateUnavailable phase

/-- Fixed phase strings reported by one lifecycle operation's apply. -/
structure ApplyPhases where
  apply : String
  handover : String
  completion : String

def createPhases : ApplyPhases := ⟨"create.apply", "create.handover", "create.completion"⟩

def destroyPhases : ApplyPhases := ⟨"destroy.apply", "destroy.handover", "destroy.completion"⟩

/-! ## What is read -/

structure ProcessOutput where
  exitCode : Int
  stdout : String
  stderr : String
  deriving DecidableEq

def ProcessOutput.success (output : ProcessOutput) : Bool := output.exitCode = 0

/-- `pattern` occurs in `value`. -/
def contains (pattern value : String) : Bool := (splitOnce pattern value).isSome

/-- The addresses `state list` printed; without the HTTP backend, a failure that tells there is no
state counts as empty. -/
def stateList (environment : List (String × String)) (output : ProcessOutput) :
    Option (List String) :=
  if output.success then
    some (((lines output.stdout).map trim).filter (· ≠ ""))
  else if environment.any (·.1 = "TF_HTTP_ADDRESS") then none
  else if contains "no state" output.stderr.toLower || contains "empty" output.stderr.toLower then
    some []
  else none

/-- Read-only state identity pulled from the workspace backend. -/
structure StateSnapshot where
  managed : List String
  /-- Managed instance address and recorded name, when present. -/
  names : List (String × String)
  serial : Nat
  lineage : String
  deriving DecidableEq

/-- The text of a file, if it is UTF-8. -/
def utf8 (bytes : Bytes) : Option String := String.fromUTF8? ⟨bytes.toArray⟩

def utf8Bytes (text : String) : Bytes := text.toUTF8.data.toList

/-- The executable template material of a workspace: canonical paths and contents, in order. -/
abbrev Material := List (String × Bytes)

/-- Digest over the whole template material. -/
def templateFilesDigest (sha256 : Bytes → String) (material : Material) : Option String :=
  if ∀ name ∈ ["main.tf", "profile.yaml", ".terraform.lock.hcl"], ∃ file ∈ material, file.1 = name
  then some (sha256 (material.flatMap fun file => utf8Bytes file.1 ++ 0 :: file.2))
  else none

/-- Destroy identity: every planned delete whose bound state recorded a name still carries exactly
that name after the refresh. -/
def admitDestroyIdentity (plan : Json) (names : List (String × String)) : CoreResult Unit := do
  let changes ← okOr ((plan.get "resource_changes").bind Json.asArray)
    (planFailed "plan resource_changes missing")
  names.forM fun (address, expected) =>
    ensure (∀ change ∈ changes, change.strAt "address" = some address →
        (((change.get "change").bind (·.get "before")).bind (·.strAt "name")) = some expected)
      (planFailed ("destroy plan targets a different resource at " ++ address ++
        ": refreshed name differs from the bound state"))

/-! ## Effects -/

/-- How a file was published that must not replace another one. -/
inductive Publication where
  | published
  | alreadyExists
  | failed
  deriving DecidableEq

inductive Effect where
  -- the workspace and the artifact
  | readManifest
  | artifactMaterialDigest (pinned : String)
  | isPrepared
  | freshWorkspace
  | materialize
  | installBackend
  | verifyBackend (initialized : Bool)
  | workspaceDigest
  | inputExists
  | readInput
  | publishInput (content : Bytes)
  | prepareSsh
  | readPlan
  -- the engine
  | hashEngine
  | engineVersion
  | init
  | plan (destroy : Bool)
  | showPlan
  | runStateList (environment : List (String × String))
  | statePull
  | startApplySavedPlan
  | waitApply
  -- the attempt
  | newAttemptId
  | persistApplyStarting (provenance : PlanProvenance)
  | spawnHandover (provenance : PlanProvenance)
  | commandEnded (provenance : PlanProvenance)
  deriving DecidableEq

def Effect.Answer : Effect → Type
  | readManifest => Option ProfileManifest
  | artifactMaterialDigest _ | workspaceDigest => Option String
  | readInput | readPlan => Option Bytes
  | publishInput _ => Publication
  | hashEngine | engineVersion => CoreResult String
  | showPlan => Option Json
  | runStateList _ => Option ProcessOutput
  | statePull => Option StateSnapshot
  | newAttemptId => String
  | isPrepared | freshWorkspace | materialize | installBackend | verifyBackend _ | inputExists
  | prepareSsh | init | plan _ | startApplySavedPlan | waitApply | persistApplyStarting _
  | spawnHandover _ | commandEnded _ => Bool

abbrev runtimeEffects : Interface := ⟨Effect, Effect.Answer⟩

/-! ## The world of a workspace -/

structure Files where
  tfplan : Option Bytes
  input : Option Bytes
  material : Material
  engine : Option Bytes
  deriving DecidableEq

/-- A plan document, the plan file it was rendered from, and the manifest and state read before. -/
structure Rendering where
  tfplan : Bytes
  document : Json
  manifest : Option ProfileManifest
  pulled : Option StateSnapshot

/-- A durable provenance, and the plan file as it was last read before. -/
structure Recording where
  provenance : PlanProvenance
  tfplan : Option Bytes

/-- What a call has read so far: of each kind the last one, and of the reads only those since the
attempt was recorded. -/
structure Seen where
  manifest : Option ProfileManifest := none
  shown : Option Rendering := none
  recorded : Option Recording := none
  attempt : Option String := none
  tfplan : Option Bytes := none
  input : Option Bytes := none
  material : Option Material := none
  engine : Option Bytes := none
  listed : Option (List String) := none
  pulled : Option StateSnapshot := none

/-- A durable record, before whose checks nothing counts as read. -/
def Seen.record (seen : Seen) (provenance : PlanProvenance) : Seen where
  manifest := seen.manifest
  shown := seen.shown
  attempt := seen.attempt
  recorded := some ⟨provenance, seen.tfplan⟩

structure Workspace where
  files : Files
  seen : Seen

variable (sha256 : Bytes → String)

/-- What an effect answers and leaves: reads see the files as they are, or fail, and the rest answers
anything. -/
def Acts (w : Workspace) : (op : Effect) → op.Answer → Workspace → Prop
  | .readManifest, manifest, w' => w' = { w with seen.manifest := manifest }
  | .readInput, bytes, w' => (bytes = none ∨ bytes = w.files.input) ∧
      w' = { w with seen.input := bytes }
  | .readPlan, bytes, w' => (bytes = none ∨ bytes = w.files.tfplan) ∧
      w' = { w with seen.tfplan := bytes }
  | .workspaceDigest, digest, w' =>
      (digest = none ∨ digest = templateFilesDigest sha256 w.files.material) ∧
        w' = { w with seen.material := some w.files.material }
  | .hashEngine, digest, w' =>
      (∀ value, digest = .ok value → ∃ binary, w.files.engine = some binary ∧ value = sha256 binary) ∧
        w' = { w with seen.engine := w.files.engine }
  | .showPlan, some document, w' => ∃ tfplan, w.files.tfplan = some tfplan ∧
      w' = { w with seen.shown := some ⟨tfplan, document, w.seen.manifest, w.seen.pulled⟩ }
  | .runStateList environment, output, w' =>
      w' = { w with seen.listed := output.bind (stateList environment) }
  | .statePull, snapshot, w' => w' = { w with seen.pulled := snapshot }
  | .newAttemptId, id, w' => w' = { w with seen.attempt := some id }
  | .persistApplyStarting provenance, true, w' => w' = { w with seen := w.seen.record provenance }
  | .plan _, _, w' => ∃ tfplan, w' = { w with files.tfplan := tfplan }
  | .materialize, _, w' | .installBackend, _, w' | .init, _, w' =>
      ∃ material, w' = { w with files.material := material }
  | .publishInput content, .published, w' => w' = { w with files.input := some content }
  | _, _, w' => w' = w

/-- Other processes write any of the files, between any two effects. -/
def workspaceMachine : Machine runtimeEffects Workspace where
  env w w' := w'.seen = w.seen
  act := Acts sha256
  lost w op w' := w' = w ∨ ∃ answer, Acts sha256 w op answer w'

end Template

end Shaula
