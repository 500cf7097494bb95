import Shaula.Template.Runtime

/-! # Saved-plan flows

Create and Destroy up to the apply of the saved plan: the plan document is admitted, the attempt is
recorded with the digests of what it runs on, and every digest is taken again before the apply
starts.
-/

namespace Shaula

open Library
open Core (Bytes PlanProvenance)
open RunnerOperation (TemplateOutcomeError destroyIdentityPhase)

namespace Template

abbrev RuntimeRoutine := Program runtimeEffects TemplateOutcomeError

namespace TemplateRuntime

variable {C : Crates} (sha256 : Bytes → String) (T : JsonText) (self : TemplateRuntime C)

def ask (op : Effect) : RuntimeRoutine op.Answer := Program.lift (F := runtimeEffects) op

/-! ## The engine -/

structure TerraformFlow where
  binaryDigest : String
  version : String

/-- The outcome of a step of opening the engine. -/
def openStep {α : Type} : CoreResult α → RuntimeRoutine α
  | .ok a => .done a
  | .error e =>
    .fail (if e.code = .templatePlanFailed then planErr "create.plan" else execErr "create.apply")

def openFlow : RuntimeRoutine TerraformFlow := do
  let digest : CoreResult String ← ask .hashEngine
  let binaryDigest ← openStep digest
  let output : CoreResult String ← ask .engineVersion
  let version ← openStep output
  return ⟨binaryDigest, version⟩

def listState (environment : List (String × String)) (e : TemplateOutcomeError) :
    RuntimeRoutine (List String) := do
  let output : Option ProcessOutput ← ask (.runStateList environment)
  Program.okOr (output.bind (stateList environment)) e

def statePullSnapshot : RuntimeRoutine StateSnapshot := do
  let snapshot : Option StateSnapshot ← ask .statePull
  Program.okOr snapshot (stateErr "state.verify")

def planAndShow (destroy : Bool) (phase : String) : RuntimeRoutine Json := do
  let planned : Bool ← ask (.plan destroy)
  Program.ensure (planned = true) (planErr phase)
  let document : Option Json ← ask .showPlan
  Program.okOr document (planErr phase)

/-! ## The workspace -/

def verifyHttpWorkspace (initialized : Bool) : RuntimeRoutine Unit :=
  if self.httpBackend then do
    let verified : Bool ← ask (.verifyBackend initialized)
    Program.ensure (verified = true) (stateErr "backend.workspace")
  else return

def validateInputContract (input : ShaulaInputEnvelope C) : RuntimeRoutine ProfileManifest := do
  let read : Option ProfileManifest ← ask .readManifest
  let manifest ← Program.okOr read (stateErr "input.contract")
  Program.ensure ((input.validateForManifest manifest).isOk = true) (stateErr "input.contract")
  return manifest

def installBackend : RuntimeRoutine Unit :=
  if self.httpBackend then do
    let installed : Bool ← ask .installBackend
    Program.ensure (installed = true) (stateErr "create.backend")
  else return

def requireFreshHttpWorkspace : RuntimeRoutine Unit :=
  if self.httpBackend then do
    let fresh : Bool ← ask .freshWorkspace
    Program.ensure (fresh = true) (stateErr "backend.workspace")
  else return

/-- A workspace that was prepared before is neither materialized nor initialized again. -/
def materializeUnless (prepared : Bool) : RuntimeRoutine Unit :=
  if prepared then return
  else do
    self.requireFreshHttpWorkspace
    let materialized : Bool ← ask .materialize
    Program.ensure (materialized = true) (stateErr "create.materialize")
    self.installBackend

def initializeUnless (prepared : Bool) : RuntimeRoutine Unit :=
  if prepared then return
  else do
    let initialized : Bool ← ask .init
    Program.ensure (initialized = true) (execErr "create.init")
    self.verifyHttpWorkspace true

/-- The input that is there already has to be the same. -/
def keepInput (content : Bytes) : RuntimeRoutine String := do
  let previous : Option Bytes ← ask .readInput
  Program.ensure (previous = some content) (stateErr "create.plan")
  return sha256 content

def writeProtectedInput (content : Bytes) : RuntimeRoutine String := do
  let present : Bool ← ask .inputExists
  if present then keepInput sha256 content
  else
    let publication : Publication ← ask (.publishInput content)
    match publication with
    | .published => return sha256 content
    | .alreadyExists => keepInput sha256 content
    | .failed => .fail (stateErr "create.plan")

/-! ## Admission of the apply -/

/-- Persists the apply-start intent, durable before the child can spawn. -/
def admitApply (sink : Bool) (provenance : PlanProvenance) (phases : ApplyPhases) :
    RuntimeRoutine Unit :=
  if sink then do
    let recorded : Bool ← ask (.persistApplyStarting provenance)
    Program.ensure (recorded = true) (stateErr phases.apply)
  else return

/-- Immediately before spawn: plan, engine binary, protected input and template files once more. -/
def verifyPreSpawn (provenance : PlanProvenance) (phases : ApplyPhases) : RuntimeRoutine Unit := do
  let tfplan : Option Bytes ← ask .readPlan
  let planNow ← Program.okOr tfplan (stateErr phases.apply)
  Program.ensure (sha256 planNow = provenance.savedPlanDigest) (execErr phases.apply)
  let digest : CoreResult String ← ask .hashEngine
  let engineNow ← Program.okOr digest.toOption (execErr phases.apply)
  Program.ensure (engineNow = provenance.engineBinaryDigest) (execErr phases.apply)
  let input : Option Bytes ← ask .readInput
  let inputNow ← Program.okOr input (stateErr phases.apply)
  Program.ensure (sha256 inputNow = provenance.protectedInputDigest) (execErr phases.apply)
  let material : Option String ← ask .workspaceDigest
  let materialNow ← Program.okOr material (stateErr phases.apply)
  Program.ensure (materialNow = provenance.templateMaterialDigest) (execErr phases.apply)

/-- Tells the sink, if there is one. -/
def tell (sink : Bool) (op : Effect) (told : op.Answer → Bool) (phase : String) :
    RuntimeRoutine Unit :=
  if sink then do
    let answer ← ask op
    Program.ensure (told answer = true) (execErr phase)
  else return

/-- Spawn handover: the apply runs under its own fence, and its end is reported. -/
def spawnApply (sink : Bool) (provenance : PlanProvenance) (phases : ApplyPhases) :
    RuntimeRoutine Unit := do
  self.verifyHttpWorkspace true
  let started : Bool ← ask .startApplySavedPlan
  Program.ensure (started = true) (execErr phases.apply)
  tell sink (.spawnHandover provenance) (fun told => told) phases.handover
  let applied : Bool ← ask .waitApply
  tell sink (.commandEnded provenance) (fun told => told) phases.completion
  Program.ensure (applied = true) (execErr phases.apply)

/-! ## Create -/

/-- What Create plans with. -/
structure CreateBase where
  manifest : ProfileManifest
  expectedMaterial : String
  flow : TerraformFlow
  inputDigest : String

/-- Some bootstrap of the manifest needs the attempt to be authorized. -/
def needsAuthorization (manifest : ProfileManifest) : Bool :=
  self.httpBackend || manifest.containerBootstrapContract.isSome ||
    manifest.forgejoVmBootstrapContract.isSome || manifest.gitlabVmBootstrapContract.isSome

def prepareCreate (request : TemplateCreateRequest C) : RuntimeRoutine CreateBase := do
  let manifest ← validateInputContract request.input
  Program.ensure ((manifest.validateNewContainerProfile C).isOk = true) (stateErr "input.contract")
  Program.ensure (request.applyIntentSink = true ∨ self.needsAuthorization manifest = false)
    (stateErr "create.authorization")
  let expected : Option String ← ask (.artifactMaterialDigest request.pinnedArtifactDigest)
  let expectedMaterial ← Program.okOr expected (stateErr "create.materialize")
  let prepared : Bool ← ask .isPrepared
  self.materializeUnless prepared
  self.verifyHttpWorkspace prepared
  let digest : Option String ← ask .workspaceDigest
  Program.ensure (digest = some expectedMaterial) (stateErr "create.materialize")
  let flow ← openFlow
  self.initializeUnless prepared
  let content ← Program.okOr (request.input.toTfvars T).toOption (stateErr "create.plan")
  let inputDigest ← writeProtectedInput sha256 (utf8Bytes content)
  let ssh : Bool ← ask .prepareSsh
  Program.ensure (ssh = true) (planErr "create.plan")
  return ⟨manifest, expectedMaterial, flow, inputDigest⟩

/-- The admitted plan's provenance: the workspace's own template files, which have to be the attested
ones. -/
def admitCreate (request : TemplateCreateRequest C) (base : CreateBase) (document : Json) :
    RuntimeRoutine PlanProvenance := do
  let parsed ← Program.okOr (parsePlan C.tables document).toOption (planErr "create.plan")
  let priorState ← listState request.environment (stateErr "create.plan")
  Program.ensure
    ((admitCreatePlan C.tables parsed priorState.isEmpty request.managedShape).isOk = true)
    (planErr "create.plan")
  Program.ensure (self.admitBootstrap base.manifest request document = true)
    (planErr "create.plan")
  let tfplan : Option Bytes ← ask .readPlan
  let planBytes ← Program.okOr tfplan (stateErr "create.plan")
  let digest : Option String ← ask .workspaceDigest
  Program.ensure (digest = some base.expectedMaterial) (stateErr "create.plan")
  Program.ensure (priorState.isEmpty = true) (stateErr "create.plan")
  let attemptId : String ← ask .newAttemptId
  return {
    intent := .create
    savedPlanDigest := sha256 planBytes
    engineKind := "terraform"
    engineVersion := base.flow.version
    engineBinaryDigest := base.flow.binaryDigest
    artifactDigest := request.pinnedArtifactDigest
    templateMaterialDigest := base.expectedMaterial
    protectedInputDigest := base.inputDigest
    stateLineage := .empty
    generationId := request.generationId
    attemptId }

/-- Create, up to the end of the apply. -/
def createFlow (request : TemplateCreateRequest C) : RuntimeRoutine Unit := do
  let base ← self.prepareCreate sha256 T request
  let document ← planAndShow false "create.plan"
  let provenance ← self.admitCreate sha256 request base document
  admitApply request.applyIntentSink provenance createPhases
  verifyPreSpawn sha256 provenance createPhases
  -- The prior state was proven empty before planning, and still is.
  let priorNow ← listState request.environment (stateErr "create.apply")
  Program.ensure (priorNow.isEmpty = true) (stateErr "create.apply")
  self.spawnApply request.applyIntentSink provenance createPhases

/-! ## Destroy -/

/-- The Create pins are those of the archive and the material; legacy records stored the file-tree
digest as the artifact's. -/
def provenanceMatches (original : PlanProvenance) (archive material : String) : Bool :=
  if original.templateMaterialDigest = "" then original.artifactDigest = material
  else original.artifactDigest = archive && original.templateMaterialDigest = material

/-- What Destroy plans with. -/
structure DestroyBase where
  flow : TerraformFlow
  workspaceNow : String
  snapshot : StateSnapshot

/-- The state is the one this generation created; a retry may see a serial its own partial apply
advanced. -/
def OriginalState (identity : RunnerOperation.OriginalStateIdentity) (snapshot : StateSnapshot) :
    Prop :=
  snapshot.lineage = identity.lineage ∧
    if identity.allowSerialAdvance then identity.serial ≤ snapshot.serial
    else snapshot.serial = identity.serial

instance (identity : RunnerOperation.OriginalStateIdentity) (snapshot : StateSnapshot) :
    Decidable (OriginalState identity snapshot) := by
  unfold OriginalState
  infer_instance

/-- Exact provenance against the durable Create pin. -/
def verifyOriginal (request : TemplateDestroyRequest) : RuntimeRoutine DestroyBase := do
  Program.ensure (request.applyIntentSink = true ∨ self.httpBackend = false)
    (stateErr "destroy.authorization")
  self.verifyHttpWorkspace true
  let flow ← openFlow
  let protectedInput : Option Bytes ← ask .readInput
  let inputNow ← Program.okOr protectedInput (stateErr "destroy.plan")
  Program.ensure (sha256 inputNow = request.originalProvenance.protectedInputDigest)
    (stateErr "destroy.plan")
  let input ← Program.okOr ((utf8 inputNow).bind (ShaulaInputEnvelope.read C T))
    (stateErr "destroy.input_contract")
  let _ ← validateInputContract input
  let digest : Option String ← ask .workspaceDigest
  let workspaceNow ← Program.okOr digest (stateErr "destroy.plan")
  let expected : Option String ← ask (.artifactMaterialDigest request.pinnedArtifactDigest)
  let expectedMaterial ← Program.okOr expected (stateErr "destroy.plan")
  Program.ensure (provenanceMatches request.originalProvenance request.pinnedArtifactDigest
      expectedMaterial = true ∧ workspaceNow = expectedMaterial) (stateErr "destroy.plan")
  Program.ensure (flow.binaryDigest = request.originalProvenance.engineBinaryDigest)
    (execErr "destroy.plan")
  let snapshot ← statePullSnapshot
  Program.ensure (OriginalState request.originalState snapshot) (stateErr "state.verify")
  return ⟨flow, workspaceNow, snapshot⟩

def admitDestroy (request : TemplateDestroyRequest) (base : DestroyBase) (document : Json) :
    RuntimeRoutine PlanProvenance := do
  Program.ensure
    ((admitDestroyPlanJson C.tables document base.snapshot.managed
      request.managedShape).isOk = true)
    (planErr "destroy.plan")
  Program.ensure ((admitDestroyIdentity document base.snapshot.names).isOk = true)
    (planErr destroyIdentityPhase)
  let tfplan : Option Bytes ← ask .readPlan
  let planBytes ← Program.okOr tfplan (stateErr "destroy.plan")
  let attemptId : String ← ask .newAttemptId
  return {
    intent := .destroy
    savedPlanDigest := sha256 planBytes
    engineKind := "terraform"
    engineVersion := base.flow.version
    engineBinaryDigest := base.flow.binaryDigest
    artifactDigest := request.pinnedArtifactDigest
    templateMaterialDigest := base.workspaceNow
    protectedInputDigest := request.originalProvenance.protectedInputDigest
    stateLineage := .serial base.snapshot.lineage base.snapshot.serial
    generationId := request.generationId
    attemptId }

inductive DestroyClassification where
  /-- Applied a delete-only plan, and the state is empty. -/
  | applied
  /-- The bound state was already empty; nothing was applied. -/
  | alreadyEmpty
  deriving DecidableEq

def destroyManaged (request : TemplateDestroyRequest) (base : DestroyBase) :
    RuntimeRoutine DestroyClassification := do
  let ssh : Bool ← ask .prepareSsh
  Program.ensure (ssh = true) (planErr "destroy.plan")
  let document ← planAndShow true "destroy.plan"
  let provenance ← admitDestroy (C := C) sha256 request base document
  admitApply request.applyIntentSink provenance destroyPhases
  verifyPreSpawn sha256 provenance destroyPhases
  let now ← statePullSnapshot
  Program.ensure (now.serial = base.snapshot.serial ∧ now.lineage = base.snapshot.lineage ∧
    now.managed = base.snapshot.managed) (execErr "destroy.apply")
  self.spawnApply request.applyIntentSink provenance destroyPhases
  self.verifyHttpWorkspace true
  let after ← statePullSnapshot
  Program.ensure (after.managed = []) (execErr "destroy.apply")
  return .applied

def destroyFlow (request : TemplateDestroyRequest) : RuntimeRoutine DestroyClassification := do
  let base ← self.verifyOriginal sha256 T request
  if base.snapshot.managed = [] then return .alreadyEmpty
  else self.destroyManaged sha256 request base

end TemplateRuntime

end Template

end Shaula
