import Shaula.Store.Row

/-! # Requests to the store

Every request that reads or writes the lifecycle tables, with the arguments its caller passes and
the random values the store draws while it serves it.
-/

namespace Shaula

open Core

variable (P : Platform)

/-! ## Arguments -/

/-- A generation as the daemon hands it to the ledger. -/
structure GenerationRecord where
  id : Uuid
  fleetKey : String
  runnerName : String
  generationName : String
  fleetRevision : Int
  templateProfileKey : String
  templateRevision : Int
  templateArtifactDigest : String
  attestationId : String
  inputsDigest : String
  state : GenerationState
  githubRunnerId : Option Int
  poolMemberKey : Option String
  workspacePath : String
  createdAt : Int
  updatedAt : Int
  deriving DecidableEq

/-- The fleet facts a guarded insert re-verifies. -/
structure FleetRuntimeGuard where
  incarnation : String
  desiredRevision : Int
  mutationFence : Int
  deriving DecidableEq

structure OperationInsert where
  id : String
  generationId : Uuid
  kind : String
  state : String
  provenanceJson : Option OperationDetail
  savedPlanPath : Option String
  savedPlanDigest : Option String
  now : Int
  deriving DecidableEq

/-- A job event of a listener message: the runner it names. -/
structure RunnerEvent where
  runnerId : Int
  runnerName : String
  deriving DecidableEq

/-- The arguments of one legacy classification. -/
structure LegacyImport (P : Platform) where
  generation : LegacyGeneration
  commitment : String
  state : Option (StateDocument P)
  classification : MigrationClassification
  protectedInput : Option Bytes
  workspace : Option String

/-- What a fresh admission draws: its credentials and the lineage of its empty state. -/
structure AdmissionDraw where
  draw : Draw
  lineage : Uuid
  deriving DecidableEq

/-! ## Requests -/

/-- The requests the store serves. -/
inductive Request where
  -- the Terraform state backend
  | authenticate (access : StateAccess)
  | read (access : StateAccess)
  | lock (access : StateAccess) (info : LockInfo)
  | unlock (access : StateAccess) (id : LockId)
  | write (access : StateAccess) (id : LockId) (document : StateDocument P)
  -- administration of a state row
  | insertGeneration (record : GenerationRecord) (attempt : Uuid) (capability : StateCapability)
  | revoke (claim : StateClaim)
  | noteCreateStarting (claim : StateClaim)
  | sealBackend (claim : StateClaim) (expectedRevision : Int)
  -- admission
  | generationInsert (record : GenerationRecord)
  | generationInsertGuarded (record : GenerationRecord) (guard : FleetRuntimeGuard)
      (admission : Option AdmissionDraw)
  | takeAdmission (generation : Uuid)
  -- the worker journal
  | authenticateWorker (access : ControlAccess)
  | launchPending (access : ControlAccess)
  | register (access : ControlAccess) (identity : ProcessIdentity)
  | retainInput (access : ControlAccess) (input : Bytes)
  | protectedInput (access : ControlAccess)
  | verifyCleanup (access : ControlAccess)
  | spawnAck (access : ControlAccess) (attempt : String)
  | commandEnded (access : ControlAccess) (attempt : String)
  | fenced (access : ControlAccess) (identity : ProcessIdentity)
  | receipt (access : ControlAccess)
  | replaceFenced (access : ControlAccess) (draw : Draw)
  | workspaceReaped (receipt : CompletionReceipt)
  -- effects
  | applyStarting (session : ControlAccess) (capability : ControlCapability) (claim : StateClaim)
      (proof : PlanProvenance) (path : String) (now : Int)
  | recordApplyStarting (proof : PlanProvenance) (path : String) (now : Int)
  | recordBootstrapStarting (proof : PlanProvenance) (now : Int)
  -- completion
  | completeWorker (access : ControlAccess) (requestId : Uuid) (expectedRevision : Int)
      (kind : CompletionKind) (now : Int)
  | generationAdvance (id : Uuid) (next : GenerationState) (requestId : Uuid) (now : Int)
  | generationFinalize (id : Uuid) (operationId : Uuid) (actor reason : String) (now : Int)
  -- recovery and cutover
  | recoverWorker (record : RecoveryRecord) (outcome : FenceOutcome) (preserveEvidence : Bool)
      (draw : Draw)
  | anchorFailedCreate (id : Uuid)
  | importLegacy (args : LegacyImport P) (draw : Draw)
  | activate
  -- the generation ledger
  | listenerActivity (fleet : String) (started completed : List RunnerEvent) (now : Int)
  | generationSetJit (id : Uuid) (jitPhase : String) (githubRunnerId : Option Int) (now : Int)
  | generationSetResult (id : Uuid) (resultJson digest : String) (now : Int)
  | generationRequestExpiry (id : Uuid) (now : Int)
  | generationResourcesDestroyed (id : Uuid) (now : Int)
  | generationSetForgejoRunner (id : Uuid) (runnerId : Int) (runnerUuid : String) (forgejo : Bool)
      (now : Int)
  | operationInsert (insert : OperationInsert)
  | operationUpdateState (id : String) (state : String) (now : Int)
  -- other writers of the tables read here
  | fleetChanged (key : String) (fleet : FleetRow)
  | revisionChanged (key : String × Int) (revision : RevisionRow)

namespace Request

variable {P : Platform}

/-- The state capabilities drawn for a request. -/
def stateDraws : Request P → List StateCapability
  | insertGeneration _ _ capability => [capability]
  | generationInsertGuarded _ _ (some admission) => [admission.draw.state]
  | replaceFenced _ draw | recoverWorker _ _ _ draw | importLegacy _ draw => [draw.state]
  | _ => []

/-- The control capabilities drawn for a request. -/
def controlDraws : Request P → List ControlCapability
  | generationInsertGuarded _ _ (some admission) => [admission.draw.control]
  | replaceFenced _ draw | recoverWorker _ _ _ draw | importLegacy _ draw => [draw.control]
  | _ => []

/-- The state credential a caller presents. -/
def stateAccess : Request P → Option StateAccess
  | authenticate access | read access | lock access _ | unlock access _ | write access _ _ =>
    some access
  | _ => none

/-- The control capability and the claim a caller presents. -/
def controlAccess : Request P → Option (ControlCapability × StateClaim)
  | authenticateWorker access | launchPending access | register access _ | retainInput access _
  | protectedInput access | verifyCleanup access | spawnAck access _ | commandEnded access _
  | fenced access _ | receipt access | replaceFenced access _ | completeWorker access _ _ _ _ =>
    some (access.capability, access.claim)
  | applyStarting _ capability claim _ _ _ => some (capability, claim)
  | _ => none

/-- The generation whose admission a request may publish. -/
def publishes : Request P → Option Uuid
  | generationInsertGuarded record _ (some _) => some record.id
  | replaceFenced access _ => some access.claim.generationId
  | recoverWorker record _ _ _ => some record.generationId
  | _ => none

end Request

/-! ## Outcomes -/

/-- Typed store error. -/
inductive StoreError where
  | unavailable
  | conflict (resource : String)
  | policyDenied (reason : String)
  | corrupt (summary : String)
  deriving DecidableEq

abbrev StoreResult := Except StoreError

/-- Reasons a control-plane call fails for. -/
inductive ReasonCode where
  | ownershipConflict
  | storageUnavailable
  | storageCorrupt
  deriving DecidableEq, Repr

/-- A control-plane failure. -/
structure CoreError where
  code : ReasonCode
  summary : String
  deriving DecidableEq

abbrev CoreResult := Except CoreError

/-- Why a request failed. -/
inductive RequestError where
  | state (error : StateError)
  | core (error : CoreError)
  | notFound
  | refused (summary : String)
  deriving DecidableEq

def StoreError.text : StoreError → String
  | unavailable => "database unavailable"
  | conflict resource => "conflicting concurrent write on " ++ resource
  | policyDenied reason => "policy denied: " ++ reason
  | corrupt summary => summary

def coreErr : StoreError → CoreError
  | .corrupt summary => { code := .storageCorrupt, summary }
  | error => { code := .storageUnavailable, summary := error.text }

def workerError (_ : StateError) : CoreError where
  code := .storageUnavailable
  summary := "lifecycle worker admission unavailable"

/-- What a successful request answers. -/
inductive Reply (P : Platform) where
  | done
  | snapshot (snapshot : Option (StateSnapshot P))
  | revision (revision : Int)
  | access (claim : StateClaim) (capability : StateCapability)
  | admission (admission : WorkerAdmission)
  | bytes (bytes : Option Bytes)
  | receipt (receipt : Option CompletionReceipt)
  | flag (value : Bool)

end Shaula
