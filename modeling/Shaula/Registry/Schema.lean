import Shaula.Core.Lifecycle
import Shaula.Library.Table
import Shaula.Registry.AuthPolicy
import Shaula.Registry.Authority
import Shaula.Store.Request

/-! # Registry tables

The desired state of the control plane: fleets with their revisions and pool members, the template
pools, template profiles and auth profiles they refer to, the changes and idempotency records of
accepted requests, and the generations admitted for them.
-/

namespace Shaula

open Library Core

namespace Registry

/-! ## Fleets -/

/-- An exact template revision, as admission froze it. -/
structure TemplatePin where
  profileKey : String
  revision : Int
  artifactDigest : String
  attestationId : String
  deriving DecidableEq, Repr

/-- A pool key and one of its revisions. -/
abbrev FleetPoolRef := String × Int

/-- An immutable fleet revision. -/
structure FleetRevisionRow where
  incarnation : String
  spec : FleetSpec
  template : Option TemplatePin
  templatePoolRef : Option FleetPoolRef
  authDesired : String × Int
  inputsDigest : String
  deriving DecidableEq, Repr

inductive ChangeKind where
  | create
  | replace
  | decommission
  | authRotation
  | noOp
  deriving DecidableEq, Repr

inductive ChangeState where
  | pending
  | running
  | succeeded
  | blocked
  | noOp
  deriving DecidableEq, Repr

/-- A change of a fleet that has not converged yet. -/
def ChangeState.isOpen : ChangeState → Bool
  | pending | running | blocked => true
  | succeeded | noOp => false

structure ChangeRow where
  fleetKey : String
  revision : Int
  kind : ChangeKind
  state : ChangeState
  deriving DecidableEq, Repr

/-! ## Generations -/

structure OperationRow where
  generationId : Uuid
  kind : String
  state : String
  deriving DecidableEq

/-- Operation states that still hold (or may yet take) a runner slot. -/
def openOperationStates : List String :=
  ["Pending", "Starting", "ApplyStarting", "BootstrapStarting", "Running", "Blocked"]

/-! ## Pools and profiles -/

structure TemplatePoolRow where
  incarnation : String
  desiredRevision : Int
  deletionMarker : Bool
  tombstone : Bool
  deriving DecidableEq, Repr

structure TemplatePoolRevisionRow where
  spec : TemplatePoolSpec
  failurePolicy : PoolFailurePolicy
  deriving DecidableEq, Repr

inductive ProfileStatus where
  | validating
  | active
  | rejected
  | retiring
  | retired
  deriving DecidableEq, Repr

structure TemplateProfileRow where
  incarnation : String
  desiredRevision : Int
  activeRevision : Option Int
  activeAttestationId : Option String
  status : ProfileStatus
  deletionRequested : Bool
  deriving DecidableEq, Repr

structure TemplateRevisionRow where
  artifactDigest : String
  deriving DecidableEq, Repr

structure AuthProfileRow where
  incarnation : String
  desiredRevision : Int
  activeRevision : Option Int
  observedRevision : Option Int
  status : ProfileStatus
  deletionRequested : Bool
  deriving DecidableEq, Repr

inductive CandidateState where
  | validating
  | active
  | rejected
  deriving DecidableEq, Repr

/-- What a revision may serve: the stored `policy_json`, by the format it is written in. -/
inductive PolicyDocument where
  | github (policy : TargetPolicy)
  | forgejo (target : ForgejoTarget)
  | gitlab (target : GitlabTarget)
  deriving DecidableEq, Repr

/-- The dependent-set state a validator checked. -/
structure AuthValidationSnapshot where
  candidate : String × Int
  dependentSet : String
  checkedFleets : List AuthCheckedFleet
  identities : List AuthIdentityProof
  deriving DecidableEq, Repr

/-- The stored `validation_snapshot_json`, by the format it is written in. -/
inductive SnapshotDocument where
  | github (snapshot : AuthValidationSnapshot)
  | forgejo (probe : ForgejoAuthProbe)
  | gitlab (probe : GitlabAuthProbe)
  deriving DecidableEq, Repr

structure AuthRevisionRow where
  state : CandidateState
  reason : Option String
  kind : AuthKind
  appId : Option String
  schemaVersion : Int
  policy : Option PolicyDocument
  snapshot : Option SnapshotDocument
  deriving DecidableEq, Repr

/-! ## Accepted requests -/

structure ChangeView where
  id : String
  resourceKind : String
  resourceKey : String
  revision : Int
  kind : ChangeKind
  state : ChangeState
  deriving DecidableEq, Repr

/-- The accepted result of a mutation. -/
structure MutationAccepted where
  etag : String × Int
  change : ChangeView
  noOp : Bool
  deriving DecidableEq, Repr

/-- The unique index of the idempotency records. -/
structure IdempotencyKey where
  principal : String
  operation : String
  resourceKind : String
  resourceKey : String
  idempotencyKey : String
  deriving DecidableEq, Repr

structure IdempotencyRow where
  requestHash : String
  responseStatus : Int
  responseBody : Option MutationAccepted
  deriving DecidableEq, Repr

/-- The idempotency record an accepted request asks for. -/
structure IdempotencyRecord where
  key : String
  requestHash : String
  responseStatus : Int
  responseBody : MutationAccepted
  deriving DecidableEq, Repr

/-- What an accepted request commits, whatever resource it is about. -/
structure MutationFacts where
  idempotencyOperation : String
  resourceKind : String
  resourceKey : String
  incarnation : String
  revision : Int
  actor : String
  change : ChangeView
  idempotency : Option IdempotencyRecord
  deriving DecidableEq, Repr

/-- An admitted fleet specification. -/
structure FleetMutation extends MutationFacts where
  spec : FleetSpec
  template : Option TemplatePin
  templatePool : List ResolvedTemplatePoolMember
  templatePoolRef : Option FleetPoolRef
  authDesired : Option (String × Int)
  inputsDigest : String
  deriving DecidableEq, Repr

/-! ## The store -/

/-- The registry's tables.  The members of one revision are kept together, in the order of their
insertion. -/
structure ControlPlane where
  fleets : Table String FleetRow
  revisions : Table (String × Int) FleetRevisionRow
  members : Table (String × Int) (List ResolvedTemplatePoolMember)
  changes : Table String ChangeRow
  handoffs : Table String HandoffRow
  contexts : Table String ContextRow
  generations : Table Uuid GenerationRecord
  operations : Table String OperationRow
  pools : Table String TemplatePoolRow
  poolRevisions : Table FleetPoolRef TemplatePoolRevisionRow
  poolMembers : Table FleetPoolRef (List ResolvedTemplatePoolMember)
  templates : Table String TemplateProfileRow
  templateRevisions : Table (String × Int) TemplateRevisionRow
  auths : Table String AuthProfileRow
  authRevisions : Table (String × Int) AuthRevisionRow
  bindings : Table (String × Int) (List AccountBinding)
  idempotency : Table IdempotencyKey IdempotencyRow
  /-- Records from before requests had a principal: resource kind, resource key and key. -/
  legacyIdempotency : Table (String × String × String) Unit

/-- A refused transaction: by the domain, or by the storage.  Both roll it back. -/
inductive Refusal where
  | rejected (error : MutationError)
  | failed (error : StoreError)
  deriving DecidableEq

abbrev Commit := Except Refusal

namespace ControlPlane

/-- The tables of a new deployment. -/
def empty : ControlPlane where
  fleets := ∅
  revisions := ∅
  members := ∅
  changes := ∅
  handoffs := ∅
  contexts := ∅
  generations := ∅
  operations := ∅
  pools := ∅
  poolRevisions := ∅
  poolMembers := ∅
  templates := ∅
  templateRevisions := ∅
  auths := ∅
  authRevisions := ∅
  bindings := ∅
  idempotency := ∅
  legacyIdempotency := ∅

variable (s : ControlPlane)

/-- The member rows of a fleet revision. -/
def memberRows (key : String) (revision : Int) : List ResolvedTemplatePoolMember :=
  (s.members.find (key, revision)).getD []

/-- The member rows of a shared pool's revision. -/
def poolMemberRows (ref : FleetPoolRef) : List ResolvedTemplatePoolMember :=
  (s.poolMembers.find ref).getD []

/-- How many of a fleet's generations are not completely destroyed. -/
def occupancy (fleet : String) : Nat :=
  s.generations.count fun _ g => g.fleetKey = fleet && g.state.countsOccupancy

/-- The operations of a fleet's generations that still hold or may take a slot. -/
def openOperations (fleet : String) : Nat :=
  s.operations.count fun _ o =>
    (s.generations.find o.generationId).any (·.fleetKey = fleet) &&
      openOperationStates.contains o.state

/-- Any live resource blocks a template or auth replacement. -/
def replacementOccupancy (fleet : String) : Nat := s.occupancy fleet + s.openOperations fleet

end ControlPlane

end Registry

end Shaula
