import Mathlib.Data.List.Basic

/-! # Workflow-job observations

Approved observations of workflow jobs, never the raw messages.  None of these types authorize
lifecycle effects.
-/

namespace Shaula

namespace Jobs

/-- An instant of the source clock. -/
abbrev DateTime := Int

inductive ObservedStatus where
  | queued
  | assigned
  | running
  | completed
  | assignmentWithdrawn
  | unknown
  deriving DecidableEq

inductive AssociationStatus where
  | unverified
  | verified
  | ambiguous
  deriving DecidableEq

inductive ObservationKind where
  | available
  | assigned
  | started
  | completed
  deriving DecidableEq

/-- Approved optional presentation fields. -/
structure JobMetadata where
  ownerName : Option String
  repositoryName : Option String
  jobDisplayName : Option String
  jobWorkflowRef : Option String
  workflowRunId : Option Int
  eventName : Option String
  queueTime : Option DateTime
  scaleSetAssignTime : Option DateTime
  runnerAssignTime : Option DateTime
  finishTime : Option DateTime
  deriving DecidableEq

/-- No metadata at all. -/
def JobMetadata.empty : JobMetadata :=
  ⟨none, none, none, none, none, none, none, none, none, none⟩

def conflict {α : Type} [DecidableEq α] : Option α → Option α → Bool
  | some left, some right => left != right
  | _, _ => false

/-- Conflicting identity metadata is retained in observations, never overwritten. -/
def JobMetadata.identityConflicts (self other : JobMetadata) : Bool :=
  conflict self.ownerName other.ownerName ||
    conflict self.repositoryName other.repositoryName ||
    conflict self.workflowRunId other.workflowRunId

/-- An approved observation.  A zero request is a direct assignment's unknown request; only positive
requests can join observations. -/
structure JobObservation where
  id : String
  kind : ObservationKind
  runnerRequestId : Int
  runnerId : Option Int
  runnerName : Option String
  metadata : JobMetadata
  reportedResult : Option String
  epoch : Int
  messageId : Int
  observedAt : Int
  generationId : Option String
  associationStatus : AssociationStatus
  deriving DecidableEq

structure JobProjection where
  metadata : JobMetadata
  observedStatus : ObservedStatus
  reportedResult : Option String
  associationStatus : AssociationStatus
  deriving DecidableEq

end Jobs

end Shaula
