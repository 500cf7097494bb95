import Shaula.Jobs.Message
import Shaula.Jobs.Projection

/-! # Association of observations

Exact numeric runner evidence within a captured scope.  A job record is refreshed as a whole: every
observation attached to it is associated anew from the rows of its scope, and the record shows their
projection.
-/

namespace Shaula

namespace Jobs

/-! ## Rows -/

/-- What a job record shows. -/
structure JobSummary where
  metadata : JobMetadata
  observedStatus : ObservedStatus
  reportedResult : Option String
  associationStatus : AssociationStatus
  createdAt : Int
  updatedAt : Int
  deriving DecidableEq

structure JobRow where
  id : String
  scopeKey : String
  fleetKey : String
  fleetIncarnation : String
  scaleSetId : Int
  protocolJobId : String
  summary : JobSummary
  deriving DecidableEq

/-- One stored observation; `protocolJobId` is empty while its job is unknown. -/
structure ObservationRow where
  id : String
  scopeKey : String
  jobRecordId : Option String
  protocolJobId : String
  runnerRequestId : Int
  runnerId : Option Int
  data : JobObservation
  observedAt : Int
  deriving DecidableEq

/-- The scope a generation was created in, and its runner once known. -/
structure IdentityRow where
  generationId : String
  scopeKey : String
  githubRunnerId : Option Int
  deriving DecidableEq

/-- What job history reads of a generation. -/
structure RunnerRow where
  id : String
  runnerName : String
  githubRunnerId : Option Int
  deriving DecidableEq

structure JobStore where
  jobs : List JobRow
  observations : List ObservationRow
  identities : List IdentityRow
  generations : List RunnerRow
  /-- How many surrogate ids were drawn. -/
  drawn : Nat
  deriving DecidableEq

namespace JobStore

variable (s : JobStore)

/-! ## Evidence about one observation -/

/-- The generations whose runner it is, with the runner's name. -/
def candidates (scope : String) (runner : Int) : List (String × String) :=
  (s.identities.filter fun i => i.scopeKey = scope ∧ i.githubRunnerId = some runner).filterMap
    fun i => (s.generations.find? fun g => g.id = i.generationId).map fun g =>
      (i.generationId, g.runnerName)

/-- The known jobs that name the runner. -/
def distinctJobs (scope : String) (runner : Int) : List String :=
  ((s.observations.filter fun row => row.scopeKey = scope ∧ row.runnerId = some runner ∧
    row.protocolJobId ≠ "").map (·.protocolJobId)).dedup

/-- Several jobs name the request, and some fact about it names none. -/
def requestConflicts (scope : String) (request : Int) : Bool :=
  if request ≤ 0 then false
  else
    let evidence := s.observations.filter fun row =>
      row.scopeKey = scope ∧ row.runnerRequestId = request
    let identities := ((evidence.map (·.protocolJobId)).filter (· ≠ "")).dedup.length
    let unresolved := (evidence.filter fun row => row.protocolJobId = "").length
    identities > 1 && unresolved > 0

end JobStore

/-- The observation with another association. -/
def JobObservation.marked (o : JobObservation) (generation : Option String)
    (status : AssociationStatus) : JobObservation :=
  { o with generationId := generation, associationStatus := status }

/-- The record shows the projection of its observations. -/
def JobSummary.refreshed (summary : JobSummary) (projection : JobProjection)
    (observations : List JobObservation) : JobSummary where
  metadata := projection.metadata
  observedStatus := projection.observedStatus
  reportedResult := projection.reportedResult
  associationStatus := projection.associationStatus
  createdAt := summary.createdAt
  updatedAt := ((observations.map (·.observedAt)).max?).getD summary.updatedAt

namespace JobStore

variable (s : JobStore)

def associate (scope : String) (observation : JobObservation) : JobObservation :=
  match observation.runnerId with
  | none => observation.marked none .unverified
  | some runner =>
    match s.candidates scope runner with
    | [] => observation.marked none .unverified
    | (generation, name) :: others =>
      if others ≠ [] ∨ (s.distinctJobs scope runner).length > 1 ∨
          observation.runnerName.any (· ≠ name) then
        observation.marked none .ambiguous
      else observation.marked (some generation) .verified

/-- The association a refresh first gives an observation. -/
def resolve (scope : String) (observation : JobObservation) : JobObservation :=
  if s.requestConflicts scope observation.runnerRequestId then
    (s.associate scope observation).marked none .ambiguous
  else s.associate scope observation

/-! ## Refresh -/

def saveObservation (observation : JobObservation) : JobStore :=
  { s with observations := s.observations.map fun row =>
      if row.id = observation.id then { row with data := observation } else row }

/-- The rows attached to a job record. -/
def attached (id : String) : List ObservationRow :=
  s.observations.filter fun row => row.jobRecordId = some id

/-- Associates the record's observations anew and shows their projection.  What an observation is
associated by is never in the data that the refresh writes. -/
def refreshJob (id : String) : JobStore :=
  match s.jobs.find? fun job => job.id = id with
  | none => s
  | some job =>
    let resolved := (s.attached id).map fun row => s.resolve job.scopeKey row.data
    let projection := projectObservations resolved
    let observations :=
      if projection.associationStatus = .ambiguous then
        resolved.map (·.marked none .ambiguous)
      else resolved
    let saved := observations.foldl saveObservation (resolved.foldl saveObservation s)
    { saved with jobs := saved.jobs.map fun job =>
        if job.id = id then { job with summary := job.summary.refreshed projection observations }
        else job }

def refreshRunnerJobs (scope : String) (runner : Int) : JobStore :=
  let ids := ((s.observations.filter fun row => row.scopeKey = scope ∧
    row.runnerId = some runner).filterMap (·.jobRecordId)).dedup
  ids.foldl refreshJob s

end JobStore

end Jobs

end Shaula
