import Shaula.Jobs.Association
import Shaula.Store.Request
import Mathlib.Data.List.Sort
import Mathlib.Data.String.Basic

/-! # Ingestion of message facts

Retained message facts are committed in the listener's existing transaction.  A fact without a job
id is attached to a record only while all facts of its request agree on one job.
-/

namespace Shaula

open Library Library.Outcome

namespace Jobs

/-- The members of a `BTreeSet`, in its order. -/
def btreeSet {α : Type} [LinearOrder α] (members : List α) : List α :=
  members.dedup.insertionSort (· ≤ ·)

/-- The scope an observation was made in. -/
structure JobScope where
  key : String
  incarnation : String
  scaleSetId : Int

/-- What one message is ingested under. -/
structure Delivery where
  fleet : String
  scope : JobScope
  epoch : Int
  now : Int

namespace JobStore

-- The surrogate ids that are drawn, in order.
variable (uuid : Nat → String)

/-- The record of a job, inserted when it is new. -/
def ensureJob (s : JobStore) (d : Delivery) (protocolId : String) : JobStore × String :=
  match s.jobs.find? fun job => job.scopeKey = d.scope.key ∧ job.protocolJobId = protocolId with
  | some job => (s, job.id)
  | none =>
    let id := uuid s.drawn
    let summary : JobSummary :=
      { metadata := .empty, observedStatus := .unknown, reportedResult := none
        associationStatus := .unverified, createdAt := d.now, updatedAt := d.now }
    let job : JobRow :=
      { id, scopeKey := d.scope.key, fleetKey := d.fleet, fleetIncarnation := d.scope.incarnation
        scaleSetId := d.scope.scaleSetId, protocolJobId := protocolId, summary }
    ({ s with jobs := s.jobs ++ [job], drawn := s.drawn + 1 }, id)

/-- The observation a fact is stored as. -/
def observationOf (d : Delivery) (messageId : Int) (id : String) (fact : Fact) : JobObservation where
  id := id
  kind := fact.kind
  runnerRequestId := fact.request
  runnerId := fact.runner
  runnerName := fact.name
  metadata := fact.metadata
  reportedResult := fact.result
  epoch := d.epoch
  messageId := messageId
  observedAt := d.now
  generationId := none
  associationStatus := .unverified

/-- What the insertion of a message's facts leaves to be refreshed. -/
structure Touched where
  affected : List String
  runners : List Int
  requests : List Int

/-- Stores one fact. -/
def insertFact (d : Delivery) (messageId : Int) (state : JobStore × Touched) (fact : Fact) :
    StoreResult (JobStore × Touched) := do
  ensure fact.Valid (.corrupt "invalid job observation identity")
  let (s, touched) := state
  let (s, job) :=
    if blank fact.job then (s, none)
    else
      let (s, id) := s.ensureJob uuid d fact.job
      (s, some id)
  let observation := observationOf d messageId (uuid s.drawn) fact
  let row : ObservationRow :=
    { id := observation.id, scopeKey := d.scope.key, jobRecordId := job
      protocolJobId := fact.protocolId, runnerRequestId := fact.request, runnerId := fact.runner
      data := observation, observedAt := d.now }
  -- Zero is a wire sentinel, never a shared request identity.
  return ({ s with observations := s.observations ++ [row], drawn := s.drawn + 1 },
    { affected := touched.affected ++ job.toList
      runners := touched.runners ++ fact.runner.toList
      requests := if fact.request > 0 then touched.requests ++ [fact.request]
        else touched.requests })

/-- The records that facts of a request name. -/
def requestRecords (s : JobStore) (scope : String) (request : Int) : List String :=
  ((s.observations.filter fun row => row.scopeKey = scope ∧ row.runnerRequestId = request ∧
    row.protocolJobId ≠ "").filterMap (·.jobRecordId)).dedup

/-- Attaches the facts without a job id to the one record their request names, if it is one. -/
def settleRequest (scope : String) (state : JobStore × List String) (request : Int) :
    JobStore × List String :=
  let (s, affected) := state
  let candidates := s.requestRecords scope request
  let candidate := match candidates with
    | [id] => some id
    | _ => none
  ({ s with observations := s.observations.map fun row =>
      if row.scopeKey = scope ∧ row.runnerRequestId = request ∧ row.protocolJobId = "" then
        { row with jobRecordId := candidate }
      else row }, affected ++ candidates)

/-- Ingests the facts of a message. -/
def jobsIngest (s : JobStore) (d : Delivery) (message : PollMessage) : StoreResult JobStore := do
  let (s, touched) ← (facts message).foldlM (insertFact uuid d message.messageId) (s, ⟨[], [], []⟩)
  let (s, affected) := (btreeSet touched.requests).foldl (settleRequest d.scope.key)
    (s, touched.affected)
  let s := (btreeSet affected).foldl refreshJob s
  return (btreeSet touched.runners).foldl (fun s runner => s.refreshRunnerJobs d.scope.key runner) s

/-- Records the runner of a generation in its scope. -/
def registerRunnerOn (s : JobStore) (generation : String) (runner : Int) : JobStore :=
  let registered : JobStore :=
    { s with identities := s.identities.map fun i =>
        if i.generationId = generation ∧ (i.githubRunnerId = none ∨ i.githubRunnerId = some runner)
        then { i with githubRunnerId := some runner } else i }
  match registered.identities.find? fun i => i.generationId = generation with
  | none => registered
  | some i => registered.refreshRunnerJobs i.scopeKey runner

/-- A generation's runner identity is learnt; it never changes. -/
def setRunner (s : JobStore) (generation : String) (runner : Int) : StoreResult JobStore := do
  let row ← okOr (s.generations.find? fun g => g.id = generation) (.corrupt "generation missing")
  ensure (row.githubRunnerId.all (· = runner)) (.conflict "generation runner identity changed")
  let s : JobStore :=
    { s with generations := s.generations.map fun g =>
        if g.id = generation then { g with githubRunnerId := some runner } else g }
  return s.registerRunnerOn generation runner

end JobStore

end Jobs

end Shaula
