import Shaula.Jobs.Observation

/-! # Messages of a poll

What a poll of the message queue produces.  Owned idempotent facts derive from these: each job entry
of a message states one fact.
-/

namespace Shaula

namespace Jobs

/-- Latest statistics; always an overwriting snapshot. -/
structure StatisticsSnapshot where
  totalAssignedJobs : Int
  totalRegisteredRunners : Int
  totalBusyRunners : Int
  totalIdleRunners : Int
  deriving DecidableEq

structure JobMessage where
  runnerRequestId : Int
  jobId : String
  metadata : JobMetadata
  deriving DecidableEq

structure JobStartedMessage where
  runnerRequestId : Int
  jobId : String
  runnerId : Int
  runnerName : String
  metadata : JobMetadata
  deriving DecidableEq

structure JobCompletedMessage where
  runnerRequestId : Int
  jobId : String
  runnerId : Int
  runnerName : String
  metadata : JobMetadata
  result : Option String
  deriving DecidableEq

structure PollMessage where
  messageId : Int
  statistics : StatisticsSnapshot
  jobAvailable : List JobMessage
  jobAssigned : List JobMessage
  jobStarted : List JobStartedMessage
  jobCompleted : List JobCompletedMessage
  deriving DecidableEq

/-! ## Facts -/

/-- Unicode property `White_Space`. -/
def whiteSpace (c : Char) : Bool :=
  let n := c.toNat
  (9 ≤ n && n ≤ 13) || n == 0x20 || n == 0x85 || n == 0xa0 || n == 0x1680 ||
    (0x2000 ≤ n && n ≤ 0x200a) || n == 0x2028 || n == 0x2029 || n == 0x202f || n == 0x205f ||
    n == 0x3000

/-- Nothing is left of the text once it is trimmed. -/
def blank (text : String) : Bool := text.toList.all whiteSpace

structure Fact where
  kind : ObservationKind
  request : Int
  job : String
  runner : Option Int
  name : Option String
  metadata : JobMetadata
  result : Option String
  deriving DecidableEq

/-- The facts a message states about jobs. -/
def facts (message : PollMessage) : List Fact :=
  let offered (kind : ObservationKind) (j : JobMessage) : Fact :=
    { kind, request := j.runnerRequestId, job := j.jobId, runner := none, name := none
      metadata := j.metadata, result := none }
  message.jobAvailable.map (offered .available) ++ message.jobAssigned.map (offered .assigned) ++
    message.jobStarted.map (fun j =>
      { kind := .started, request := j.runnerRequestId, job := j.jobId
        runner := if j.runnerId > 0 then some j.runnerId else none
        name := if j.runnerName ≠ "" then some j.runnerName else none
        metadata := j.metadata, result := none }) ++
    message.jobCompleted.map fun j =>
      { kind := .completed, request := j.runnerRequestId, job := j.jobId
        runner := if j.runnerId > 0 then some j.runnerId else none
        name := if j.runnerName ≠ "" then some j.runnerName else none
        metadata := j.metadata, result := j.result }

/-- The protocol id a fact's observation is stored under; blank ids are stored empty. -/
def Fact.protocolId (fact : Fact) : String := if blank fact.job then "" else fact.job

/-- A fact whose identity can be stored. -/
def Fact.Valid (fact : Fact) : Prop :=
  0 ≤ fact.request ∧ ¬ (fact.request = 0 ∧ fact.kind = .available) ∧
    fact.job.utf8ByteSize ≤ 4096 ∧ ∀ name, fact.name = some name → name.utf8ByteSize ≤ 1024

instance (fact : Fact) : Decidable fact.Valid :=
  decidable_of_iff
    (0 ≤ fact.request ∧ ¬ (fact.request = 0 ∧ fact.kind = .available) ∧
      fact.job.utf8ByteSize ≤ 4096 ∧ fact.name.all fun name => name.utf8ByteSize ≤ 1024)
    (by cases h : fact.name <;> simp [Fact.Valid, h])

end Jobs

end Shaula
