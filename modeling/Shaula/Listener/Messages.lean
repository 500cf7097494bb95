import Shaula.Listener.Schema
import Mathlib.Data.List.Sort

/-! # Message ingestion and acknowledgement

Atomic message facts and acknowledged checkpoints.  A message is stored with the digest of its
contents, so that a later delivery of the same message is told from a changed one.
-/

namespace Shaula

open Library Library.Outcome Core Jobs Registry

namespace Listener

/-! ## Digests -/

/-- The contents the first digest format protected: no metadata and no results. -/
def legacyContents (message : PollMessage) : PollMessage :=
  { message with
    jobAvailable := message.jobAvailable.map fun j => { j with metadata := .empty }
    jobAssigned := message.jobAssigned.map fun j => { j with metadata := .empty }
    jobStarted := message.jobStarted.map fun j => { j with metadata := .empty }
    jobCompleted := message.jobCompleted.map fun j => { j with metadata := .empty, result := none } }

/-- The digest of the first format. -/
def Encoding.legacy {δ : Type} (E : Encoding δ) (message : PollMessage) : δ :=
  E.digest (legacyContents message)

namespace ListenerStore

variable {δ : Type} (E : Encoding δ) (s : ListenerStore δ)

/-! ## Authority -/

def sessionAuthContext (key : String) : StoreResult (Option ResolvedAuthContext) :=
  match s.sessionAuth.find key with
  | none => .ok none
  | some (profileKey, revision) => s.authority.authExecutionContext key profileKey revision

def sessionGuard (key : String) (guard : FleetRuntimeGuard) (context : ResolvedAuthContext)
    (epoch : Int) : StoreResult Bool := do
  let current ← s.authority.runtimeAuthGuard key guard context
  if ¬ current then return false
  match s.sessions.find key with
  | none => return false
  | some session =>
    if session.epoch ≠ epoch ∨ ¬ session.active then return false
    if ¬ s.authority.ownsScaleSet key session.scaleSetId then return false
    let retained ← s.sessionAuthContext key
    return decide (retained = some context)

def listenerContextCurrent (fleet : String) (context : SessionEffectContext) : StoreResult Bool :=
  s.sessionGuard fleet context.guard context.authContext context.epoch

/-- The stored message, which must have been ingested under the same authority. -/
def listenerMessage (fleet : String) (context : SessionEffectContext) (messageId : Int) :
    StoreResult (Option (MessageRow δ)) :=
  match s.messages.find (fleet, context.epoch, messageId) with
  | none => .ok none
  | some row =>
    if row.incarnation ≠ context.guard.incarnation ∨
        row.fleetRevision ≠ context.guard.desiredRevision ∨
        row.mutationFence ≠ context.guard.mutationFence ∨ row.context ≠ context.authContext then
      .error (.corrupt "listener message authority mismatch")
    else .ok (some row)

/-- The requests a message offered first that were not yet acquired, in order. -/
def pendingRequests (fleet : String) (epoch messageId : Int) : List Int :=
  ((s.acquisitions.rows.filter fun (key, row) => key.1 = fleet ∧ key.2.1 = epoch ∧
    row.messageId = messageId ∧ row.state = .pending).map fun (key, _) =>
      key.2.2).insertionSort (· ≤ ·)

def listenerMessageView (fleet : String) (epoch messageId : Int) (row : MessageRow δ) :
    IngestedMessage where
  messageId := messageId
  acked := row.acked
  pendingRequestIds := s.pendingRequests fleet epoch messageId

/-! ## What an ingest writes -/

/-- One offered job: the first message of the epoch that offers a request keeps it. -/
def offerJob (fleet : String) (epoch messageId : Int) (s : ListenerStore δ) (job : JobMessage) :
    StoreResult (ListenerStore δ) := do
  ensure (0 < job.runnerRequestId) (.corrupt "invalid runner request ID")
  return { s with
    acquisitions := s.acquisitions.createIfAbsent (fleet, epoch, job.runnerRequestId)
      { messageId, state := .pending } }

/-- One observed job.  A direct assignment can lack a request; this index cannot hold it. -/
def observeJob (fleet : String) (epoch messageId : Int) (s : ListenerStore δ)
    (observed : ObservationKind × Int × ObservedJob) : StoreResult (ListenerStore δ) := do
  let (kind, request, job) := observed
  ensure (0 ≤ request) (.corrupt "invalid observed runner request ID")
  if request = 0 then return s
  return { s with
    observations := s.observations.createIfAbsent (fleet, epoch, messageId, kind, request) job }

def listenerObservations (fleet : String) (epoch : Int) (message : PollMessage) :
    StoreResult (ListenerStore δ) := do
  let s ← message.jobAvailable.foldlM (offerJob fleet epoch message.messageId) s
  let observed :=
    message.jobAssigned.map (fun j =>
      (ObservationKind.assigned, j.runnerRequestId, ObservedJob.mk j.jobId none)) ++
    message.jobStarted.map (fun j =>
      (ObservationKind.started, j.runnerRequestId, ObservedJob.mk j.jobId (some j.runnerName))) ++
    message.jobCompleted.map fun j =>
      (ObservationKind.completed, j.runnerRequestId, ObservedJob.mk j.jobId (some j.runnerName))
  observed.foldlM (observeJob fleet epoch message.messageId) s

/-- Moves the generation of an exact runner along a legal lifecycle edge. -/
def moveRunner (fleet : String) (s : ListenerStore δ)
    (event : Int × String × GenerationState × List GenerationState) : ListenerStore δ :=
  let (runnerId, runnerName, next, origins) := event
  if runnerId ≤ 0 then s
  else
    { s with
      activity := s.activity.update
        (fun id row => decide (row.fleetKey = fleet) && decide (row.state ∈ origins) &&
          s.jobs.generations.any fun g =>
            g.id = id ∧ g.githubRunnerId = some runnerId ∧ g.runnerName = runnerName)
        fun row => { row with state := next, subphase := none } }

/-- A started job proves its runner online and busy; a completed one retires it. -/
def listenerActivity (fleet : String) (message : PollMessage) : ListenerStore δ :=
  let started := message.jobStarted.map fun j =>
    (j.runnerId, j.runnerName, GenerationState.busy, [GenerationState.waitingOnline, .idle])
  let completed := message.jobCompleted.map fun j =>
    (j.runnerId, j.runnerName, GenerationState.retiring, [GenerationState.idle, .busy])
  (started ++ completed).foldl (moveRunner fleet) s

def observedScope (fleet : String) (context : SessionEffectContext) : Option JobScope :=
  match s.sessions.find fleet with
  | none => none
  | some session =>
    if session.epoch ≠ context.epoch then none
    else some
      { key := E.scopeKey fleet context.guard.incarnation session.scaleSetId context.authContext
        incarnation := context.guard.incarnation
        scaleSetId := session.scaleSetId }

/-- The job facts of a message are stored in the scope of its session. -/
def jobsIngestTx (fleet : String) (context : SessionEffectContext) (message : PollMessage)
    (now : Int) : StoreResult (ListenerStore δ) := do
  let scope ← okOr (s.observedScope E fleet context)
    (.corrupt "job observation lacks session identity")
  let jobs ← s.jobs.jobsIngest E.uuid { fleet, scope, epoch := context.epoch, now } message
  return { s with jobs }

/-! ## Ingestion -/

/-- Replaces a digest of the first format by one of the current format. -/
def upgradeDigest (fleet : String) (epoch messageId : Int) (digest : δ) : ListenerStore δ :=
  { s with
    messages := s.messages.update
      (fun key row => key = (fleet, epoch, messageId) ∧ row.payloadDigestVersion = 1)
      fun row => { row with payloadDigest := digest, payloadDigestVersion := 2 } }

/-- The digest a stored message must have for this to be its redelivery. -/
def expectedDigest (row : MessageRow δ) (message : PollMessage) : StoreResult δ :=
  if row.payloadDigestVersion = 1 then .ok (E.legacy message)
  else if row.payloadDigestVersion = 2 then .ok (E.digest message)
  else .error (.corrupt "unsupported listener digest version")

/-- A message that is stored already.  The first digest format did not protect metadata: its first
delivery after the upgrade supplies the job facts, and freezes them. -/
def redeliver [DecidableEq δ] (fleet : String) (context : SessionEffectContext) (message : PollMessage) (now : Int)
    (row : MessageRow δ) : StoreResult (Option IngestedMessage × ListenerStore δ) := do
  let expected ← expectedDigest E row message
  ensure (row.payloadDigest = expected) (.corrupt "redelivered listener message changed contents")
  if row.payloadDigestVersion = 1 then
    let s ← s.jobsIngestTx E fleet context message now
    let s := s.upgradeDigest fleet context.epoch message.messageId (E.digest message)
    return (some (s.listenerMessageView fleet context.epoch message.messageId row), s)
  else
    return (some (s.listenerMessageView fleet context.epoch message.messageId row), s)

/-- The row a new message is stored as. -/
def newMessage (context : SessionEffectContext) (message : PollMessage) : MessageRow δ where
  payloadDigest := E.digest message
  payloadDigestVersion := 2
  incarnation := context.guard.incarnation
  fleetRevision := context.guard.desiredRevision
  mutationFence := context.guard.mutationFence
  context := context.authContext
  acked := false

/-- A new message, later than every message of its epoch. -/
def ingestNew (fleet : String) (context : SessionEffectContext) (message : PollMessage)
    (now : Int) : StoreResult (Option IngestedMessage × ListenerStore δ) := do
  ensure (∀ entry ∈ s.messages.rows, entry.1.1 = fleet → entry.1.2.1 = context.epoch →
    entry.1.2.2 < message.messageId) (.corrupt "listener message order regressed")
  let row := newMessage E context message
  let s : ListenerStore δ :=
    { s with
      messages := s.messages.put (fleet, context.epoch, message.messageId) row
      demand := s.demand.put fleet message.statistics.totalAssignedJobs }
  let s ← s.listenerObservations fleet context.epoch message
  let s := s.listenerActivity fleet message
  let s ← s.jobsIngestTx E fleet context message now
  let s : ListenerStore δ := { s with outbox := s.outbox ++ [(fleet, context.epoch)] }
  return (some (s.listenerMessageView fleet context.epoch message.messageId row), s)

def listenerIngest [DecidableEq δ] (fleet : String) (context : SessionEffectContext) (message : PollMessage)
    (now : Int) : StoreResult (Option IngestedMessage × ListenerStore δ) := do
  let current ← s.listenerContextCurrent fleet context
  if ¬ current then return (none, s)
  ensure (¬ (message.messageId ≤ 0 ∨ message.statistics.totalAssignedJobs < 0))
    (.corrupt "invalid listener message statistics or ID")
  match ← s.listenerMessage fleet context message.messageId with
  | some row => s.redeliver E fleet context message now row
  | none => s.ingestNew E fleet context message now

/-! ## Acknowledgement -/

/-- Marks a message acknowledged and advances the session past it. -/
def markAcked (fleet : String) (epoch messageId : Int) : ListenerStore δ :=
  { s with
    messages := s.messages.update (fun key _ => key = (fleet, epoch, messageId))
      fun row => { row with acked := true }
    sessions := s.sessions.update (fun key row => key = fleet ∧ row.epoch = epoch)
      fun row => { row with lastMessageId := max row.lastMessageId messageId } }

def listenerAcknowledge (fleet : String) (context : SessionEffectContext) (messageId : Int) :
    StoreResult (Bool × ListenerStore δ) := do
  let current ← s.listenerContextCurrent fleet context
  if ¬ current then return (false, s)
  match ← s.listenerMessage fleet context messageId with
  | none => return (false, s)
  | some _ =>
    ensure (∀ entry ∈ s.messages.rows, entry.1.1 = fleet → entry.1.2.1 = context.epoch →
      entry.1.2.2 < messageId → entry.2.acked)
      (.corrupt "listener ACK would skip an unacknowledged message")
    return (true, s.markAcked fleet context.epoch messageId)

end ListenerStore

end Listener

end Shaula
