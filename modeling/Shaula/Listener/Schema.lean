import Shaula.Core.Lifecycle
import Shaula.Jobs.Ingest
import Shaula.Registry.Authority

/-! # Listener tables

The rows of a fleet's message queue session: the session itself, the messages ingested in each of
its epochs, the jobs they offered for acquisition, and what else an ingest writes.
-/

namespace Shaula

open Library Core Jobs Registry

namespace Listener

/-- The authority a listener acts under: a fleet head, an auth context and a session epoch. -/
structure SessionEffectContext where
  guard : FleetRuntimeGuard
  authContext : ResolvedAuthContext
  epoch : Int
  deriving DecidableEq

/-- The session of a fleet.  Its row outlives it, so that no epoch is used twice. -/
structure SessionRow where
  sessionId : String
  epoch : Int
  scaleSetId : Int
  messageQueueUrl : Option String
  queueToken : Option String
  lastMessageId : Int
  deriving DecidableEq

/-- `session_active`. -/
def SessionRow.active (s : SessionRow) : Bool :=
  s.sessionId ≠ "" && s.messageQueueUrl.any (· ≠ "") && s.queueToken.any (· ≠ "")

/-- A message ingested under an authority, with the digest of its contents. -/
structure MessageRow (δ : Type) where
  payloadDigest : δ
  payloadDigestVersion : Int
  incarnation : String
  fleetRevision : Int
  mutationFence : Int
  context : ResolvedAuthContext
  acked : Bool

inductive AcquisitionState where
  | pending
  | acquireStarting
  | acquired
  | rejected
  | uncertain
  | cancelled
  | reconciledUncertain
  deriving DecidableEq, Repr

/-- An offered job, and the message that offered it first. -/
structure AcquisitionRow where
  messageId : Int
  state : AcquisitionState
  deriving DecidableEq, Repr

structure ObservedJob where
  jobId : String
  runnerName : Option String
  deriving DecidableEq, Repr

/-- The lifecycle columns of a generation that a message moves. -/
structure ActivityRow where
  fleetKey : String
  state : GenerationState
  subphase : Option String

/-- The address of a message: fleet, epoch and message id. -/
abbrev MessageKey := String × Int × Int

/-- The address of an acquisition: fleet, epoch and runner request id. -/
abbrev AcquisitionKey := String × Int × Int

structure ListenerStore (δ : Type) where
  authority : Authority
  sessions : Table String SessionRow
  sessionAuth : Table String (String × Int)
  messages : Table MessageKey (MessageRow δ)
  acquisitions : Table AcquisitionKey AcquisitionRow
  observations : Table (String × Int × Int × ObservationKind × Int) ObservedJob
  demand : Table String Int
  activity : Table String ActivityRow
  jobs : JobStore
  /-- The fleets and epochs of the `fleet.listener` events. -/
  outbox : List (String × Int)

/-- The hashes the listener stores, and the source of its surrogate ids. -/
structure Encoding (δ : Type) where
  /-- The digest of a message's encoding. -/
  digest : PollMessage → δ
  /-- The digest of a scope: fleet, incarnation, scale set and verified target. -/
  scopeKey : String → String → Int → ResolvedAuthContext → String
  uuid : Nat → String

/-- A committed message whose remaining network work can be recovered. -/
structure IngestedMessage where
  messageId : Int
  acked : Bool
  pendingRequestIds : List Int
  deriving DecidableEq, Repr

structure SessionHandle where
  sessionId : String
  messageQueueUrl : String
  messageQueueAccessToken : String
  initialStatistics : StatisticsSnapshot

structure SessionInstall where
  guard : FleetRuntimeGuard
  expectedEpoch : Option Int
  authContext : ResolvedAuthContext
  scaleSetId : Int
  handle : SessionHandle

end Listener

end Shaula
