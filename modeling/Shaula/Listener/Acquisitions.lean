import Shaula.Listener.Messages

/-! # Acquisition attempts and sessions

At-most-once acquisition attempts, and what becomes of the open ones when their session ends.  A
pending acquisition never left the daemon; one that was started may have reached the service and
must remain uncertain.
-/

namespace Shaula

open Library Library.Outcome Core Jobs Registry

namespace Listener

namespace ListenerStore

variable {δ : Type} (s : ListenerStore δ)

/-! ## Acquisition -/

/-- The pending requests of a message are started. -/
def startPending (fleet : String) (epoch messageId : Int) : ListenerStore δ :=
  { s with
    acquisitions := s.acquisitions.update
      (fun key row => key.1 = fleet ∧ key.2.1 = epoch ∧ row.messageId = messageId ∧
        row.state = .pending)
      fun row => { row with state := .acquireStarting } }

/-- Hands out the pending requests of an acknowledged message. -/
def listenerAcquireStart (fleet : String) (context : SessionEffectContext) (messageId : Int) :
    StoreResult (Option (List Int) × ListenerStore δ) := do
  let current ← s.listenerContextCurrent fleet context
  if ¬ current then return (none, s)
  match ← s.listenerMessage fleet context messageId with
  | none => .error (.corrupt "acquisition message not persisted")
  | some row =>
    ensure row.acked (.corrupt "acquisition before message ACK")
    let ids := (s.listenerMessageView fleet context.epoch messageId row).pendingRequestIds
    return (some ids, s.startPending fleet context.epoch messageId)

/-- What an answer about a message's requests makes of one of them. -/
def settled (accepted : Option (List Int)) (id : Int) : AcquisitionState :=
  match accepted with
  | none => .uncertain
  | some ids => if id ∈ ids then .acquired else .rejected

/-- One request of an answered message; only a started one takes the answer. -/
def completeAcquisition (fleet : String) (epoch : Int) (accepted : Option (List Int))
    (s : ListenerStore δ) (request : Int × AcquisitionState) : ListenerStore δ :=
  if request.2 = .acquireStarting ∨ request.2 = .uncertain then
    { s with
      acquisitions := s.acquisitions.update (fun key _ => key = (fleet, epoch, request.1))
        fun row => { row with state := settled accepted request.1 } }
  else s

/-- Records the outcome of an acquisition, also when the authority has changed since: the error of
the last check is returned after the outcome is committed. -/
def listenerAcquireComplete (fleet : String) (context : SessionEffectContext) (messageId : Int)
    (accepted : Option (List Int)) : StoreResult (StoreResult Bool × ListenerStore δ) := do
  match ← s.listenerMessage fleet context messageId with
  | none => .error (.corrupt "acquisition completion message missing")
  | some _ =>
    let rows := (s.acquisitions.rows.filter fun (key, row) => key.1 = fleet ∧
      key.2.1 = context.epoch ∧ row.messageId = messageId).map fun (key, row) =>
        (key.2.2, row.state)
    let ids := rows.map (·.1)
    ensure (∀ values, accepted = some values → ∀ id ∈ values, id ∈ ids)
      (.corrupt "acquisition result includes an unrequested job")
    let completed := rows.foldl (completeAcquisition fleet context.epoch accepted) s
    return (completed.listenerContextCurrent fleet context, completed)

/-! ## Sessions -/

/-- Closes the open acquisitions of an ended session. -/
def listenerSessionEnd (fleet : String) (epoch : Int) : ListenerStore δ :=
  { s with
    acquisitions := s.acquisitions.update
      (fun key row => key.1 = fleet ∧ key.2.1 = epoch ∧
        (row.state = .pending ∨ row.state = .acquireStarting))
      fun row => { row with
        state := if row.state = .pending then .cancelled else .uncertain } }

/-- A fresh session's initial statistics cover the demand of the uncertain acquisitions. -/
def listenerReconcileOld (fleet : String) (epoch : Int) : ListenerStore δ :=
  { s with
    acquisitions := s.acquisitions.update
      (fun key row => key.1 = fleet ∧ key.2.1 < epoch ∧ row.state = .uncertain)
      fun row => { row with state := .reconciledUncertain } }

/-- The session before an install is ended in its epoch. -/
def endPrevious (fleet : String) (previous : Option SessionRow) : ListenerStore δ :=
  match previous with
  | none => s
  | some session => s.listenerSessionEnd fleet session.epoch

/-- The full handle of a new session, with its initial demand and retained authentication. -/
def publishSession (fleet : String) (install : SessionInstall) (epoch : Int) : ListenerStore δ :=
  { s with
    sessions := s.sessions.put fleet
      { sessionId := install.handle.sessionId, epoch, scaleSetId := install.scaleSetId
        messageQueueUrl := some install.handle.messageQueueUrl
        queueToken := some install.handle.messageQueueAccessToken, lastMessageId := 0 }
    sessionAuth := s.sessionAuth.put fleet
      (install.authContext.profileKey, install.authContext.revision)
    demand := s.demand.put fleet install.handle.initialStatistics.totalAssignedJobs }

/-- Publishes a new session under the captured authority and epoch. -/
def sessionInstall (fleet : String) (install : SessionInstall) :
    StoreResult (Option Int × ListenerStore δ) := do
  ensure (¬ (install.handle.sessionId = "" ∨ install.handle.messageQueueUrl = "" ∨
    install.handle.messageQueueAccessToken = "" ∨
    install.handle.initialStatistics.totalAssignedJobs < 0)) (.corrupt "incomplete session handle")
  let current ← s.authority.runtimeAuthGuard fleet install.guard install.authContext
  if ¬ current then return (none, s)
  if ¬ s.authority.ownsScaleSet fleet install.scaleSetId then return (none, s)
  let previous := s.sessions.find fleet
  if previous.map (·.epoch) ≠ install.expectedEpoch then return (none, s)
  let epoch ← okOr (checkedAdd ((previous.map (·.epoch)).getD 0) 1)
    (.corrupt "session epoch exhausted")
  let s := (s.endPrevious fleet previous).publishSession fleet install epoch
  return (some epoch, s.listenerReconcileOld fleet epoch)

/-- A session row without a session. -/
def retireSession (fleet : String) (row : SessionRow) (epoch : Int) : ListenerStore δ :=
  { s with
    sessions := s.sessions.put fleet
      { row with sessionId := "", epoch, messageQueueUrl := none, queueToken := none
                 lastMessageId := 0 }
    sessionAuth := s.sessionAuth.delete fleet }

/-- Ends a session.  The row keeps counting epochs, so that no session is mistaken for another. -/
def sessionClear (fleet : String) (expectedEpoch : Int) :
    StoreResult (Bool × ListenerStore δ) :=
  match s.sessions.find fleet with
  | none => .ok (false, s)
  | some row =>
    if row.epoch ≠ expectedEpoch then .ok (false, s)
    else do
      let s := s.listenerSessionEnd fleet expectedEpoch
      let epoch ← okOr (checkedAdd row.epoch 1) (.corrupt "session epoch exhausted")
      return (true, s.retireSession fleet row epoch)

end ListenerStore

end Listener

end Shaula
