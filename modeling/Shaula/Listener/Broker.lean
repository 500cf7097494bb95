import Shaula.Library.Program
import Shaula.Listener.Acquisitions

/-! # Broker sessions of listeners

A listener keeps one session with the message broker.  It replaces the session and stops it under
the fleet's exclusive gate, with calls to the broker and to the store in between.
-/

namespace Shaula

open Library Library.Outcome Jobs Registry

namespace Listener

/-! ## What listeners remember -/

inductive AccessFailure where
  | unauthenticated
  | sessionExpired
  | permissionDenied
  | targetHiddenOrNotFound
  | rateLimited (retryAfter : Option Int)
  | unavailable
  | requestUncertain
  deriving DecidableEq

inductive AccessReason where
  | unauthenticated
  | permissionDenied
  | targetHiddenOrNotFound
  | rateLimited
  | accessVerificationFailed
  | ownershipProofFailed
  deriving DecidableEq

def accessReason : AccessFailure → AccessReason
  | .unauthenticated | .sessionExpired => .unauthenticated
  | .permissionDenied => .permissionDenied
  | .targetHiddenOrNotFound => .targetHiddenOrNotFound
  | .rateLimited _ => .rateLimited
  | .unavailable | .requestUncertain => .accessVerificationFailed

inductive EffectOutcome (α : Type) where
  | definite (a : α)
  | uncertain

structure PersistedSession where
  epoch : Int
  lastMessageId : Int
  scaleSetId : Int
  authContext : ResolvedAuthContext
  handle : SessionHandle

structure ListenerState where
  session : Option PersistedSession
  uncommittedSession : Option (Int × SessionHandle)
  retryAt : Int
  failures : Nat
  reason : Option AccessReason
  enabled : Bool
  reconnect : Bool
  stopped : Bool

namespace ListenerState

/-- `i64` addition that saturates. -/
def saturatingAdd (a b : Int) : Int := max (-2 ^ 63) (min (2 ^ 63 - 1) (a + b))

/-- Fleet-specific jitter keeps independent reconnects from synchronizing. -/
def jitter (fleetKey : String) : Int :=
  fleetKey.toUTF8.toList.foldl (fun n b => (n + b.toNat) % 1000) 0

/-- The failure of an epoch other than the remembered one is not recorded. -/
def setFailure (fleetKey : String) (failure : AccessFailure) (epoch : Option Int) (now : Int)
    (state : ListenerState) : ListenerState :=
  if epoch.isSome ∧ state.session.map (·.epoch) ≠ epoch then state
  else
    let expired := decide (failure = .sessionExpired)
    let failures := min (state.failures + 1) (2 ^ 32 - 1)
    let seconds : Int := 5 * 2 ^ min failures 5
    let retryMs := match failure with
      | .rateLimited (some delay) => max (min delay (2 ^ 63 - 1)) (seconds * 1000)
      | _ => seconds * 1000
    { state with
      reconnect := state.reconnect || expired
      enabled := state.enabled && !expired
      failures
      retryAt := saturatingAdd (saturatingAdd now retryMs) (jitter fleetKey)
      reason := some (accessReason failure) }

/-- A poll of the remembered session went well. -/
def recovered (epoch : Int) (state : ListenerState) : ListenerState :=
  if state.session.map (·.epoch) ≠ some epoch then state
  else { state with retryAt := 0, reason := none, failures := 0 }

end ListenerState

namespace ListenerStore

variable {δ : Type} (s : ListenerStore δ)

/-- The active session of a fleet, with its exact authentication. -/
def sessionHandle (fleet : String) : StoreResult (Option PersistedSession) :=
  match s.sessions.find fleet with
  | none => .ok none
  | some row =>
    if ¬ row.active then .ok none
    else do
      let retained ← s.sessionAuthContext fleet
      let authContext ← okOr retained (.corrupt "active session exact auth context missing")
      return some
        { epoch := row.epoch, lastMessageId := row.lastMessageId, scaleSetId := row.scaleSetId
          authContext
          handle :=
            { sessionId := row.sessionId, messageQueueUrl := row.messageQueueUrl.getD ""
              messageQueueAccessToken := row.queueToken.getD ""
              initialStatistics := ⟨(s.demand.find fleet).getD 0, 0, 0, 0⟩ } }

end ListenerStore

/-! ## Effects -/

/-- The client of an auth profile revision. -/
abbrev Client := String × Int

/-- The effects of a call, each on the state of one listener of the fleet, the store or the
broker. -/
inductive BrokerEffect where
  | nowUnixMs
  | state (listener : Nat)
  | setEnabled (listener : Nat) (enabled : Bool)
  | setStopped (listener : Nat) (stopped : Bool)
  | setReason (listener : Nat) (reason : AccessReason)
  | failed (listener : Nat) (failure : AccessFailure)
  | noteUncommitted (listener : Nat) (scaleSetId : Int) (handle : SessionHandle)
  | forgetUncommitted (listener : Nat)
  | remember (listener : Nat) (session : PersistedSession)
  | forgetSession (listener : Nat)
  | sessionAuthorize (guard : FleetRuntimeGuard) (context : ResolvedAuthContext)
  | sessionCloseAuthorize (guard : FleetRuntimeGuard)
  | listenerCurrent (context : SessionEffectContext)
  | sessionGet
  | sessionEpoch
  | sessionInstall (install : SessionInstall)
  | sessionClear (expectedEpoch : Int)
  | establishSession (listener : Nat) (scaleSetId : Int) (owner : String)
  | deleteSession (client : Client) (scaleSetId : Int) (sessionId : String)

abbrev BrokerEffect.Answer : BrokerEffect → Type
  | nowUnixMs => Int
  | state _ => ListenerState
  | sessionAuthorize _ _ | sessionCloseAuthorize _ | listenerCurrent _ => Bool
  | sessionGet => Option PersistedSession
  | sessionEpoch => Option Int
  | sessionInstall _ => Except StoreError (Option Int)
  | sessionClear _ => Bool
  | establishSession _ _ _ => Except AccessFailure (EffectOutcome SessionHandle)
  | deleteSession _ _ _ => Except AccessFailure Unit
  | _ => Unit

abbrev brokerEffects : Interface := ⟨BrokerEffect, BrokerEffect.Answer⟩

/-- An effect that fails ends the call. -/
abbrev BrokerRoutine (α : Type) := Program brokerEffects StoreError α

def ask (op : BrokerEffect) : BrokerRoutine op.Answer := Program.lift (F := brokerEffects) op

/-! ## Calls -/

/-- One of the fleet's listeners, with its configuration and the clients it was given. -/
structure FleetListener where
  id : Nat
  guard : FleetRuntimeGuard
  authContext : ResolvedAuthContext
  retainedClients : List Client

/-- Why a session may be there still.  A broker that does not know it has dropped it. -/
def leftBy : Except AccessFailure Unit → Option AccessFailure
  | .ok _ | .error .sessionExpired => none
  | .error failure => some failure

namespace FleetListener

variable (self : FleetListener)

def context (epoch : Int) : SessionEffectContext := ⟨self.guard, self.authContext, epoch⟩

def client : Client := (self.authContext.profileKey, self.authContext.revision)

/-- The client for a session: the listener's own, or a retained one. -/
def clientFor (context : ResolvedAuthContext) : Option Client :=
  if context = self.authContext then some self.client
  else if (context.profileKey, context.revision) ∈ self.retainedClients then
    some (context.profileKey, context.revision)
  else none

def clearUncommitted : BrokerRoutine Bool := do
  let state : ListenerState ← ask (.state self.id)
  match state.uncommittedSession with
  | none => return true
  | some (scaleSetId, handle) =>
    let deleted : Except AccessFailure Unit ←
      ask (.deleteSession self.client scaleSetId handle.sessionId)
    match leftBy deleted with
    | some failure =>
      ask (.failed self.id failure)
      return false
    | none =>
      ask (.forgetUncommitted self.id)
      return true

/-- A retired listener may only close its own remembered handle.  A current one may replace a
persisted predecessor. -/
def sessionToClear (replace : Bool) (stored remembered : Option PersistedSession) :
    BrokerRoutine (Option PersistedSession) :=
  if replace then return stored.or remembered
  else
    match remembered with
    | some session => return some session
    | none => do
      let authorized : Bool ← ask (.sessionCloseAuthorize self.guard)
      return if authorized then stored else none

def closeSession (session : PersistedSession) : BrokerRoutine Bool :=
  match self.clientFor session.authContext with
  | none => do
    ask (.setReason self.id .ownershipProofFailed)
    return false
  | some client => do
    let deleted : Except AccessFailure Unit ←
      ask (.deleteSession client session.scaleSetId session.handle.sessionId)
    match leftBy deleted with
    | some failure =>
      ask (.failed self.id failure)
      return false
    | none =>
      let _ : Bool ← ask (.sessionClear session.epoch)
      ask (.forgetSession self.id)
      return true

def clearSession (replace : Bool) : BrokerRoutine Bool := do
  ask (.setEnabled self.id false)
  let stored : Option PersistedSession ← ask .sessionGet
  let state : ListenerState ← ask (.state self.id)
  let session ← self.sessionToClear replace stored state.session
  match session with
  | none => return true
  | some session => self.closeSession session

/-- The remembered session is kept while it is current. -/
def keepSession (now scaleSetId : Int) : BrokerRoutine (Option (Option Int)) := do
  let state : ListenerState ← ask (.state self.id)
  if now < state.retryAt then return some none
  else
    match state.session with
    | none => return none
    | some session =>
      if state.reconnect ∨ session.scaleSetId ≠ scaleSetId then return none
      else
        let current : Bool ← ask (.listenerCurrent (self.context session.epoch))
        if ¬ current then return none
        else
          ask (.setEnabled self.id true)
          return some (some session.epoch)

/-- A failed transaction and a lost compare-and-set leave a remote session to close. -/
def installSession (expectedEpoch : Option Int) (scaleSetId : Int) (handle : SessionHandle) :
    BrokerRoutine (Option Int) := do
  ask (.noteUncommitted self.id scaleSetId handle)
  let epoch : Except StoreError (Option Int) ← ask (.sessionInstall
    { guard := self.guard, expectedEpoch, authContext := self.authContext, scaleSetId, handle })
  match epoch with
  | .ok (some epoch) =>
    ask (.remember self.id
      { epoch, scaleSetId, lastMessageId := 0, authContext := self.authContext, handle })
    return some epoch
  | .ok none =>
    let _ ← self.clearUncommitted
    return none
  | .error e =>
    let _ ← self.clearUncommitted
    .fail e

def replaceSession (scaleSetId : Int) : BrokerRoutine (Option Int) := do
  let cleared ← self.clearSession true
  if ¬ cleared then return none
  else
    let authorized : Bool ← ask (.sessionAuthorize self.guard self.authContext)
    if ¬ authorized then return none
    else
      let expectedEpoch : Option Int ← ask .sessionEpoch
      let owner := s!"shaula-{self.guard.incarnation}-{expectedEpoch.getD 0}"
      let result : Except AccessFailure (EffectOutcome SessionHandle) ←
        ask (.establishSession self.id scaleSetId owner)
      match result with
      | .ok (.definite handle) => self.installSession expectedEpoch scaleSetId handle
      | .ok .uncertain =>
        ask (.failed self.id .requestUncertain)
        return none
      | .error failure =>
        ask (.failed self.id failure)
        return none

def ensureSession (scaleSetId : Int) : BrokerRoutine (Option Int) := do
  let now : Int ← ask .nowUnixMs
  let state : ListenerState ← ask (.state self.id)
  if now < state.retryAt then return none
  else
    let cleared ← self.clearUncommitted
    if ¬ cleared then return none
    else
      let authorized : Bool ← ask (.sessionAuthorize self.guard self.authContext)
      if ¬ authorized then return none
      else
        let kept ← self.keepSession now scaleSetId
        match kept with
        | some answer => return answer
        | none => self.replaceSession scaleSetId

def stop : BrokerRoutine Bool := do
  let cleared ← self.clearUncommitted
  if ¬ cleared then return false
  else
    let state : ListenerState ← ask (.state self.id)
    if state.stopped then return true
    else
      let stopped ← self.clearSession false
      ask (.setStopped self.id stopped)
      return stopped

end FleetListener

end Listener

end Shaula
