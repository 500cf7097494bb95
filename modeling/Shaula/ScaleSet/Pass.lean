import Shaula.Library.Program
import Shaula.ScaleSet.Ownership

/-! # Ownership passes

Create-or-adopt of a fleet's scale set, with identity, group, label and inventory proofs, and the
reconcile pass that creates generations only after it.  GitHub may answer anything.
-/

namespace Shaula.ScaleSet

open Library

/-! ## Answers -/

inductive AccessFailure where
  | unauthenticated
  | sessionExpired
  | permissionDenied
  | targetHiddenOrNotFound
  | rateLimited
  | unavailable
  | requestUncertain
  deriving DecidableEq, Repr

structure Label where
  name : String
  labelType : String
  deriving DecidableEq

structure ScaleSetView where
  id : Int
  name : String
  runnerGroupId : Int
  labels : List Label
  deriving DecidableEq

inductive LookupOutcome where
  | exactlyOne (view : ScaleSetView)
  | none
  | multiple
  deriving DecidableEq

inductive EffectOutcome (α : Type) where
  | definite (a : α)
  | uncertain

structure RunnerRef where
  id : Int
  name : String
  scaleSetId : Int
  deriving DecidableEq

inductive ReasonCode where
  | unauthenticated
  | permissionDenied
  | targetHiddenOrNotFound
  | rateLimited
  | accessVerificationFailed
  | ownershipProofFailed
  | ownershipConflict
  | scaleSetMissing
  | scaleSetMissingWithResources
  | scaleSetCreateUncertain
  | scaleSetLabelsUpdateUncertain
  | scaleSetLabelsPending
  | unknownRemoteRunner
  deriving DecidableEq, Repr

inductive OwnershipOutcome where
  | ready
  | blocked (reason : ReasonCode)
  deriving DecidableEq

def OwnershipOutcome.accessFailure : AccessFailure → OwnershipOutcome
  | .unauthenticated | .sessionExpired => .blocked .unauthenticated
  | .permissionDenied => .blocked .permissionDenied
  | .targetHiddenOrNotFound => .blocked .targetHiddenOrNotFound
  | .rateLimited => .blocked .rateLimited
  | .unavailable | .requestUncertain => .blocked .accessVerificationFailed

/-- Which credential revision a fleet uses, and which one it is to use. -/
structure HandoffRow where
  observed : Option (String × Int)
  desired : String × Int

/-! ## Effects -/

inductive Effect where
  -- the store
  | scaleSetGet
  | scaleSetUpsert (row : ScaleSetRow)
  | handoffGet
  | generationsForFleet
  | generationInsert
  -- GitHub
  | ensureRouteProof
  | recordRouteHealth (proof : Except AccessFailure Unit)
  | resolveRunnerGroup (identity : ScaleSetIdentity)
  | lookupScaleSet (identity : ScaleSetIdentity) (groupId : Int)
  | createScaleSet (identity : ScaleSetIdentity) (groupId : Int) (labels : List Label)
  | updateScaleSetLabels (scaleSetId : Int) (labels : List Label)
  | listRunners (scaleSetId : Int)
  -- the listener, demand and fresh identifiers
  | authorizeRuntime
  | listenerReady
  | capacityPlan
  | newAttemptId

def Effect.Answer : Effect → Type
  | scaleSetGet => Option ScaleSetState
  | handoffGet => Option HandoffRow
  | generationsForFleet => List GenerationRecord
  | ensureRouteProof => Except AccessFailure Unit
  | resolveRunnerGroup _ => Except AccessFailure Int
  | lookupScaleSet _ _ => Except AccessFailure LookupOutcome
  | createScaleSet _ _ _ => Except AccessFailure (EffectOutcome ScaleSetView)
  | updateScaleSetLabels _ _ => Except AccessFailure (EffectOutcome Unit)
  | listRunners _ => Except AccessFailure (List RunnerRef)
  | generationInsert | authorizeRuntime | listenerReady => Bool
  | capacityPlan => Nat
  | newAttemptId => String
  | scaleSetUpsert _ | recordRouteHealth _ => Unit

abbrev ownershipEffects : Interface := ⟨Effect, Effect.Answer⟩

/-! ## The world of a fleet -/

/-- An identity that was adopted, and under what. -/
structure Adoption where
  id : Int
  fingerprint : String
  name : String
  runnerGroup : String
  deriving DecidableEq

/-- What a pass was answered last, of each kind. -/
structure Seen where
  group : Option Int := none
  lookup : Option LookupOutcome := none
  created : Option ScaleSetView := none
  inventory : Option (Int × List RunnerRef) := none
  ledger : Option (List GenerationRecord) := none

/-- The row, every adoption so far with the newest first, and what the pass has seen. -/
structure Books where
  row : Option ScaleSetState
  adoptions : List Adoption
  seen : Seen

structure World where
  books : Books
  generations : List GenerationRecord

def Books.lastAdopted (books : Books) : Option Int := books.adoptions.head?.map (·.id)

/-- The adoption a row records, if it does. -/
def ScaleSetRow.adoption (row : ScaleSetRow) : Option Adoption :=
  if row.state = .adopted then
    row.scaleSetId.map fun id => ⟨id, row.fingerprint, row.name, row.runnerGroup⟩
  else none

def Books.upsert (books : Books) (row : ScaleSetRow) : Books where
  row := some (ScaleSet.scaleSetUpsert books.row row)
  adoptions := row.adoption.toList ++ books.adoptions
  seen := books.seen

/-- What an effect answers and leaves. -/
def Acts (w : World) : (op : Effect) → op.Answer → World → Prop
  | .scaleSetGet, row, w' => row = w.books.row ∧ w' = w
  | .scaleSetUpsert row, _, w' => w' = { w with books := w.books.upsert row }
  | .generationsForFleet, generations, w' => generations = w.generations ∧
      w' = { w with books.seen.ledger := some generations }
  | .generationInsert, true, w' => ∃ generation : GenerationRecord,
      generation.state = .createPending ∧
        w' = ⟨{ w.books with seen.ledger := none }, generation :: w.generations⟩
  | .resolveRunnerGroup _, .ok groupId, w' => w' = { w with books.seen.group := some groupId }
  | .lookupScaleSet _ _, .ok outcome, w' => w' = { w with books.seen.lookup := some outcome }
  | .createScaleSet _ _ _, .ok (.definite view), w' =>
      w' = { w with books.seen.created := some view }
  | .listRunners id, .ok runners, w' =>
      w' = { w with books.seen.inventory := some (id, runners), books.seen.ledger := none }
  | _, _, w' => w' = w

/-- Beside a pass only the generations' lifecycle goes on. -/
def ownershipMachine : Machine ownershipEffects World where
  env w w' := w'.books = w.books ∧ Proceeds w.generations w'.generations
  act := Acts
  lost w op w' := w' = w ∨ ∃ answer, Acts w op answer w'

/-! ## Passes -/

/-- What a fleet's supervisor is built with. -/
structure FleetSupervisor where
  identity : ScaleSetIdentity
  labels : List Label
  /-- It has a listener, which authorizes what the pass does. -/
  listener : Bool

/-- An effect that fails ends the pass. -/
abbrev Routine (α : Type) := Program ownershipEffects Empty α

def ask (op : Effect) : Routine op.Answer := Program.lift (F := ownershipEffects) op

namespace FleetSupervisor

variable (sha256 : String → String) (self : FleetSupervisor)

/-- A scale set must have labels. -/
def fallbackLabels : List Label :=
  if self.labels = [] then [⟨self.identity.scaleSetName, "System"⟩] else self.labels

def row (scaleSetId : Option Int) (state : OwnershipState) (attemptId : Option String) :
    ScaleSetRow where
  scaleSetId := scaleSetId
  name := self.identity.scaleSetName
  runnerGroup := self.identity.runnerGroup
  fingerprint := fingerprint sha256 self.identity
  state := state
  attemptId := attemptId

def upsertOwnership (scaleSetId : Option Int) (state : OwnershipState)
    (attemptId : Option String) : Routine Unit :=
  ask (.scaleSetUpsert (self.row sha256 scaleSetId state attemptId))

def accessBlocked (scaleSetId : Option Int) (attempt : Option String) (failure : AccessFailure) :
    Routine OwnershipOutcome := do
  self.upsertOwnership sha256 scaleSetId .accessBlocked attempt
  return .accessFailure failure

/-- Complete sets, so that removing a label also requires reconciliation. -/
def LabelsCompatible (observed : List Label) : Prop :=
  self.fallbackLabels ⊆ observed ∧ observed ⊆ self.fallbackLabels

instance (observed : List Label) : Decidable (self.LabelsCompatible observed) := by
  unfold LabelsCompatible
  infer_instance

def IdentityCompatible (view : ScaleSetView) (groupId : Int) : Prop :=
  0 < view.id ∧ view.name = self.identity.scaleSetName ∧ view.runnerGroupId = groupId

instance (view : ScaleSetView) (groupId : Int) :
    Decidable (self.IdentityCompatible view groupId) := by
  unfold IdentityCompatible
  infer_instance

def ViewCompatible (view : ScaleSetView) (groupId : Int) : Prop :=
  self.IdentityCompatible view groupId ∧ self.LabelsCompatible view.labels

instance (view : ScaleSetView) (groupId : Int) :
    Decidable (self.ViewCompatible view groupId) := by
  unfold ViewCompatible
  infer_instance

/-- A runner of the scale set that is a live generation of the fleet. -/
def KnownRunner (scaleSetId : Int) (generations : List GenerationRecord) (runner : RunnerRef) :
    Prop :=
  runner.scaleSetId = scaleSetId ∧ ∃ generation ∈ generations, generation.state ≠ .destroyed ∧
    generation.githubRunnerId = some runner.id ∧ generation.runnerName = runner.name

instance (scaleSetId : Int) (generations : List GenerationRecord) (runner : RunnerRef) :
    Decidable (KnownRunner scaleSetId generations runner) := by
  unfold KnownRunner
  infer_instance

def checkInventory (scaleSetId : Int) : Routine OwnershipOutcome := do
  let listed : Except AccessFailure (List RunnerRef) ← ask (.listRunners scaleSetId)
  match listed with
  | .error failure => self.accessBlocked sha256 (some scaleSetId) none failure
  | .ok runners =>
    let generations : List GenerationRecord ← ask .generationsForFleet
    if ∀ runner ∈ runners, KnownRunner scaleSetId generations runner then return .ready
    else
      self.upsertOwnership sha256 (some scaleSetId) .unknownRemoteRunner none
      return .blocked .unknownRemoteRunner

def verifyInventory (scaleSetId : Int) : Routine OwnershipOutcome := do
  let outcome ← self.checkInventory sha256 scaleSetId
  if outcome = .ready then
    self.upsertOwnership sha256 (some scaleSetId) .adopted none
    return outcome
  else return outcome

/-- Reclassification is allowed only without retained resource occupancy. -/
def reopenOwnership (emptyReason : ReasonCode) (attempt : Option String) :
    Routine OwnershipOutcome := do
  let generations : List GenerationRecord ← ask .generationsForFleet
  if 0 < occupancy generations then
    self.upsertOwnership sha256 none .scaleSetMissingWithResources attempt
    return .blocked .scaleSetMissingWithResources
  else
    self.upsertOwnership sha256 none .unbound attempt
    return .blocked emptyReason

/-! ### Labels -/

/-- The row proves the identity under what the supervisor is built with. -/
def OwnedRow (boundId : Int) (row : ScaleSetState) : Prop :=
  row.scaleSetId = some boundId ∧ row.ownedScaleSetId = some boundId ∧
    row.fingerprint = fingerprint sha256 self.identity ∧ row.name = self.identity.scaleSetName ∧
    row.runnerGroup = self.identity.runnerGroup

instance (boundId : Int) (row : ScaleSetState) : Decidable (self.OwnedRow sha256 boundId row) := by
  unfold OwnedRow
  infer_instance

/-- The update was answered: never ready merely because of that. -/
def readBackLabels (boundId groupId : Int) : Routine OwnershipOutcome := do
  let lookup : Except AccessFailure LookupOutcome ← ask (.lookupScaleSet self.identity groupId)
  match lookup with
  | .ok (.exactlyOne view) =>
    if view.id = boundId ∧ self.ViewCompatible view groupId then
      self.verifyInventory sha256 boundId
    else return .blocked .scaleSetLabelsPending
  | .ok _ => return .blocked .scaleSetLabelsPending
  | .error failure => self.accessBlocked sha256 (some boundId) none failure

def updateLabels (boundId groupId : Int) : Routine OwnershipOutcome := do
  let authorized : Bool ← ask .authorizeRuntime
  if authorized = false then return .blocked .ownershipProofFailed
  else
    let update : Except AccessFailure (EffectOutcome Unit) ←
      ask (.updateScaleSetLabels boundId self.fallbackLabels)
    match update with
    | .ok (.definite _) => self.readBackLabels sha256 boundId groupId
    | .ok .uncertain | .error .requestUncertain =>
      self.upsertOwnership sha256 (some boundId) .labelsUpdateUncertain none
      return .blocked .scaleSetLabelsUpdateUncertain
    | .error failure => self.accessBlocked sha256 (some boundId) none failure

/-- The looked up view is still the bound identity. -/
def reconcileView (boundId groupId : Int) (view : ScaleSetView) : Routine OwnershipOutcome := do
  let inventory ← self.checkInventory sha256 boundId
  if inventory ≠ .ready then return inventory
  else if self.ViewCompatible view groupId then
    self.upsertOwnership sha256 (some boundId) .adopted none
    return .ready
  else self.updateLabels sha256 boundId groupId

/-- In-place routing configuration for a proven-owned scale set. -/
def reconcileLabels (boundId groupId : Int) : Routine OwnershipOutcome :=
  if self.listener = false then do
    self.upsertOwnership sha256 (some boundId) .accessBlocked none
    return .blocked .ownershipProofFailed
  else do
    let authorized : Bool ← ask .authorizeRuntime
    if authorized = false then return .blocked .ownershipProofFailed
    else
      let owned : Option ScaleSetState ← ask .scaleSetGet
      if ¬ ∃ row ∈ owned, self.OwnedRow sha256 boundId row then return .blocked .ownershipProofFailed
      else
        -- Closing the durable acquisition guard survives timeouts and restart.
        self.upsertOwnership sha256 (some boundId) .labelsUpdating none
        let proof : Except AccessFailure Unit ← ask .ensureRouteProof
        match proof with
        | .error failure => self.accessBlocked sha256 (some boundId) none failure
        | .ok _ =>
          let lookup : Except AccessFailure LookupOutcome ←
            ask (.lookupScaleSet self.identity groupId)
          match lookup with
          | .ok (.exactlyOne view) =>
            if view.id = boundId ∧ self.IdentityCompatible view groupId then
              self.reconcileView sha256 boundId groupId view
            else return .blocked .ownershipConflict
          | .ok _ => return .blocked .ownershipConflict
          | .error failure => self.accessBlocked sha256 (some boundId) none failure

/-! ### Adoption -/

/-- What the lookup of the bound identity leads to. -/
def verifyFound (row : Option ScaleSetState) (boundId groupId : Int) (view : ScaleSetView) :
    Routine OwnershipOutcome :=
  let attempt := row.bind (·.attemptId)
  if view.id = boundId ∧ self.ViewCompatible view groupId then self.verifyInventory sha256 boundId
  else if view.id = boundId ∧ self.IdentityCompatible view groupId ∧
      row.bind (·.ownedScaleSetId) = some boundId then self.reconcileLabels sha256 boundId groupId
  else if view.id = boundId then do
    -- The bound identity still exists, but its routing changed.
    self.upsertOwnership sha256 (some boundId) .accessBlocked attempt
    return .blocked .ownershipConflict
  else self.reopenOwnership sha256 .scaleSetMissing attempt

/-- Re-verifies the exact persisted binding. -/
def verifyAdopted (boundId : Int) : Routine OwnershipOutcome := do
  let row : Option ScaleSetState ← ask .scaleSetGet
  let attempt := row.bind (·.attemptId)
  if ∃ r ∈ row, r.fingerprint ≠ fingerprint sha256 self.identity then
    self.reopenOwnership sha256 .ownershipProofFailed attempt
  else
    let group : Except AccessFailure Int ← ask (.resolveRunnerGroup self.identity)
    match group with
    | .error failure => self.accessBlocked sha256 (some boundId) attempt failure
    | .ok groupId =>
      let lookup : Except AccessFailure LookupOutcome ←
        ask (.lookupScaleSet self.identity groupId)
      match lookup with
      | .ok (.exactlyOne view) => self.verifyFound sha256 row boundId groupId view
      | .ok .none => self.reopenOwnership sha256 .scaleSetMissing attempt
      | .ok .multiple => self.reopenOwnership sha256 .ownershipConflict attempt
      | .error failure => self.accessBlocked sha256 (some boundId) attempt failure

/-- The candidate an incompatible view leaves. -/
def candidate (view : ScaleSetView) : Option Int := if 0 < view.id then some view.id else none

/-- The attempt is persisted before the request. -/
def createOwnedScaleSet (groupId : Int) (previousAttempt : Option String) :
    Routine OwnershipOutcome := do
  let fresh : String ← ask .newAttemptId
  let attemptId := previousAttempt.getD fresh
  self.upsertOwnership sha256 none .scaleSetCreateStarting (some attemptId)
  let created : Except AccessFailure (EffectOutcome ScaleSetView) ←
    ask (.createScaleSet self.identity groupId self.fallbackLabels)
  match created with
  | .ok (.definite view) =>
    if self.ViewCompatible view groupId then
      self.upsertOwnership sha256 (some view.id) .adopted (some attemptId)
      return .ready
    else
      self.upsertOwnership sha256 (candidate view) .accessBlocked (some attemptId)
      return .blocked .ownershipConflict
  | .ok .uncertain | .error .requestUncertain => return .blocked .scaleSetCreateUncertain
  | .error failure => self.accessBlocked sha256 none (some attemptId) failure

/-- The pass of a fleet whose row binds nothing. -/
def createOrAdopt (existing : Option ScaleSetState) : Routine OwnershipOutcome := do
  let attempt := existing.bind (·.attemptId)
  let group : Except AccessFailure Int ← ask (.resolveRunnerGroup self.identity)
  match group with
  | .error failure => self.accessBlocked sha256 none attempt failure
  | .ok groupId =>
    let lookup : Except AccessFailure LookupOutcome ← ask (.lookupScaleSet self.identity groupId)
    match lookup with
    | .ok (.exactlyOne view) =>
      if self.ViewCompatible view groupId then self.verifyInventory sha256 view.id
      else
        self.upsertOwnership sha256 (candidate view) .accessBlocked attempt
        return .blocked .ownershipConflict
    | .ok .multiple => return .blocked .ownershipConflict
    | .ok .none => self.createOwnedScaleSet sha256 groupId attempt
    | .error failure => self.accessBlocked sha256 none attempt failure

/-- States whose bound identity is verified again. -/
def verifies : OwnershipState → Bool
  | .adopted | .accessBlocked | .unknownRemoteRunner | .labelsUpdating | .labelsUpdateUncertain =>
    true
  | _ => false

/-- An access failure blocks another request until its exact credential handoff recovers. -/
def recoverAccess (row : ScaleSetState) : Routine OwnershipOutcome := do
  let handoff : Option HandoffRow ← ask .handoffGet
  if ¬ ∃ h ∈ handoff, h.observed = some h.desired then return .blocked .accessVerificationFailed
  else
    self.upsertOwnership sha256 row.scaleSetId .unbound row.attemptId
    self.createOrAdopt sha256 (some row)

def ensureRow : Option ScaleSetState → Routine OwnershipOutcome
  | none => self.createOrAdopt sha256 none
  | some row =>
    match verifies row.state, row.scaleSetId with
    | true, some boundId => self.verifyAdopted sha256 boundId
    | _, _ =>
      if row.state = .scaleSetMissingWithResources then
        return .blocked .scaleSetMissingWithResources
      else if row.state = .accessBlocked then self.recoverAccess sha256 row
      else self.createOrAdopt sha256 (some row)

/-- Create-or-adopt with a durable attempt before the request. -/
def ensureProven : Routine OwnershipOutcome := do
  let proof : Except AccessFailure Unit ← ask .ensureRouteProof
  ask (.recordRouteHealth proof)
  match proof with
  | .error failure => return .accessFailure failure
  | .ok _ =>
    let existing : Option ScaleSetState ← ask .scaleSetGet
    self.ensureRow sha256 existing

def ensureOwnership : Routine OwnershipOutcome :=
  if self.listener = true then do
    let authorized : Bool ← ask .authorizeRuntime
    if authorized = false then return .blocked .ownershipProofFailed
    else self.ensureProven sha256
  else self.ensureProven sha256

/-! ### The reconcile pass -/

/-- The deficit, started together. -/
def runCreates : Nat → Routine Unit
  | 0 => return
  | n + 1 => do
    let _ ← ask .generationInsert
    runCreates n

def listenerStage : Routine Bool :=
  if self.listener = true then ask .listenerReady else return true

/-- Ownership first; generations only under a proven one. -/
def reconcile : Routine Unit := do
  let outcome ← self.ensureOwnership sha256
  if outcome = .ready then
    let ready ← self.listenerStage
    if ready = true then
      let creates : Nat ← ask .capacityPlan
      runCreates creates
    else return
  else return

end FleetSupervisor

end Shaula.ScaleSet
