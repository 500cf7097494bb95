import Shaula.Store.Request

/-! # Changes of a generation's rows

`Change P id request v v'` says all that `request` can do to the rows of generation `id`: which
columns it writes and what it checked before.  Every operation of the store is proved to make only
such changes, so that properties of runs follow from this relation without unfolding any operation
again.
-/

namespace Shaula

open Core

variable {P : Platform}

/-! ## Columns written -/

/-- The ledger row a generation record is inserted as. -/
def GenerationRecord.row (record : GenerationRecord) : GenerationRow where
  fleetKey := record.fleetKey
  runnerName := record.runnerName
  generationName := record.generationName
  fleetRevision := record.fleetRevision
  templateProfileKey := record.templateProfileKey
  templateRevision := record.templateRevision
  templateArtifactDigest := record.templateArtifactDigest
  attestationId := record.attestationId
  inputsDigest := record.inputsDigest
  state := .createPending
  subphase := none
  jitPhase := none
  githubRunnerId := none
  poolMemberKey := record.poolMemberKey
  workspacePath := record.workspacePath
  shaulaResultJson := none
  shaulaResultDigest := none
  provisionedAt := none
  expiryRequestedAt := none
  resourcesDestroyedAt := none
  failedCreateIdentity := none
  createdAt := record.createdAt
  updatedAt := record.createdAt

/-- The empty serial-zero state file of a fresh admission. -/
def freshDocument (lineage : Uuid) : Bytes :=
  utf8 ("\x7b\"lineage\":\"" ++ lineage.text ++
    "\",\"outputs\":\x7b\x7d,\"resources\":[],\"serial\":0,\"version\":4\x7d")

namespace StateColumns

/-- Columns of a first-epoch backend without a document. -/
def fresh (P : Platform) (attempt : Uuid) (capability : StateCapability) : StateColumns where
  workerEpoch := 1
  workerAttempt := attempt
  capabilityHash := capability.verifier P
  revoked := false
  createStarted := false
  sealed := false
  revision := 0
  stateBytes := none
  lineage := none
  serial := none
  lockId := none
  lockInfo := none

/-- Columns of an admitted backend, which starts from an empty document of serial zero. -/
def admitted (admission : WorkerAdmission) (document : StateDocument P) : StateColumns :=
  { fresh P admission.claim.workerAttempt admission.state with
    revision := 1
    stateBytes := some document.bytes
    lineage := some document.lineage
    serial := some 0 }

/-- Columns of an imported backend: revoked, and its Create already started. -/
def imported (admission : WorkerAdmission) (document : StateDocument P) : StateColumns :=
  { fresh P admission.claim.workerAttempt admission.state with
    revoked := true
    createStarted := true
    revision := 1
    stateBytes := some document.bytes
    lineage := some document.lineage
    serial := some document.serial }

/-- The columns after a write of `document`. -/
def stored (c : StateColumns) (document : StateDocument P) : StateColumns :=
  { c with
    stateBytes := some document.bytes
    lineage := some document.lineage
    serial := some document.serial
    revision := c.revision + 1 }

/-- The credentials, epoch and lock after a replacement. -/
def rotated (P : Platform) (c : StateColumns) (admission : WorkerAdmission) : StateColumns :=
  { c with
    workerEpoch := admission.claim.workerEpoch
    workerAttempt := admission.claim.workerAttempt
    capabilityHash := admission.state.verifier P
    revoked := false
    lockId := none
    lockInfo := none }

/-- The claim is the one the row belongs to. -/
def Owns (c : StateColumns) (claim : StateClaim) : Prop :=
  c.workerEpoch = claim.workerEpoch ∧ c.workerAttempt = claim.workerAttempt

/-- `document` may follow what the row stores: nothing yet, or an older document of its lineage. -/
inductive Precedes (c : StateColumns) (document : StateDocument P) : Prop
  | first (h : c.Untouched)
  | next (previous : StateDocument P) (h : c.Stores previous)
      (hlineage : document.lineage = previous.lineage)
      (hserial : previous.serial < document.serial)

end StateColumns

namespace WorkerColumns

/-- Columns of a worker that waits for its first launch. -/
def admitted (P : Platform) (admission : WorkerAdmission) : WorkerColumns where
  controlHash := admission.control.verifier P
  phase := .admitted
  processIdentity := none
  cleanupOnly := false
  handover := none
  activeCommand := none
  cleanupRevision := none
  protectedInput := none
  resourceStateSeen := false
  completionRequest := none
  completionReceipt := none
  workspaceReaped := false

/-- Columns of an imported worker: fenced, with the input and proof its evidence supports. -/
def imported (P : Platform) (admission : WorkerAdmission) (input : Bytes)
    (cleanupRevision : Option Int) : WorkerColumns :=
  { admitted P admission with
    phase := .fenced
    cleanupOnly := true
    protectedInput := some input
    resourceStateSeen := true
    cleanupRevision := cleanupRevision }

/-- A stored document with managed instances is noted as seen. -/
def noteSeen (document : StateDocument P) (w : WorkerColumns) : WorkerColumns :=
  if document.managedEmpty then w else { w with resourceStateSeen := true }

/-- No command runs and none was handed over. -/
def Idle (w : WorkerColumns) : Prop :=
  w.handover = none ∧ w.activeCommand = none

instance (w : WorkerColumns) : Decidable w.Idle := by unfold Idle; infer_instance

/-- A fenced executor can hold no command or spawn handover any longer. -/
def released (w : WorkerColumns) : WorkerColumns :=
  { w with handover := none, activeCommand := none }

/-- The row of the cleanup-only replacement. -/
def replaced (P : Platform) (w : WorkerColumns) (admission : WorkerAdmission)
    (cleanupRevision : Option Int) : WorkerColumns :=
  { w with
    controlHash := admission.control.verifier P
    phase := .admitted
    processIdentity := none
    cleanupOnly := true
    handover := none
    activeCommand := none
    cleanupRevision := cleanupRevision }

/-- The terminal row of a completion. -/
def complete (w : WorkerColumns) (receipt : CompletionReceipt) : WorkerColumns :=
  { w with
    phase := .completed
    completionRequest := some receipt.requestId
    completionReceipt := some receipt }

end WorkerColumns

/-- What `WorkerRow::load` found: the rows of the claim's generation, unrevoked, with the worker the
control capability belongs to. -/
structure View.Loaded (P : Platform) (v : View) (access : ControlAccess) (c : StateColumns)
    (w : WorkerColumns) (g : GenerationRow) : Prop where
  state : v.state = some c
  worker : v.worker = some w
  generation : v.generation = some g
  owns : c.Owns access.claim
  unrevoked : c.revoked = false
  control : access.capability.matchesVerifier P w.controlHash = true

/-- The state capability of a request is the row's, and the row is neither revoked nor sealed. -/
structure View.Granted (P : Platform) (v : View) (access : StateAccess) (c : StateColumns) :
    Prop where
  state : v.state = some c
  unrevoked : c.revoked = false
  capability : access.capability.matchesVerifier P c.capabilityHash = true
  unsealed : c.sealed = false

/-- The cleanup proof a replacement keeps: still exact, and nothing ran since. -/
def keptCleanupRevision (c : StateColumns) (w : WorkerColumns) : Option Int :=
  w.cleanupRevision.filter fun revision =>
    revision = c.revision && w.handover.isNone && w.activeCommand.isNone && c.lockInfo.isNone

/-- The generation state after a replacement. -/
def replacedState : GenerationState → GenerationState
  | .createPending | .creating | .waitingOnline => .cleanupRequired
  | state => state

/-- The admission a replacement draws. -/
def replacementAdmission (record : RecoveryRecord) (c : StateColumns) (draw : Draw) :
    WorkerAdmission where
  claim := {
    generationId := record.generationId
    workerEpoch := c.workerEpoch + 1
    workerAttempt := draw.workerAttempt }
  control := draw.control
  state := draw.state
  cleanupOnly := true

/-- One job event of a listener message, as it moves a generation. -/
def activityStep (fleet : String) (next : GenerationState) (froms : List GenerationState)
    (now : Int) (event : RunnerEvent) (g : GenerationRow) : GenerationRow :=
  if 0 < event.runnerId ∧ g.fleetKey = fleet ∧ g.githubRunnerId = some event.runnerId ∧
      g.runnerName = event.runnerName ∧ g.state ∈ froms then
    { g with state := next, subphase := none, updatedAt := now }
  else g

/-- All job events of a listener message, starts first. -/
def activityRow (fleet : String) (started completed : List RunnerEvent) (now : Int)
    (g : GenerationRow) : GenerationRow :=
  let g := started.foldl
    (fun g event => activityStep fleet .busy [.waitingOnline, .idle] now event g) g
  completed.foldl (fun g event => activityStep fleet .retiring [.idle, .busy] now event g) g

/-- A proof that is kept is the current one. -/
theorem keptCleanupRevision_eq_some {c : StateColumns} {w : WorkerColumns} {n : Int}
    (h : keptCleanupRevision c w = some n) : w.cleanupRevision = some n ∧ n = c.revision := by
  obtain ⟨hproof, hkept⟩ := Option.filter_eq_some_iff.mp h
  simp only [Bool.and_eq_true, decide_eq_true_eq] at hkept
  exact ⟨hproof, hkept.1.1.1⟩

/-- What each move of a listener message relates, the whole message relates. -/
theorem activityRow_relates {R : GenerationRow → GenerationRow → Prop} {fleet : String} {now : Int}
    (hrefl : ∀ g, R g g) (htrans : ∀ g g' g'', R g g' → R g' g'' → R g g'')
    (hstart : ∀ event g, R g (activityStep fleet .busy [.waitingOnline, .idle] now event g))
    (hdone : ∀ event g, R g (activityStep fleet .retiring [.idle, .busy] now event g))
    (started completed : List RunnerEvent) (g : GenerationRow) :
    R g (activityRow fleet started completed now g) := by
  have hfold : ∀ (f : GenerationRow → RunnerEvent → GenerationRow) (events : List RunnerEvent),
      (∀ g event, R g (f g event)) → ∀ g, R g (events.foldl f g) := by
    intro f events hf
    induction events with
    | nil => exact hrefl
    | cons event events ih => exact fun g => htrans _ _ _ (hf g event) (ih (f g event))
  exact htrans _ _ _ (hfold _ started (fun g event => hstart event g) g)
    (hfold _ completed (fun g event => hdone event g) _)

/-- A listener message leaves the retained Create identities alone. -/
theorem activityRow_identities (fleet : String) (started completed : List RunnerEvent) (now : Int)
    (g : GenerationRow) :
    (activityRow fleet started completed now g).shaulaResultJson = g.shaulaResultJson ∧
      (activityRow fleet started completed now g).failedCreateIdentity = g.failedCreateIdentity := by
  have hstep : ∀ next froms (event : RunnerEvent) (g : GenerationRow),
      (activityStep fleet next froms now event g).shaulaResultJson = g.shaulaResultJson ∧
        (activityStep fleet next froms now event g).failedCreateIdentity =
          g.failedCreateIdentity := by
    intro next froms event g
    unfold activityStep
    split <;> exact ⟨rfl, rfl⟩
  exact activityRow_relates
    (R := fun g g' => g'.shaulaResultJson = g.shaulaResultJson ∧
      g'.failedCreateIdentity = g.failedCreateIdentity)
    (fun _ => ⟨rfl, rfl⟩) (fun _ _ _ h h' => ⟨h'.1.trans h.1, h'.2.trans h.2⟩)
    (hstep _ _) (hstep _ _) started completed g

/-! ## Requests of one effect -/

/-- The request records the start of `proof`'s apply. -/
inductive StartsApply (proof : PlanProvenance) : Request P → Prop
  | direct {path now} : StartsApply proof (.recordApplyStarting proof path now)
  | control {session capability claim path now} :
      StartsApply proof (.applyStarting session capability claim proof path now)

/-- The request recovers the attempt of `record`. -/
inductive Recovers (record : RecoveryRecord) (outcome : FenceOutcome) (preserve : Bool)
    (draw : Draw) : Request P → Prop
  | direct : Recovers record outcome preserve draw (.recoverWorker record outcome preserve draw)
  | fenced {access} : record.claim = access.claim → outcome = .fenced → preserve = false →
      Recovers record outcome preserve draw (.replaceFenced access draw)

/-- The generation a recovery admits a replacement for. -/
theorem Recovers.publishes {record : RecoveryRecord} {outcome : FenceOutcome} {preserve : Bool}
    {draw : Draw} {r : Request P} (h : Recovers record outcome preserve draw r) :
    r.publishes = some record.generationId := by
  cases h with
  | direct => rfl
  | fenced hclaim =>
    show some _ = some _
    rw [← hclaim]
    rfl

theorem Recovers.draws {record : RecoveryRecord} {outcome : FenceOutcome} {preserve : Bool}
    {draw : Draw} {r : Request P} (h : Recovers record outcome preserve draw r) :
    draw.state ∈ r.stateDraws ∧ draw.control ∈ r.controlDraws := by
  cases h <;> exact ⟨List.mem_singleton_self _, List.mem_singleton_self _⟩

/-- The request completes generation `id`. -/
inductive Completes (id : Uuid) : Request P → Prop
  | worker {access requestId expectedRevision kind now} : access.claim.generationId = id →
      Completes id (.completeWorker access requestId expectedRevision kind now)
  | advance {requestId now} : Completes id (.generationAdvance id .destroyed requestId now)

/-- The request inserts the ledger row of `record` and nothing else. -/
inductive InsertsBare (record : GenerationRecord) : Request P → Prop
  | plain : InsertsBare record (.generationInsert record)
  | guarded {guard} : InsertsBare record (.generationInsertGuarded record guard none)

/-- Why a completion of `kind` may seal: nothing was ever created, or the exact current state was
proved clean. -/
inductive CompletionGround (c : StateColumns) (w : WorkerColumns) : CompletionKind → Prop
  | neverStarted : c.createStarted = false → CompletionGround c w .neverStarted
  | providerCleanup : c.createStarted = true → w.cleanupRevision = some c.revision →
      CompletionGround c w .providerCleanup

/-! ## The relation -/

/-- What a request may do to the rows of generation `id`. -/
inductive Change (P : Platform) (id : Uuid) : Request P → View → View → Prop
  | same (r : Request P) (v : View) : Change P id r v v
  -- the Terraform state backend
  | locked {access : StateAccess} {info : LockInfo} {v : View} {c : StateColumns} :
      access.generationId = id → v.Granted P access c → c.lockId = none →
      Change P id (.lock access info) v
        { v with state := some { c with
            lockId := some info.id.expose, lockInfo := some (info.toBytes P) } }
  | unlocked {access : StateAccess} {lockId : LockId} {v : View} {c : StateColumns} :
      access.generationId = id → v.Granted P access c → c.lockId = some lockId.expose →
      Change P id (.unlock access lockId) v
        { v with state := some { c with lockId := none, lockInfo := none } }
  | written {access : StateAccess} {lockId : LockId} {document : StateDocument P} {v : View}
      {c : StateColumns} :
      access.generationId = id → v.Granted P access c → c.lockId = some lockId.expose →
      c.Precedes document →
      Change P id (.write access lockId document) v
        { v with
          state := some (c.stored document)
          worker := v.worker.map (·.noteSeen document) }
  -- administration of a state row
  | inserted {record : GenerationRecord} {attempt : Uuid} {capability : StateCapability}
      {v : View} :
      record.id = id → v.generation = none → v.state = none →
      Change P id (.insertGeneration record attempt capability) v
        { v with
          state := some (.fresh P attempt capability)
          generation := some record.row }
  | revoked {claim : StateClaim} {v : View} {c : StateColumns} :
      claim.generationId = id → v.state = some c → c.Owns claim →
      Change P id (.revoke claim) v { v with state := some { c with revoked := true } }
  | createNoted {claim : StateClaim} {v : View} {c : StateColumns}
      {document : StateDocument P} :
      claim.generationId = id → v.state = some c → c.Owns claim → c.sealed = false →
      c.revoked = false → c.createStarted = false → c.Stores document →
      Change P id (.noteCreateStarting claim) v
        { v with state := some { c with createStarted := true } }
  | sealed {claim : StateClaim} {expectedRevision : Int} {v : View} {c : StateColumns}
      {document : StateDocument P} :
      claim.generationId = id → v.state = some c → c.Owns claim → c.revoked = false →
      c.createStarted = true → c.revision = expectedRevision → c.Stores document →
      document.managedEmpty = true → c.lockId = none →
      Change P id (.sealBackend claim expectedRevision) v
        { v with state := some { c with sealed := true } }
  -- admission
  | generationInserted {r : Request P} {record : GenerationRecord} {v : View} :
      InsertsBare record r → record.id = id → v.generation = none →
      Change P id r v { v with generation := some record.row }
  | admitted {record : GenerationRecord} {guard : FleetRuntimeGuard}
      {admission : AdmissionDraw} {document : StateDocument P} {v : View} :
      record.id = id → v.generation = none → v.state = none → v.worker = none →
      document.bytes = freshDocument admission.lineage →
      Change P id (.generationInsertGuarded record guard (some admission)) v
        { state := some (.admitted (.new id admission.draw) document)
          worker := some (.admitted P (.new id admission.draw))
          generation := some record.row }
  -- the worker journal
  | launchPending {access : ControlAccess} {v : View} {c : StateColumns} {w : WorkerColumns}
      {g : GenerationRow} :
      access.claim.generationId = id → v.Loaded P access c w g → w.phase = .admitted →
      Change P id (.launchPending access) v
        { v with worker := some { w with phase := .launchPending } }
  | registered {access : ControlAccess} {identity : ProcessIdentity} {v : View}
      {c : StateColumns} {w : WorkerColumns} {g : GenerationRow} :
      access.claim.generationId = id → v.Loaded P access c w g → w.phase = .launchPending →
      w.processIdentity = none →
      Change P id (.register access identity) v
        { v with worker := some { w with
            phase := .running, processIdentity := some identity } }
  | inputRetained {access : ControlAccess} {input : Bytes} {v : View} {c : StateColumns}
      {w : WorkerColumns} {g : GenerationRow} :
      access.claim.generationId = id → v.Loaded P access c w g → w.phase = .running →
      w.cleanupOnly = false → c.createStarted = false → w.protectedInput = none →
      Change P id (.retainInput access input) v
        { v with worker := some { w with protectedInput := some input } }
  | cleanupVerified {access : ControlAccess} {v : View} {c : StateColumns}
      {w : WorkerColumns} {g : GenerationRow} {document : StateDocument P} :
      access.claim.generationId = id → v.Loaded P access c w g → w.phase = .running → w.Idle →
      c.lockId = none → c.Stores document → document.managedEmpty = true →
      (c.createStarted = true → CreateProof.Matched P g document ∧ w.resourceStateSeen = true) →
      Change P id (.verifyCleanup access) v
        { v with worker := some { w with cleanupRevision := some c.revision } }
  | spawnAcked {access : ControlAccess} {attempt : String} {v : View} {c : StateColumns}
      {w : WorkerColumns} {g : GenerationRow} :
      access.claim.generationId = id → v.Loaded P access c w g → w.phase = .running →
      w.activeCommand = some attempt →
      Change P id (.spawnAck access attempt) v
        { v with worker := some { w with handover := none } }
  | commandEnded {access : ControlAccess} {attempt : String} {v : View} {c : StateColumns}
      {w : WorkerColumns} {g : GenerationRow} :
      access.claim.generationId = id → v.Loaded P access c w g → w.phase = .running →
      w.handover = none → w.activeCommand = some attempt →
      Change P id (.commandEnded access attempt) v
        { v with worker := some { w with activeCommand := none } }
  | workerFenced {access : ControlAccess} {identity : ProcessIdentity} {v : View}
      {c : StateColumns} {w : WorkerColumns} {g : GenerationRow} :
      access.claim.generationId = id → v.Loaded P access c w g →
      w.processIdentity = some identity → w.phase ≠ .completed →
      Change P id (.fenced access identity) v
        { v with worker := some { w.released with phase := .fenced } }
  | reaped {receipt : CompletionReceipt} {v : View} {w : WorkerColumns} :
      receipt.claim.generationId = id → v.worker = some w → w.phase = .completed →
      Change P id (.workspaceReaped receipt) v
        { v with worker := some { w with workspaceReaped := true } }
  -- effects
  | createStarting {r : Request P} {proof : PlanProvenance} {v : View} {c : StateColumns}
      {w : WorkerColumns} {document : StateDocument P} {input : Bytes} :
      StartsApply proof r → proof.generationId = id → proof.intent = .create →
      v.state = some c → v.worker = some w → w.phase = .running → w.Idle →
      c.sealed = false → c.revoked = false → c.Stores document →
      document.managedEmpty = true → w.protectedInput = some input →
      contentDigest P input = proof.protectedInputDigest →
      c.createStarted = false → w.cleanupOnly = false →
      Change P id r v
        { v with
          state := some { c with createStarted := true }
          worker := some { w with
            handover := some proof.attemptId
            activeCommand := some proof.attemptId
            cleanupRevision := none } }
  | destroyStarting {r : Request P} {proof : PlanProvenance} {v : View} {c : StateColumns}
      {w : WorkerColumns} {document : StateDocument P} :
      StartsApply proof r → proof.generationId = id → proof.intent = .destroy →
      v.state = some c → v.worker = some w → w.phase = .running → w.Idle →
      c.sealed = false → c.revoked = false → c.Stores document →
      Change P id r v
        { v with worker := some { w with
            handover := some proof.attemptId
            activeCommand := some proof.attemptId
            cleanupRevision := none } }
  | bootstrapStarted {proof : PlanProvenance} {now : Int} {v : View} {w : WorkerColumns} :
      proof.generationId = id → v.worker = some w → w.phase = .running →
      w.cleanupOnly = false → w.Idle →
      Change P id (.recordBootstrapStarting proof now) v
        { v with worker := some { w with
            activeCommand := some ("bootstrap:" ++ proof.attemptId) } }
  -- completion
  | completed {r : Request P} {receipt : CompletionReceipt} {now : Int} {v : View}
      {c : StateColumns} {w : WorkerColumns} {g : GenerationRow} {document : StateDocument P} :
      Completes id r → v.state = some c → v.worker = some w → v.generation = some g →
      w.completionReceipt = none → w.Idle →
      (w.phase = .running ∨ w.phase = .fenced ∨ w.phase = .admitted) →
      c.sealed = false → c.lockId = none → c.Stores document →
      document.managedEmpty = true → g.state = .destroying →
      CompletionGround c w receipt.kind →
      Change P id r v
        { state := some { c with sealed := true }
          worker := some (w.complete receipt)
          generation := some { g with state := .destroyed, updatedAt := now } }
  | finalized {operationId : Uuid} {actor reason : String} {now : Int} {v : View}
      {c : StateColumns} {w : WorkerColumns} {g : GenerationRow}
      {receipt : CompletionReceipt} :
      v.state = some c → v.worker = some w → v.generation = some g →
      g.state = .quarantined → w.Idle →
      (w.phase = .admitted ∨ w.phase = .fenced ∨ w.phase = .quarantined) →
      receipt.kind = .operatorAttested →
      Change P id (.generationFinalize id operationId actor reason now) v
        { state := some { c with sealed := true, revoked := true }
          worker := some (w.complete receipt)
          generation := some { g with state := .destroyed, updatedAt := now } }
  | finalizedBare {operationId : Uuid} {actor reason : String} {now : Int} {v : View}
      {g : GenerationRow} :
      v.worker = none → v.generation = some g → g.state = .quarantined →
      Change P id (.generationFinalize id operationId actor reason now) v
        { v with
          state := v.state.map fun c => { c with sealed := true, revoked := true }
          generation := some { g with state := .destroyed, updatedAt := now } }
  -- recovery and cutover
  | released {r : Request P} {record : RecoveryRecord} {outcome : FenceOutcome}
      {preserve : Bool} {draw : Draw} {v : View} {c : StateColumns} {w : WorkerColumns} :
      Recovers record outcome preserve draw r → record.generationId = id →
      v.state = some c → v.worker = some w → c.Owns record.claim → c.sealed = false →
      w.phase = .quarantined →
      Change P id r v { v with worker := some w.released }
  | quarantined {r : Request P} {record : RecoveryRecord} {outcome : FenceOutcome}
      {preserve : Bool} {draw : Draw} {v : View} {c : StateColumns} {w : WorkerColumns}
      {g : GenerationRow} {w' : WorkerColumns} :
      Recovers record outcome preserve draw r → record.generationId = id →
      v.state = some c → v.worker = some w → v.generation = some g → c.Owns record.claim →
      c.sealed = false → w.phase = record.phase → w.phase ≠ .quarantined →
      (w' = { w with phase := .quarantined } ∨ w' = { w.released with phase := .quarantined }) →
      Change P id r v
        { state := some { c with revoked := true }
          worker := some w'
          generation := some { g with state := .quarantined } }
  | replaced {r : Request P} {record : RecoveryRecord} {preserve : Bool} {draw : Draw}
      {v : View} {c : StateColumns} {w : WorkerColumns} {g g' : GenerationRow}
      {document : StateDocument P} :
      Recovers record .fenced preserve draw r → record.generationId = id →
      v.state = some c → v.worker = some w → v.generation = some g → c.Owns record.claim →
      c.sealed = false → w.phase = record.phase → w.phase ≠ .quarantined →
      c.Stores document → CreateProof.Anchored document g g' →
      (c.createStarted = true → CreateProof.Matched P g' document) →
      Change P id r v
        { state := some (c.rotated P (replacementAdmission record c draw))
          worker := some (w.replaced P (replacementAdmission record c draw)
            (keptCleanupRevision c w))
          generation := some { g' with state := replacedState g.state } }
  | anchored {v : View} {g g' : GenerationRow} {c : StateColumns}
      {document : StateDocument P} :
      v.generation = some g → v.state = some c → c.Stores document →
      CreateProof.Anchored document g g' →
      Change P id (.anchorFailedCreate id) v { v with generation := some g' }
  | imported {args : LegacyImport P} {draw : Draw} {v : View} {g : GenerationRow}
      {document : StateDocument P} {input : Bytes} {workspace : String} :
      args.generation.id = id → v.state = none → v.worker = none → v.generation = some g →
      g.state ≠ .destroyed →
      CreateProof.matchesIdentity (CreateProof.resultIdentity P g) document = true →
      Change P id (.importLegacy args draw) v
        { state := some (.imported (.new id draw) document)
          worker := some (.imported P (.new id draw) input
            (if document.managedEmpty && g.resourcesDestroyedAt.isSome then some 1 else none))
          generation := some { g with workspacePath := workspace } }
  | importQuarantined {args : LegacyImport P} {draw : Draw} {v : View} {g : GenerationRow} :
      args.generation.id = id → v.generation = some g → g.state ≠ .destroyed →
      Change P id (.importLegacy args draw) v
        { v with
          state := v.state.map fun c => { c with revoked := true }
          generation := some { g with state := .quarantined } }
  -- the generation ledger
  | advanced {next : GenerationState} {requestId : Uuid} {now : Int} {v : View}
      {g : GenerationRow} :
      v.generation = some g → transitionAllowed g.state next = true →
      (next = .destroyed → v.worker = none) →
      Change P id (.generationAdvance id next requestId now) v
        { v with generation := some { g with
            state := next, subphase := none, updatedAt := now } }
  | activity {fleet : String} {started completed : List RunnerEvent} {now : Int} {v : View}
      {g : GenerationRow} :
      v.generation = some g →
      Change P id (.listenerActivity fleet started completed now) v
        { v with generation := some (activityRow fleet started completed now g) }
  | jitSet {jitPhase : String} {githubRunnerId : Option Int} {now : Int} {v : View}
      {g : GenerationRow} :
      v.generation = some g →
      Change P id (.generationSetJit id jitPhase githubRunnerId now) v
        { v with generation := some { g with
            jitPhase := some jitPhase
            githubRunnerId := githubRunnerId.or g.githubRunnerId
            updatedAt := now } }
  | resultSet {resultJson digest : String} {now : Int} {v : View} {g : GenerationRow} :
      v.generation = some g →
      Change P id (.generationSetResult id resultJson digest now) v
        { v with generation := some { g with
            shaulaResultJson := some resultJson
            shaulaResultDigest := some digest
            provisionedAt := some (g.provisionedAt.getD now)
            updatedAt := now } }
  | expiryRequested {now : Int} {v : View} {g : GenerationRow} :
      v.generation = some g → g.expiryRequestedAt = none →
      Change P id (.generationRequestExpiry id now) v
        { v with generation := some { g with expiryRequestedAt := some now } }
  | resourcesDestroyed {now : Int} {v : View} {g : GenerationRow} :
      v.generation = some g → g.state = .destroying → g.resourcesDestroyedAt = none →
      Change P id (.generationResourcesDestroyed id now) v
        { v with generation := some { g with resourcesDestroyedAt := some now } }

/-- No change removes a ledger row. -/
theorem Change.generation_stays {id : Uuid} {r : Request P} {v v' : View} {g : GenerationRow}
    (h : Change P id r v v') (hg : v.generation = some g) : ∃ g', v'.generation = some g' := by
  cases h with
  | inserted _ hnone | admitted _ hnone | generationInserted _ _ hnone =>
    cases hnone.symm.trans hg
  | completed | finalized | finalizedBare | quarantined | replaced | anchored | imported
  | importQuarantined | advanced | activity | jitSet | resultSet | expiryRequested
  | resourcesDestroyed => exact ⟨_, rfl⟩
  | _ => exact ⟨g, hg⟩

/-- `request` changed the rows of `id` as allowed, and those of no other generation. -/
def Changes (P : Platform) (r : Request P) (id : Uuid) (s s' : Store) : Prop :=
  Change P id r (s.view id) (s'.view id) ∧ ∀ g, g ≠ id → s'.view g = s.view g

namespace Changes

variable {r : Request P} {id : Uuid} {s s' : Store} {v : View}

theorem of_update (hc : Change P id r (s.view id) v)
    (hv : s'.view = Function.update s.view id v) : Changes P r id s s' := by
  constructor
  · rw [hv, Function.update_self]
    exact hc
  · intro g hg
    rw [hv, Function.update_of_ne hg]

theorem same (h : s'.view = s.view) : Changes P r id s s' := by
  refine ⟨?_, fun g _ => by rw [h]⟩
  rw [h]
  exact .same r _

/-- Whatever generation is looked at, its rows changed as allowed. -/
theorem all (h : Changes P r id s s') (g : Uuid) : Change P g r (s.view g) (s'.view g) := by
  by_cases hg : g = id
  · subst hg
    exact h.1
  · rw [h.2 g hg]
    exact .same r _

end Changes

end Shaula
