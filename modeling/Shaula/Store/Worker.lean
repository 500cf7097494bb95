import Shaula.Store.HttpState

/-! # Worker admission and journal

Admitting a fresh worker with its generation, and what the worker (under its control capability)
writes into its row afterwards: launch, registration, retained input, cleanup proof, command
hand-over and fence.
-/

namespace Shaula

open Core Library Library.Outcome

variable {P : Platform} {s s' : Store}

namespace Store

/-! ## Admission -/

/-- Composes with the same generation admission transaction.  Existing rows, any CI side effect, or
any previous backend are never initialized. -/
def admitWorkerOn (P : Platform) (s : Store) (admission : WorkerAdmission) (lineage : Uuid) :
    StateResult Store := do
  ensure (admission.claim.workerEpoch = 1) .invalid
  let id := admission.claim.generationId
  let g ← okOr (s.generations.find id) .conflict
  ensure (s.operations.rows.all fun e => e.2.generationId != id) .conflict
  ensure (s.forgejoIdentities.find id).isNone .conflict
  ensure (g.state = .createPending ∧ g.jitPhase = none ∧ g.githubRunnerId = none) .conflict
  let document ← StateDocument.parse P (freshDocument lineage)
  let s ← s.insertState id (.admitted admission document)
  s.insertWorker id (.admitted P admission)

/-- Admission of one worker within the daemon's create limit. -/
def admitOn (P : Platform) (createLimit : Nat) (s : Store) (id : Uuid)
    (admission : AdmissionDraw) : StateResult (Store × WorkerAdmission) := do
  ensure (s.deployment.activated = true) .conflict
  -- An unknown quarantined executor may still be alive: only completed workers free their place.
  ensure (s.workers.count (fun _ w => w.val.phase != .completed) < createLimit) .unavailable
  let issued := WorkerAdmission.new id admission.draw
  let s ← s.admitWorkerOn P issued admission.lineage
  return (s, issued)

/-- Inserts a generation whose fleet still is what the guard saw, and admits its worker when the
daemon runs workers.  `none` when the guard failed. -/
def generationInsertGuarded (P : Platform) (createLimit : Nat) (s : Store)
    (record : GenerationRecord) (guard : FleetRuntimeGuard) (admission : Option AdmissionDraw) :
    CoreResult (Option (Store × Option WorkerAdmission)) :=
  match s.fleets.find record.fleetKey with
  | none => .ok none
  | some fleet =>
    if fleet.incarnation ≠ guard.incarnation ∨ fleet.desiredRevision ≠ guard.desiredRevision ∨
        fleet.mutationFence ≠ guard.mutationFence ∨ fleet.deletionMarker = true ∨
        fleet.tombstone = true then .ok none
    else do
      let s ← (s.generationInsertOn record).mapError coreErr
      match admission with
      | none => return some (s, none)
      | some admission => do
        let (s, issued) ← (s.admitOn P createLimit record.id admission).mapError workerError
        return some (s, some issued)

/-! ## Loading a worker -/

/-- The worker row of the claim, for the holder of its control capability. -/
def loadWorker (P : Platform) (s : Store) (access : ControlAccess) :
    StateResult WorkerColumns := do
  let state ← Row.load s access.claim.generationId
  (state.checkClaim access.claim).mapError fun _ => .unauthorized
  let worker ← okOr (s.readWorker access.claim.generationId) .unauthorized
  ensure (state.columns.revoked = false ∧
    access.capability.matchesVerifier P worker.controlHash) .unauthorized
  return worker

def authenticateWorker (P : Platform) (s : Store) (access : ControlAccess) :
    StateResult Unit := do
  let _ ← s.loadWorker P access
  return ⟨⟩

/-! ## The journal -/

/-- Persist before calling exec: a second launcher cannot borrow a pending launch. -/
def launchPending (P : Platform) (s : Store) (access : ControlAccess) : StateResult Store := do
  let worker ← s.loadWorker P access
  ensure (worker.phase = .admitted) .conflict
  let (s, count) ← s.updateWorkers access.claim.generationId (fun w => w.phase == .admitted)
    fun w => { w with phase := .launchPending }
  exactlyOne count
  return s

/-- Executor-owned identity, not an arbitrary process supplied by the worker. -/
def register (P : Platform) (s : Store) (access : ControlAccess) (identity : ProcessIdentity) :
    StateResult Store := do
  ensure identity.Valid .invalid
  let worker ← s.loadWorker P access
  if worker.phase = .running ∧ worker.processIdentity = some identity then
    return s
  else do
    ensure (worker.phase = .launchPending ∧ worker.processIdentity = none) .conflict
    s.setWorker access.claim.generationId fun w =>
      { w with phase := .running, processIdentity := some identity }

/-- Keeps the protected input of the one Create; the same input again is a replay. -/
def retainInput (P : Platform) (s : Store) (access : ControlAccess) (input : Bytes) :
    StateResult Store := do
  ensure (input.length ≤ maxStateBytes) .tooLarge
  let worker ← s.loadWorker P access
  let state ← Row.load s access.claim.generationId
  ensure (worker.phase = .running ∧ worker.cleanupOnly = false ∧
    state.columns.createStarted = false) .conflict
  match worker.protectedInput with
  | some saved => do
    ensure (saved = input) .conflict
    return s
  | none =>
    s.setWorker access.claim.generationId fun w => { w with protectedInput := some input }

def protectedInput (P : Platform) (s : Store) (access : ControlAccess) :
    StateResult (Option Bytes) := do
  let worker ← s.loadWorker P access
  return worker.protectedInput

/-- Records that the current revision holds no managed resource, once nothing can still change it
and, after a Create, only with the proof that its resources had been recorded. -/
def verifyCleanup (P : Platform) (s : Store) (access : ControlAccess) : StateResult Store := do
  let id := access.claim.generationId
  let worker ← s.loadWorker P access
  ensure (worker.phase = .running ∧ worker.Idle) .conflict
  let state ← Row.load s id
  let snapshot ← okOr (← state.snapshot P) .unavailable
  ensure (← state.lock P).isNone .conflict
  ensure (snapshot.document.managedEmpty = true) .conflict
  if state.columns.createStarted then do
    let (s, verified) ← CreateProof.verified s id snapshot.document false
    ensure (verified = true) .conflict
    ensure (worker.resourceStateSeen = true) .conflict
    s.setWorker id fun w => { w with cleanupRevision := some state.columns.revision }
  else
    s.setWorker id fun w => { w with cleanupRevision := some state.columns.revision }

def spawnAck (P : Platform) (s : Store) (access : ControlAccess) (attempt : String) :
    StateResult Store := do
  let worker ← s.loadWorker P access
  ensure (worker.phase = .running ∧ worker.activeCommand = some attempt ∧
    ∀ id ∈ worker.handover, id = attempt) .conflict
  s.setWorker access.claim.generationId fun w => { w with handover := none }

def commandEnded (P : Platform) (s : Store) (access : ControlAccess) (attempt : String) :
    StateResult Store := do
  let worker ← s.loadWorker P access
  ensure (worker.phase = .running ∧ worker.handover = none ∧
    worker.activeCommand = some attempt) .conflict
  s.setWorker access.claim.generationId fun w => { w with activeCommand := none }

/-- The exact registered process is proved gone. -/
def fenced (P : Platform) (s : Store) (access : ControlAccess) (identity : ProcessIdentity) :
    StateResult Store := do
  let worker ← s.loadWorker P access
  let saved ← okOr worker.processIdentity .conflict
  ensure (saved = identity ∧ worker.phase ≠ .completed) .conflict
  s.setWorker access.claim.generationId fun w =>
    { w with phase := .fenced, handover := none, activeCommand := none }

def receipt (P : Platform) (s : Store) (access : ControlAccess) :
    StateResult (Option CompletionReceipt) := do
  let worker ← s.loadWorker P access
  return worker.completionReceipt

def workspaceReaped (s : Store) (receipt : CompletionReceipt) : StateResult Store := do
  let (s, count) ← s.updateWorkers receipt.claim.generationId
    (fun w => w.phase == .completed && w.completionRequest == some receipt.requestId)
    fun w => { w with workspaceReaped := true }
  exactlyOne count
  return s

/-! ## What they change -/

theorem loadWorker_ok {access : ControlAccess} {w : WorkerColumns}
    (h : s.loadWorker P access = .ok w) :
    ∃ c g, (s.view access.claim.generationId).Loaded P access c w g := by
  simp only [loadWorker, bind_eq_ok, mapError_eq_ok, okOr_eq_ok, pure_eq_ok] at h
  obtain ⟨row, hload, _, hclaim, worker, hworker, _, hauth, rfl⟩ := h
  obtain ⟨c, g, hc, hg, rfl⟩ := Row.load_eq_ok.mp hload
  obtain ⟨-, howns⟩ := ensure_eq_ok.mp hclaim
  obtain ⟨hrevoked, hcontrol⟩ := ensure_eq_ok.mp hauth
  exact ⟨c, g, hc, hworker, hg, howns, hrevoked, hcontrol⟩

/-- The row loaded next to a worker is the one its load was checked against. -/
theorem load_after_loadWorker {access : ControlAccess} {c : StateColumns} {w : WorkerColumns}
    {g : GenerationRow} {row : Row}
    (hl : (s.view access.claim.generationId).Loaded P access c w g)
    (h : Row.load s access.claim.generationId = .ok row) : row.columns = c := by
  obtain ⟨c', -, hc', -, rfl⟩ := Row.load_eq_ok.mp h
  exact Option.some.inj (hc'.symm.trans hl.state)

/-- A write to the worker row that was loaded. -/
theorem setWorker_loaded {access : ControlAccess} {c : StateColumns} {w : WorkerColumns}
    {g : GenerationRow} {f : WorkerColumns → WorkerColumns}
    (hl : (s.view access.claim.generationId).Loaded P access c w g)
    (h : s.setWorker access.claim.generationId f = .ok s') :
    s'.view = Function.update s.view access.claim.generationId
      { s.view access.claim.generationId with worker := some (f w) } := by
  rw [(setWorker_ok h).1, hl.worker]
  rfl

theorem admitWorkerOn_view {admission : WorkerAdmission} {lineage : Uuid}
    (h : s.admitWorkerOn P admission lineage = .ok s') :
    (s.view admission.claim.generationId).state = none ∧
      (s.view admission.claim.generationId).worker = none ∧
      ∃ document : StateDocument P, document.bytes = freshDocument lineage ∧
        s'.view = Function.update s.view admission.claim.generationId
          { s.view admission.claim.generationId with
            state := some (.admitted admission document)
            worker := some (.admitted P admission) } := by
  simp only [admitWorkerOn, bind_eq_ok, okOr_eq_ok] at h
  obtain ⟨_, -, g, -, _, -, _, -, _, -, document, hparse, s₁, hstate, hworker⟩ := h
  obtain ⟨hfree, hview, -⟩ := insertState_ok hstate
  obtain ⟨hfree', hview', -⟩ := insertWorker_ok hworker
  rw [hview] at hfree' hview'
  simp only [Function.update_self] at hfree' hview'
  refine ⟨hfree, hfree', document, StateDocument.parse_eq_ok.mp hparse, ?_⟩
  rw [hview', Function.update_idem]

theorem generationInsertGuarded_changes {createLimit : Nat} {record : GenerationRecord}
    {guard : FleetRuntimeGuard} {admission : Option AdmissionDraw}
    {issued : Option WorkerAdmission}
    (h : s.generationInsertGuarded P createLimit record guard admission =
      .ok (some (s', issued))) :
    Changes P (.generationInsertGuarded record guard admission) record.id s s' ∧
      (issued = admission.map fun a => .new record.id a.draw) ∧
      ∀ a, issued = some a → ∃ document : StateDocument P,
        (s'.view record.id).state = some (.admitted a document) := by
  unfold generationInsertGuarded at h
  split at h
  · cases h
  · split at h
    · cases h
    · simp only [bind_eq_ok, mapError_eq_ok] at h
      obtain ⟨s₁, hinsert, h⟩ := h
      obtain ⟨hnone, hview, -⟩ := generationInsertOn_view hinsert
      split at h
      · cases pure_eq_ok.mp h
        exact ⟨.of_update (.generationInserted .guarded rfl hnone) hview, rfl, by simp⟩
      · next admission =>
        simp only [bind_eq_ok, mapError_eq_ok, pure_eq_ok, Prod.exists] at h
        obtain ⟨s₂, issued', hadmit, hret⟩ := h
        cases hret
        simp only [admitOn, bind_eq_ok, pure_eq_ok, Prod.mk.injEq] at hadmit
        obtain ⟨_, -, _, -, s₃, hworkerOn, rfl, rfl⟩ := hadmit
        obtain ⟨hstate, hworker, document, hbytes, hview'⟩ := admitWorkerOn_view hworkerOn
        simp only [WorkerAdmission.new, hview, Function.update_self] at hstate hworker
        simp only [WorkerAdmission.new, hview, Function.update_self, Function.update_idem]
          at hview'
        refine ⟨.of_update (.admitted rfl hnone hstate hworker hbytes) hview', rfl, ?_⟩
        rintro a ⟨⟩
        exact ⟨document, by rw [hview', Function.update_self]; rfl⟩

theorem launchPending_changes {access : ControlAccess}
    (h : s.launchPending P access = .ok s') :
    Changes P (.launchPending access) access.claim.generationId s s' := by
  simp only [launchPending, bind_eq_ok, pure_eq_ok, Prod.exists] at h
  obtain ⟨w, hload, _, hphase, s₁, n, hupdate, _, hone, rfl⟩ := h
  obtain ⟨c, g, hl⟩ := loadWorker_ok hload
  obtain ⟨w', hw', -, hview, -⟩ := updateWorkers_exactlyOne hupdate hone
  cases Option.some.inj (hw'.symm.trans hl.worker)
  exact .of_update (.launchPending rfl hl (ensure_eq_ok.mp hphase)) hview

theorem register_changes {access : ControlAccess} {identity : ProcessIdentity}
    (h : s.register P access identity = .ok s') :
    Changes P (.register access identity) access.claim.generationId s s' := by
  simp only [register, bind_eq_ok] at h
  obtain ⟨_, -, w, hload, h⟩ := h
  obtain ⟨c, g, hl⟩ := loadWorker_ok hload
  split at h
  · cases pure_eq_ok.mp h
    exact .same rfl
  · obtain ⟨_, hphase, hset⟩ := bind_eq_ok.mp h
    obtain ⟨hpending, hidentity⟩ := ensure_eq_ok.mp hphase
    exact .of_update (.registered rfl hl hpending hidentity) (setWorker_loaded hl hset)

theorem retainInput_changes {access : ControlAccess} {input : Bytes}
    (h : s.retainInput P access input = .ok s') :
    Changes P (.retainInput access input) access.claim.generationId s s' := by
  simp only [retainInput, bind_eq_ok] at h
  obtain ⟨_, -, w, hload, row, hrow, _, hphase, h⟩ := h
  obtain ⟨c, g, hl⟩ := loadWorker_ok hload
  obtain ⟨hrunning, hcleanup, hstarted⟩ := ensure_eq_ok.mp hphase
  rw [load_after_loadWorker hl hrow] at hstarted
  split at h
  · simp only [bind_eq_ok, pure_eq_ok] at h
    obtain ⟨_, -, rfl⟩ := h
    exact .same rfl
  · next hnone =>
    exact .of_update (.inputRetained rfl hl hrunning hcleanup hstarted hnone)
      (setWorker_loaded hl h)

theorem verifyCleanup_changes {access : ControlAccess}
    (h : s.verifyCleanup P access = .ok s') :
    Changes P (.verifyCleanup access) access.claim.generationId s s' := by
  simp only [verifyCleanup, bind_eq_ok, okOr_eq_ok] at h
  obtain ⟨w, hload, _, hphase, row, hrow, snapshot?, hsnap, snapshot, hsome, lock, hlock, _,
    hfree, _, hempty, h⟩ := h
  cases hsome
  obtain ⟨c, g, hl⟩ := loadWorker_ok hload
  cases load_after_loadWorker hl hrow
  obtain ⟨hrunning, hidle⟩ := ensure_eq_ok.mp hphase
  have hnone : lock = none := Option.isNone_iff_eq_none.mp (ensure_eq_ok.mp hfree)
  have hunlocked := Row.lock_eq_none (hnone ▸ hlock)
  have hstores := Row.snapshot_eq_some hsnap
  have hmanaged := ensure_eq_ok.mp hempty
  split at h
  · simp only [bind_eq_ok, Prod.exists] at h
    obtain ⟨s₁, verified, hverified, _, hproof, _, hseen, hset⟩ := h
    obtain ⟨rfl, g', hg, hmatched⟩ := CreateProof.verified_false_ok hverified
    cases Option.some.inj (hg.symm.trans hl.generation)
    have hproof : CreateProof.Matched P g snapshot.document := hmatched (ensure_eq_ok.mp hproof)
    exact .of_update
      (.cleanupVerified rfl hl hrunning hidle hunlocked hstores hmanaged
        fun _ => ⟨hproof, ensure_eq_ok.mp hseen⟩)
      (setWorker_loaded hl hset)
  · next hstarted =>
    exact .of_update
      (.cleanupVerified rfl hl hrunning hidle hunlocked hstores hmanaged
        fun hyes => absurd hyes hstarted)
      (setWorker_loaded hl h)

theorem spawnAck_changes {access : ControlAccess} {attempt : String}
    (h : s.spawnAck P access attempt = .ok s') :
    Changes P (.spawnAck access attempt) access.claim.generationId s s' := by
  simp only [spawnAck, bind_eq_ok] at h
  obtain ⟨w, hload, _, hphase, hset⟩ := h
  obtain ⟨c, g, hl⟩ := loadWorker_ok hload
  obtain ⟨hrunning, hactive, -⟩ := ensure_eq_ok.mp hphase
  exact .of_update (.spawnAcked rfl hl hrunning hactive) (setWorker_loaded hl hset)

theorem commandEnded_changes {access : ControlAccess} {attempt : String}
    (h : s.commandEnded P access attempt = .ok s') :
    Changes P (.commandEnded access attempt) access.claim.generationId s s' := by
  simp only [commandEnded, bind_eq_ok] at h
  obtain ⟨w, hload, _, hphase, hset⟩ := h
  obtain ⟨c, g, hl⟩ := loadWorker_ok hload
  obtain ⟨hrunning, hhandover, hactive⟩ := ensure_eq_ok.mp hphase
  exact .of_update (.commandEnded rfl hl hrunning hhandover hactive) (setWorker_loaded hl hset)

theorem fenced_changes {access : ControlAccess} {identity : ProcessIdentity}
    (h : s.fenced P access identity = .ok s') :
    Changes P (.fenced access identity) access.claim.generationId s s' := by
  simp only [fenced, bind_eq_ok, okOr_eq_ok] at h
  obtain ⟨w, hload, saved, hsaved, _, hcheck, hset⟩ := h
  obtain ⟨c, g, hl⟩ := loadWorker_ok hload
  obtain ⟨hsame, hphase⟩ := ensure_eq_ok.mp hcheck
  exact .of_update (.workerFenced rfl hl (hsame ▸ hsaved) hphase) (setWorker_loaded hl hset)

theorem workspaceReaped_changes {receipt : CompletionReceipt}
    (h : s.workspaceReaped receipt = .ok s') :
    Changes P (.workspaceReaped receipt) receipt.claim.generationId s s' := by
  simp only [workspaceReaped, bind_eq_ok, pure_eq_ok, Prod.exists] at h
  obtain ⟨s₁, n, hupdate, _, hone, rfl⟩ := h
  obtain ⟨w, hw, hp, hview, -⟩ := updateWorkers_exactlyOne hupdate hone
  simp only [Bool.and_eq_true, beq_iff_eq] at hp
  exact .of_update (.reaped rfl hw hp.1) hview

end Store

end Shaula
