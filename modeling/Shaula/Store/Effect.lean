import Shaula.Store.Worker

/-! # The effect gate

Recording the start of a mutating apply: the fenced operation record and the worker's effect gate
share one transaction, so that neither exists without the other.
-/

namespace Shaula

open Core Library Library.Outcome

variable {P : Platform} {s s' : Store}

namespace Store

/-- `INSERT INTO runner_operations`. -/
def operationInsertOn (s : Store) (insert : OperationInsert) : StoreResult Store := do
  let operations ← okOr (s.operations.create insert.id
    { generationId := insert.generationId
      kind := insert.kind
      state := insert.state
      attempts := 0
      savedPlanPath := insert.savedPlanPath
      savedPlanDigest := insert.savedPlanDigest
      provenanceJson := insert.provenanceJson
      createdAt := insert.now
      updatedAt := insert.now }) .unavailable
  return { s with operations }

/-- The fenced apply-start record: a Create re-verifies the fleet head, a Destroy only that its
generation exists. -/
def operationApplyStarting (s : Store) (insert : OperationInsert) : CoreResult Store := do
  let refused (summary : String) : CoreError := { code := .ownershipConflict, summary }
  let g ← okOr (s.generations.find insert.generationId) (refused "generation record missing")
  if insert.kind = "Create" then do
    let fleet ← okOr (s.fleets.find g.fleetKey) (refused "fleet head missing")
    let deleting := fleet.deletionMarker || fleet.tombstone
    ensure (deleting = false ∧ fleet.desiredRevision = g.fleetRevision) (refused
      ("fleet fence moved: head revision " ++ toString fleet.desiredRevision ++ " vs generation " ++
        toString g.fleetRevision ++ ", deleting=" ++ toString deleting))
    (s.operationInsertOn insert).mapError coreErr
  else
    (s.operationInsertOn insert).mapError coreErr

/-- The apply of `attempt` is handed over and runs; what was proved about the state before is void. -/
def handOver (s : Store) (id : Uuid) (attempt : String) : StateResult Store :=
  s.setWorker id fun w => { w with
    handover := some attempt
    activeCommand := some attempt
    cleanupRevision := none }

/-- A Destroy of a started generation needs the retained proof of its Create. -/
def destroyProved (s : Store) (row : Row) (document : StateDocument P) : StateResult Bool :=
  if row.columns.createStarted then
    (CreateProof.verified s row.generationId document false).map Prod.snd
  else .ok true

/-- Called inside the fenced apply-start transaction.  No worker row means legacy or static
execution, not a new admission. -/
def workerEffectOn (P : Platform) (s : Store) (proof : PlanProvenance) : StateResult Store :=
  match s.readWorker proof.generationId with
  | none => .ok s
  | some worker => do
    ensure (worker.phase = .running ∧ worker.Idle) .conflict
    let row ← Row.load s proof.generationId
    row.writable
    ensure (row.columns.revoked = false) .unauthorized
    let snapshot ← okOr (← row.snapshot P) .unavailable
    match proof.intent with
    | .destroy => do
      ensure (← s.destroyProved row snapshot.document) .conflict
      s.handOver proof.generationId proof.attemptId
    | .create => do
      ensure (snapshot.document.managedEmpty = true) .conflict
      let input ← okOr worker.protectedInput .conflict
      ensure (contentDigest P input = proof.protectedInputDigest) .conflict
      ensure (row.columns.createStarted = false ∧ worker.cleanupOnly = false) .conflict
      let s ← s.setState proof.generationId fun c => { c with createStarted := true }
      s.handOver proof.generationId proof.attemptId

/-- The fence and durable record share one transaction with the effect gate. -/
def recordApplyStarting (P : Platform) (s : Store) (proof : PlanProvenance)
    (savedPlanPath : String) (now : Int) : CoreResult Store := do
  let s ← s.operationApplyStarting
    { id := proof.attemptId
      generationId := proof.generationId
      kind := proof.intent.kind
      state := "ApplyStarting"
      provenanceJson := some (.provenance proof)
      savedPlanPath := some savedPlanPath
      savedPlanDigest := some proof.savedPlanDigest
      now := now }
  (s.workerEffectOn P proof).mapError workerError

/-- The worker's control request for an apply start, under the daemon's session for it. -/
def applyStarting (P : Platform) (s : Store) (session : ControlAccess)
    (capability : ControlCapability) (claim : StateClaim) (proof : PlanProvenance)
    (savedPlanPath : String) (now : Int) : StateResult Store := do
  ensure (capability.matchesVerifier P (session.capability.verifier P)) .unauthorized
  s.authenticateWorker P session
  ensure (claim = session.claim) .unauthorized
  ensure (proof.generationId = claim.generationId) .conflict
  (s.recordApplyStarting P proof savedPlanPath now).mapError fun _ => .conflict

def workerBootstrapOn (s : Store) (proof : PlanProvenance) : StateResult Store :=
  match s.readWorker proof.generationId with
  | none => .ok s
  | some worker => do
    ensure (worker.phase = .running ∧ worker.cleanupOnly = false ∧ worker.Idle) .conflict
    s.setWorker proof.generationId fun w =>
      { w with activeCommand := some ("bootstrap:" ++ proof.attemptId) }

/-- The operation row that a bootstrap of `proof` may continue. -/
def bootstrapOperation (s : Store) (proof : PlanProvenance) : Option OperationRow := do
  let operation ← s.operations.find proof.attemptId
  let g ← s.generations.find operation.generationId
  let fleet ← s.fleets.find g.fleetKey
  if operation.generationId = proof.generationId ∧ operation.kind = "Create" ∧
      operation.state = "ApplyStarting" ∧ operation.provenanceJson = some (.provenance proof) ∧
      g.state = .creating ∧ fleet.desiredRevision = g.fleetRevision ∧
      fleet.deletionMarker = false ∧ fleet.tombstone = false then some operation else none

/-- One-way authorization for a Create's host-owned container bootstrap; `none` when there is no
Create apply to continue. -/
def operationBootstrapStarting (s : Store) (proof : PlanProvenance) (now : Int) :
    StoreResult (Option Store) :=
  if proof.intent ≠ .create then .ok none
  else
    match s.bootstrapOperation proof with
    | none => .ok none
    | some operation => do
      let started := { operation with state := "BootstrapStarting", updatedAt := now }
      let s : Store := { s with operations := s.operations.put proof.attemptId started }
      let s ← (s.workerBootstrapOn proof).mapError fun _ =>
        .corrupt "worker bootstrap authority unavailable"
      return some s

/-! ## What they change -/

theorem operationInsertOn_view {insert : OperationInsert}
    (h : s.operationInsertOn insert = .ok s') :
    s'.view = s.view ∧ s' = { s with operations := s'.operations } := by
  simp only [operationInsertOn, bind_eq_ok, okOr_eq_ok, pure_eq_ok] at h
  obtain ⟨operations, -, rfl⟩ := h
  exact ⟨rfl, rfl⟩

theorem operationApplyStarting_view {insert : OperationInsert}
    (h : s.operationApplyStarting insert = .ok s') :
    s'.view = s.view ∧ s' = { s with operations := s'.operations } := by
  simp only [operationApplyStarting, bind_eq_ok] at h
  obtain ⟨g, -, h⟩ := h
  split at h
  · simp only [bind_eq_ok, mapError_eq_ok] at h
    obtain ⟨fleet, -, _, -, h⟩ := h
    exact operationInsertOn_view h
  · exact operationInsertOn_view (mapError_eq_ok.mp h)

theorem handOver_view {id : Uuid} {attempt : String} {w : WorkerColumns}
    (hw : (s.view id).worker = some w) (h : s.handOver id attempt = .ok s') :
    s'.view = Function.update s.view id { s.view id with
      worker := some { w with
        handover := some attempt
        activeCommand := some attempt
        cleanupRevision := none } } := by
  rw [(setWorker_ok h).1, hw]
  rfl

/-- What the effect gate checked of a worker before a Create, and what it wrote. -/
structure CreateStarted (P : Platform) (v v' : View) (proof : PlanProvenance) (c : StateColumns)
    (w : WorkerColumns) (document : StateDocument P) (input : Bytes) : Prop where
  state : v.state = some c
  worker : v.worker = some w
  running : w.phase = .running
  idle : w.Idle
  unsealed : c.sealed = false
  unrevoked : c.revoked = false
  stores : c.Stores document
  empty : document.managedEmpty = true
  retained : w.protectedInput = some input
  digest : contentDigest P input = proof.protectedInputDigest
  fresh : c.createStarted = false
  allowed : w.cleanupOnly = false
  after : v' = { v with
    state := some { c with createStarted := true }
    worker := some { w with
      handover := some proof.attemptId
      activeCommand := some proof.attemptId
      cleanupRevision := none } }

theorem workerEffectOn_create {proof : PlanProvenance} (hintent : proof.intent = .create)
    {w : WorkerColumns} (hw : (s.view proof.generationId).worker = some w)
    (h : s.workerEffectOn P proof = .ok s') :
    ∃ c document input v', CreateStarted P (s.view proof.generationId) v' proof c w document input ∧
      s'.view = Function.update s.view proof.generationId v' := by
  unfold workerEffectOn at h
  have hread : s.readWorker proof.generationId = some w := hw
  simp only [hread, hintent, bind_eq_ok, okOr_eq_ok] at h
  obtain ⟨_, hphase, row, hload, _, hwritable, _, hrevoked, snapshot?, hsnap, snapshot, hsome, _,
    hempty, input, hinput, _, hdigest, _, hfresh, s₁, hset, hset'⟩ := h
  cases hsome
  obtain ⟨c, g, hc, hg, rfl⟩ := Row.load_eq_ok.mp hload
  obtain ⟨hrunning, hidle⟩ := ensure_eq_ok.mp hphase
  obtain ⟨hstarted, hcleanup⟩ := ensure_eq_ok.mp hfresh
  refine ⟨c, snapshot.document, input, _, ⟨hc, hw, hrunning, hidle, ensure_eq_ok.mp hwritable,
    ensure_eq_ok.mp hrevoked, Row.snapshot_eq_some hsnap, ensure_eq_ok.mp hempty, hinput,
    ensure_eq_ok.mp hdigest, hstarted, hcleanup, rfl⟩, ?_⟩
  obtain ⟨hview, -⟩ := setState_ok hset
  have hw₁ : (s₁.view proof.generationId).worker = some w := by
    rw [hview, Function.update_self]
    exact hw
  rw [handOver_view hw₁ hset', hview]
  simp [hc]

/-- What the effect gate lets through: nothing without a worker, else one of the two starts. -/
theorem workerEffectOn_changes {proof : PlanProvenance} {r : Request P}
    (hr : StartsApply proof r) (h : s.workerEffectOn P proof = .ok s') :
    Changes P r proof.generationId s s' := by
  cases hw : (s.view proof.generationId).worker with
  | none =>
    have hread : s.readWorker proof.generationId = none := hw
    rw [workerEffectOn, hread] at h
    cases h
    exact .same rfl
  | some w =>
    cases hintent : proof.intent with
    | create =>
      obtain ⟨c, document, input, v', h, hview⟩ := workerEffectOn_create hintent hw h
      rw [h.after] at hview
      exact .of_update (.createStarting hr rfl hintent h.state hw h.running h.idle h.unsealed
        h.unrevoked h.stores h.empty h.retained h.digest h.fresh h.allowed) hview
    | destroy =>
      have hread : s.readWorker proof.generationId = some w := hw
      simp only [workerEffectOn, hread, hintent, bind_eq_ok, okOr_eq_ok] at h
      obtain ⟨_, hphase, row, hload, _, hwritable, _, hrevoked, snapshot?, hsnap, snapshot, hsome,
        _, -, _, -, hset⟩ := h
      cases hsome
      obtain ⟨c, g, hc, hg, rfl⟩ := Row.load_eq_ok.mp hload
      obtain ⟨hrunning, hidle⟩ := ensure_eq_ok.mp hphase
      exact .of_update (.destroyStarting hr rfl hintent hc hw hrunning hidle
        (ensure_eq_ok.mp hwritable) (ensure_eq_ok.mp hrevoked) (Row.snapshot_eq_some hsnap))
        (handOver_view hw hset)

/-- The record and the gate share one transaction, and the record touches no generation. -/
theorem recordApplyStarting_ok {proof : PlanProvenance} {path : String} {now : Int}
    (h : s.recordApplyStarting P proof path now = .ok s') :
    ∃ s₁ : Store, s₁.view = s.view ∧ s₁.workerEffectOn P proof = .ok s' := by
  simp only [recordApplyStarting, bind_eq_ok, mapError_eq_ok] at h
  obtain ⟨s₁, hrecord, heffect⟩ := h
  exact ⟨s₁, (operationApplyStarting_view hrecord).1, heffect⟩

theorem applyStarting_ok {session : ControlAccess} {capability : ControlCapability}
    {claim : StateClaim} {proof : PlanProvenance} {path : String} {now : Int}
    (h : s.applyStarting P session capability claim proof path now = .ok s') :
    s.recordApplyStarting P proof path now = .ok s' := by
  simp only [applyStarting, bind_eq_ok, mapError_eq_ok] at h
  obtain ⟨_, -, _, -, _, -, _, -, hrecord⟩ := h
  exact hrecord

theorem recordApplyStarting_changes {proof : PlanProvenance} {path : String} {now : Int}
    {r : Request P} (hr : StartsApply proof r)
    (h : s.recordApplyStarting P proof path now = .ok s') :
    Changes P r proof.generationId s s' := by
  obtain ⟨s₁, hview, heffect⟩ := recordApplyStarting_ok h
  obtain ⟨hchange, hframe⟩ := workerEffectOn_changes hr heffect
  rw [hview] at hchange hframe
  exact ⟨hchange, hframe⟩

theorem applyStarting_changes {session : ControlAccess} {capability : ControlCapability}
    {claim : StateClaim} {proof : PlanProvenance} {path : String} {now : Int}
    (h : s.applyStarting P session capability claim proof path now = .ok s') :
    Changes P (.applyStarting session capability claim proof path now) proof.generationId s s' :=
  recordApplyStarting_changes .control (applyStarting_ok h)

theorem operationBootstrapStarting_changes {proof : PlanProvenance} {now : Int}
    (h : s.operationBootstrapStarting proof now = .ok (some s')) :
    Changes P (.recordBootstrapStarting proof now) proof.generationId s s' := by
  unfold operationBootstrapStarting at h
  split at h
  · cases h
  · split at h
    · cases h
    · simp only [bind_eq_ok, mapError_eq_ok, pure_eq_ok, Option.some.injEq] at h
      obtain ⟨s₁, hboot, rfl⟩ := h
      unfold workerBootstrapOn at hboot
      split at hboot
      · cases hboot
        exact .same rfl
      · next worker hworker =>
        simp only [bind_eq_ok] at hboot
        obtain ⟨_, hcheck, hset⟩ := hboot
        obtain ⟨hrunning, hcleanup, hidle⟩ := ensure_eq_ok.mp hcheck
        have hw : (s.view proof.generationId).worker = some worker := hworker
        refine .of_update (.bootstrapStarted rfl hw hrunning hcleanup hidle) ?_
        obtain ⟨hview, -⟩ := setWorker_ok hset
        refine hview.trans ?_
        show Function.update s.view proof.generationId { s.view proof.generationId with
          worker := (s.view proof.generationId).worker.map _ } = _
        rw [hw]
        rfl

end Store

end Shaula
