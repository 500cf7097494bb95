import Shaula.Store.Effect

/-! # Completion and operator finalization

Terminal receipt, backend seal and occupancy release share one commit.  A worker is completed
either automatically, on proof that nothing was created or that cleanup is exact, or by an
operator's attestation over a verifiably fenced executor.
-/

namespace Shaula

open Core Library Library.Outcome

variable {P : Platform} {s s' : Store}

namespace Store

/-! ## Automatic completion -/

/-- Whether any operation of the generation ever recorded a Create. -/
def createRecorded (s : Store) (id : Uuid) : Bool :=
  s.operations.rows.any fun e => e.2.generationId == id && e.2.kind == "Create"

/-- Whether a completion of `kind` may seal.  Operator attestation is a separate operation, never
forgeable through automatic completion. -/
def completionGround (s : Store) (id : Uuid) (c : StateColumns) (worker : WorkerColumns)
    (kind : CompletionKind) : StateResult Unit :=
  match kind with
  | .neverStarted =>
    ensure (c.createStarted = false ∧ s.createRecorded id = false) .conflict
  | .providerCleanup =>
    ensure (c.createStarted = true ∧ worker.cleanupRevision = some c.revision) .conflict
  | .operatorAttested => .error .conflict

/-- Backend seal, terminal receipt and occupancy release. -/
def sealCompleted (s : Store) (id : Uuid) (receipt : CompletionReceipt) (now : Int) :
    StateResult Store := do
  let s ← s.setState id fun c => { c with sealed := true }
  let s ← s.setWorker id (·.complete receipt)
  return s.setGeneration id fun g => { g with state := .destroyed, updatedAt := now }

/-- Seals, completes and destroys in one transaction; an already completed worker answers its saved
receipt to the same request and refuses every other. -/
def completeOn (P : Platform) (s : Store) (claim : StateClaim) (worker : WorkerColumns)
    (requestId : Uuid) (expectedRevision : Int) (kind : CompletionKind) (now : Int) :
    StateResult (Store × CompletionReceipt) :=
  let id := claim.generationId
  match worker.completionReceipt with
  | some receipt =>
    if worker.completionRequest = some requestId ∧ receipt.stateRevision = expectedRevision ∧
        receipt.kind = kind ∧ receipt.claim = claim then .ok (s, receipt)
    else .error .conflict
  | none => do
    ensure (worker.Idle ∧
      (worker.phase = .running ∨ worker.phase = .fenced ∨ worker.phase = .admitted)) .conflict
    let state ← Row.load s id
    state.writable
    ensure (state.columns.revision = expectedRevision) .conflict
    ensure (← state.lock P).isNone .conflict
    let snapshot ← okOr (← state.snapshot P) .unavailable
    ensure (snapshot.document.managedEmpty = true) .conflict
    let g ← okOr (s.generations.find id) .conflict
    ensure (g.state = .destroying) .conflict
    s.completionGround id state.columns worker kind
    let receipt : CompletionReceipt :=
      { claim, requestId, stateRevision := expectedRevision, kind, completedAt := now }
    let s ← s.sealCompleted id receipt now
    return (s, receipt)

def completeWorker (P : Platform) (s : Store) (access : ControlAccess) (requestId : Uuid)
    (expectedRevision : Int) (kind : CompletionKind) (now : Int) :
    StateResult (Store × CompletionReceipt) := do
  let worker ← s.loadWorker P access
  s.completeOn P access.claim worker requestId expectedRevision kind now

/-- The daemon's removal path at its terminal transition; `false` selects the ledger-only path. -/
def completeGeneration (P : Platform) (s : Store) (id requestId : Uuid) (now : Int) :
    StateResult (Store × Bool) :=
  match s.readWorker id with
  | none => .ok (s, false)
  | some worker =>
    if worker.completionReceipt.isSome then .ok (s, true)
    else do
      let state ← Row.load s id
      let claim : StateClaim :=
        { generationId := id
          workerEpoch := state.columns.workerEpoch
          workerAttempt := state.columns.workerAttempt }
      let kind : CompletionKind :=
        if state.columns.createStarted then .providerCleanup else .neverStarted
      let (s, _) ← s.completeOn P claim worker requestId state.columns.revision kind now
      return (s, true)

/-! ## Operator finalization -/

/-- Seals and revokes, whatever the state row holds. -/
def operatorSeal (s : Store) (id : Uuid) : StateResult Store :=
  s.setState id fun c => { c with sealed := true, revoked := true }

/-- A fence record of this exact attempt and epoch proves its executor gone. -/
def attemptFenced (s : Store) (id : Uuid) (c : StateColumns) : Bool :=
  s.fences.rows.any fun e => e.2.generationId == id && e.1 == c.workerAttempt &&
    e.2.workerEpoch == c.workerEpoch && (e.2.outcome == .fenced || e.2.confirmedFenced)

/-- An operator's resource attestation does not authorize a live executor. -/
def operatorSealOn (s : Store) (id request : Uuid) (now : Int) : StateResult Store :=
  match s.readWorker id with
  | none => s.operatorSeal id
  | some worker => do
    let state ← Row.load s id
    let quarantinedFenced := worker.phase == .quarantined && s.attemptFenced id state.columns
    ensure ((worker.phase = .admitted ∨ worker.phase = .fenced ∨ quarantinedFenced) ∧
      worker.Idle) .conflict
    let receipt : CompletionReceipt :=
      { claim := {
          generationId := id
          workerEpoch := state.columns.workerEpoch
          workerAttempt := state.columns.workerAttempt }
        requestId := request
        stateRevision := state.columns.revision
        kind := .operatorAttested
        completedAt := now }
    let s ← s.operatorSeal id
    s.setWorker id (·.complete receipt)

/-- Operator finalization of a quarantined generation: a ledger-only termination. -/
def generationFinalize (s : Store) (id operationId : Uuid) (actor reason : String) (now : Int) :
    Except RequestError Store := do
  let g ← okOr (s.generations.find id) .notFound
  ensure (g.state = .quarantined) (.refused ("generation is " ++ g.state.asStrRepr ++
    ", not Quarantined; finalize only terminates quarantined rows"))
  let quarantined (r : GenerationRow) : Bool := r.state == .quarantined
  ensure (s.generations.count (fun k r => k = id && quarantined r) = 1) (.refused
    "generation left Quarantined between admission and commit")
  let s := s.updateGenerations id quarantined fun g =>
    { g with state := .destroyed, updatedAt := now }
  let s ← (s.operatorSealOn id operationId now).mapError fun _ => .refused
    "lifecycle worker must be verifiably fenced before operator finalization"
  (s.operationInsertOn
    { id := operationId.text
      generationId := id
      kind := "Finalize"
      state := "Succeeded"
      provenanceJson := some (.finalize actor reason)
      savedPlanPath := none
      savedPlanDigest := none
      now := now }).mapError fun e => .core (coreErr e)

/-! ## What completion did -/

/-- A completion that returned either replayed the saved receipt, or sealed a quiet generation. -/
inductive Completed (P : Platform) (s s' : Store) (claim : StateClaim) (worker : WorkerColumns)
    (receipt : CompletionReceipt) : Prop
  | replayed : s' = s → worker.completionReceipt = some receipt → receipt.claim = claim →
      worker.completionRequest.isSome → Completed P s s' claim worker receipt
  | sealed {c : StateColumns} {g : GenerationRow} {document : StateDocument P} (now : Int) :
      (s.view claim.generationId).state = some c →
      (s.view claim.generationId).generation = some g →
      worker.completionReceipt = none → worker.Idle →
      (worker.phase = .running ∨ worker.phase = .fenced ∨ worker.phase = .admitted) →
      c.sealed = false → c.lockId = none → c.Stores document → document.managedEmpty = true →
      g.state = .destroying → CompletionGround c worker receipt.kind →
      (receipt.kind = .neverStarted → s.createRecorded claim.generationId = false) →
      receipt.claim = claim → receipt.stateRevision = c.revision →
      s'.view = Function.update s.view claim.generationId
        { state := some { c with sealed := true }
          worker := some (worker.complete receipt)
          generation := some { g with state := .destroyed, updatedAt := now } } →
      Completed P s s' claim worker receipt

theorem completionGround_ok {id : Uuid} {c : StateColumns} {worker : WorkerColumns}
    {kind : CompletionKind} {u : Unit} (h : s.completionGround id c worker kind = .ok u) :
    CompletionGround c worker kind ∧ (kind = .neverStarted → s.createRecorded id = false) := by
  cases kind with
  | neverStarted =>
    obtain ⟨hstarted, hrecorded⟩ := ensure_eq_ok.mp h
    exact ⟨.neverStarted hstarted, fun _ => hrecorded⟩
  | providerCleanup =>
    obtain ⟨hstarted, hproof⟩ := ensure_eq_ok.mp h
    exact ⟨.providerCleanup hstarted hproof, by simp⟩
  | operatorAttested => cases h

theorem sealCompleted_view {id : Uuid} {receipt : CompletionReceipt} {now : Int}
    {c : StateColumns} {w : WorkerColumns} {g : GenerationRow}
    (hc : (s.view id).state = some c) (hw : (s.view id).worker = some w)
    (hg : (s.view id).generation = some g) (h : s.sealCompleted id receipt now = .ok s') :
    s'.view = Function.update s.view id
      { state := some { c with sealed := true }
        worker := some (w.complete receipt)
        generation := some { g with state := .destroyed, updatedAt := now } } := by
  simp only [sealCompleted, bind_eq_ok, pure_eq_ok] at h
  obtain ⟨s₁, hset, s₂, hset', rfl⟩ := h
  rw [view_setGeneration, (setWorker_ok hset').1, (setState_ok hset).1]
  simp [hc, hw, hg]

theorem completeOn_ok {claim : StateClaim} {worker : WorkerColumns} {requestId : Uuid}
    {expectedRevision : Int} {kind : CompletionKind} {now : Int} {receipt : CompletionReceipt}
    (hw : (s.view claim.generationId).worker = some worker)
    (h : s.completeOn P claim worker requestId expectedRevision kind now = .ok (s', receipt)) :
    Completed P s s' claim worker receipt ∧ receipt.kind = kind ∧
      (worker.completionReceipt = none → receipt.requestId = requestId) := by
  unfold completeOn at h
  split at h
  · next saved hsaved =>
    split at h
    · next hsame =>
      obtain ⟨hrequest, -, hkind, hclaim⟩ := hsame
      cases h
      exact ⟨.replayed rfl hsaved hclaim (by simp [hrequest]), hkind, by simp [hsaved]⟩
    · cases h
  · next hnone =>
    simp only [bind_eq_ok, okOr_eq_ok] at h
    obtain ⟨_, hquiet, row, hload, _, hwritable, _, hrevision, lock, hlock, _, hfree, snapshot?,
      hsnap, snapshot, hsome, _, hempty, g, hg, _, hstate, _, hground, h⟩ := h
    cases hsome
    obtain ⟨c, g', hc, hg', rfl⟩ := Row.load_eq_ok.mp hload
    cases Option.some.inj (hg'.symm.trans hg)
    obtain ⟨hidle, hphase⟩ := ensure_eq_ok.mp hquiet
    have hunsealed := ensure_eq_ok.mp hwritable
    have hexpected := ensure_eq_ok.mp hrevision
    have hunlocked := Row.lock_eq_none
      (Option.isNone_iff_eq_none.mp (ensure_eq_ok.mp hfree) ▸ hlock)
    obtain ⟨hground, hrecorded⟩ := completionGround_ok hground
    simp only [pure_eq_ok, Prod.mk.injEq] at h
    obtain ⟨s₁, hseal, rfl, rfl⟩ := h
    refine ⟨.sealed now hc hg' hnone hidle hphase hunsealed hunlocked (Row.snapshot_eq_some hsnap)
      (ensure_eq_ok.mp hempty) (ensure_eq_ok.mp hstate) hground hrecorded rfl hexpected.symm
      (sealCompleted_view hc hw hg' hseal), rfl, fun _ => rfl⟩

/-- A completion that sealed is a change; a replay is none. -/
theorem Completed.changes {claim : StateClaim} {worker : WorkerColumns}
    {receipt : CompletionReceipt} {r : Request P}
    (h : Completed P s s' claim worker receipt) (hr : Completes claim.generationId r)
    (hw : (s.view claim.generationId).worker = some worker) :
    Changes P r claim.generationId s s' := by
  cases h with
  | replayed hsame => exact .same (by rw [hsame])
  | sealed now hc hg hnone hidle hphase hunsealed hunlocked hstores hempty hstate hground _ _ _
      hview =>
    exact .of_update (.completed hr hc hw hg hnone hidle hphase hunsealed hunlocked hstores hempty
      hstate hground) hview

theorem completeWorker_ok {access : ControlAccess} {requestId : Uuid} {expectedRevision : Int}
    {kind : CompletionKind} {now : Int} {receipt : CompletionReceipt}
    (h : s.completeWorker P access requestId expectedRevision kind now = .ok (s', receipt)) :
    ∃ c w g, (s.view access.claim.generationId).Loaded P access c w g ∧
      Completed P s s' access.claim w receipt ∧ receipt.kind = kind := by
  simp only [completeWorker, bind_eq_ok] at h
  obtain ⟨w, hload, h⟩ := h
  obtain ⟨c, g, hl⟩ := loadWorker_ok hload
  obtain ⟨hcompleted, hkind, -⟩ := completeOn_ok hl.worker h
  exact ⟨c, w, g, hl, hcompleted, hkind⟩

theorem completeWorker_changes {access : ControlAccess} {requestId : Uuid}
    {expectedRevision : Int} {kind : CompletionKind} {now : Int} {receipt : CompletionReceipt}
    (h : s.completeWorker P access requestId expectedRevision kind now = .ok (s', receipt)) :
    Changes P (.completeWorker access requestId expectedRevision kind now)
      access.claim.generationId s s' := by
  obtain ⟨c, w, g, hl, hcompleted, -⟩ := completeWorker_ok h
  exact hcompleted.changes (.worker rfl) hl.worker

/-- The daemon's completion either leaves a generation without worker to the ledger, finds it
completed, or completes it. -/
theorem completeGeneration_ok {id requestId : Uuid} {now : Int} {b : Bool}
    (h : s.completeGeneration P id requestId now = .ok (s', b)) :
    (b = false ∧ s' = s ∧ (s.view id).worker = none) ∨
      (b = true ∧ Changes P (.generationAdvance id .destroyed requestId now) id s s') := by
  unfold completeGeneration at h
  split at h
  · next hnone =>
    cases h
    exact .inl ⟨rfl, rfl, hnone⟩
  · next worker hw =>
    split at h
    · cases h
      exact .inr ⟨rfl, .same rfl⟩
    · simp only [bind_eq_ok, pure_eq_ok, Prod.exists, Prod.mk.injEq] at h
      obtain ⟨row, hload, s₁, receipt, hcomplete, rfl, rfl⟩ := h
      have hworker : (s.view id).worker = some worker := hw
      obtain ⟨hcompleted, -⟩ := completeOn_ok hworker hcomplete
      exact .inr ⟨rfl, hcompleted.changes .advance hworker⟩

/-- What an operator seal over a worker row checked: a quiet executor that never launched, was
fenced, or is quarantined with a fence record of its exact attempt and epoch. -/
theorem operatorSealOn_ok {id request : Uuid} {now : Int} {worker : WorkerColumns}
    (hw : (s.view id).worker = some worker) (h : s.operatorSealOn id request now = .ok s') :
    ∃ c, ∃ receipt : CompletionReceipt, (s.view id).state = some c ∧ worker.Idle ∧
      (worker.phase = .admitted ∨ worker.phase = .fenced ∨
        (worker.phase = .quarantined ∧ s.attemptFenced id c = true)) ∧
      receipt.kind = .operatorAttested ∧ receipt.requestId = request ∧
      s'.view = Function.update s.view id
        { s.view id with
          state := some { c with sealed := true, revoked := true }
          worker := some (worker.complete receipt) } := by
  unfold operatorSealOn at h
  have hread : s.readWorker id = some worker := hw
  rw [hread] at h
  simp only [bind_eq_ok] at h
  obtain ⟨row, hload, _, hcheck, s₁, hseal, hset⟩ := h
  obtain ⟨c, g, hc, -, rfl⟩ := Row.load_eq_ok.mp hload
  obtain ⟨hphase, hidle⟩ := ensure_eq_ok.mp hcheck
  obtain ⟨hview, -⟩ := setState_ok hseal
  obtain ⟨hview', -⟩ := setWorker_ok hset
  refine ⟨c,
    { claim := {
        generationId := id
        workerEpoch := c.workerEpoch
        workerAttempt := c.workerAttempt }
      requestId := request
      stateRevision := c.revision
      kind := .operatorAttested
      completedAt := now }, hc, hidle, ?_, rfl, rfl, ?_⟩
  · simpa using hphase
  · rw [hview', hview]
    simp [hc, hw]

/-- Without a worker row an operator seal only seals and revokes. -/
theorem operatorSealOn_bare {id request : Uuid} {now : Int}
    (hw : (s.view id).worker = none) (h : s.operatorSealOn id request now = .ok s') :
    s'.view = Function.update s.view id { s.view id with
      state := (s.view id).state.map fun c => { c with sealed := true, revoked := true } } := by
  unfold operatorSealOn at h
  have hread : s.readWorker id = none := hw
  rw [hread] at h
  exact (setState_ok h).1

/-- Finalization seals in the store whose ledger row it has already terminated. -/
theorem generationFinalize_ok {id operationId : Uuid} {actor reason : String} {now : Int}
    (h : s.generationFinalize id operationId actor reason now = .ok s') :
    ∃ (g : GenerationRow) (s₁ s₂ : Store), (s.view id).generation = some g ∧ g.state = .quarantined ∧
      s₁.view = Function.update s.view id { s.view id with
        generation := some { g with state := .destroyed, updatedAt := now } } ∧
      s₁.fences = s.fences ∧ s₁.operatorSealOn id operationId now = .ok s₂ ∧
      s'.view = s₂.view := by
  simp only [generationFinalize, bind_eq_ok, okOr_eq_ok, mapError_eq_ok] at h
  obtain ⟨g, hg, _, hstate, _, -, s₂, hseal, hinsert⟩ := h
  have hview : (s.view id).generation = some g := hg
  have hquarantined := ensure_eq_ok.mp hstate
  refine ⟨g, _, s₂, hview, hquarantined, ?_, ?_, hseal, (operationInsertOn_view hinsert).1⟩
  · rw [view_updateGenerations, hview]
    simp [hquarantined]
  · rfl

theorem generationFinalize_changes {id operationId : Uuid} {actor reason : String} {now : Int}
    (h : s.generationFinalize id operationId actor reason now = .ok s') :
    Changes P (.generationFinalize id operationId actor reason now) id s s' := by
  obtain ⟨g, s₁, s₂, hg, hstate, hview₁, -, hseal, hview⟩ := generationFinalize_ok h
  have hworker : (s₁.view id).worker = (s.view id).worker := by rw [hview₁]; simp
  cases hw : (s.view id).worker with
  | none =>
    have hview₂ := operatorSealOn_bare (hworker.trans hw) hseal
    refine .of_update (.finalizedBare hw hg hstate) ?_
    rw [hview, hview₂, hview₁]
    simp
  | some worker =>
    obtain ⟨c, receipt, hc, hidle, hphase, hkind, -, hview₂⟩ :=
      operatorSealOn_ok (hworker.trans hw) hseal
    have hc' : (s.view id).state = some c := by
      rw [hview₁, Function.update_self] at hc
      exact hc
    refine .of_update (.finalized hc' hw hg hstate hidle ?_ hkind) ?_
    · rcases hphase with h' | h' | h'
      · exact .inl h'
      · exact .inr (.inl h')
      · exact .inr (.inr h'.1)
    · rw [hview, hview₂, hview₁]
      simp

end Store

end Shaula
