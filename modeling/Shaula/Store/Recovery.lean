import Shaula.Store.Completion
import Mathlib.Data.List.Sort

/-! # Recovery and cutover

Restart classification of a worker attempt: replaced by a cleanup-only successor with fresh
credentials when its executor is fenced and its Create is accounted for, quarantined otherwise.
Legacy generations enter the same tables through an offline import.
-/

namespace Shaula

open Core Library Library.Outcome

variable {P : Platform} {s s' : Store}

namespace Store

/-! ## Recovery -/

/-- A fenced executor can hold no command or spawn handover any longer. -/
def releaseCommand (s : Store) (id : Uuid) : StateResult Store :=
  s.setWorker id (·.released)

/-- A later verified fence of a quarantined attempt; it never silently resumes the generation. -/
def confirmFence (s : Store) (record : RecoveryRecord) : StateResult Store :=
  let fences := s.fences.update
    (fun attempt f => attempt == record.workerAttempt && f.generationId == record.generationId &&
      f.workerEpoch == record.workerEpoch)
    fun f => { f with confirmedFenced := true }
  releaseCommand { s with fences } record.generationId

/-- `INSERT INTO lifecycle_fences`. -/
def insertFence (s : Store) (record : RecoveryRecord) (outcome : FenceOutcome)
    (orphanLock : Option Bytes) : StateResult Store := do
  let fences ← okOr (s.fences.create record.workerAttempt
    { generationId := record.generationId
      workerEpoch := record.workerEpoch
      processIdentity := record.processIdentity
      orphanLock := orphanLock
      confirmedFenced := false
      outcome := outcome }) .unavailable
  return { s with fences }

/-- Whether the stored state accounts for everything a Create may have left behind. -/
def completeState (P : Platform) (s : Store) (state : Row) (anchorable : Bool) :
    StateResult (Store × Bool) :=
  match state.snapshot P with
  | .ok (some snapshot) =>
    if state.columns.createStarted then
      CreateProof.verified s state.generationId snapshot.document anchorable
    else .ok (s, true)
  | _ => .ok (s, false)

/-- Revoke and quarantine; a fenced executor releases its command. -/
def quarantineWorker (s : Store) (id : Uuid) (outcome : FenceOutcome) : StateResult Store := do
  let s ← s.setState id fun c => { c with revoked := true }
  let s ← s.setWorker id fun w => { w with phase := .quarantined }
  let s := s.setGeneration id fun g => { g with state := .quarantined }
  match outcome with
  | .fenced => s.releaseCommand id
  | .unknown => return s

/-- Orphan lock removal and credential rotation are a single commit. -/
def replaceWorker (P : Platform) (s : Store) (id : Uuid) (admission : WorkerAdmission)
    (cleanupRevision : Option Int) : StateResult Store := do
  let s ← s.setState id (·.rotated P admission)
  let s ← s.setWorker id (·.replaced P admission cleanupRevision)
  -- Recovery never re-enters Create or JIT.
  return s.updateGenerations id
    (fun g => g.state == .createPending || g.state == .creating || g.state == .waitingOnline)
    fun g => { g with state := .cleanupRequired }

/-- Classifies one worker attempt.  A replacement answers the admission to publish. -/
def recoverWorker (P : Platform) (s : Store) (record : RecoveryRecord) (outcome : FenceOutcome)
    (preserveEvidence : Bool) (draw : Draw) : StateResult (Store × Option WorkerAdmission) := do
  let id := record.generationId
  let state ← Row.load s id
  state.checkClaim record.claim
  let worker ← okOr (s.readWorker id) .conflict
  ensure (worker.phase = record.phase ∧ worker.processIdentity = record.processIdentity ∧
    state.columns.sealed = false) .conflict
  if worker.phase = .quarantined then
    match outcome with
    | .fenced => do
      let s ← s.confirmFence record
      return (s, none)
    | .unknown => return (s, none)
  else do
    -- Its exact empty-state proof survives a fenced restart, provided no later command, lock or
    -- revision superseded it.
    let cleanupRevision := keptCleanupRevision state.columns worker
    let s ← s.insertFence record outcome state.columns.lockInfo
    let anchorable := outcome == .fenced && !preserveEvidence &&
      (!record.createStarted || record.hasInput)
    let (s, complete) ← s.completeState P state anchorable
    if outcome ≠ .fenced ∨ preserveEvidence = true ∨
        (record.createStarted = true ∧ record.hasInput = false) ∨ complete = false then do
      let s ← s.quarantineWorker id outcome
      return (s, none)
    else do
      let workerEpoch ← okOr (checkedAdd state.columns.workerEpoch 1) .conflict
      let admission : WorkerAdmission :=
        { claim := {
            generationId := id
            workerEpoch := workerEpoch
            workerAttempt := draw.workerAttempt }
          control := draw.control
          state := draw.state
          cleanupOnly := true }
      let s ← s.replaceWorker P id admission cleanupRevision
      return (s, some admission)

/-- The facts recovery lists for one generation, while its worker is unfinished. -/
def recoveryRecord (s : Store) (id : Uuid) : Option RecoveryRecord := do
  let worker ← s.readWorker id
  let state ← s.states.find id
  let g ← s.generations.find id
  if worker.phase ≠ .completed ∧ g.state ≠ .destroyed then
    some
      { generationId := id
        workerEpoch := state.val.workerEpoch
        workerAttempt := state.val.workerAttempt
        phase := worker.phase
        processIdentity := worker.processIdentity
        workspacePath := g.workspacePath
        createStarted := state.val.createStarted
        hasInput := worker.protectedInput.isSome }
  else none

/-- The daemon replaces a worker that reported its own fence. -/
def replaceFenced (P : Platform) (s : Store) (access : ControlAccess) (draw : Draw) :
    StateResult (Store × Option WorkerAdmission) := do
  s.authenticateWorker P access
  let record ← okOr (s.recoveryRecord access.claim.generationId) .conflict
  ensure (record.phase = .fenced) .conflict
  s.recoverWorker P record .fenced false draw

/-- Whether a lock stands against an anchor; a fenced worker's orphan lock does not. -/
def lockHeld (P : Platform) (state : Row) (fenced : Bool) : StateResult Bool :=
  if fenced then .ok false else (state.lock P).map Option.isSome

/-- Anchors a failed Create once no writer of its state can remain. -/
def anchorFailedCreate (P : Platform) (s : Store) (id : Uuid) : StateResult (Store × Bool) := do
  let state ← Row.load s id
  let fenced := (s.readWorker id).any fun w => w.phase == .fenced
  if state.columns.revoked = true ∨ state.columns.sealed = true ∨
      state.columns.createStarted = false then return (s, false)
  else do
    let locked ← lockHeld P state fenced
    match locked, ← state.snapshot P with
    | false, some snapshot => CreateProof.verified s id snapshot.document true
    | _, _ => return (s, false)

/-! ## Cutover -/

/-- The legacy projection of a generation. -/
def legacySelect (s : Store) (id : Uuid) : Option LegacyGeneration := do
  let g ← s.generations.find id
  let effects := (s.operations.rows.filter fun e => e.2.generationId == id).insertionSort
    fun a b => a.1 ≤ b.1
  some
    { id
      fleetKey := g.fleetKey
      workspacePath := g.workspacePath
      templateArtifactDigest := g.templateArtifactDigest
      inputsDigest := g.inputsDigest
      state := g.state
      createdAt := g.createdAt
      updatedAt := g.updatedAt
      effects := effects.map fun e =>
        { id := e.1
          kind := e.2.kind
          state := e.2.state
          provenance := e.2.provenanceJson
          updatedAt := e.2.updatedAt
          attempts := e.2.attempts
          plan := e.2.savedPlanDigest
          path := e.2.savedPlanPath
          createdAt := e.2.createdAt }
      authority :=
        { runnerName := g.runnerName
          generationName := g.generationName
          fleetRevision := g.fleetRevision
          templateProfileKey := g.templateProfileKey
          templateRevision := g.templateRevision
          attestationId := g.attestationId
          poolMemberKey := g.poolMemberKey
          subphase := g.subphase
          jitPhase := g.jitPhase
          githubRunnerId := g.githubRunnerId
          shaulaResultJson := g.shaulaResultJson
          shaulaResultDigest := g.shaulaResultDigest
          provisionedAt := g.provisionedAt
          expiryRequestedAt := g.expiryRequestedAt
          resourcesDestroyedAt := g.resourcesDestroyedAt
          forgejo := (s.forgejoIdentities.find id).map fun f =>
            (f.runnerId, f.runnerUuid, f.createdAt, f.updatedAt) }
      createResult := g.shaulaResultJson
      resourcesDestroyedAt := g.resourcesDestroyedAt }

/-- The digest that binds a legacy projection. -/
def legacyCommitment (P : Platform) (generation : LegacyGeneration) : String :=
  contentDigest P (P.legacyJson generation)

/-- A `sha256:` text with 64 hexadecimal digits. -/
def validDigest (value : String) : Bool :=
  value.toList.take 7 == "sha256:".toList && (value.toList.drop 7).length == 64 &&
    (value.toList.drop 7).all isAsciiHexdigit

/-- The digest of what an import brings in. -/
def importContent (P : Platform) (args : LegacyImport P) : String :=
  contentDigest P (P.contentJson (args.state.map fun d => hexEncode (P.sha256 d.bytes))
    (args.protectedInput.map fun input => hexEncode (P.sha256 input)) args.workspace)

/-- Admits imported state bytes, revoked and fenced: no live authority is issued offline. -/
def importState (P : Platform) (s : Store) (current : LegacyGeneration) (args : LegacyImport P)
    (draw : Draw) : StateResult Store := do
  let id := args.generation.id
  let state ← okOr args.state .invalid
  ensure (CreateProof.matchesIdentity (current.createResult.bind P.readIdentity) state) .conflict
  -- The retained successful Create proves resources were fully recorded even when a later completed
  -- Destroy left empty state.
  let cleanupRevision : Option Int :=
    if state.managedEmpty && current.resourcesDestroyedAt.isSome then some 1 else none
  let input ← okOr args.protectedInput .invalid
  let workspace ← okOr args.workspace .invalid
  ensure (input.length ≤ maxStateBytes ∧ workspace ≠ args.generation.workspacePath) .invalid
  let admission := WorkerAdmission.new id draw
  let s ← s.insertState id (.imported admission state)
  let s ← s.insertWorker id (.imported P admission input cleanupRevision)
  return s.setGeneration id fun g => { g with workspacePath := workspace }

/-- Quarantines a legacy generation whose evidence does not support an import. -/
def importQuarantine (s : Store) (id : Uuid) : StateResult Store := do
  let s := s.setGeneration id fun g => { g with state := .quarantined }
  s.setState id fun c => { c with revoked := true }

/-- Classifies one legacy generation, once. -/
def importLegacy (P : Platform) (s : Store) (args : LegacyImport P) (draw : Draw) :
    StateResult Store := do
  let id := args.generation.id
  ensure (validDigest args.commitment) .invalid
  match s.imports.find id with
  | some saved => do
    ensure (saved.commitment = args.commitment ∧ saved.classification = args.classification ∧
      saved.content = importContent P args) .conflict
    return s
  | none => do
    let current ← okOr (s.legacySelect id) .conflict
    ensure (legacyCommitment P current = legacyCommitment P args.generation ∧
      current.state ≠ .destroyed) .conflict
    let s ← match args.classification with
      | .imported => s.importState P current args draw
      | .quarantined => s.importQuarantine id
    let imports ← okOr (s.imports.create id
      { commitment := args.commitment
        classification := args.classification
        content := importContent P args }) .unavailable
    return { s with imports }

/-- Live generations neither admitted as workers nor classified by an import. -/
def unclassified (s : Store) : Nat :=
  s.generations.count fun id g =>
    g.state != .destroyed && (s.workers.find id).isNone && (s.imports.find id).isNone

/-- One-way activation; its refusal is recorded too. -/
def activate (s : Store) : Store × StateResult Unit :=
  if s.unclassified ≠ 0 then
    ({ s with deployment := { s.deployment with migrationRequired := true } }, .error .conflict)
  else
    ({ s with deployment := { migrationRequired := false, activated := true } }, .ok ⟨⟩)

/-! ## What they change -/

theorem releaseCommand_view {id : Uuid} {w : WorkerColumns}
    (hw : (s.view id).worker = some w) (h : s.releaseCommand id = .ok s') :
    s'.view = Function.update s.view id { s.view id with worker := some w.released } := by
  rw [(setWorker_ok h).1, hw]
  rfl

theorem confirmFence_view {record : RecoveryRecord} {w : WorkerColumns}
    (hw : (s.view record.generationId).worker = some w) (h : s.confirmFence record = .ok s') :
    s'.view = Function.update s.view record.generationId
      { s.view record.generationId with worker := some w.released } := by
  obtain ⟨hview, -⟩ := setWorker_ok h
  refine hview.trans ?_
  show Function.update s.view record.generationId { s.view record.generationId with
    worker := (s.view record.generationId).worker.map _ } = _
  rw [hw]
  rfl

theorem insertFence_view {record : RecoveryRecord} {outcome : FenceOutcome}
    {orphanLock : Option Bytes} (h : s.insertFence record outcome orphanLock = .ok s') :
    s'.view = s.view := by
  simp only [insertFence, bind_eq_ok, okOr_eq_ok, pure_eq_ok] at h
  obtain ⟨fences, -, rfl⟩ := h
  rfl

/-- An accounted-for state is stored, and its Create, if any, is proved. -/
theorem completeState_ok {id : Uuid} {c : StateColumns} {g : GenerationRow}
    {anchorable b : Bool} (hg : (s.view id).generation = some g)
    (h : s.completeState P { generationId := id, columns := c } anchorable = .ok (s', b)) :
    ∃ g', s'.view = Function.update s.view id { s.view id with generation := some g' } ∧
      g'.state = g.state ∧ (anchorable = false ∨ b = false → g' = g) ∧
      (b = false ∨ ∃ document : StateDocument P, c.Stores document ∧
        CreateProof.Anchored document g g' ∧
        (c.createStarted = true → CreateProof.Matched P g' document)) := by
  have hsame : s.view = Function.update s.view id { s.view id with generation := some g } := by
    rw [← hg, Function.update_eq_self]
  unfold completeState at h
  split at h
  · next snapshot hsnap =>
    have hstores := Row.snapshot_eq_some hsnap
    split at h
    · obtain ⟨g₀, g', hg₀, hanchored, hview, -, hmatched, hkept⟩ := CreateProof.verified_ok h
      cases Option.some.inj (hg₀.symm.trans hg)
      refine ⟨g', hview, hanchored.state_eq, hkept, ?_⟩
      cases b with
      | false => exact .inl rfl
      | true => exact .inr ⟨snapshot.document, hstores, hanchored, fun _ => hmatched rfl⟩
    · next hstarted =>
      cases h
      exact ⟨g, hsame, rfl, fun _ => rfl, .inr ⟨snapshot.document, hstores, .kept,
        fun hyes => absurd hyes hstarted⟩⟩
  · cases h
    exact ⟨g, hsame, rfl, fun _ => rfl, .inl rfl⟩

theorem quarantineWorker_view {id : Uuid} {outcome : FenceOutcome} {c : StateColumns}
    {w : WorkerColumns} {g : GenerationRow} (hc : (s.view id).state = some c)
    (hw : (s.view id).worker = some w) (hg : (s.view id).generation = some g)
    (h : s.quarantineWorker id outcome = .ok s') :
    ∃ w', (w' = { w with phase := .quarantined } ∨
        w' = { w.released with phase := .quarantined }) ∧
      s'.view = Function.update s.view id
        { state := some { c with revoked := true }
          worker := some w'
          generation := some { g with state := .quarantined } } := by
  simp only [quarantineWorker, bind_eq_ok] at h
  obtain ⟨s₁, hset, s₂, hset', h⟩ := h
  have hview : (s₂.setGeneration id fun g => { g with state := .quarantined }).view =
      Function.update s.view id
        { state := some { c with revoked := true }
          worker := some { w with phase := .quarantined }
          generation := some { g with state := .quarantined } } := by
    rw [view_setGeneration, (setWorker_ok hset').1, (setState_ok hset).1]
    simp [hc, hw, hg]
  split at h
  · refine ⟨_, .inr rfl, ?_⟩
    have hworker : ((s₂.setGeneration id fun g => { g with state := .quarantined }).view id).worker =
        some { w with phase := .quarantined } := by
      rw [hview, Function.update_self]
    rw [releaseCommand_view hworker h, hview]
    simp [WorkerColumns.released]
  · cases pure_eq_ok.mp h
    exact ⟨_, .inl rfl, hview⟩

/-- The filter of the replacement's ledger update, read as a function of the state. -/
theorem replacedState_row (g : GenerationRow) :
    (if (g.state == .createPending || g.state == .creating || g.state == .waitingOnline) = true
      then { g with state := .cleanupRequired } else g) =
      { g with state := replacedState g.state } := by
  obtain ⟨_, _, _, _, _, _, _, _, _, state, _⟩ := g
  cases state <;> rfl

theorem replaceWorker_view {id : Uuid} {admission : WorkerAdmission}
    {cleanupRevision : Option Int} {c : StateColumns} {w : WorkerColumns} {g : GenerationRow}
    (hc : (s.view id).state = some c) (hw : (s.view id).worker = some w)
    (hg : (s.view id).generation = some g)
    (h : s.replaceWorker P id admission cleanupRevision = .ok s') :
    s'.view = Function.update s.view id
      { state := some (c.rotated P admission)
        worker := some (w.replaced P admission cleanupRevision)
        generation := some { g with state := replacedState g.state } } := by
  simp only [replaceWorker, bind_eq_ok, pure_eq_ok] at h
  obtain ⟨s₁, hset, s₂, hset', rfl⟩ := h
  rw [view_updateGenerations, (setWorker_ok hset').1, (setState_ok hset).1]
  simp only [Function.update_self, Function.update_idem, hc, hw, hg, Option.map_some,
    replacedState_row]

/-- What a recovery that committed did: it left or released a quarantined attempt, quarantined a
live one, or replaced it and answered the admission of its successor. -/
inductive Recovered (P : Platform) (record : RecoveryRecord) (outcome : FenceOutcome)
    (draw : Draw) (v : View) (c : StateColumns) (w : WorkerColumns) :
    View → Option WorkerAdmission → Prop
  | untouched : w.phase = .quarantined → Recovered P record outcome draw v c w v none
  | released : w.phase = .quarantined →
      Recovered P record outcome draw v c w { v with worker := some w.released } none
  | quarantined {g : GenerationRow} {w' : WorkerColumns} : v.generation = some g →
      w.phase ≠ .quarantined →
      (w' = { w with phase := .quarantined } ∨ w' = { w.released with phase := .quarantined }) →
      Recovered P record outcome draw v c w
        { state := some { c with revoked := true }
          worker := some w'
          generation := some { g with state := .quarantined } } none
  | replaced {g g' : GenerationRow} {document : StateDocument P} : v.generation = some g →
      w.phase ≠ .quarantined → outcome = .fenced → c.Stores document →
      CreateProof.Anchored document g g' →
      (c.createStarted = true → CreateProof.Matched P g' document) →
      Recovered P record outcome draw v c w
        { state := some (c.rotated P (replacementAdmission record c draw))
          worker := some (w.replaced P (replacementAdmission record c draw)
            (keptCleanupRevision c w))
          generation := some { g' with state := replacedState g.state } }
        (some (replacementAdmission record c draw))

/-- Every recovery acts for the row's owner, on an unsealed generation in the recorded phase. -/
theorem recoverWorker_ok {record : RecoveryRecord} {outcome : FenceOutcome} {preserve : Bool}
    {draw : Draw} {issued : Option WorkerAdmission}
    (h : s.recoverWorker P record outcome preserve draw = .ok (s', issued)) :
    ∃ c w v', (s.view record.generationId).state = some c ∧
      (s.view record.generationId).worker = some w ∧ c.Owns record.claim ∧ c.sealed = false ∧
      w.phase = record.phase ∧
      Recovered P record outcome draw (s.view record.generationId) c w v' issued ∧
      s'.view = Function.update s.view record.generationId v' := by
  simp only [recoverWorker, bind_eq_ok, okOr_eq_ok] at h
  obtain ⟨row, hload, _, hclaim, w, hw, _, hcheck, h⟩ := h
  obtain ⟨c, g, hc, hg, rfl⟩ := Row.load_eq_ok.mp hload
  obtain ⟨-, howns⟩ := ensure_eq_ok.mp hclaim
  obtain ⟨hphase, -, hunsealed⟩ := ensure_eq_ok.mp hcheck
  have hw : (s.view record.generationId).worker = some w := hw
  split at h
  · next hquarantined =>
    split at h
    · simp only [bind_eq_ok, pure_eq_ok, Prod.mk.injEq] at h
      obtain ⟨s₁, hconfirm, rfl, rfl⟩ := h
      exact ⟨c, w, _, hc, hw, howns, hunsealed, hphase, .released hquarantined,
        confirmFence_view hw hconfirm⟩
    · cases pure_eq_ok.mp h
      exact ⟨c, w, _, hc, hw, howns, hunsealed, hphase, .untouched hquarantined,
        (Function.update_eq_self _ _).symm⟩
  · next hlive =>
    simp only [bind_eq_ok, Prod.exists] at h
    obtain ⟨s₁, hfence, s₂, complete, hcomplete, h⟩ := h
    have hview₁ := insertFence_view hfence
    have hg₁ : (s₁.view record.generationId).generation = some g := by rw [hview₁, hg]
    obtain ⟨g', hview₂, hstate, hkept, hproof⟩ := completeState_ok hg₁ hcomplete
    rw [hview₁] at hview₂
    have hc₂ : (s₂.view record.generationId).state = some c := by simp [hview₂, hc]
    have hw₂ : (s₂.view record.generationId).worker = some w := by simp [hview₂, hw]
    have hg₂ : (s₂.view record.generationId).generation = some g' := by simp [hview₂]
    split at h
    · next hquarantine =>
      simp only [bind_eq_ok, pure_eq_ok, Prod.mk.injEq] at h
      obtain ⟨s₃, hset, rfl, rfl⟩ := h
      -- An anchor is only taken where the replacement goes ahead.
      have hgen : g' = g := by
        refine hkept ?_
        rcases hquarantine with h' | h' | ⟨h', h''⟩ | h'
        · exact .inl (by simp [h'])
        · exact .inl (by simp [h'])
        · exact .inl (by simp [h', h''])
        · exact .inr h'
      subst hgen
      obtain ⟨w', hw', hview₃⟩ := quarantineWorker_view hc₂ hw₂ hg₂ hset
      refine ⟨c, w, _, hc, hw, howns, hunsealed, hphase, .quarantined hg hlive hw', ?_⟩
      rw [hview₃, hview₂, Function.update_idem]
    · next hreplace =>
      simp only [bind_eq_ok, okOr_eq_ok, pure_eq_ok, Prod.mk.injEq] at h
      obtain ⟨epoch, hepoch, s₃, hset, rfl, rfl⟩ := h
      cases checkedAdd_eq_some hepoch
      simp only [not_or, not_not, Bool.not_eq_false] at hreplace
      obtain ⟨rfl, -, -, rfl⟩ := hreplace
      obtain ⟨document, hstores, hanchored, hmatched⟩ := hproof.resolve_left (by simp)
      have hview₃ := replaceWorker_view hc₂ hw₂ hg₂ hset
      rw [hview₂, Function.update_idem, hstate] at hview₃
      exact ⟨c, w, _, hc, hw, howns, hunsealed, hphase,
        .replaced hg hlive rfl hstores hanchored hmatched, hview₃⟩

theorem recoverWorker_changes {record : RecoveryRecord} {outcome : FenceOutcome}
    {preserve : Bool} {draw : Draw} {issued : Option WorkerAdmission} {r : Request P}
    (hr : Recovers record outcome preserve draw r)
    (h : s.recoverWorker P record outcome preserve draw = .ok (s', issued)) :
    Changes P r record.generationId s s' ∧
      ∀ admission, issued = some admission → ∃ c, (s.view record.generationId).state = some c ∧
        c.Owns record.claim ∧ admission = replacementAdmission record c draw ∧
        (s'.view record.generationId).state = some (c.rotated P admission) := by
  obtain ⟨c, w, v', hc, hw, howns, hunsealed, hphase, hrecovered, hview⟩ := recoverWorker_ok h
  cases hrecovered with
  | untouched hquarantined =>
    rw [Function.update_eq_self] at hview
    exact ⟨.same hview, by simp⟩
  | released hquarantined =>
    exact ⟨.of_update (.released hr rfl hc hw howns hunsealed hquarantined) hview, by simp⟩
  | quarantined hg hlive hw' =>
    exact ⟨.of_update (.quarantined hr rfl hc hw hg howns hunsealed hphase hlive hw') hview,
      by simp⟩
  | replaced hg hlive houtcome hstores hanchored hmatched =>
    subst houtcome
    refine ⟨.of_update (.replaced hr rfl hc hw hg howns hunsealed hphase hlive hstores hanchored
      hmatched) hview, ?_⟩
    rintro admission ⟨⟩
    exact ⟨c, hc, howns, rfl, by rw [hview, Function.update_self]⟩

theorem replaceFenced_changes {access : ControlAccess} {draw : Draw}
    {issued : Option WorkerAdmission} (h : s.replaceFenced P access draw = .ok (s', issued)) :
    ∃ record : RecoveryRecord, record.claim = access.claim ∧
      s.recoverWorker P record .fenced false draw = .ok (s', issued) ∧
      ∃ c w g, (s.view access.claim.generationId).Loaded P access c w g := by
  simp only [replaceFenced, authenticateWorker, bind_eq_ok, okOr_eq_ok, pure_eq_ok] at h
  obtain ⟨_, ⟨w, hload, -⟩, record, hrecord, _, -, hrecover⟩ := h
  obtain ⟨c, g, hl⟩ := loadWorker_ok hload
  refine ⟨record, ?_, hrecover, c, w, g, hl⟩
  simp only [recoveryRecord, Option.bind_eq_bind, Option.bind_eq_some_iff] at hrecord
  obtain ⟨w', hw', r, hr, g', -, hrecord⟩ := hrecord
  split at hrecord
  · cases hrecord
    have hc : r.val = c := by
      have hview : (s.view access.claim.generationId).state = some r.val := by simp [view, hr]
      exact Option.some.inj (hview.symm.trans hl.state)
    obtain ⟨hepoch, hattempt⟩ := hl.owns
    simp [RecoveryRecord.claim, hc, hepoch, hattempt]
  · cases hrecord

theorem anchorFailedCreate_changes {id : Uuid} {b : Bool}
    (h : s.anchorFailedCreate P id = .ok (s', b)) :
    Changes P (.anchorFailedCreate id) id s s' := by
  simp only [anchorFailedCreate, bind_eq_ok] at h
  obtain ⟨row, hload, h⟩ := h
  obtain ⟨c, g, hc, hg, rfl⟩ := Row.load_eq_ok.mp hload
  split at h
  · cases pure_eq_ok.mp h
    exact .same rfl
  · simp only [bind_eq_ok] at h
    obtain ⟨locked, -, snapshot?, hsnap, h⟩ := h
    split at h
    · obtain ⟨g₀, g', hg₀, hanchored, hview, -⟩ := CreateProof.verified_ok h
      exact .of_update (.anchored hg₀ hc (Row.snapshot_eq_some hsnap) hanchored) hview
    · cases pure_eq_ok.mp h
      exact .same rfl

theorem legacySelect_ok {id : Uuid} {current : LegacyGeneration}
    (h : s.legacySelect id = some current) :
    ∃ g, (s.view id).generation = some g ∧ current.state = g.state ∧
      current.createResult = g.shaulaResultJson ∧
      current.resourcesDestroyedAt = g.resourcesDestroyedAt := by
  simp only [legacySelect, Option.bind_eq_bind, Option.bind_eq_some_iff] at h
  obtain ⟨g, hg, hcurrent⟩ := h
  cases hcurrent
  exact ⟨g, hg, rfl, rfl, rfl⟩

theorem importLegacy_changes {args : LegacyImport P} {draw : Draw}
    (h : s.importLegacy P args draw = .ok s') :
    Changes P (.importLegacy args draw) args.generation.id s s' := by
  simp only [importLegacy, bind_eq_ok] at h
  obtain ⟨_, -, h⟩ := h
  split at h
  · simp only [bind_eq_ok, pure_eq_ok] at h
    obtain ⟨_, -, rfl⟩ := h
    exact .same rfl
  · simp only [bind_eq_ok, okOr_eq_ok] at h
    obtain ⟨current, hcurrent, _, hlive, h⟩ := h
    obtain ⟨-, hlive⟩ := ensure_eq_ok.mp hlive
    obtain ⟨g, hg, hstate, hresult, hdestroyed⟩ := legacySelect_ok hcurrent
    rw [hstate] at hlive
    split at h
    · simp only [importState, bind_eq_ok, okOr_eq_ok, pure_eq_ok] at h
      obtain ⟨s₁, ⟨document, -, _, hmatch, input, -, workspace, -, _, -, s₂, hset, s₃, hset',
        rfl⟩, imports, -, rfl⟩ := h
      obtain ⟨hstateNone, hview₂, -⟩ := insertState_ok hset
      obtain ⟨hworkerNone, hview₃, -⟩ := insertWorker_ok hset'
      rw [hview₂] at hworkerNone hview₃
      simp only [Function.update_self, Function.update_idem] at hworkerNone hview₃
      rw [hresult] at hmatch
      rw [hdestroyed] at hview₃
      have hview := view_setGeneration s₃ args.generation.id
        fun g => { g with workspacePath := workspace }
      rw [hview₃] at hview
      simp only [Function.update_self, Function.update_idem, hg, Option.map_some] at hview
      exact .of_update
        (.imported rfl hstateNone hworkerNone hg hlive (ensure_eq_ok.mp hmatch)) hview
    · simp only [importQuarantine, bind_eq_ok, okOr_eq_ok, pure_eq_ok] at h
      obtain ⟨s₁, hset, imports, -, rfl⟩ := h
      refine .of_update (.importQuarantined rfl hg hlive) ?_
      refine (setState_ok hset).1.trans ?_
      rw [view_setGeneration]
      simp [hg]

theorem activate_view : (s.activate).1.view = s.view := by
  unfold activate
  split <;> rfl

end Store

end Shaula
